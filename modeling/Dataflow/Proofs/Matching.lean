import Dataflow.Proofs.Typing
/-!
# Matching through a type in between

A receiver that takes a second type, which in turn takes a third one, need not take the third one.
A sequence type that lists nothing takes every sequence, and is taken by every sequence type. The
same goes for references, for tables that are open or have no keys, and for types beyond the last
key of a table, which some receivers look at and others do not. These are the only gaps: through a
*definite* type, which lists what it takes, matching is transitive.
-/

namespace Dataflow

variable {as types types' : List Ty} {d input r s : Ty} {keys' : List String}

namespace Ty

variable {place : Nat} {ts receivers : List Ty} {p : Ty → Bool} {keys : List String}

/-! ### Matching, as a proposition -/

theorem someAccepts_iff :
    someAccepts receivers input = true ↔ ∃ r ∈ receivers, r.accepts input = true := by
  induction receivers with
  | nil => simp [someAccepts]
  | cons r rs ih => simp [someAccepts, ih]

theorem someAcceptsAll_iff {inputs : List Ty} :
    someAcceptsAll receivers inputs = true ↔
      ∃ r ∈ receivers, ∀ i ∈ inputs, r.accepts i = true := by
  induction receivers with
  | nil => simp [someAcceptsAll]
  | cons r rs ih => simp [someAcceptsAll, ih]

theorem acceptsAt_iff :
    acceptsAt receivers place input = true ↔
      ∃ r, receivers[place]? = some r ∧ r.accepts input = true := by
  induction receivers generalizing place with
  | nil => simp [acceptsAt]
  | cons r rs ih => cases place <;> simp [acceptsAt, ih]

theorem accepts_seq_iff {es : List Ty} : (seq as).accepts (seq es) = true ↔
    as = [] ∨ ∀ e ∈ es, ∃ r ∈ as, r.accepts e = true := by
  change (as.isEmpty || es.all fun e => someAccepts as e) = true ↔ _
  simp [someAccepts_iff]

theorem accepts_ref_iff {is : List Ty} : (ref as).accepts (ref is) = true ↔
    as = [] ∨ ∃ r ∈ as, ∀ i ∈ is, r.accepts i = true := by
  change (as.isEmpty || someAcceptsAll as is) = true ↔ _
  simp [someAcceptsAll_iff]

theorem accepts_keyless_iff :
    (table [] types).accepts (table keys' types') = true ↔
      types = [] ∨ ∀ t ∈ types', ∃ r ∈ types, r.accepts t = true := by
  change (types.isEmpty || types'.all fun t => someAccepts types t) = true ↔ _
  simp [someAccepts_iff]

/-- The place in a table with keys that decides about a key. -/
def keyPlace? (keys : List String) (key : String) : Option Nat :=
  match keyPosition key keys with
  | some place => some place
  | none => if keysOpen keys then some (keys.length - 1) else none

theorem accepts_keyed_iff (hkeys : keys ≠ []) :
    (table keys types).accepts (table keys' types') = true ↔
      (keysOpen keys = true ∨ keys'.length = keys.length) ∧
        ∀ e ∈ keys'.zip types', ∃ place r, keyPlace? keys e.1 = some place ∧
          types[place]? = some r ∧ r.accepts e.2 = true := by
  cases keys with
  | nil => exact absurd rfl hkeys
  | cons key keys =>
    refine Bool.and_eq_true_iff.trans ?_
    rw [Bool.or_eq_true, beq_iff_eq, List.all_eq_true]
    refine and_congr_right fun _ => forall₂_congr fun e _ => ?_
    obtain ⟨k, t⟩ := e
    dsimp only [keyPlace?]
    cases keyPosition k (key :: keys) with
    | some place => simp [acceptsAt_iff]
    | none => cases keysOpen (key :: keys) <;> simp [acceptsAt_iff]

end Ty

theorem getElem?_of_keyPosition {key : String} (h : keyPosition key keys = some place) :
    keys[place]? = some key := by
  induction keys generalizing place with
  | nil => cases h
  | cons k ks ih =>
    rw [keyPosition] at h
    split at h
    · rename_i hk
      cases h
      simp [hk]
    · obtain ⟨place', h', rfl⟩ := Option.map_eq_some_iff.1 h
      exact ih h'

namespace Ty

theorem getElem?_of_keyPlace? (hclosed : keysOpen keys = false) {key : String}
    (h : keyPlace? keys key = some place) : keys[place]? = some key := by
  rw [keyPlace?] at h
  split at h
  · cases h
    exact getElem?_of_keyPosition ‹_›
  · simp [hclosed] at h

/-! ### Definite types -/

mutual

/-- Whether a type and all types in it satisfy `p`. -/
def everywhere (p : Ty → Bool) : Ty → Bool
  | seq elements => p (seq elements) && everywhereIn p elements
  | table keys types => p (table keys types) && everywhereIn p types
  | ref inner => p (ref inner) && everywhereIn p inner
  | t => p t

/-- Whether all the types and all types in them satisfy `p`. -/
def everywhereIn (p : Ty → Bool) : List Ty → Bool
  | [] => true
  | t :: ts => everywhere p t && everywhereIn p ts

end

theorem everywhereIn_iff : everywhereIn p ts = true ↔ ∀ t ∈ ts, t.everywhere p = true := by
  induction ts with
  | nil => simp [everywhereIn]
  | cons t ts ih => simp [everywhereIn, ih]

theorem everywhere_seq : (seq ts).everywhere p = true ↔
    p (seq ts) = true ∧ ∀ t ∈ ts, t.everywhere p = true := by
  simp [everywhere, everywhereIn_iff]

theorem everywhere_ref : (ref ts).everywhere p = true ↔
    p (ref ts) = true ∧ ∀ t ∈ ts, t.everywhere p = true := by
  simp [everywhere, everywhereIn_iff]

theorem everywhere_table :
    (table keys ts).everywhere p = true ↔
      p (table keys ts) = true ∧ ∀ t ∈ ts, t.everywhere p = true := by
  simp [everywhere, everywhereIn_iff]

/-- Whether the type lists what it takes: no sequence or reference of anything, and tables have keys
and are not open. -/
def isDefinite (t : Ty) : Bool :=
  t.everywhere fun
    | seq elements => !elements.isEmpty
    | ref inner => !inner.isEmpty
    | table keys _ => !keys.isEmpty && !keysOpen keys
    | _ => true

/-- Whether tables with keys have a key for each type. -/
def isPaired (t : Ty) : Bool :=
  t.everywhere fun
    | table keys types => keys.isEmpty || decide (types.length ≤ keys.length)
    | _ => true

section Through

variable {ds : List Ty}

/-- A receiver that takes one of the types takes what that type takes. -/
def Through (ds : List Ty) : Prop := ∀ d ∈ ds, ∀ r s : Ty, s.isPaired = true →
  r.accepts d = true → d.accepts s = true → r.accepts s = true

variable (ih : Through ds) (hs : s.isPaired = true)

include ih hs

theorem accepts_trans_seq (hne : ds ≠ []) (hrd : r.accepts (seq ds) = true)
    (hds : (seq ds).accepts s = true) : r.accepts s = true := by
  cases s with
  | seq ss =>
    have hss := (everywhere_seq.1 hs).2
    have hds := (accepts_seq_iff.1 hds).resolve_left hne
    cases r with
    | any => rfl
    | seq rs =>
      refine accepts_seq_iff.2 ((accepts_seq_iff.1 hrd).imp_right fun hrd s hs => ?_)
      obtain ⟨d, hd, hds⟩ := hds s hs
      obtain ⟨r, hr, hrd⟩ := hrd d hd
      exact ⟨r, hr, ih d hd r s (hss s hs) hrd hds⟩
    | table keys types => cases keys <;> cases hrd
    | _ => cases hrd
  | _ => cases hds

theorem accepts_trans_ref (hne : ds ≠ []) (hrd : r.accepts (ref ds) = true)
    (hds : (ref ds).accepts s = true) : r.accepts s = true := by
  cases s with
  | ref ss =>
    have hss := (everywhere_ref.1 hs).2
    obtain ⟨d, hd, hds⟩ := (accepts_ref_iff.1 hds).resolve_left hne
    cases r with
    | any => rfl
    | ref rs =>
      refine accepts_ref_iff.2 ((accepts_ref_iff.1 hrd).imp_right fun ⟨r, hr, hrd⟩ => ?_)
      exact ⟨r, hr, fun s hs => ih d hd r s (hss s hs) (hrd d hd) (hds s hs)⟩
    | table keys types => cases keys <;> cases hrd
    | _ => cases hrd
  | _ => cases hds

theorem accepts_trans_table (hkeys : keys ≠ []) (hclosed : keysOpen keys = false)
    (hrd : r.accepts (table keys ds) = true) (hds : (table keys ds).accepts s = true) :
    r.accepts s = true := by
  cases s with
  | table keys' ss =>
    obtain ⟨hpaired, hss⟩ := everywhere_table.1 hs
    obtain ⟨hlength, hds⟩ := (accepts_keyed_iff hkeys).1 hds
    have hlength : keys'.length = keys.length := hlength.resolve_left (by simp [hclosed])
    have hlong : ss.length ≤ keys'.length := by
      have hne : keys' ≠ [] := by
        rintro rfl
        exact hkeys (List.length_eq_zero_iff.1 hlength.symm)
      simpa [hne] using hpaired
    -- each entry of the third type goes through the entry of the second one under the same key
    have hentry : ∀ e ∈ keys'.zip ss, ∃ d, (e.1, d) ∈ keys.zip ds ∧
        ∀ r : Ty, r.accepts d = true → r.accepts e.2 = true := by
      rintro ⟨k, s⟩ he
      obtain ⟨place, d, hplace, hd, hds⟩ := hds (k, s) he
      have hk := getElem?_of_keyPlace? hclosed hplace
      refine ⟨d, List.mem_of_getElem? (List.getElem?_zip_eq_some.2 ⟨hk, hd⟩), fun r hrd => ?_⟩
      exact ih d (List.mem_of_getElem? hd) r s (hss s (List.of_mem_zip he).2) hrd hds
    cases r with
    | any => rfl
    | table rkeys rs =>
      cases rkeys with
      | nil =>
        refine accepts_keyless_iff.2 ((accepts_keyless_iff.1 hrd).imp_right fun hrd s hs => ?_)
        obtain ⟨k, he⟩ : ∃ k, (k, s) ∈ keys'.zip ss := by
          obtain ⟨n, hn⟩ := List.mem_iff_getElem?.1 hs
          have hn' : n < keys'.length := (List.getElem?_eq_some_iff.1 hn).1.trans_le hlong
          exact ⟨keys'[n], List.mem_of_getElem?
            (List.getElem?_zip_eq_some.2 ⟨List.getElem?_eq_getElem hn', hn⟩)⟩
        obtain ⟨d, hd, hthrough⟩ := hentry _ he
        obtain ⟨r, hr, hrd⟩ := hrd d (List.of_mem_zip hd).2
        exact ⟨r, hr, hthrough r hrd⟩
      | cons rkey rkeys =>
        obtain ⟨hrlength, hrd⟩ := (accepts_keyed_iff (List.cons_ne_nil _ _)).1 hrd
        refine (accepts_keyed_iff (List.cons_ne_nil _ _)).2
          ⟨hrlength.imp_right hlength.trans, fun e he => ?_⟩
        obtain ⟨d, hd, hthrough⟩ := hentry e he
        obtain ⟨place, r, hplace, hr, hrd⟩ := hrd _ hd
        exact ⟨place, r, hplace, hr, hthrough r hrd⟩
    | _ => cases hrd
  | _ =>
    cases keys with
    | nil => exact absurd rfl hkeys
    | cons key keys => cases hds

end Through

/-- Whether the type takes only itself. -/
def isAtomic : Ty → Bool
  | any | seq _ | table _ _ | ref _ => false
  | _ => true

theorem eq_of_isAtomic (hd : d.isAtomic = true) (h : d.accepts s = true) : s = d := by
  cases d with
  | object vendor kind =>
    cases s with
    | object vendor' kind' =>
      obtain ⟨hvendor, hkind⟩ := Bool.and_eq_true_iff.1 h
      rw [eq_of_beq hvendor, eq_of_beq hkind]
    | _ => cases h
  | any | seq ts | table keys ts | ref ts => cases hd
  | _ => cases s <;> first | rfl | cases h

/-- A type that takes only itself is taken by itself and by the receiver of everything. -/
theorem accepts_isAtomic_iff (hd : d.isAtomic = true) : r.accepts d = true ↔ r = any ∨ r = d := by
  constructor
  · intro h
    cases hr : r.isAtomic with
    | true => exact .inr (eq_of_isAtomic hr h).symm
    | false =>
      cases r with
      | any => exact .inl rfl
      | seq ts | ref ts => cases d <;> first | cases h | cases hd
      | table keys ts => cases keys <;> cases d <;> first | cases h | cases hd
      | _ => cases hr
  · rintro (rfl | rfl)
    · rfl
    · cases r with
      | object vendor kind => exact Bool.and_eq_true_iff.2 ⟨beq_self_eq_true _, beq_self_eq_true _⟩
      | any | seq ts | table keys ts | ref ts => cases hd
      | _ => rfl

/-- The only receiver of everything is the one that takes everything. -/
theorem eq_any_of_accepts_any (h : r.accepts any = true) : r = any := by
  by_contra hne
  have htag := tag_eq_of_accepts h hne
  cases r <;> first | exact hne rfl | cases htag

/-- Matching is transitive through a definite type. -/
theorem accepts_trans (d r s : Ty) (hd : d.isDefinite = true) (hs : s.isPaired = true)
    (hrd : r.accepts d = true) (hds : d.accepts s = true) : r.accepts s = true := by
  induction d using byParts generalizing r s with
  | step d ih =>
    cases d with
    | any =>
      rw [eq_any_of_accepts_any hrd]
      rfl
    | seq ds =>
      obtain ⟨hne, hin⟩ := everywhere_seq.1 hd
      have hthrough : Through ds := fun d h r s => ih d h r s (hin d h)
      exact accepts_trans_seq hthrough hs (by simpa using hne) hrd hds
    | ref ds =>
      obtain ⟨hne, hin⟩ := everywhere_ref.1 hd
      have hthrough : Through ds := fun d h r s => ih d h r s (hin d h)
      exact accepts_trans_ref hthrough hs (by simpa using hne) hrd hds
    | table keys ds =>
      obtain ⟨hkeys, hin⟩ := everywhere_table.1 hd
      obtain ⟨hne, hclosed⟩ := Bool.and_eq_true_iff.1 hkeys
      have hthrough : Through ds := fun d h r s => ih d h r s (hin d h)
      exact accepts_trans_table hthrough hs (by simpa using hne) (by simpa using hclosed) hrd hds
    | _ => rwa [eq_of_isAtomic rfl hds]

-- without a type to list, the type in between takes what the receiver does not
example : (seq [int]).accepts (seq []) = true ∧ (seq []).accepts (seq [string]) = true ∧
    (seq [int]).accepts (seq [string]) = false := by decide

end Ty

end Dataflow
