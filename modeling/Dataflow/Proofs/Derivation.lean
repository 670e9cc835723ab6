import Dataflow.Proofs.Fingerprints
import Dataflow.Proofs.Matching
/-!
# The type of a value, as a check and as a summary

A value is checked against a type by deriving the value's own type and matching the two. Deriving
drops repeated element types and sorts the others by their hashes, at every level of nesting, and
the matching of tables looks keys up by their first positions. None of this shows: the check
succeeds exactly if the value *conforms* to the type, which is said by recursion on the value and
knows of no derived type and no hash.

The derived type of a sequence is a summary of its elements. As long as hashes tell the element
types apart, sorting brings every list of them into the same order, so that the summary depends
only on which types occur. Elements can then be permuted and repeated, at any depth, without a
change of the type.
-/

namespace Dataflow

variable {v w : Value} {as bs types : List Ty}

theorem keyPosition_eq_idxOf? (key : String) (keys : List String) :
    keyPosition key keys = keys.idxOf? key := by
  induction keys with
  | nil => rfl
  | cons k ks ih =>
    rw [keyPosition, List.idxOf?_cons, ih]
    by_cases hk : k = key <;> simp [hk]

namespace Value

variable {digest : Digest}

theorem tyItems_eq_map (items : List Value) : tyItems digest items = items.map (tyBy digest) := by
  induction items with
  | nil => rfl
  | cons v vs ih => rw [tyItems, ih, List.map_cons]

theorem tyEntries_eq_map (entries : List (String × Value)) :
    tyEntries digest entries = entries.map fun e => e.2.tyBy digest := by
  induction entries with
  | nil => rfl
  | cons e rest ih => rw [tyEntries, ih, List.map_cons]

/-! ### Conforming -/

mutual

/-- Whether a value is of a type.

* The elements of a sequence are each of some listed type, or none is listed.
* The values of a table are each of some listed type of a keyless one, or none is listed.
* Against a table type with keys, a table has as many entries as there are keys, each with a value
  of the type at the first position of its key. If the last key is empty, it has any number of
  entries, and those whose keys are not named have values of the type at the last key's position. -/
def conforms : Value → Ty → Bool
  | _, .any => true
  | nothing, .nothing => true
  | bool _, .bool => true
  | int _, .int => true
  | float _, .float => true
  | string _, .string => true
  | bytes _, .bytes => true
  | seq items, .seq elements => elements.isEmpty || itemsConform items elements
  | table entries, .table [] types => types.isEmpty || valuesConform entries types
  | table entries, .table (key :: keys) types =>
    ((key :: keys).getLast? == some "" || entries.length == (key :: keys).length) &&
      entriesConform entries (key :: keys) types
  | object o, .object vendor kind => o.vendor == vendor && o.kind == kind
  | ref _, .ref _ => true
  | wire _, .wire => true
  | type _, .type => true
  | _, _ => false
termination_by structural v => v

/-- Whether each item is of one of the types. -/
def itemsConform : List Value → List Ty → Bool
  | [], _ => true
  | v :: vs, types => (types.any fun t => conforms v t) && itemsConform vs types
termination_by structural items => items

/-- Whether each value of a table is of one of the types. -/
def valuesConform : List (String × Value) → List Ty → Bool
  | [], _ => true
  | (_, v) :: rest, types => (types.any fun t => conforms v t) && valuesConform rest types
termination_by structural entries => entries

/-- Whether each value of a table is of the type for its key. -/
def entriesConform : List (String × Value) → List String → List Ty → Bool
  | [], _, _ => true
  | (k, v) :: rest, keys, types =>
    (match keys.idxOf? k with
      | some place => types[place]?.any fun t => conforms v t
      | none => keys.getLast? == some "" && types[keys.length - 1]?.any fun t => conforms v t) &&
      entriesConform rest keys types
termination_by structural entries => entries

end

/-- A value is taken by the types that it conforms to. -/
def Taken (digest : Digest) (v : Value) : Prop :=
  ∀ t : Ty, t.accepts (v.tyBy digest) = true ↔ v.conforms t = true

theorem Taken.some_iff (h : Taken digest v) :
    (∃ r ∈ types, r.accepts (v.tyBy digest) = true) ↔
      (types.any fun t => v.conforms t) = true := by
  rw [List.any_eq_true]
  exact exists_congr fun r => and_congr_right fun _ => h r

theorem Taken.at_iff (h : Taken digest v) {keys : List String} {k : String} :
    (∃ place r, Ty.keyPlace? keys k = some place ∧ types[place]? = some r ∧
      r.accepts (v.tyBy digest) = true) ↔
      (match keys.idxOf? k with
        | some place => types[place]?.any fun t => v.conforms t
        | none => keys.getLast? == some "" &&
          types[keys.length - 1]?.any fun t => v.conforms t) = true := by
  have hat : ∀ place : Nat, (∃ r, types[place]? = some r ∧ r.accepts (v.tyBy digest) = true) ↔
      (types[place]?.any fun t => v.conforms t) = true := by
    intro place
    cases types[place]? with
    | none => simp
    | some r => simpa using h r
  rw [Ty.keyPlace?, keyPosition_eq_idxOf?]
  cases keys.idxOf? k with
  | some place => simpa using hat place
  | none =>
    rw [Bool.and_eq_true, ← hat, beq_iff_eq]
    by_cases hopen : keys.getLast? = some "" <;> simp [keysOpen, hopen]

mutual

/-- Deriving and matching takes what conforms. -/
theorem taken : ∀ v : Value, Taken digest v := by
  intro v t
  cases v with
  | seq items =>
    cases t with
    | any => exact ⟨fun _ => rfl, fun _ => rfl⟩
    | seq elements =>
      rw [tyBy, Ty.accepts_seq_iff, conforms, Bool.or_eq_true, List.isEmpty_iff,
        ← itemsTaken items elements]
      simp only [mem_canonical, tyItems_eq_map, List.forall_mem_map]
    | table keys types => cases keys <;> exact Iff.rfl
    | _ => exact Iff.rfl
  | table entries =>
    cases t with
    | any => exact ⟨fun _ => rfl, fun _ => rfl⟩
    | table keys types =>
      cases keys with
      | nil =>
        rw [tyBy, Ty.accepts_keyless_iff, conforms, Bool.or_eq_true, List.isEmpty_iff,
          (entriesTaken entries).1 types]
      | cons key keys =>
        rw [tyBy, Ty.accepts_keyed_iff (List.cons_ne_nil _ _), conforms, Bool.and_eq_true,
          Bool.or_eq_true, beq_iff_eq, beq_iff_eq, List.length_map,
          (entriesTaken entries).2 (key :: keys) types]
        simp [keysOpen]
    | _ => exact Iff.rfl
  | object o =>
    cases t with
    | object vendor kind => exact Iff.rfl
    | table keys types => cases keys <;> exact Iff.rfl
    | any => exact ⟨fun _ => rfl, fun _ => rfl⟩
    | _ => exact Iff.rfl
  | ref name =>
    cases t with
    | ref inner =>
      -- the derived type lists no inner types, and any listed type takes all of none
      refine ⟨fun _ => rfl, fun _ => Ty.accepts_ref_iff.2 ?_⟩
      cases inner with
      | nil => exact .inl rfl
      | cons r rs => exact .inr ⟨r, List.mem_cons_self, fun _ hi => absurd hi List.not_mem_nil⟩
    | table keys types => cases keys <;> exact Iff.rfl
    | _ => exact Iff.rfl
  | _ =>
    cases t with
    | table keys types => cases keys <;> exact Iff.rfl
    | _ => exact Iff.rfl
termination_by structural v => v

theorem itemsTaken : ∀ (items : List Value) (types : List Ty),
    (∀ v ∈ items, ∃ r ∈ types, r.accepts (v.tyBy digest) = true) ↔
      itemsConform items types = true := by
  intro items types
  cases items with
  | nil => simp [itemsConform]
  | cons v vs =>
    rw [List.forall_mem_cons, (taken v).some_iff, itemsTaken vs types, itemsConform,
      Bool.and_eq_true]
termination_by structural items => items

theorem entriesTaken : ∀ entries : List (String × Value),
    (∀ types : List Ty, (∀ t ∈ tyEntries digest entries, ∃ r ∈ types, r.accepts t = true) ↔
      valuesConform entries types = true) ∧
    ∀ (keys : List String) (types : List Ty),
      (∀ e ∈ (entries.map (·.1)).zip (tyEntries digest entries), ∃ place r,
        Ty.keyPlace? keys e.1 = some place ∧ types[place]? = some r ∧ r.accepts e.2 = true) ↔
        entriesConform entries keys types = true := by
  intro entries
  cases entries with
  | nil => exact ⟨fun _ => by simp [tyEntries, valuesConform], fun _ _ => by simp [entriesConform]⟩
  | cons e rest =>
    obtain ⟨k, v⟩ := e
    obtain ⟨hvalues, hkeyed⟩ := entriesTaken rest
    refine ⟨fun types => ?_, fun keys types => ?_⟩
    · rw [tyEntries, List.forall_mem_cons, (taken v).some_iff, hvalues, valuesConform,
        Bool.and_eq_true]
    · rw [tyEntries, List.map_cons, List.zip_cons_cons, List.forall_mem_cons, (taken v).at_iff,
        hkeyed, entriesConform, Bool.and_eq_true]
termination_by structural entries => entries

end

/-- **Checking through the derived type.** A receiver takes the derived type of a value exactly if
the value conforms to it, whatever digest the element types of sequences are sorted by. -/
theorem checked_through_type (v : Value) (t : Ty) :
    (∀ digest : Digest, t.accepts (v.tyBy digest) = v.conforms t) ∧ t.accepts v.ty = v.conforms t :=
  ⟨fun _ => Bool.eq_iff_iff.2 (taken v t), Bool.eq_iff_iff.2 (taken v t)⟩

end Value

/-! ### Sorting by hashes -/

theorem nodup_eraseDups {α : Type} [DecidableEq α] (items : List α) : items.eraseDups.Nodup := by
  induction hn : items.length using Nat.strong_induction_on generalizing items with
  | _ n ih =>
    cases items with
    | nil => exact .nil
    | cons a rest =>
      have hlt : (rest.filter fun b => !b == a).length < n := by
        have := rest.length_filter_le fun b => !b == a
        simp only [List.length_cons] at hn
        omega
      rw [List.eraseDups_cons, List.nodup_cons]
      exact ⟨by simp [List.mem_eraseDups], ih _ hlt _ rfl⟩

namespace Ty

variable {digest : Digest}

/-- The hashes of the types tell them apart. -/
def Discerned (digest : Digest) (types : List Ty) : Prop :=
  ∀ a ∈ types, ∀ b ∈ types, a.fingerprintBy digest = b.fingerprintBy digest → a = b

instance (types : List Ty) : Decidable (Discerned digest types) :=
  inferInstanceAs (Decidable (∀ a ∈ types, ∀ b ∈ types, _))

theorem Discerned.congr (h : ∀ t, t ∈ as ↔ t ∈ bs) : Discerned digest as ↔ Discerned digest bs := by
  simp only [Discerned, h]

theorem nodup_canonical (types : List Ty) : (canonical digest types).Nodup :=
  (perm_sortBy _ _).nodup_iff.2 (nodup_eraseDups types)

/-- Types that hashes tell apart have one canonical order. -/
theorem canonical_congr (h : ∀ t, t ∈ as ↔ t ∈ bs) (hd : Discerned digest as) :
    canonical digest as = canonical digest bs := by
  have hperm : as.eraseDups.Perm bs.eraseDups :=
    (List.perm_ext_iff_of_nodup (nodup_eraseDups as) (nodup_eraseDups bs)).2 fun t => by
      rw [List.mem_eraseDups, List.mem_eraseDups, h]
  refine sortBy_congr (fingerprintBy digest) hperm fun a ha b hb => ?_
  exact hd a (List.mem_eraseDups.1 ha) b ((h b).2 (List.mem_eraseDups.1 hb))

end Ty

namespace Value

variable {digest : Digest}

/-! ### Rearranging -/

/-- The values are the same up to the order and the repetition of elements of sequences, at any
depth. -/
inductive Rearranged : Value → Value → Prop where
  | refl (v : Value) : Rearranged v v
  | symm {v w : Value} : Rearranged v w → Rearranged w v
  | trans {u v w : Value} : Rearranged u v → Rearranged v w → Rearranged u w
  /-- The elements in another order. -/
  | permuted {xs ys : List Value} : xs.Perm ys → Rearranged (seq xs) (seq ys)
  /-- An element once more. -/
  | repeated {x : Value} {xs : List Value} : x ∈ xs → Rearranged (seq xs) (seq (x :: xs))
  | item (before after : List Value) {x y : Value} : Rearranged x y →
      Rearranged (seq (before ++ x :: after)) (seq (before ++ y :: after))
  | entry (before after : List (String × Value)) (key : String) {x y : Value} : Rearranged x y →
      Rearranged (table (before ++ (key, x) :: after)) (table (before ++ (key, y) :: after))

mutual

/-- Whether hashes tell apart the element types of every sequence in the value. -/
def isDiscerned (digest : Digest) : Value → Bool
  | seq items =>
    decide (Ty.Discerned digest (items.map (tyBy digest))) && itemsDiscerned digest items
  | table entries => entriesDiscerned digest entries
  | _ => true

/-- Whether hashes tell apart the element types of every sequence in the items. -/
def itemsDiscerned (digest : Digest) : List Value → Bool
  | [] => true
  | v :: vs => isDiscerned digest v && itemsDiscerned digest vs

/-- Whether hashes tell apart the element types of every sequence in the entries. -/
def entriesDiscerned (digest : Digest) : List (String × Value) → Bool
  | [] => true
  | (_, v) :: rest => isDiscerned digest v && entriesDiscerned digest rest

end

theorem isDiscerned_seq {items : List Value} : (seq items).isDiscerned digest = true ↔
    Ty.Discerned digest (items.map (tyBy digest)) ∧ ∀ v ∈ items, v.isDiscerned digest = true := by
  have hitems : itemsDiscerned digest items = true ↔ ∀ v ∈ items, v.isDiscerned digest = true := by
    induction items with
    | nil => simp [itemsDiscerned]
    | cons v vs ih => simp [itemsDiscerned, ih]
  rw [isDiscerned, Bool.and_eq_true, decide_eq_true_iff, hitems]

theorem isDiscerned_table {entries : List (String × Value)} :
    (table entries).isDiscerned digest = true ↔ ∀ e ∈ entries, e.2.isDiscerned digest = true := by
  rw [isDiscerned]
  induction entries with
  | nil => simp [entriesDiscerned]
  | cons e rest ih => simp [entriesDiscerned, ih]

theorem tyBy_seq (items : List Value) :
    (seq items).tyBy digest = .seq (Ty.canonical digest (items.map (tyBy digest))) := by
  rw [tyBy, tyItems_eq_map]

/-- Both values are discerned or neither is, and if they are they have the same type. -/
def Kin (digest : Digest) (v w : Value) : Prop :=
  (v.isDiscerned digest = true ↔ w.isDiscerned digest = true) ∧
    (v.isDiscerned digest = true → v.tyBy digest = w.tyBy digest)

/-- Sequences of the same elements are kin, however the elements are arranged. -/
theorem Kin.of_mem_iff {xs ys : List Value} (h : ∀ x, x ∈ xs ↔ x ∈ ys) :
    Kin digest (seq xs) (seq ys) := by
  have htypes : ∀ t, t ∈ xs.map (tyBy digest) ↔ t ∈ ys.map (tyBy digest) := by
    simp only [List.mem_map, h, implies_true]
  refine ⟨?_, fun hd => ?_⟩
  · simp only [isDiscerned_seq, Ty.Discerned.congr htypes, h]
  · rw [tyBy_seq, tyBy_seq, Ty.canonical_congr htypes (isDiscerned_seq.1 hd).1]

theorem Kin.symm (h : Kin digest v w) : Kin digest w v :=
  ⟨h.1.symm, fun hw => (h.2 (h.1.2 hw)).symm⟩

/-- A part of a whole may be replaced by its kin, if the whole is discerned only with its part and
shows of it only the type. -/
theorem Kin.within {x y : Value} (h : Kin digest x y) (whole : Value → Value)
    (hpart : ∀ z, (whole z).isDiscerned digest = true → z.isDiscerned digest = true)
    (hcongr : ∀ z z', z'.isDiscerned digest = true → z.tyBy digest = z'.tyBy digest →
      (whole z).tyBy digest = (whole z').tyBy digest ∧
        ((whole z).isDiscerned digest = true → (whole z').isDiscerned digest = true)) :
    Kin digest (whole x) (whole y) := by
  have hstep : ∀ {z z'}, Kin digest z z' → (whole z).isDiscerned digest = true →
      (whole z).tyBy digest = (whole z').tyBy digest ∧ (whole z').isDiscerned digest = true := by
    intro z z' hz hwhole
    have hd := hpart z hwhole
    obtain ⟨hty, hd'⟩ := hcongr z z' (hz.1.1 hd) (hz.2 hd)
    exact ⟨hty, hd' hwhole⟩
  exact ⟨⟨fun hw => (hstep h hw).2, fun hw => (hstep h.symm hw).2⟩, fun hw => (hstep h hw).1⟩

/-- Rearranged values are kin. -/
theorem Rearranged.kin (h : Rearranged v w) : Kin digest v w := by
  induction h with
  | refl v => exact ⟨Iff.rfl, fun _ => rfl⟩
  | symm _ ih => exact ih.symm
  | trans _ _ ih ih' => exact ⟨ih.1.trans ih'.1, fun h => (ih.2 h).trans (ih'.2 (ih.1.1 h))⟩
  | permuted h => exact .of_mem_iff fun _ => h.mem_iff
  | repeated h =>
    refine .of_mem_iff fun z => ⟨.tail _, ?_⟩
    rintro (_ | ⟨_, hz⟩)
    · exact h
    · exact hz
  | item before after _ ih =>
    refine ih.within (fun z => seq (before ++ z :: after))
      (fun z hz => (isDiscerned_seq.1 hz).2 z (by simp)) fun z z' hz' hty => ⟨?_, ?_⟩
    · simp [tyBy_seq, hty]
    · simp only [isDiscerned_seq, List.map_append, List.map_cons, hty]
      rintro ⟨htypes, hitems⟩
      refine ⟨htypes, fun v hv => ?_⟩
      rcases List.mem_append.1 hv with hv | hv
      · exact hitems v (by simp [hv])
      · rcases List.mem_cons.1 hv with rfl | hv
        · exact hz'
        · exact hitems v (by simp [hv])
  | entry before after key _ ih =>
    refine ih.within (fun z => table (before ++ (key, z) :: after))
      (fun z hz => isDiscerned_table.1 hz (key, z) (by simp)) fun z z' hz' hty => ⟨?_, ?_⟩
    · simp [tyBy, tyEntries_eq_map, hty]
    · simp only [isDiscerned_table]
      intro hentries e he
      rcases List.mem_append.1 he with he | he
      · exact hentries e (by simp [he])
      · rcases List.mem_cons.1 he with rfl | he
        · exact hz'
        · exact hentries e (by simp [he])

/-- **The type forgets the arrangement.** If hashes tell the types of elements apart, the derived
type of a sequence depends only on the set of these types, and lists each of them exactly once. So
elements of sequences may be permuted and repeated, at any depth, if the hashes of their types do
not collide. -/
theorem type_forgets_arrangement (digest : Digest) :
    (∀ xs ys : List Value, (∀ t, t ∈ xs.map (tyBy digest) ↔ t ∈ ys.map (tyBy digest)) →
      Ty.Discerned digest (xs.map (tyBy digest)) →
        (seq xs).tyBy digest = (seq ys).tyBy digest ∧
          ∃ elements, (seq xs).tyBy digest = .seq elements ∧ elements.Nodup ∧
            ∀ t, t ∈ elements ↔ t ∈ xs.map (tyBy digest)) ∧
      ∀ v w : Value, Rearranged v w → v.isDiscerned digest = true →
        v.tyBy digest = w.tyBy digest := by
  refine ⟨fun xs ys htypes hd => ⟨?_, ?_⟩, fun v w h hd => h.kin.2 hd⟩
  · rw [tyBy_seq, tyBy_seq, Ty.canonical_congr htypes hd]
  · exact ⟨_, tyBy_seq xs, Ty.nodup_canonical _, fun _ => mem_canonical⟩

theorem rows_forget_arrangement :
    let xs := [int 1, string "a", int 3]
    let ys := [string "b", int 9]
    let v := table [("rows", seq [seq [int 1, string "a"], nothing])]
    let w := table [("rows", seq [nothing, nothing, seq [string "a", int 1, string "a"]])]
    (Ty.Discerned Sip.digest (xs.map ty) ∧ (seq xs).ty = (seq ys).ty) ∧
      v.isDiscerned Sip.digest = true ∧ Rearranged v w ∧ v.ty = w.ty := by
  intro xs ys v w
  have hxs : Ty.Discerned Sip.digest (xs.map ty) := by decide +kernel
  have htypes : ∀ t, t ∈ xs.map ty ↔ t ∈ ys.map ty := by
    simp [xs, ys, ty, tyBy, or_comm]
  have hv : v.isDiscerned Sip.digest = true := by decide +kernel
  have hrow : Rearranged (seq [int 1, string "a"]) (seq [string "a", int 1, string "a"]) :=
    .repeated (by simp)
  have hvw : Rearranged v w := by
    refine .entry [] [] "rows" ?_
    refine .trans (.item [] [nothing] hrow) ?_
    exact .trans (.permuted (List.Perm.swap _ _ _)) (.repeated List.mem_cons_self)
  exact ⟨⟨hxs, ((type_forgets_arrangement Sip.digest).1 xs ys htypes hxs).1⟩, hv, hvw,
    (type_forgets_arrangement Sip.digest).2 v w hvw hv⟩

end Value

end Dataflow
