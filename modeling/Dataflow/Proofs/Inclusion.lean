import Dataflow.Proofs.Copying
import Dataflow.Proofs.Matching
import Mathlib.Data.Set.Basic
/-!
# Matching is inclusion

A type describes a set of values. A *closed* type says all there is to say about them: sequences
list the types of their elements, and tables name their keys, each once and with a type. Between
closed types matching is exactly inclusion: a receiver takes a type if and only if it describes all
values that the type describes.

One direction follows the matching down both types. For the other one, a single value has to escape
all of several receivers that do not take a type, since the elements of a sequence may each be of
another listed type. It is built along the type: a sequence gets one element for each receiver, and
a table gets under each key a value that escapes what the receivers have there.
-/

namespace Dataflow

variable {t r : Ty} {ts : List Ty} {keys : List String} {α β : Type} {v : Value}

/-! ### Keys and what is paired with them -/

theorem exists_mem_zip {as : List α} {bs : List β} (h : as.length = bs.length) {a : α} (ha : a ∈ as)
    : ∃ b, (a, b) ∈ as.zip bs := by
  have hmap : (as.zip bs).map Prod.fst = as := List.map_fst_zip h.le
  rw [← hmap] at ha
  obtain ⟨⟨_, b⟩, hb, rfl⟩ := List.mem_map.1 ha
  exact ⟨b, hb⟩

theorem eq_of_mem_zip {as : List α} {bs : List β} (h : as.Nodup) {a : α} {b b' : β}
    (hb : (a, b) ∈ as.zip bs) (hb' : (a, b') ∈ as.zip bs) : b = b' := by
  obtain ⟨n, hn⟩ := List.mem_iff_getElem?.1 hb
  obtain ⟨n', hn'⟩ := List.mem_iff_getElem?.1 hb'
  obtain ⟨ha, hb⟩ := List.getElem?_zip_eq_some.1 hn
  obtain ⟨ha', hb'⟩ := List.getElem?_zip_eq_some.1 hn'
  have hlt := (List.getElem?_eq_some_iff.1 ha).1
  obtain rfl : n = n' := (List.getElem?_inj hlt h).1 (ha.trans ha'.symm)
  exact Option.some.inj (hb.symm.trans hb')

theorem exists_keyPosition {key : String} (h : key ∈ keys) :
    ∃ place, keyPosition key keys = some place := by
  induction keys with
  | nil => cases h
  | cons k ks ih =>
    rw [keyPosition]
    by_cases hk : k = key
    · exact ⟨0, if_pos hk⟩
    · obtain ⟨place, hplace⟩ := ih ((List.mem_cons.1 h).resolve_left (Ne.symm hk))
      exact ⟨place + 1, by rw [if_neg hk, hplace, Option.map_some]⟩

namespace Ty

/-! ### What types describe -/

mutual

/-- The values that a type describes. -/
def values : Ty → Set Value
  | nothing => {.nothing}
  | any => Set.univ
  | bool => {v | ∃ b, v = .bool b}
  | int => {v | ∃ n, v = .int n}
  | float => {v | ∃ x, v = .float x}
  | string => {v | ∃ s, v = .string s}
  | bytes => {v | ∃ octets, v = .bytes octets}
  | seq elements => {v | ∃ items, v = .seq items ∧ ∀ w ∈ items, w ∈ valuesOfSome elements}
  | table keys types => {v | ∃ entries, v = .table entries ∧
      (∀ k, k ∈ entries.map (·.1) ↔ k ∈ keys) ∧ ∀ e ∈ entries, e ∈ fieldValues keys types}
  | object vendor kind => {v | ∃ o, v = .object o ∧ o.vendor = vendor ∧ o.kind = kind}
  | ref _ => {v | ∃ name, v = .ref name}
  | wire => {v | ∃ id, v = .wire id}
  | type => {v | ∃ t, v = .type t}
termination_by structural t => t

/-- The values that one of the types describes. -/
def valuesOfSome : List Ty → Set Value
  | [] => ∅
  | t :: ts => t.values ∪ valuesOfSome ts
termination_by structural ts => ts

/-- The values that the types describe, each under its key. -/
def fieldValues : List String → List Ty → Set (String × Value)
  | k :: keys, t :: ts => {e | e.1 = k ∧ e.2 ∈ t.values} ∪ fieldValues keys ts
  | _, _ => ∅
termination_by structural _ ts => ts

end

theorem mem_valuesOfSome : v ∈ valuesOfSome ts ↔ ∃ t ∈ ts, v ∈ t.values := by
  induction ts with
  | nil => simp [valuesOfSome]
  | cons t ts ih => simp [valuesOfSome, ih]

theorem mem_fieldValues {e : String × Value} :
    e ∈ fieldValues keys ts ↔ ∃ t, (e.1, t) ∈ keys.zip ts ∧ e.2 ∈ t.values := by
  induction keys generalizing ts with
  | nil => simp [fieldValues]
  | cons k keys ih =>
    cases ts with
    | nil => simp [fieldValues]
    | cons t ts =>
      simp only [fieldValues, Set.mem_union, ih, List.zip_cons_cons, List.mem_cons, Prod.mk.injEq]
      constructor
      · rintro (⟨hk, ht⟩ | ⟨u, hu, hv⟩)
        · exact ⟨t, .inl ⟨hk, rfl⟩, ht⟩
        · exact ⟨u, .inr hu, hv⟩
      · rintro ⟨u, ⟨hk, rfl⟩ | hu, hv⟩
        · exact .inl ⟨hk, hv⟩
        · exact .inr ⟨u, hu, hv⟩

/-- Whether the type leaves nothing open: sequences list their element types, and tables have keys,
each once, none of them for everything else, with as many types. No reference is in it. -/
def isClosed (t : Ty) : Bool :=
  t.everywhere fun
    | seq elements => !elements.isEmpty
    | table keys types =>
      !keys.isEmpty && !keysOpen keys && decide keys.Nodup && keys.length == types.length
    | ref _ => false
    | _ => true

/-- The keys of a closed table type, with their types. -/
structure ClosedFields (keys : List String) (types : List Ty) : Prop where
  ne_nil : keys ≠ []
  not_open : keysOpen keys = false
  nodup : keys.Nodup
  length_eq : keys.length = types.length

theorem isClosed_seq : (seq ts).isClosed = true ↔ ts ≠ [] ∧ ∀ t ∈ ts, t.isClosed = true := by
  rw [isClosed, everywhere_seq]
  simp [isClosed]

theorem isClosed_table :
    (table keys ts).isClosed = true ↔ ClosedFields keys ts ∧ ∀ t ∈ ts, t.isClosed = true := by
  rw [isClosed, everywhere_table]
  refine and_congr ?_ Iff.rfl
  constructor
  · intro h
    simp only [Bool.and_eq_true, Bool.not_eq_true', decide_eq_true_eq, beq_iff_eq] at h
    exact ⟨by simpa using h.1.1.1, h.1.1.2, h.1.2, h.2⟩
  · rintro ⟨hne, hopen, hnodup, hlength⟩
    simp [hne, hopen, hnodup, hlength]

/-! ### Matching of closed tables -/

/-- The place of a key decides by the type that is paired with the key. -/
theorem ClosedFields.exists_place_iff (h : ClosedFields keys ts) {k : String} {P : Ty → Prop} :
    (∃ place r, keyPlace? keys k = some place ∧ ts[place]? = some r ∧ P r) ↔
      ∃ r, (k, r) ∈ keys.zip ts ∧ P r := by
  constructor
  · rintro ⟨place, r, hplace, hr, hP⟩
    have hk := getElem?_of_keyPlace? h.not_open hplace
    exact ⟨r, List.mem_of_getElem? (List.getElem?_zip_eq_some.2 ⟨hk, hr⟩), hP⟩
  · rintro ⟨r, hr, hP⟩
    obtain ⟨place, hplace⟩ := exists_keyPosition (List.of_mem_zip hr).1
    have hk := getElem?_of_keyPosition hplace
    have hlt : place < ts.length := h.length_eq ▸ (List.getElem?_eq_some_iff.1 hk).1
    have hr' : (k, ts[place]) ∈ keys.zip ts :=
      List.mem_of_getElem? (List.getElem?_zip_eq_some.2 ⟨hk, List.getElem?_eq_getElem hlt⟩)
    refine ⟨place, r, by rw [keyPlace?, hplace], ?_, hP⟩
    rw [List.getElem?_eq_getElem hlt, eq_of_mem_zip h.nodup hr' hr]

/-- Closed tables match if they have the same keys and the types under each key match. -/
theorem accepts_fields_iff {keys' : List String} {ts' : List Ty} (h : ClosedFields keys ts)
    (h' : ClosedFields keys' ts') : (table keys ts).accepts (table keys' ts') = true ↔
      (∀ k, k ∈ keys' ↔ k ∈ keys) ∧
        ∀ k r t, (k, r) ∈ keys.zip ts → (k, t) ∈ keys'.zip ts' → r.accepts t = true := by
  rw [accepts_keyed_iff h.ne_nil]
  simp only [h.not_open, Bool.false_eq_true, false_or, h.exists_place_iff]
  constructor
  · rintro ⟨hlength, htypes⟩
    have hsub : keys' ⊆ keys := by
      intro k hk
      obtain ⟨t, ht⟩ := exists_mem_zip h'.length_eq hk
      obtain ⟨r, hr, -⟩ := htypes _ ht
      exact (List.of_mem_zip hr).1
    have hperm : keys'.Perm keys :=
      (List.subperm_of_subset h'.nodup hsub).perm_of_length_le hlength.ge
    refine ⟨fun k => hperm.mem_iff, fun k r t hr ht => ?_⟩
    obtain ⟨r', hr', haccepts⟩ := htypes _ ht
    rwa [eq_of_mem_zip h.nodup hr hr']
  · rintro ⟨hkeys, htypes⟩
    have hperm : keys'.Perm keys := (List.perm_ext_iff_of_nodup h'.nodup h.nodup).2 hkeys
    refine ⟨hperm.length_eq, fun e he => ?_⟩
    obtain ⟨r, hr⟩ := exists_mem_zip h.length_eq ((hkeys e.1).1 (List.of_mem_zip he).1)
    exact ⟨r, hr, htypes e.1 r e.2 hr he⟩

/-! ### What is taken is described -/

/-- A closed receiver describes the values of the closed types that it takes. -/
theorem values_subset_of_accepts (r t : Ty) (hr : r.isClosed = true) (ht : t.isClosed = true)
    (haccepts : r.accepts t = true) : t.values ⊆ r.values := by
  induction r using byParts generalizing t with
  | step r ih =>
    cases r with
    | any => exact fun _ _ => trivial
    | seq rs =>
      cases t with
      | seq ts =>
        obtain ⟨hne, hrs⟩ := isClosed_seq.1 hr
        obtain ⟨-, hts⟩ := isClosed_seq.1 ht
        have htaken := (accepts_seq_iff.1 haccepts).resolve_left hne
        rintro _ ⟨items, rfl, hitems⟩
        refine ⟨items, rfl, fun w hw => ?_⟩
        obtain ⟨t, ht, hwt⟩ := mem_valuesOfSome.1 (hitems w hw)
        obtain ⟨r, hr, hrt⟩ := htaken t ht
        exact mem_valuesOfSome.2 ⟨r, hr, ih r hr t (hrs r hr) (hts t ht) hrt hwt⟩
      | _ => cases haccepts
    | table keys rs =>
      cases t with
      | table keys' ts =>
        obtain ⟨hfields, hrs⟩ := isClosed_table.1 hr
        obtain ⟨hfields', hts⟩ := isClosed_table.1 ht
        obtain ⟨hkeys, htaken⟩ := (accepts_fields_iff hfields hfields').1 haccepts
        rintro _ ⟨entries, rfl, hnames, hentries⟩
        refine ⟨entries, rfl, fun k => (hnames k).trans (hkeys k), fun e he => ?_⟩
        obtain ⟨t, ht, het⟩ := mem_fieldValues.1 (hentries e he)
        have hkey := (hkeys e.1).1 (List.of_mem_zip ht).1
        obtain ⟨r, hr⟩ := exists_mem_zip hfields.length_eq hkey
        have hmem := (List.of_mem_zip hr).2
        have hclosed := hts t (List.of_mem_zip ht).2
        exact mem_fieldValues.2
          ⟨r, hr, ih r hmem t (hrs r hmem) hclosed (htaken e.1 r t hr ht) het⟩
      | _ => cases keys <;> cases haccepts
    | ref inner => cases hr
    | _ =>
      rw [eq_of_isAtomic rfl haccepts]

/-! ### What is not taken is escaped -/

/-- A value of a type that is no sequence and no table. Any value at all is shown by a reference,
which no other closed type describes. -/
def sample : Ty → Value
  | any => .ref ""
  | bool => .bool false
  | int => .int 0
  | float => .float ⟨0⟩
  | string => .string ""
  | bytes => .bytes []
  | object vendor kind => .object ⟨vendor, kind, .foreign 0⟩
  | wire => .wire ⟨0⟩
  | type => .type .nothing
  | _ => .nothing

/-- One value of the type escapes all of any closed receivers that do not take the type. -/
def Escapes (t : Ty) : Prop :=
  ∀ rs : List Ty, (∀ r ∈ rs, r.isClosed = true) → (∀ r ∈ rs, r.accepts t ≠ true) →
    ∃ v : Value, v.isTidy = true ∧ v ∈ t.values ∧ ∀ r ∈ rs, v ∉ r.values

/-- A type escapes if a tidy value of it shows which closed receivers take it. -/
theorem escapes_of_telling (htidy : v.isTidy = true) (hv : v ∈ t.values)
    (h : ∀ r : Ty, r.isClosed = true → v ∈ r.values → r.accepts t = true) : Escapes t :=
  fun _ hclosed hrs => ⟨v, htidy, hv, fun r hr hvr => hrs r hr (h r (hclosed r hr) hvr)⟩

/-- Only the type of a sample describes it, and the type of everything. -/
theorem eq_of_sample_mem (ht : t = any ∨ t.isAtomic = true) (hr : r.isClosed = true)
    (h : t.sample ∈ r.values) : r = any ∨ r = t := by
  cases r with
  | any => exact .inl rfl
  | ref inner => cases hr
  | nothing =>
    cases t with
    | nothing => exact .inr rfl
    | seq ts | table keys ts | ref ts => simp [isAtomic] at ht
    | _ => cases h
  | object vendor kind =>
    obtain ⟨o, ho, rfl, rfl⟩ := h
    cases t <;> cases ho
    exact .inr rfl
  | seq rs | table keys rs =>
    obtain ⟨_, hv, -⟩ := h
    cases t <;> cases hv
  | _ =>
    obtain ⟨_, hv⟩ := h
    cases t <;> cases hv
    exact .inr rfl

theorem escapes_sample (ht : t = any ∨ t.isAtomic = true) : Escapes t := by
  refine escapes_of_telling (v := t.sample) ?_ ?_ fun r hr hv => ?_
  · cases t <;> rfl
  · cases t with
    | seq ts | table keys ts | ref ts => simp [isAtomic] at ht
    | any => trivial
    | nothing => exact Set.mem_singleton _
    | object vendor kind => exact ⟨_, rfl, rfl, rfl⟩
    | _ => exact ⟨_, rfl⟩
  · rcases eq_of_sample_mem ht hr hv with rfl | rfl
    · rfl
    · rcases ht with rfl | ht
      · rfl
      · exact (accepts_isAtomic_iff ht).2 (.inr rfl)

/-- A sequence gets an element against each receiver. -/
theorem escapes_seq (ih : ∀ t ∈ ts, Escapes t) : Escapes (seq ts) := by
  intro rs hclosed hrs
  -- the elements, collected along the receivers
  have hitems : ∃ items : List Value, (∀ w ∈ items, w.isTidy = true ∧ w ∈ valuesOfSome ts) ∧
      ∀ elements, seq elements ∈ rs → ∃ w ∈ items, w ∉ valuesOfSome elements := by
    induction rs with
    | nil => exact ⟨[], by simp, by simp⟩
    | cons r rs ihrs =>
      obtain ⟨items, hitems, hescape⟩ := ihrs (fun r hr => hclosed r (.tail _ hr))
        fun r hr => hrs r (.tail _ hr)
      by_cases hr : ∃ elements, r = seq elements
      · obtain ⟨elements, rfl⟩ := hr
        have helements := (isClosed_seq.1 (hclosed _ List.mem_cons_self)).2
        have hnot := mt accepts_seq_iff.2 (hrs _ List.mem_cons_self)
        simp only [not_or, not_forall, not_exists, not_and] at hnot
        obtain ⟨-, t, ht, hnot⟩ := hnot
        obtain ⟨w, htidy, hwt, hw⟩ := ih t ht elements helements hnot
        refine ⟨w :: items, ?_, fun elements' h => ?_⟩
        · rintro w' (_ | ⟨_, hw'⟩)
          · exact ⟨htidy, mem_valuesOfSome.2 ⟨t, ht, hwt⟩⟩
          · exact hitems w' hw'
        · rcases List.mem_cons.1 h with heq | h
          · cases heq
            refine ⟨w, List.mem_cons_self, fun hmem => ?_⟩
            obtain ⟨r, hr, hwr⟩ := mem_valuesOfSome.1 hmem
            exact hw r hr hwr
          · obtain ⟨w', hw', hnot'⟩ := hescape elements' h
            exact ⟨w', .tail _ hw', hnot'⟩
      · refine ⟨items, hitems, fun elements h => hescape elements ?_⟩
        exact (List.mem_cons.1 h).resolve_left fun heq => hr ⟨elements, heq.symm⟩
  obtain ⟨items, hitems, hescape⟩ := hitems
  refine ⟨.seq items, ?_, ⟨items, rfl, fun w hw => (hitems w hw).2⟩, fun r hr hv => ?_⟩
  · exact Value.itemsTidy_iff.2 fun w hw => (hitems w hw).1
  · cases r with
    | any => exact hrs any hr rfl
    | seq elements =>
      obtain ⟨w, hw, hnot⟩ := hescape elements hr
      obtain ⟨_, heq, hall⟩ := hv
      cases heq
      exact hnot (hall w hw)
    | nothing => cases hv
    | table keys' ts' | object vendor kind =>
      obtain ⟨_, hv, -⟩ := hv
      cases hv
    | _ =>
      obtain ⟨_, hv⟩ := hv
      cases hv

/-- What the receivers have under a key that does not take a type. -/
def rivals (rs : List Ty) (key : String) (t : Ty) : List Ty :=
  rs.flatMap fun
    | table keys types =>
      ((keys.zip types).filter fun e => e.1 == key && !e.2.accepts t).map (·.2)
    | _ => []

theorem mem_rivals {rs : List Ty} {key : String} : r ∈ rivals rs key t ↔
    ∃ keys types, table keys types ∈ rs ∧ (key, r) ∈ keys.zip types ∧ r.accepts t ≠ true := by
  rw [rivals, List.mem_flatMap]
  constructor
  · rintro ⟨receiver, hreceiver, hr⟩
    cases receiver with
    | table keys types =>
      obtain ⟨⟨k, r'⟩, hmem, rfl⟩ := List.mem_map.1 hr
      obtain ⟨hmem, hk⟩ := List.mem_filter.1 hmem
      simp only [Bool.and_eq_true, beq_iff_eq, Bool.not_eq_true'] at hk
      exact ⟨keys, types, hreceiver, hk.1 ▸ hmem, by simp [hk.2]⟩
    | _ => cases hr
  · rintro ⟨keys, types, hreceiver, hmem, hr⟩
    refine ⟨_, hreceiver, List.mem_map.2 ⟨(key, r), List.mem_filter.2 ⟨hmem, ?_⟩, rfl⟩⟩
    simpa using hr

/-- A table gets under each key a value that escapes what the receivers have there. -/
theorem escapes_table (hfields : ClosedFields keys ts) (ih : ∀ t ∈ ts, Escapes t) :
    Escapes (table keys ts) := by
  intro rs hclosed hrs
  have hvalue : ∀ e ∈ keys.zip ts, ∃ v : Value, v.isTidy = true ∧ v ∈ e.2.values ∧
      ∀ r ∈ rivals rs e.1 e.2, v ∉ r.values := by
    intro e he
    refine ih e.2 (List.of_mem_zip he).2 _ (fun r hr => ?_) fun r hr => ?_
    · obtain ⟨keys', types, hreceiver, hmem, -⟩ := mem_rivals.1 hr
      exact (isClosed_table.1 (hclosed _ hreceiver)).2 r (List.of_mem_zip hmem).2
    · obtain ⟨_, _, _, _, hnot⟩ := mem_rivals.1 hr
      exact hnot
  choose! value htidy hvalue hescape using hvalue
  set entries := (keys.zip ts).map fun e => (e.1, value e) with hentries
  have hkeys : entries.map (·.1) = keys := by
    rw [hentries, List.map_map]
    exact List.map_fst_zip hfields.length_eq.le
  have hmem : ∀ e, e ∈ entries.foldl (fun sorted e => upsert e.1 e.2 sorted) [] ↔ e ∈ entries :=
    have hnil : Ascending ([] : List (String × Value)) := .nil
    fun e => (mem_foldl_upsert hnil (hkeys ▸ hfields.nodup) (by simp)).trans (by simp)
  refine ⟨.tableOf entries, Value.isTidy_tableOf ?_, ⟨_, rfl, fun k => ?_, fun e he => ?_⟩, ?_⟩
  · refine Value.entriesTidy_iff.2 fun e he => ?_
    obtain ⟨f, hf, rfl⟩ := List.mem_map.1 he
    exact htidy f hf
  · conv_rhs => rw [← hkeys]
    simp only [List.mem_map, hmem]
  · obtain ⟨f, hf, rfl⟩ := List.mem_map.1 ((hmem e).1 he)
    exact mem_fieldValues.2 ⟨f.2, hf, hvalue f hf⟩
  · intro r hr hv
    cases r with
    | any => exact hrs any hr rfl
    | table keys' rs' =>
      obtain ⟨hfields', -⟩ := isClosed_table.1 (hclosed _ hr)
      obtain ⟨_, heq, hnames, hall⟩ := hv
      cases heq
      refine hrs _ hr ((accepts_fields_iff hfields' hfields).2 ⟨?_, ?_⟩)
      · intro k
        rw [← hnames k]
        conv_lhs => rw [← hkeys]
        simp only [List.mem_map, hmem]
      · intro k r t hkr hkt
        by_contra hnot
        have he : (k, value (k, t)) ∈ entries := List.mem_map.2 ⟨_, hkt, rfl⟩
        obtain ⟨r', hkr', hvr⟩ := mem_fieldValues.1 (hall _ ((hmem _).2 he))
        rw [eq_of_mem_zip hfields'.nodup hkr' hkr] at hvr
        exact hescape _ hkt r (mem_rivals.2 ⟨keys', rs', hr, hkr, hnot⟩) hvr
    | nothing => cases hv
    | seq elements | object vendor kind =>
      obtain ⟨_, hv, -⟩ := hv
      cases hv
    | _ =>
      obtain ⟨_, hv⟩ := hv
      cases hv

/-- Every closed type escapes. -/
theorem escapes (t : Ty) (ht : t.isClosed = true) : Escapes t := by
  induction t using byParts with
  | step t ih =>
    cases t with
    | any => exact escapes_sample (.inl rfl)
    | seq ts =>
      obtain ⟨-, hts⟩ := isClosed_seq.1 ht
      exact escapes_seq fun t h => ih t h (hts t h)
    | table keys ts =>
      obtain ⟨hfields, hts⟩ := isClosed_table.1 ht
      exact escapes_table hfields fun t h => ih t h (hts t h)
    | ref inner => cases ht
    | _ => exact escapes_sample (.inr rfl)

/-- **Matching is inclusion.** Between closed types, a receiver takes a type exactly if it describes
every value that the type describes. -/
theorem accepts_iff_includes (a b : Ty) (ha : a.isClosed = true) (hb : b.isClosed = true) :
    b.accepts a = true ↔ ∀ v : Value, v.isTidy = true → v ∈ a.values → v ∈ b.values := by
  constructor
  · intro h v _ hv
    exact values_subset_of_accepts b a hb ha h hv
  · intro h
    by_contra hnot
    obtain ⟨v, htidy, hva, hvb⟩ := escapes a ha [b] (by simpa using hb) (by simpa using hnot)
    exact hvb b List.mem_cons_self (h v htidy hva)

theorem reordered_fields_include :
    let a := table ["id", "rows"] [int, seq [seq [int, string]]]
    let b := table ["rows", "id"] [seq [seq [string, bytes, int], any], any]
    let c := table ["rows", "id"] [seq [seq [string], seq [int]], int]
    a.isClosed = true ∧ b.isClosed = true ∧ c.isClosed = true ∧
      (∀ v : Value, v.isTidy = true → v ∈ a.values → v ∈ b.values) ∧
      ¬ ∀ v : Value, v.isTidy = true → v ∈ a.values → v ∈ c.values := by
  intro a b c
  have ha : a.isClosed = true := by decide
  have hb : b.isClosed = true := by decide
  have hc : c.isClosed = true := by decide
  refine ⟨ha, hb, hc, (accepts_iff_includes a b ha hb).1 (by decide), fun h => ?_⟩
  exact absurd ((accepts_iff_includes a c ha hc).2 h) (by decide)

end Ty

end Dataflow
