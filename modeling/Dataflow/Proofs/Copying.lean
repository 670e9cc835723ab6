import Dataflow.Proofs.Names
import Dataflow.Variables
import Mathlib.Data.List.Sort
/-!
# Copies in used storage

A value can be copied into storage that holds another one. Sequences and tables are then reused
place by place and key by key. Nothing of what the storage held before is left: the storage holds
exactly the value that was copied, whatever it held.

That needs what tables promise: entries are in ascending order of their keys, each key once.
-/

namespace Dataflow

variable {α : Type}

instance {α : Type} (entries : List (String × α)) : Decidable (Ascending entries) :=
  inferInstanceAs (Decidable (List.Pairwise _ _))

/-- Sorted entries are known by their members. -/
theorem Ascending.eq_of_mem_iff {as bs : List (String × α)} (ha : Ascending as) (hb : Ascending bs)
    (h : ∀ e, e ∈ as ↔ e ∈ bs) : as = bs := by
  have : Std.Antisymm fun a b : String × α => a.1 < b.1 := ⟨fun a b hab hba => absurd hab hba.asymm⟩
  have : Std.Irrefl fun a b : String × α => a.1 < b.1 := ⟨fun a => lt_irrefl a.1⟩
  exact (List.pairwise_map.1 ha).eq_of_mem_iff (List.pairwise_map.1 hb) h

theorem Ascending.filter {entries : List (String × α)} (h : Ascending entries)
    (p : String × α → Bool) : Ascending (entries.filter p) :=
  h.sublist (List.filter_sublist.map _)

/-- A table of entries with distinct keys has just these entries. -/
theorem mem_foldl_upsert {entries sorted : List (String × α)} (hsorted : Ascending sorted)
    (hnodup : (entries.map (·.1)).Nodup) (hnew : ∀ e ∈ sorted, e.1 ∉ entries.map (·.1))
    {e : String × α} :
    e ∈ entries.foldl (fun sorted e => upsert e.1 e.2 sorted) sorted ↔
      e ∈ sorted ∨ e ∈ entries := by
  induction entries generalizing sorted with
  | nil => simp
  | cons first rest ih =>
    obtain ⟨k, v⟩ := first
    rw [List.map_cons, List.nodup_cons] at hnodup
    have hk : ∀ e ∈ sorted, e.1 ≠ k := fun e he heq => hnew e he (by simp [heq])
    have hnew' : ∀ e ∈ upsert k v sorted, e.1 ∉ rest.map (·.1) := by
      intro e he
      rcases (mem_upsert hsorted).1 he with rfl | ⟨he, -⟩
      · exact hnodup.1
      · exact fun hrest => hnew e he (by rw [List.map_cons]; exact .tail _ hrest)
    rw [List.foldl_cons, ih (hsorted.upsert k v) hnodup.2 hnew', mem_upsert hsorted, List.mem_cons]
    constructor
    · rintro ((rfl | ⟨he, -⟩) | he)
      · exact .inr (.inl rfl)
      · exact .inl he
      · exact .inr (.inr he)
    · rintro (he | rfl | he)
      · exact .inl (.inr ⟨he, hk e he⟩)
      · exact .inl (.inl rfl)
      · exact .inr he

namespace Value

mutual

/-- Whether the entries of all tables in the value are in ascending order of their keys. -/
def isTidy : Value → Bool
  | seq items => itemsTidy items
  | table entries => decide (Ascending entries) && entriesTidy entries
  | _ => true

/-- Whether all items are tidy. -/
def itemsTidy : List Value → Bool
  | [] => true
  | v :: vs => isTidy v && itemsTidy vs

/-- Whether the values of all entries are tidy. -/
def entriesTidy : List (String × Value) → Bool
  | [] => true
  | (_, v) :: rest => isTidy v && entriesTidy rest

end

theorem itemsTidy_iff {items : List Value} :
    itemsTidy items = true ↔ ∀ v ∈ items, v.isTidy = true := by
  induction items with
  | nil => simp [itemsTidy]
  | cons v vs ih => simp [itemsTidy, ih]

theorem entriesTidy_iff {entries : List (String × Value)} :
    entriesTidy entries = true ↔ ∀ e ∈ entries, e.2.isTidy = true := by
  induction entries with
  | nil => simp [entriesTidy]
  | cons e rest ih => simp [entriesTidy, ih]

theorem entriesTidy_upsert {entries : List (String × Value)} (hasc : Ascending entries)
    (h : entriesTidy entries = true) (key : String) {value : Value} (hvalue : value.isTidy = true) :
    entriesTidy (upsert key value entries) = true := by
  refine entriesTidy_iff.2 fun e he => ?_
  rcases (mem_upsert hasc).1 he with rfl | ⟨he, -⟩
  · exact hvalue
  · exact entriesTidy_iff.1 h e he

/-- A table made of tidy values is tidy, in whatever order its entries are given. -/
theorem isTidy_tableOf {entries : List (String × Value)} (h : entriesTidy entries = true) :
    (tableOf entries).isTidy = true := by
  have hasc : Ascending ([] : List (String × Value)) := .nil
  have htidy : entriesTidy [] = true := rfl
  rw [tableOf]
  generalize ([] : List (String × Value)) = sorted at hasc htidy ⊢
  induction entries generalizing sorted with
  | nil => simp [isTidy, hasc, htidy]
  | cons e rest ih =>
    obtain ⟨k, v⟩ := e
    simp only [entriesTidy, Bool.and_eq_true] at h
    exact ih h.2 _ (hasc.upsert k v) (entriesTidy_upsert hasc htidy k h.1)

theorem ascending_copyEntries (new : List (String × Value)) {old : List (String × Value)}
    (h : Ascending old) : Ascending (copyEntries new old) := by
  induction new generalizing old with
  | nil => rwa [copyEntries]
  | cons e rest ih =>
    rw [copyEntries]
    split <;> exact ih (h.upsert _ _)

mutual

/-- Copying a tidy value into tidy storage leaves the value there. -/
theorem copyOver_eq : ∀ new old : Value, new.isTidy = true → old.isTidy = true →
    copyOver new old = new := by
  intro new old hnew hold
  cases new with
  | seq items =>
    cases old with
    | seq old =>
      rw [copyOver, copyItems_eq items old hnew hold]
    | _ => rfl
  | table entries =>
    cases old with
    | table old =>
      simp only [isTidy, Bool.and_eq_true, decide_eq_true_eq] at hnew hold
      rw [copyOver]
      set kept := old.filter fun (k, _) => (lookup? k entries).isSome
      have hkept : Ascending kept := hold.1.filter _
      have htidy : entriesTidy kept = true :=
        entriesTidy_iff.2 fun e he => entriesTidy_iff.1 hold.2 e (List.mem_of_mem_filter he)
      refine congrArg table ((ascending_copyEntries entries hkept).eq_of_mem_iff hnew.1 fun e => ?_)
      rw [mem_copyEntries entries kept hnew.1 hnew.2 hkept htidy e]
      -- what is kept has a key of the new table
      refine or_iff_left fun ⟨he, hkey⟩ => hkey ?_
      obtain ⟨v, hv⟩ := Option.isSome_iff_exists.1 (List.mem_filter.1 he).2
      exact List.mem_map.2 ⟨_, (lookup?_eq_some_iff hnew.1).1 hv, rfl⟩
    | _ => rfl
  | _ => cases old <;> rfl
termination_by structural new => new

/-- Copying items place by place leaves the items. -/
theorem copyItems_eq : ∀ new old : List Value, itemsTidy new = true → itemsTidy old = true →
    copyItems new old = new := by
  intro new old hnew hold
  cases new with
  | nil => rw [copyItems]
  | cons v vs =>
    simp only [itemsTidy, Bool.and_eq_true] at hnew
    cases old with
    | nil => rw [copyItems, copyItems_eq vs [] hnew.2 rfl]
    | cons d ds =>
      simp only [itemsTidy, Bool.and_eq_true] at hold
      rw [copyItems, copyOver_eq v d hnew.1 hold.1, copyItems_eq vs ds hnew.2 hold.2]
termination_by structural new => new

/-- Copying entries key by key leaves the new entries, and the old ones under other keys. -/
theorem mem_copyEntries : ∀ new old : List (String × Value), Ascending new →
    entriesTidy new = true → Ascending old → entriesTidy old = true →
      ∀ e, e ∈ copyEntries new old ↔ e ∈ new ∨ e ∈ old ∧ e.1 ∉ new.map (·.1) := by
  intro new old hnew htidy hold htidy' e
  cases new with
  | nil => simp [copyEntries]
  | cons first rest =>
    obtain ⟨k, v⟩ := first
    simp only [entriesTidy, Bool.and_eq_true] at htidy
    have hrest : Ascending rest := (List.pairwise_cons.1 hnew).2
    have hk : k ∉ rest.map (·.1) := fun hk => lt_irrefl k ((List.pairwise_cons.1 hnew).1 k hk)
    have hold' : entriesTidy (upsert k v old) = true := entriesTidy_upsert hold htidy' k htidy.1
    -- the storage found under the key, if any, ends up holding the new value
    have hstep : copyEntries ((k, v) :: rest) old = copyEntries rest (upsert k v old) := by
      rw [copyEntries]
      split
      · rename_i d hd
        have hd := entriesTidy_iff.1 htidy' _ ((lookup?_eq_some_iff hold).1 hd)
        rw [copyOver_eq v d htidy.1 hd]
      · rfl
    rw [hstep, mem_copyEntries rest _ hrest htidy.2 (hold.upsert k v) hold' e, mem_upsert hold,
      List.mem_cons, List.map_cons, List.mem_cons, not_or]
    constructor
    · rintro (he | ⟨rfl | ⟨he, hne⟩, hnot⟩)
      · exact .inl (.inr he)
      · exact .inl (.inl rfl)
      · exact .inr ⟨he, hne, hnot⟩
    · rintro ((rfl | he) | ⟨he, hne, hnot⟩)
      · exact .inr ⟨.inl rfl, hk⟩
      · exact .inl he
      · exact .inr ⟨.inr ⟨he, hne⟩, hnot⟩
termination_by structural new => new

end

/-- Storage holds exactly what was copied into it, whatever it held before. So a variable that is
assigned a value has it as if the value had been put there. -/
theorem assigned_exactly {dst src : Value} (hdst : dst.isTidy = true) (hsrc : src.isTidy = true) :
    dst.overwrite src = src ∧ ∀ (vars : Variables) (slot : Id .slot),
      vars.read slot = dst → vars.assign slot src = vars.write slot src := by
  have hcopy : dst.overwrite src = src := copyOver_eq src dst hsrc hdst
  refine ⟨hcopy, fun vars slot hslot => ?_⟩
  rw [Variables.assign_eq_write, hslot, hcopy]

/-- A table takes the place of a table: a key is dropped, one is added, and below the one that stays
a sequence gets longer while its first item becomes a table. -/
theorem reshaped_exactly :
    (table [("a", seq [int 1, nothing]), ("b", string "old")]).overwrite
        (table [("a", seq [table [("k", float ⟨0⟩)], int 2, int 3]), ("c", seq [])]) =
      table [("a", seq [table [("k", float ⟨0⟩)], int 2, int 3]), ("c", seq [])] :=
  (assigned_exactly (by decide +kernel) (by decide +kernel)).1

end Value

end Dataflow
