import Dataflow.Environment
import Dataflow.Proofs.Evaluation
/-!
# New wires of a store

Evaluating a program makes wires: one for each declaration and one for each pipeline. Wires are
added while others are still being filled, but in the end the store is the old one with new wires
behind the old ones. A `Draft` is what evaluation decides about such a wire, and `Store.installAll`
adds the wires of a list of drafts. All that evaluation does to a store is said in these terms.
-/

namespace Dataflow

variable {H : Host} {s : Store H}

namespace Table

variable {kind : Kind} {α : Type}

theorem ext_get? {t u : Table kind α} (h : ∀ id, t.get? id = u.get? id) : t = u := by
  obtain ⟨rows⟩ := t
  obtain ⟨rows'⟩ := u
  exact congrArg mk (Array.ext_getElem? fun i => h ⟨i⟩)

theorem get?_eq_none_iff {t : Table kind α} {id : Id kind} : t.get? id = none ↔ t.size ≤ id.row := by
  simp [get?, size]

theorem row_lt_of_get? {t : Table kind α} {id : Id kind} {a : α} (h : t.get? id = some a) :
    id.row < t.size :=
  Nat.lt_of_not_le fun hle => by
    rw [get?_eq_none_iff.2 hle] at h
    cases h

theorem get?_push (t : Table kind α) (a : α) (id : Id kind) :
    (t.push a).get? id = if id = t.next then some a else t.get? id := by
  obtain ⟨row⟩ := id
  simp [get?, push, next, Array.getElem?_push]

theorem get?_modify (t : Table kind α) (i j : Id kind) (f : α → α) :
    (t.modify i f).get? j = if i = j then (t.get? j).map f else t.get? j := by
  by_cases h : i = j
  · subst h
    simp
  · rw [get?_modify_of_ne t h, if_neg h]

/-- The row that was added last. -/
theorem modify_push_next (t : Table kind α) (a : α) (f : α → α) :
    (t.push a).modify t.next f = t.push (f a) := by
  refine ext_get? fun id => ?_
  rw [get?_modify, get?_push, get?_push]
  by_cases h : t.next = id
  · simp [h]
  · simp [h, Ne.symm h]

/-- A row that was there before. -/
theorem modify_push_of_lt (t : Table kind α) (a : α) {id : Id kind} (h : id.row < t.size)
    (f : α → α) : (t.push a).modify id f = (t.modify id f).push a := by
  have hne : id ≠ t.next := fun heq => by simp [heq, next, size] at h
  have hnext : (t.modify id f).next = t.next := by simp [next, modify]
  refine ext_get? fun j => ?_
  rw [get?_modify, get?_push, get?_push, get?_modify, hnext]
  by_cases hj : id = j
  · subst hj
    simp [hne]
  · simp [hj]

end Table

/-- What evaluation decides about a new wire. -/
structure Draft (H : Host) where
  name : String
  looped : Bool
  stages : List (Placed H)

namespace Draft

/-- The wire of a draft, in a place of its own. -/
def wire (d : Draft H) (scope : Id .scope) (board : Id .board) (run : Id .run) : Wire H :=
  { name := d.name, looped := d.looped, stages := d.stages, scope, board, run }

/-- With more stages. -/
def fill (placed : List (Placed H)) (d : Draft H) : Draft H :=
  { d with stages := d.stages ++ placed }

end Draft

/-- What a wire keeps of its draft. -/
def Wire.draft (w : Wire H) : Draft H := ⟨w.name, w.looped, w.stages⟩

theorem Wire.foldl_push_wire (d : Draft H) (scope : Id .scope) (board : Id .board) (run : Id .run)
    (placed : List (Placed H)) :
    placed.foldl Wire.push (d.wire scope board run) = (d.fill placed).wire scope board run := by
  induction placed generalizing d with
  | nil => simp [Draft.fill]
  | cons p placed ih =>
    refine (ih (d.fill [p])).trans ?_
    simp [Draft.fill]

namespace Store

/-- Adds the wire of a draft. -/
def install (s : Store H) (d : Draft H) : Store H :=
  { s with
    vars := (s.vars.addScope none).2
    exchange := (s.exchange.addBoard Board.defaultCapacity).2
    runs := s.runs.push {}
    wires := s.wires.push (d.wire s.vars.scopes.next s.exchange.boards.next s.runs.next) }

/-- Adds the wires of drafts, one after the other. -/
def installAll (s : Store H) (drafts : List (Draft H)) : Store H := drafts.foldl install s

theorem eval_addWire (s : Store H) (name : String) (looped : Bool) :
    s.eval (modifyGet (·.addWire name looped) : Build H (Id .wire)) =
      (.ok s.wires.next, s.installAll [⟨name, looped, []⟩]) := rfl

@[simp] theorem installAll_nil (s : Store H) : s.installAll [] = s := rfl

theorem installAll_cons (s : Store H) (d : Draft H) (drafts : List (Draft H)) :
    s.installAll (d :: drafts) = (s.install d).installAll drafts := rfl

theorem installAll_append (s : Store H) (drafts drafts' : List (Draft H)) :
    s.installAll (drafts ++ drafts') = (s.installAll drafts).installAll drafts' := by
  rw [installAll, List.foldl_append, installAll, installAll]

theorem size_install (s : Store H) (d : Draft H) :
    (s.install d).wires.size = s.wires.size + 1 := by
  simp [install]

theorem size_installAll (s : Store H) (drafts : List (Draft H)) :
    (s.installAll drafts).wires.size = s.wires.size + drafts.length := by
  induction drafts generalizing s with
  | nil => rfl
  | cons d drafts ih => rw [installAll_cons, ih, size_install, List.length_cons]; omega

/-- Wires that are there stay as they are. -/
theorem get?_installAll_of_lt (s : Store H) (drafts : List (Draft H)) {id : Id .wire}
    (h : id.row < s.wires.size) : (s.installAll drafts).wires.get? id = s.wires.get? id := by
  induction drafts generalizing s with
  | nil => rfl
  | cons d drafts ih =>
    rw [installAll_cons, ih (s.install d) (by rw [size_install]; omega)]
    exact s.wires.get?_push_of_lt _ h

/-- What is known of the wire of an identity. -/
def draft? (s : Store H) (id : Id .wire) : Option (Draft H) := (s.wires.get? id).map Wire.draft

theorem draft?_eq_none_iff {id : Id .wire} : s.draft? id = none ↔ s.wires.size ≤ id.row := by
  rw [draft?, Option.map_eq_none_iff, Table.get?_eq_none_iff]

theorem row_lt_of_draft? {id : Id .wire} {d : Draft H} (h : s.draft? id = some d) :
    id.row < s.wires.size :=
  Nat.lt_of_not_le fun hle => by
    rw [draft?_eq_none_iff.2 hle] at h
    cases h

theorem exists_eq_of_le_row {id : Id .wire} (h : s.wires.size ≤ id.row) :
    ∃ k, id = ⟨s.wires.size + k⟩ :=
  ⟨id.row - s.wires.size, by rw [Nat.add_sub_cancel' h]⟩

theorem draft?_installAll_of_lt (s : Store H) (drafts : List (Draft H)) {id : Id .wire}
    (h : id.row < s.wires.size) : (s.installAll drafts).draft? id = s.draft? id := by
  rw [draft?, s.get?_installAll_of_lt drafts h, draft?]

/-- The new wires are those of the drafts, in order. -/
theorem draft?_installAll (s : Store H) (drafts : List (Draft H)) (k : Nat) :
    (s.installAll drafts).draft? ⟨s.wires.size + k⟩ = drafts[k]? := by
  induction drafts generalizing s k with
  | nil =>
    have hnone : s.wires.get? ⟨s.wires.size + k⟩ = none :=
      Table.get?_eq_none_iff.2 (Nat.le_add_right _ k)
    simp [draft?, hnone]
  | cons d drafts ih =>
    rw [installAll_cons]
    cases k with
    | zero =>
      rw [draft?, get?_installAll_of_lt _ _ (by rw [size_install]; exact Nat.lt_succ_self _)]
      exact congrArg (Option.map Wire.draft) (s.wires.get?_push_next _)
    | succ k =>
      have h := ih (s.install d) k
      rw [size_install, Nat.add_right_comm, Nat.add_assoc] at h
      rw [h, List.getElem?_cons_succ]

theorem installAll_inj {drafts drafts' : List (Draft H)}
    (h : s.installAll drafts = s.installAll drafts') : drafts = drafts' := by
  refine List.ext_getElem? fun k => ?_
  rw [← s.draft?_installAll, h, s.draft?_installAll]

/-- A wire can be changed before others are added or after. -/
theorem modifyWire_installAll (s : Store H) (drafts : List (Draft H)) {id : Id .wire}
    (h : id.row < s.wires.size) (f : Wire H → Wire H) :
    (s.installAll drafts).modifyWire id f = (s.modifyWire id f).installAll drafts := by
  induction drafts generalizing s with
  | nil => rfl
  | cons d drafts ih =>
    rw [installAll_cons, ih _ (by rw [size_install]; omega), installAll_cons]
    congr 1
    simp only [install, modifyWire, s.wires.modify_push_of_lt _ h]

/-! ### Filling -/

/-- Gives a wire more stages. -/
def fill (s : Store H) (id : Id .wire) (placed : List (Placed H)) : Store H :=
  s.modifyWire id fun w => placed.foldl Wire.push w

theorem eval_fill (s : Store H) (id : Id .wire) (placed : List (Placed H)) :
    s.eval (modify (fun s => s.modifyWire id fun w => placed.foldl Wire.push w) : Build H PUnit) =
      (.ok (), s.fill id placed) := rfl

@[simp] theorem size_fill (s : Store H) (id : Id .wire) (placed : List (Placed H)) :
    (s.fill id placed).wires.size = s.wires.size := by
  simp [fill, modifyWire]

/-- Different wires can be filled in any order. -/
theorem fill_comm (s : Store H) {id id' : Id .wire} (h : id ≠ id')
    (placed placed' : List (Placed H)) :
    (s.fill id placed).fill id' placed' = (s.fill id' placed').fill id placed := by
  have hwires (f g : Wire H → Wire H) :
      (s.wires.modify id f).modify id' g = (s.wires.modify id' g).modify id f := by
    refine Table.ext_get? fun j => ?_
    simp only [Table.get?_modify]
    by_cases hj : id = j
    · subst hj
      simp [Ne.symm h]
    · simp [hj]
  simp only [fill, modifyWire, hwires]

theorem installAll_fill (s : Store H) (drafts : List (Draft H)) {id : Id .wire}
    (h : id.row < s.wires.size) (placed : List (Placed H)) :
    (s.fill id placed).installAll drafts = (s.installAll drafts).fill id placed :=
  (s.modifyWire_installAll drafts h _).symm

/-- To add a wire and fill it later is to add it filled. -/
theorem fill_installAll (s : Store H) (d : Draft H) (drafts : List (Draft H))
    (placed : List (Placed H)) :
    (s.installAll (d :: drafts)).fill s.wires.next placed =
      s.installAll (d.fill placed :: drafts) := by
  have hlt : s.wires.next.row < (s.install d).wires.size := by
    rw [size_install]
    exact Nat.lt_succ_self _
  rw [fill, installAll_cons, modifyWire_installAll _ _ hlt, installAll_cons]
  congr 1
  simp only [install, modifyWire, Table.modify_push_next, Wire.foldl_push_wire]

/-- The same for any of the new wires. -/
theorem fill_getElem_installAll (s : Store H) {drafts : List (Draft H)} {k : Nat}
    (hk : k < drafts.length) (placed : List (Placed H)) :
    (s.installAll drafts).fill ⟨s.wires.size + k⟩ placed =
      s.installAll (drafts.modify k (Draft.fill placed)) := by
  have hsplit : drafts = drafts.take k ++ drafts[k] :: drafts.drop (k + 1) := by simp
  have hnext : (s.installAll (drafts.take k)).wires.next = ⟨s.wires.size + k⟩ := by
    have hsize := s.size_installAll (drafts.take k)
    rw [List.length_take_of_le (Nat.le_of_lt hk)] at hsize
    exact congrArg Id.mk hsize
  have hmodify : drafts.modify k (Draft.fill placed) =
      drafts.take k ++ drafts[k].fill placed :: drafts.drop (k + 1) := by
    rw [List.modify_eq_take_cons_drop hk]
  rw [hmodify, installAll_append, ← fill_installAll, hnext, ← installAll_append, ← hsplit]

/-- A new wire that is filled is still a new wire. -/
theorem exists_fill_installAll (s : Store H) {drafts : List (Draft H)} {id : Id .wire}
    (hlow : s.wires.size ≤ id.row) (hhigh : id.row < s.wires.size + drafts.length)
    (placed : List (Placed H)) : ∃ drafts', drafts'.length = drafts.length ∧
      (s.installAll drafts).fill id placed = s.installAll drafts' := by
  obtain ⟨k, rfl⟩ := exists_eq_of_le_row hlow
  have hk : k < drafts.length := Nat.lt_of_add_lt_add_left hhigh
  exact ⟨drafts.modify k (Draft.fill placed), List.length_modify _ _ _,
    s.fill_getElem_installAll hk placed⟩

theorem draft?_fill (s : Store H) (i j : Id .wire) (placed : List (Placed H)) :
    (s.fill i placed).draft? j =
      if i = j then (s.draft? j).map (Draft.fill placed) else s.draft? j := by
  have hdraft : ∀ w : Wire H, (placed.foldl Wire.push w).draft = w.draft.fill placed := by
    intro w
    induction placed generalizing w with
    | nil => simp [Draft.fill]
    | cons p placed ih =>
      rw [List.foldl_cons, ih]
      simp [Draft.fill, Wire.draft, Wire.push]
  rw [draft?, fill, modifyWire, Table.get?_modify, draft?]
  split
  · rw [Option.map_map, Option.map_map]
    exact congrArg (Option.map · _) (funext hdraft)
  · rfl

end Store

end Dataflow
