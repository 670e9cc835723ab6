/-!
# Identities

What is shared lives in tables and is named by its row. The kind of the table is part of the
identity's type, so that a wire is never looked up among the slots.
-/

namespace Dataflow

/-- What an identity names. -/
inductive Kind where
  | wire
  | slot
  | scope
  | queue
  | fan
  | board
  | run
  | collector
  deriving DecidableEq, Repr

/-- The identity of a shared thing: the row that holds it. -/
structure Id (kind : Kind) where
  row : Nat
  deriving DecidableEq, Repr, Inhabited

/-- Rows of shared things of one kind. -/
structure Table (kind : Kind) (α : Type) where
  rows : Array α := #[]

namespace Table

variable {kind : Kind} {α : Type}

/-- A table without rows. -/
def empty : Table kind α := ⟨#[]⟩

instance : Inhabited (Table kind α) := ⟨empty⟩

/-- How many rows there are. -/
def size (t : Table kind α) : Nat := t.rows.size

/-- The row that an identity names. -/
def get? (t : Table kind α) (id : Id kind) : Option α := t.rows[id.row]?

/-- Changes one row. -/
def modify (t : Table kind α) (id : Id kind) (f : α → α) : Table kind α :=
  ⟨t.rows.modify id.row f⟩

/-- Replaces one row. -/
def set (t : Table kind α) (id : Id kind) (a : α) : Table kind α := t.modify id fun _ => a

/-- The identity that the next new row gets. -/
def next (t : Table kind α) : Id kind := ⟨t.rows.size⟩

/-- Adds a row. -/
def push (t : Table kind α) (a : α) : Table kind α := ⟨t.rows.push a⟩

@[simp] theorem get?_modify_self (t : Table kind α) (id : Id kind) (f : α → α) :
    (t.modify id f).get? id = (t.get? id).map f := by
  simp [get?, modify, Array.getElem?_modify]

theorem get?_modify_of_ne (t : Table kind α) {i j : Id kind} (h : i ≠ j) (f : α → α) :
    (t.modify i f).get? j = t.get? j := by
  have : i.row ≠ j.row := fun e => h (by cases i; cases j; simp_all)
  simp [get?, modify, Array.getElem?_modify, this]

@[simp] theorem size_modify (t : Table kind α) (id : Id kind) (f : α → α) :
    (t.modify id f).size = t.size := by
  simp [size, modify]

@[simp] theorem size_push (t : Table kind α) (a : α) : (t.push a).size = t.size + 1 := by
  simp [size, push]

@[simp] theorem get?_push_next (t : Table kind α) (a : α) : (t.push a).get? t.next = some a := by
  simp [get?, push, next]

theorem get?_push_of_lt (t : Table kind α) (a : α) {id : Id kind} (h : id.row < t.size) :
    (t.push a).get? id = t.get? id := by
  have h' : id.row < t.rows.size := h
  simp [get?, push, Array.getElem?_push, Nat.ne_of_lt h']

end Table

end Dataflow
