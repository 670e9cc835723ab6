import Dataflow.Fault
/-!
# Output pools

A pool hands out items and takes them back. An item is reached through a handle that carries the
generation of its cell, so that a handle of an earlier lease never reaches the item of a later
one. Each cell counts its references; the pool itself holds one, and an item held by nobody else
goes back to the free list when the pool is recycled.
-/

namespace Dataflow

/-- A handle to a leased item. -/
structure PoolHandle where
  index : Nat
  generation : UInt32
  deriving DecidableEq, Repr, Inhabited

/-- The form that shows the structure. -/
def PoolHandle.outline (h : PoolHandle) : String :=
  Text.record "PoolHandle"
    [("index", toString h.index), ("generation", toString h.generation.toNat)]

/-- A place for an item. -/
structure PoolCell (α : Type) where
  item : α
  generation : UInt32 := 0
  /-- References, that of the pool included. -/
  refs : Nat := 1
  leased : Bool := false

/-- Items that are leased and taken back. -/
structure Pool (α : Type) where
  cells : List (PoolCell α) := []
  /-- Leased indices, oldest lease first. -/
  inUse : List Nat := []
  /-- Free indices; the last one is leased next. -/
  free : List Nat := []

namespace Pool

variable {α : Type}

instance : Inhabited (Pool α) := ⟨{}⟩

/-- Changes one cell. -/
def modifyCell (p : Pool α) (index : Nat) (f : PoolCell α → PoolCell α) : Pool α :=
  { p with cells := p.cells.modify index f }

/-- The cell of a handle, if the handle's lease is the current one. -/
def live? (p : Pool α) (h : PoolHandle) : Option (PoolCell α) :=
  (p.cells[h.index]?).filter fun c => c.generation == h.generation && c.leased

/-- The item of a handle. -/
def get? (p : Pool α) (h : PoolHandle) : Option α := (p.live? h).map (·.item)

/-- Replaces the item of a handle. Answers whether the handle is live. -/
def set (p : Pool α) (h : PoolHandle) (item : α) : Bool × Pool α :=
  match p.live? h with
  | some _ => (true, p.modifyCell h.index fun c => { c with item })
  | none => (false, p)

/-- References to the item besides the pool's own. -/
def refs? (p : Pool α) (h : PoolHandle) : Option Nat := (p.live? h).map (·.refs - 1)

/-- Leases the cell of `index`, which has to be free. -/
def lease (p : Pool α) (index : Nat) : Except Violation PoolHandle × Pool α :=
  match p.cells[index]? with
  | some cell =>
    if !cell.leased && cell.refs == 1 then
      (.ok ⟨index, cell.generation⟩,
        { p.modifyCell index (fun c => { c with leased := true, refs := 2 }) with
          inUse := p.inUse ++ [index] })
    else (.error ⟨.poolCount, "leased a pool item that is still referenced", none⟩, p)
  | none => (.error ⟨.poolCount, "leased a pool item that is still referenced", none⟩, p)

/-- Leases an item: the one freed last, as it is, or else a new one. The handle carries one
reference. -/
def acquire (p : Pool α) (create : α) : Except Violation PoolHandle × Pool α :=
  match p.free.getLast? with
  | some index => lease { p with free := p.free.dropLast } index
  | none => lease { p with cells := p.cells ++ [{ item := create }] } p.cells.length

/-- Adds a reference to a leased item. -/
def retain (p : Pool α) (h : PoolHandle) : Except Violation (Pool α) :=
  match p.live? h with
  | some _ => .ok (p.modifyCell h.index fun c => { c with refs := c.refs + 1 })
  | none => .error ⟨.poolHandle, "retained a stale pool handle", none⟩

/-- Drops a reference to a leased item. The item stays leased until the pool is recycled. -/
def release (p : Pool α) (h : PoolHandle) : Except Violation (Pool α) :=
  match p.live? h with
  | some cell =>
    if cell.refs ≤ 1 then
      .error ⟨.poolCount, "released more references than were taken",
        some ("refs = " ++ toString cell.refs)⟩
    else .ok (p.modifyCell h.index fun c => { c with refs := c.refs - 1 })
  | none => .error ⟨.poolHandle, "released a stale pool handle", none⟩

/-- Whether only the pool holds the item of `index`. -/
def unused (p : Pool α) (index : Nat) : Bool :=
  match p.cells[index]? with
  | some cell => cell.refs == 1
  | none => false

/-- Takes back every leased item that only the pool holds, oldest lease first, and ends their
handles. Answers how many there were. -/
def recycle (p : Pool α) : Nat × Pool α :=
  let back := p.inUse.filter p.unused
  let cells := back.foldl (fun cells index =>
    cells.modify index fun c => { c with leased := false, generation := c.generation + 1 }) p.cells
  (back.length, ⟨cells, p.inUse.filter fun index => !p.unused index, p.free ++ back⟩)

/-- How many items were ever made. -/
def size (p : Pool α) : Nat := p.cells.length

end Pool

end Dataflow
