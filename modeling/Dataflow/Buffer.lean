import Dataflow.Pool
import Dataflow.Value.Basic
/-!
# Byte buffers

Buffers are objects whose octets live in a heap. A buffer source hands out zeroed buffers from a
pool. Before each one it takes back those that nobody else holds any more.
-/

namespace Dataflow

/-- The octets of all buffers, by their numbers. -/
structure Heap where
  blocks : Array (List UInt8) := #[]
  deriving Repr, Inhabited

namespace Heap

/-- The octets of a buffer. Other objects have none. -/
def octets (h : Heap) : ObjectId → List UInt8
  | .buffer n => (h.blocks[n]?).getD []
  | .foreign _ => []

/-- The object that a new buffer becomes. -/
def fresh (h : Heap) : ObjectRef := ⟨.core, .buffer, .buffer h.blocks.size⟩

/-- Writes the octets of a buffer; the number after the last one makes a new buffer. -/
def write (h : Heap) (id : ObjectId) (octets : List UInt8) : Heap :=
  match id with
  | .buffer n =>
    if n < h.blocks.size then ⟨h.blocks.setIfInBounds n octets⟩ else ⟨h.blocks.push octets⟩
  | .foreign _ => h

end Heap

/-- Hands out zeroed buffers of one size. -/
structure BufferSource where
  size : Nat := 0
  pool : Pool ObjectRef := {}
  /-- Handles of the buffers that were handed out, oldest first. -/
  leased : List PoolHandle := []
  deriving Inhabited

namespace BufferSource

/-- Whether the buffer of a handle is held outside the pool. -/
def isHeld (s : BufferSource) (held : ObjectId → Bool) (h : PoolHandle) : Bool :=
  match s.pool.get? h with
  | some object => held object.id
  | none => false

/-- Releases the handles whose buffers nobody holds, oldest first. Answers those that stay. -/
def releaseUnheld (held : ObjectId → Bool) :
    List PoolHandle → BufferSource → Except Violation BufferSource
  | [], s => .ok { s with leased := [] }
  | h :: rest, s =>
    if s.isHeld held h then do
      let s ← releaseUnheld held rest s
      return { s with leased := h :: s.leased }
    else do
      let pool ← s.pool.release h
      releaseUnheld held rest { s with pool }

/-- Takes back every buffer that nobody holds. -/
def reclaim (s : BufferSource) (held : ObjectId → Bool) : Except Violation BufferSource := do
  let s ← releaseUnheld held s.leased s
  return { s with pool := s.pool.recycle.2 }

/-- The next buffer: `size` zero octets in storage that nobody holds. -/
def next (s : BufferSource) (held : ObjectId → Bool) (heap : Heap) :
    Except Violation (ObjectRef × BufferSource × Heap) := do
  let s ← s.reclaim held
  match s.pool.acquire heap.fresh with
  | (.error v, _) => .error v
  | (.ok handle, pool) =>
    let object := (pool.get? handle).getD heap.fresh
    return (object, { s with pool, leased := s.leased ++ [handle] },
      heap.write object.id (List.replicate s.size 0))

/-- The form that shows the structure. -/
def outline (s : BufferSource) : String :=
  Text.record "Buffer"
    [("size", toString s.size), ("pooled", toString s.pool.size),
      ("leased", toString s.leased.length)]

end BufferSource

end Dataflow
