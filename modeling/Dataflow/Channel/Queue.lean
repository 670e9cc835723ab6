import Dataflow.Channel.Header
import Dataflow.Value.Basic
/-!
# Queues

A bounded queue between senders and receivers. Values that were consumed can be handed back; later
sends copy into that storage, which changes nothing about the values that arrive.
-/

namespace Dataflow

/-- What became of a value that was sent. -/
inductive SendOutcome where
  | delivered
  /-- The queue is closed; nothing was added. -/
  | closed
  /-- The queue is full; nothing was added. -/
  | full
  deriving DecidableEq, Repr, Inhabited

/-- What a receiver got. -/
inductive ReceiveOutcome where
  | value (v : Value)
  /-- Nothing is there now; more may come. -/
  | empty
  /-- Closed and drained: nothing will ever come. -/
  | ended
  deriving Repr, Inhabited

/-- A bounded queue of values. -/
structure Queue where
  header : Header
  capacity : Nat
  /-- Queued values, the next one to be received first. -/
  items : List Value := []
  /-- Storage for reuse, the next one to be used first. -/
  spare : List Value := []
  deriving Repr, Inhabited

namespace Queue

/-- An empty queue. It has room for at least one value. -/
def new (ty : Ty) (noCopy : Bool) (capacity : Nat) : Queue :=
  { header := ⟨ty, noCopy, false⟩, capacity := max capacity 1 }

/-- Hands storage back. It is kept only where values are copied into reused storage. -/
def recycle (q : Queue) (v : Value) : Queue :=
  if q.header.noCopy then q else { q with spare := q.spare ++ [v] }

/-- Adds a value unless the queue is full; a refused value is storage for reuse. -/
def push (q : Queue) (v : Value) : SendOutcome × Queue :=
  if q.items.length < q.capacity then (.delivered, { q with items := q.items ++ [v] })
  else (.full, q.recycle v)

/-- Sends a copy of a value, made in reused storage if there is some. -/
def send (q : Queue) (v : Value) : SendOutcome × Queue :=
  if q.header.closed then (.closed, q)
  else if q.header.noCopy then q.push v
  else
    match q.spare with
    | [] => q.push (Value.nothing.overwrite v)
    | storage :: rest => { q with spare := rest }.push (storage.overwrite v)

/-- Sends the value itself. -/
def sendOwned (q : Queue) (v : Value) : SendOutcome × Queue :=
  if q.header.closed then (.closed, q) else q.push v

/-- Takes the next value. -/
def receive (q : Queue) : ReceiveOutcome × Queue :=
  match q.items with
  | v :: rest => (.value v, { q with items := rest })
  | [] => (if q.header.closed then .ended else .empty, q)

/-- Closes for good. -/
def close (q : Queue) : Queue := { q with header := q.header.close }

/-- Discards what is queued. Answers how many values that were. -/
def flush (q : Queue) : Nat × Queue :=
  (q.items.length, q.items.foldl recycle { q with items := [] })

end Queue

end Dataflow
