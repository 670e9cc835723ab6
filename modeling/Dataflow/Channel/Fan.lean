import Dataflow.Channel.Queue
import Dataflow.Ident
/-!
# Fans

A fan delivers each published value to the private queues of all its subscribers. A subscriber
leaves by closing its queue; a full queue misses the value.
-/

namespace Dataflow

/-- Queues of all kinds, by identity. -/
abbrev Queues := Table .queue Queue

/-- A channel that reaches every subscriber. -/
structure Fan where
  header : Header
  capacity : Nat
  /-- Queues of the subscribers in the order in which they came. -/
  subscribers : List (Id .queue) := []
  deriving Repr, Inhabited

namespace Fan

/-- A fan without subscribers. -/
def new (ty : Ty) (noCopy : Bool) (capacity : Nat) : Fan :=
  { header := ⟨ty, noCopy, false⟩, capacity }

/-- Adds a subscriber, which gets what is published from now on. On a closed fan its queue is
closed from the start. -/
def subscribe (f : Fan) (queues : Queues) : Id .queue × Fan × Queues :=
  let queue := Queue.new f.header.ty f.header.noCopy f.capacity
  let queue := if f.header.closed then queue.close else queue
  (queues.next, { f with subscribers := f.subscribers ++ [queues.next] }, queues.push queue)

/-- Whether a subscriber still listens. -/
def listening (queues : Queues) (id : Id .queue) : Bool :=
  match queues.get? id with
  | some q => !q.header.closed
  | none => false

/-- Sends a copy to each queue of the list. Answers to how many it was delivered. -/
def deliver (v : Value) : List (Id .queue) → Queues → Nat × Queues
  | [], queues => (0, queues)
  | id :: rest, queues =>
    match queues.get? id with
    | none => deliver v rest queues
    | some q =>
      let (sent, q) := q.send v
      let (count, queues) := deliver v rest (queues.set id q)
      (if sent = .delivered then count + 1 else count, queues)

/-- Publishes a value. Answers how many subscribers got it; those that left are forgotten. -/
def publish (f : Fan) (queues : Queues) (v : Value) : Nat × Fan × Queues :=
  if f.header.closed then (0, f, queues)
  else
    let live := f.subscribers.filter (listening queues)
    let (count, queues) := deliver v live queues
    (count, { f with subscribers := live }, queues)

/-- Closes the fan and every subscriber's queue. -/
def close (f : Fan) (queues : Queues) : Fan × Queues :=
  ({ f with header := f.header.close },
    f.subscribers.foldl (fun queues id => queues.modify id Queue.close) queues)

/-- Discards what is queued for every subscriber. Answers how many values that were. -/
def flush (f : Fan) (queues : Queues) : Nat × Queues :=
  f.subscribers.foldl (fun (count, queues) id =>
    match queues.get? id with
    | none => (count, queues)
    | some q =>
      let (n, q) := q.flush
      (count + n, queues.set id q)) (0, queues)

end Fan

end Dataflow
