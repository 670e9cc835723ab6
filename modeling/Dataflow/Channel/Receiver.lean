import Dataflow.Channel.Queue
import Dataflow.Progress
/-!
# Receivers

The part of a receiving stage that collects values. With a batch size above one, values are
collected until there are enough, and output as a sequence; what is left at the end of the stream
is a last, shorter batch.
-/

namespace Dataflow

/-- Settings and collected values of a receiving stage. -/
structure Receiver where
  name : String := ""
  ty : Ty := .nothing
  /-- Values to collect for one output. -/
  batch : Nat := 1
  noCopy : Bool := false
  pending : List Value := []
  /-- The previous output, whose storage goes back to the queue. -/
  last : Option Value := none
  deriving Repr, Inhabited

namespace Receiver

/-- Outputs a value and keeps a copy for reuse where values are copied. -/
def output (r : Receiver) (noCopy : Bool) (v : Value) : Activation × Receiver :=
  (.proceed v, if noCopy then r else { r with last := some v })

/-- Outputs the collected values as a sequence. -/
def outputBatch (r : Receiver) (noCopy : Bool) : Activation × Receiver :=
  output { r with pending := [] } noCopy (.seq r.pending)

/-- Takes queued values until there is an output, and answers what stays queued. -/
def collect (closed noCopy : Bool) : Receiver → List Value → (Activation × Receiver) × List Value
  | r, [] =>
    if !closed then ((.suspend .yield, r), [])
    else if r.pending.isEmpty then ((.stop .nothing, r), [])
    else (r.outputBatch noCopy, [])
  | r, v :: rest =>
    if r.batch ≤ 1 then (r.output noCopy v, rest)
    else
      let r := { r with pending := r.pending ++ [v] }
      if r.batch ≤ r.pending.length then (r.outputBatch noCopy, rest)
      else collect closed noCopy r rest

/-- Hands the storage of the previous output back; a batch value by value. -/
def recycleLast (r : Receiver) (q : Queue) : Receiver × Queue :=
  ({ r with last := none },
    match r.last with
    | none => q
    | some (.seq values) =>
      if 1 < r.batch then values.foldl Queue.recycle q else q.recycle (.seq values)
    | some v => q.recycle v)

/-- Drains the queue into the next output. Suspends while nothing is queued and stops the wire once
the queue is closed and drained. -/
def receive (r : Receiver) (q : Queue) : Activation × Receiver × Queue :=
  let (r, q) := r.recycleLast q
  let ((answer, r), rest) := collect q.header.closed q.header.noCopy r q.items
  (answer, r, { q with items := rest })

/-- Gives up what is collected. The storage of the previous output goes back to the queue, if one
is attached. -/
def release (r : Receiver) (q : Option Queue) : Receiver × Option Queue :=
  let r := { r with pending := [] }
  match q with
  | some q =>
    let (r, q) := r.recycleLast q
    (r, some q)
  | none => ({ r with last := none }, none)

end Receiver

end Dataflow
