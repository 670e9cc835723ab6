import Dataflow.Variables
import Dataflow.Wire
/-!
# The store

Everything that is shared between wires: the wires themselves, variables, channels, records of
runs, traces, buffers, and the journal of the host's units.
-/

namespace Dataflow

/-- Everything that is shared. -/
structure Store (H : Host) where
  wires : Table .wire (Wire H) := .empty
  vars : Variables := {}
  exchange : Exchange := {}
  runs : Table .run RunRecord := .empty
  collectors : Table .collector (Array Trace) := .empty
  heap : Heap := {}
  journal : Array H.Note := #[]

namespace Store

variable {H : Host}

instance : Inhabited (Store H) := ⟨{}⟩

/-! ### Wires -/

/-- A new wire without stages. It has variables, channels and a run record of its own. -/
def addWire (s : Store H) (name : String) (looped : Bool) : Id .wire × Store H :=
  let (scope, vars) := s.vars.addScope none
  let (board, exchange) := s.exchange.addBoard Board.defaultCapacity
  (s.wires.next,
    { s with
      vars, exchange
      runs := s.runs.push {}
      wires := s.wires.push { name, looped, scope, board, run := s.runs.next } })

/-- Changes a wire. -/
def modifyWire (s : Store H) (id : Id .wire) (f : Wire H → Wire H) : Store H :=
  { s with wires := s.wires.modify id f }

/-- The name of a wire. -/
def wireName (s : Store H) (id : Id .wire) : String := ((s.wires.get? id).map (·.name)).getD ""

/-- Changes the record of a run. -/
def modifyRun (s : Store H) (id : Id .run) (f : RunRecord → RunRecord) : Store H :=
  { s with runs := s.runs.modify id f }

/-- The record of a run. -/
def run (s : Store H) (id : Id .run) : RunRecord := (s.runs.get? id).getD {}

/-- Adds notes to the journal. -/
def note (s : Store H) (notes : List H.Note) : Store H :=
  { s with journal := s.journal ++ notes }

/-- Adds a trace to a collector. -/
def record (s : Store H) (collector : Option (Id .collector)) (t : Trace) : Store H :=
  match collector with
  | some id => { s with collectors := s.collectors.modify id (·.push t) }
  | none => s

/-! ### Holders of objects -/

/-- Whether the stage itself holds an object. -/
def stageHolds (id : ObjectId) : Stage H → Bool
  | .const v => v.anyObject (·.id == id)
  | .add operand => operand.value.anyObject (·.id == id)
  | .consume r _ | .listen r _ =>
    (r.pending ++ r.last.toList).any (·.anyObject (·.id == id))
  | .unit u => H.holds u id
  | _ => false

/-- Whether a wire holds an object, in its run or in its stages. -/
def wireHolds (id : ObjectId) (w : Wire H) : Bool :=
  [w.input, w.current, w.lastOutput].any (·.anyObject (·.id == id)) ||
    w.stages.any fun p => stageHolds id p.stage

/-- Whether an object is held by a variable, a channel, a wire or the result of a run. -/
def holds (s : Store H) (id : ObjectId) : Bool :=
  s.vars.slots.rows.any (·.anyObject (·.id == id)) ||
    s.exchange.queues.rows.any (fun q => (q.items ++ q.spare).any (·.anyObject (·.id == id))) ||
    s.wires.rows.any (wireHolds id) ||
    s.runs.rows.any fun r => (r.result.map fun o => o.output.anyObject (·.id == id)).getD false

end Store

/-- A computation on the store that can be broken off. What it changed before stays. -/
abbrev Exec (H : Host) (α : Type) := ExceptT Halt (StateM (Store H)) α

end Dataflow
