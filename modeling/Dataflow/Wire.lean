import Dataflow.Findings
import Dataflow.Stage.Params
/-!
# Wires

A wire is a row of stages with the state of its run. Composing it gives its signature, which is
kept together with a key of everything it depends on.
-/

namespace Dataflow

/-- A stage at its place in a wire. -/
structure Placed (H : Host) where
  stage : Stage H
  line : Nat := 0
  column : Nat := 0
  warmedUp : Bool := false

/-- The form that shows the structure. -/
def Placed.outline {H : Host} (p : Placed H) : String :=
  Text.record "ShardInstance"
    [("name", Text.quoted p.stage.name), ("caps", p.stage.capabilities.outline),
      ("line", toString p.line), ("column", toString p.column)]

/-- What a composition found out about a wire. -/
structure Signature where
  input : Ty
  output : Ty
  /-- Variables that the wire publishes. -/
  exposed : List VarDecl
  /-- Variables that the wire needs from outside. -/
  required : List VarDecl
  /-- Control never falls off the end. -/
  stopsFlow : Bool
  findings : Findings
  deriving DecidableEq, Repr, Inhabited

/-- A signature with the key of what it depends on. Without a key it is never reused. -/
structure Memo where
  key : Option UInt64
  signature : Signature
  deriving Repr, Inhabited

/-- Where a run stands. -/
inductive Cursor where
  | idle
  | running (position : Nat)
  | suspendedAt (position : Nat) (point : Suspension)
  deriving DecidableEq, Repr, Inhabited

/-- A row of stages and the state of its run. -/
structure Wire (H : Host) where
  name : String
  looped : Bool := false
  stages : List (Placed H) := []
  inputTy : Ty := .nothing
  /-- The output type that the last successful composition found. -/
  outputTy : Option Ty := none
  composed : Option Memo := none
  scope : Id .scope
  board : Id .board
  run : Id .run
  collector : Option (Id .collector) := none
  cursor : Cursor := .idle
  /-- The value that the run was started with. -/
  input : Value := .nothing
  /-- The input of the next stage. -/
  current : Value := .nothing
  /-- The output of the last completed iteration. -/
  lastOutput : Value := .nothing
  iteration : Nat := 0

namespace Wire

variable {H : Host}

/-- Appends a stage. What was composed before no longer holds. -/
def push (w : Wire H) (p : Placed H) : Wire H :=
  { w with stages := w.stages ++ [p], composed := none }

/-- Changes the stage at a position. -/
def modifyPlaced (w : Wire H) (position : Nat) (f : Placed H → Placed H) : Wire H :=
  { w with stages := w.stages.modify position f }

/-- Replaces the stage at a position. -/
def setStage (w : Wire H) (position : Nat) (stage : Stage H) : Wire H :=
  w.modifyPlaced position fun p => { p with stage }

/-- Whether a run was started and has not ended. -/
def midRun (w : Wire H) : Bool := w.cursor ≠ .idle

/-- Whether every input is ignored by the first stage. -/
def ignoresInput (w : Wire H) : Bool :=
  match w.stages with
  | first :: _ => first.stage.ignoresInput
  | [] => false

/-- Whether control never falls off the end. -/
def stopsFlow (w : Wire H) : Bool :=
  match w.stages.getLast? with
  | some last => last.stage.stopsFlow
  | none => false

end Wire

end Dataflow
