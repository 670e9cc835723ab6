import Dataflow.Composition.Compose
import Dataflow.Run.Resume
/-!
# Running a wire once

Without a scheduler, a wire is composed, warmed up and driven to the end of one iteration by its
caller. Suspensions are resumed in place.
-/

namespace Dataflow.Store

variable {H : Host}

/-- Resumes a wire until its run ends, at most so many times. -/
def driveToEnd (id : Id .wire) : Nat → Exec H Outcome
  | 0 => throw .exhausted
  | limit + 1 => do
    match (← resume id).outcome? with
    | some outcome => return outcome
    | none => driveToEnd id limit

/-- The site of a wire that is composed on its own for a value. -/
def ownSite (wire : Wire H) (input : Value) : Site :=
  { input := input.ty, wireInput := input.ty, board := wire.board }

/-- Composes, warms up and runs one iteration of a wire, with at most so many resumptions. -/
def runOnce (limit : Nat) (id : Id .wire) (input : Value) :
    Exec H (Except ComposeError Outcome) := do
  match (← get).wires.get? id with
  | none => return .ok (.stopped .nothing)
  | some wire =>
    let composed ← ((composeOwned id (ownSite wire input)).run :
      StateM (Store H) (Except ComposeError Signature))
    match composed with
    | .error e => return .error e
    | .ok _ =>
      match ← beginRun id input none wire.board with
      | .error e => return .ok (.failed ⟨e.message, "", 0⟩)
      | .ok _ =>
        modify fun s => s.modifyWire id fun w => { w with looped := false }
        let outcome ← driveToEnd id limit
        modify fun s => s.modifyWire id fun w => { w with looped := wire.looped }
        return .ok (← endRun id outcome)

end Dataflow.Store
