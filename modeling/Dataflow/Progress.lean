import Dataflow.Delay
import Dataflow.Value.Basic
/-!
# Progress of runs

What an activation asks its wire to do next, what a resumed wire ended with, and what is known of
a run from outside.
-/

namespace Dataflow

/-- When a suspended activation wants to go on. -/
inductive Suspension where
  /-- At the next scheduling pass. -/
  | yield
  /-- Once the delay has passed. -/
  | sleep (delay : Delay)
  deriving DecidableEq, Repr, Inhabited

/-- What an activation asks the wire to do next. -/
inductive Activation where
  /-- Hand the value to the next stage. -/
  | proceed (output : Value)
  /-- Activate the same stage again, with the same input, when the wire resumes. -/
  | suspend (point : Suspension)
  /-- End the iteration early with this value. -/
  | finish (output : Value)
  /-- End the run with this value. -/
  | stop (output : Value)
  deriving Repr, Inhabited

/-- Why a run failed. -/
structure Failure where
  message : String
  /-- The stage that failed. -/
  stage : String
  position : Nat
  deriving DecidableEq, Repr, Inhabited

/-- What a call to resume a wire ended with. -/
inductive Progress where
  | suspended (point : Suspension)
  | finished (output : Value)
  | failed (failure : Failure)
  deriving Repr, Inhabited

/-- How a run ended. -/
inductive Outcome where
  | stopped (output : Value)
  | failed (failure : Failure)
  deriving Repr, Inhabited

namespace Outcome

/-- The output; a failed run has none. -/
def output : Outcome → Value
  | stopped v => v
  | failed _ => .nothing

/-- The failure, if it failed. -/
def failure? : Outcome → Option Failure
  | stopped _ => none
  | failed f => some f

end Outcome

/-- The outcome that a run ends with after this progress, unless it goes on. -/
def Progress.outcome? : Progress → Option Outcome
  | suspended _ => none
  | finished v => some (.stopped v)
  | failed f => some (.failed f)

/-- The state of a run as others see it. -/
inductive RunState where
  | unscheduled
  | running
  | suspended
  | stopped
  | failed
  deriving DecidableEq, Repr, Inhabited

namespace RunState

/-- The run is over. -/
def isTerminal : RunState → Bool
  | stopped | failed => true
  | _ => false

/-- The run has begun and is not over. -/
def isActive : RunState → Bool
  | running | suspended => true
  | _ => false

/-- The state in words. -/
def text : RunState → String
  | unscheduled => "Unscheduled"
  | running => "Running"
  | suspended => "Suspended"
  | stopped => "Stopped"
  | failed => "Failed"

end RunState

/-- The state in which an outcome leaves a run. -/
def Outcome.state : Outcome → RunState
  | stopped _ => .stopped
  | failed _ => .failed

/-- One run, as the wire and everyone who watches the run see it. Each run has a record of its
own, so a later run never changes the result of an earlier one. -/
structure RunRecord where
  state : RunState := .unscheduled
  stopRequested : Bool := false
  result : Option Outcome := none
  deriving Repr, Inhabited

namespace RunRecord

/-- The record of a run that has ended. -/
def close (r : RunRecord) (outcome : Outcome) : RunRecord :=
  { r with state := outcome.state, result := some outcome }

end RunRecord

/-- How a traced activation ended. -/
inductive TraceEnd where
  | proceed
  | suspend
  | finish
  | stop
  | error (message : String)
  deriving DecidableEq, Repr, Inhabited

/-- How an activation ended, for the trace. -/
def Activation.traceEnd : Activation → TraceEnd
  | proceed _ => .proceed
  | suspend _ => .suspend
  | finish _ => .finish
  | stop _ => .stop

/-- One activation as telemetry records it. -/
structure Trace where
  wire : String
  stage : String
  position : Nat
  iteration : Nat
  ended : TraceEnd
  deriving DecidableEq, Repr, Inhabited

end Dataflow
