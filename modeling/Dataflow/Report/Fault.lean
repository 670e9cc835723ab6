import Dataflow.Fault
import Dataflow.Json.Content
import Dataflow.Program.Error
/-!
# Reports of faults

Each fault is reported by the word for its cause and by its message. A fault that has another one
as its cause reports that one too.
-/

namespace Dataflow

open Json

/-- The report of a fault: the word for its cause, its message, and more. -/
def reportFault (word message : String) (more : List (String × Content)) : Content :=
  .object ([("error", .string word), ("message", .string message)] ++ more)

/-- The word for the cause. -/
def ParamError.word : ParamError → String
  | outOfRange _ => "OutOfRange"
  | invalidValue .. => "InvalidValue"

/-- The report of a parameter error. -/
def ParamError.report (e : ParamError) : Content := reportFault ("Param." ++ e.word) e.message []

/-- The word for the cause. -/
def ActivationError.word : ActivationError → String
  | failed _ => "Failed"
  | missingVariable _ => "MissingVariable"
  | protectedVariable _ => "ProtectedVariable"
  | typeMismatch .. => "TypeMismatch"
  | overflow => "Overflow"
  | nestedWire .. => "NestedWire"
  | notComposed _ => "NotComposed"

/-- The report of an activation error. -/
def ActivationError.report (e : ActivationError) : Content :=
  reportFault ("Activation." ++ e.word) e.message []

/-- The word for the cause. -/
def ComposeError.word : ComposeError → String
  | inputTypeMismatch .. => "InputTypeMismatch"
  | ambiguousOutput _ => "AmbiguousOutput"
  | missingVariable .. => "MissingVariable"
  | variableTypeMismatch .. => "VariableTypeMismatch"
  | incompatibleExposure .. => "IncompatibleExposure"
  | protectedVariable .. => "ProtectedVariable"
  | parameter .. => "Parameter"
  | nestedWire .. => "NestedWire"
  | recursive _ => "Recursive"
  | locked _ => "Locked"
  | stage .. => "Shard"
  | channel .. => "Channel"
  | plain _ => "Message"

/-- The report of a composition error. -/
def ComposeError.report : ComposeError → Content
  | nestedWire place param cause =>
    reportFault "Compose.NestedWire" (nestedWire place param cause).message
      [("source", cause.report)]
  | e => reportFault ("Compose." ++ e.word) e.message []

/-- The report of a mesh error. -/
def MeshError.report (e : MeshError) : Content :=
  match e with
  | alreadyScheduled _ => reportFault "Mesh.AlreadyScheduled" e.message []
  | terminated _ => reportFault "Mesh.Terminated" e.message []
  | compose _ cause => reportFault "Mesh.Compose" e.message [("source", cause.report)]
  | warmup _ cause => reportFault "Mesh.Warmup" e.message [("source", cause.report)]

/-- The report of an evaluation error. -/
def EvalError.report (e : EvalError) : Content :=
  reportFault "Eval" e.message
    [("line", .nat e.line), ("column", .nat e.column), ("display", .string e.text)]

/-- The report of settings that cannot be read. -/
def Json.Fault.report (f : Json.Fault) : Content :=
  reportFault "Json" f.message
    (match f.place with
    | some p => [("line", .nat p.line), ("column", .nat p.column)]
    | none => [])

/-- The report of a violated invariant. -/
def Violation.report (v : Violation) : Content := reportFault "Invariant" v.message []

/-- The report of an execution that was broken off. -/
def Halt.report : Halt → Content
  | violation v => v.report
  | stuck => reportFault "Stuck" "" []
  | exhausted => reportFault "Exhausted" "" []

end Dataflow
