import Dataflow.Ty.Basic
/-!
# Faults

Why composing, warming up, activating or setting a parameter failed. Each cause is a constructor
with its data, and its wording is in one place. A violated invariant is not an error of a wire:
it means that bookkeeping is broken, and it ends whatever was going on.
-/

namespace Dataflow

/-- Where a stage stands: its name and its position in the wire. -/
structure Place where
  stage : String
  position : Nat
  deriving DecidableEq, Repr, Inhabited

/-- The stage with its position, as messages show it. -/
def Place.text (p : Place) : String := p.stage ++ " (position " ++ toString p.position ++ ")"

/-- Why a wire could not be composed. -/
inductive ComposeError where
  | inputTypeMismatch (place : Place) (expected : List Ty) (found : Ty)
  | ambiguousOutput (place : Place)
  | missingVariable (name : String) (place : Place)
  | variableTypeMismatch (name : String) (place : Place) (expected found : Ty)
  | incompatibleExposure (name : String) (place : Place) (existing requested : Ty)
  | protectedVariable (name : String) (place : Place)
  | parameter (place : Place) (param reason : String)
  | nestedWire (place : Place) (param : String) (cause : ComposeError)
  | recursive (wire : String)
  | locked (wire : String)
  | stage (place : Place) (wire text : String)
  | channel (name reason : String)
  | plain (text : String)
  deriving Repr, Inhabited

/-- The wording of a composition error. -/
def ComposeError.message : ComposeError → String
  | inputTypeMismatch p expected found =>
    "Could not find a matching input type, shard: " ++ p.text ++ ", expected one of " ++
      Text.listed (expected.map Ty.outline) ++ ", found instead " ++ found.text
  | ambiguousOutput p =>
    "Shard " ++ p.text ++ " has multiple output types and no compose hook"
  | missingVariable name p =>
    "Required variable not found: " ++ name ++ ", shard: " ++ p.text
  | variableTypeMismatch name p expected found =>
    "Required variable " ++ name ++ " has type " ++ found.text ++ " but shard " ++ p.text ++
      " expects " ++ expected.text
  | incompatibleExposure name p existing requested =>
    "Variable " ++ name ++ " is already exposed as " ++ existing.text ++ ", shard " ++ p.text ++
      " tried to expose it as " ++ requested.text
  | protectedVariable name p =>
    "Variable " ++ name ++ " is protected, shard " ++ p.text ++ " cannot expose it"
  | parameter p param reason =>
    "Parameter " ++ param ++ " of shard " ++ p.text ++ ": " ++ reason
  | nestedWire p param cause =>
    "Parameter " ++ param ++ " of shard " ++ p.text ++
      " holds a wire that failed to compose: " ++ cause.message
  | recursive wire => "Wire " ++ wire ++ " is already being composed"
  | locked wire => "A sub-wire of " ++ wire ++ " stayed locked by another thread"
  | stage p wire text =>
    "Error composing shard: " ++ p.text ++ ", wire: " ++ wire ++ ", error: " ++ text
  | channel name reason => "Channel " ++ name ++ ": " ++ reason
  | plain text => text

/-- Why a stage could not be warmed up or activated. It fails the wire. -/
inductive ActivationError where
  | failed (text : String)
  | missingVariable (name : String)
  | protectedVariable (name : String)
  | typeMismatch (expected found : String)
  | overflow
  | nestedWire (wire text : String)
  | notComposed (wire : String)
  deriving DecidableEq, Repr, Inhabited

/-- The wording of an activation error. -/
def ActivationError.message : ActivationError → String
  | failed text => text
  | missingVariable name => "Variable not found: " ++ name
  | protectedVariable name => "Variable " ++ name ++ " is protected"
  | typeMismatch expected found => "Type error: expected " ++ expected ++ ", found " ++ found
  | overflow => "Integer overflow"
  | nestedWire wire text => "Nested wire " ++ wire ++ " failed: " ++ text
  | notComposed wire => "Wire " ++ wire ++ " was activated before being composed"

/-- Why a parameter could not be set. -/
inductive ParamError where
  | outOfRange (index : Nat)
  | invalidValue (name found : String)
  deriving DecidableEq, Repr, Inhabited

/-- The wording of a parameter error. -/
def ParamError.message : ParamError → String
  | outOfRange index => "Parameter index " ++ toString index ++ " is out of range"
  | invalidValue name found => "Parameter " ++ name ++ " does not accept " ++ found

/-- Why a mesh did not take a wire. -/
inductive MeshError where
  | alreadyScheduled (wire : String)
  | compose (wire : String) (cause : ComposeError)
  | warmup (wire : String) (cause : ActivationError)
  | terminated (mesh : String)
  deriving Repr, Inhabited

/-- The wording of a mesh error. -/
def MeshError.message : MeshError → String
  | alreadyScheduled wire => "Wire " ++ wire ++ " is already scheduled"
  | compose wire cause => "Wire " ++ wire ++ " failed to compose: " ++ cause.message
  | warmup wire cause => "Wire " ++ wire ++ " failed to warm up: " ++ cause.message
  | terminated mesh => "Mesh " ++ mesh ++ " has been terminated"

/-- The invariants that are enforced at run time. -/
inductive Invariant where
  | poolCount
  | poolHandle
  | scopedBinding
  | wireState
  deriving DecidableEq, Repr, Inhabited

/-- The number by which reports name the invariant. -/
def Invariant.number : Invariant → Nat
  | poolCount => 1
  | poolHandle => 2
  | scopedBinding => 3
  | wireState => 4

/-- A violated invariant, with what was seen if that says more. -/
structure Violation where
  invariant : Invariant
  text : String
  context : Option String := none
  deriving DecidableEq, Repr, Inhabited

/-- The report of a violation. -/
def Violation.message (v : Violation) : String :=
  let head := "Invariant " ++ toString v.invariant.number ++ " failed: " ++ v.text
  match v.context with
  | some context => head ++ " (context: " ++ context ++ ")"
  | none => head

/-- Whether a text reads as the report of a violation. -/
def announcesViolation (text : String) : Bool := "Invariant ".toList.isPrefixOf text.toList

/-- Why an execution did not get to its end. -/
inductive Halt where
  | violation (v : Violation)
  /-- A wire would have to wait for itself. -/
  | stuck
  /-- The steps that were granted did not suffice. -/
  | exhausted
  deriving DecidableEq, Repr, Inhabited

end Dataflow
