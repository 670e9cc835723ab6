import Dataflow.Fault
import Dataflow.Ty.Matching
import Dataflow.Value.Typing
/-!
# Parameters

A stage declares its parameters with the types they take. A reference to a variable is taken if a
reference type is declared, a wire if the wire type is; whether the variable and the wire fit is
settled when the wire is composed.
-/

namespace Dataflow

/-- The declaration of a parameter. -/
structure Param where
  name : String
  help : String
  types : List Ty
  deriving DecidableEq, Repr, Inhabited

namespace Param

/-- Whether a value may be assigned. -/
def accepts (p : Param) : Value → Bool
  | .ref _ => p.types.any Ty.isRef
  | .wire _ => p.types.contains .wire
  | literal => (p.types.filter fun t => !t.isRef).any fun t => t.accepts literal.ty

/-- Refuses what may not be assigned. -/
def check (p : Param) (value : Value) : Except ParamError PUnit :=
  if p.accepts value then .ok () else .error (.invalidValue p.name value.ty.text)

end Param

/-- The index of the parameter of a name. -/
def paramIndex? (params : List Param) (name : String) : Option Nat :=
  params.findIdx? fun p => p.name == name

/-- A parameter that is a literal or a variable reference. A reference is resolved to a slot while
a run lasts. -/
structure Operand where
  value : Value
  slot : Option (Id .slot) := none
  deriving Repr, Inhabited

namespace Operand

/-- A new value, not resolved yet. -/
def set (_ : Operand) (value : Value) : Operand := ⟨value, none⟩

/-- The variable that is referred to. -/
def referent? (o : Operand) : Option String :=
  match o.value with
  | .ref name => some name
  | _ => none

/-- The current value: the slot's content once resolved, the value as assigned before. -/
def current (o : Operand) (read : Id .slot → Value) : Value :=
  match o.slot with
  | some slot => read slot
  | none => o.value

/-- Without the resolved slot. -/
def release (o : Operand) : Operand := { o with slot := none }

/-- The form that shows the structure. -/
def outline (o : Operand) (read : Id .slot → Value) : String :=
  Text.record "ParamVar"
    [("value", o.value.outline),
      ("slot", Text.optional (o.slot.map fun s => "VarSlot(" ++ (read s).outline ++ ")"))]

end Operand

end Dataflow
