import Dataflow.Fault
import Dataflow.Value.Basic
/-!
# Scoped object bindings

An object can be bound into a slot for as long as some work lasts. However the work ends, the slot
gets back what it held before. Work that came to its end must have left the binding in place;
work that was broken off is not checked.
-/

namespace Dataflow

/-- Whether a value is the given object. -/
def Value.isObject (v : Value) (object : ObjectRef) : Bool :=
  match v with
  | .object o => o.is object
  | _ => false

/-- The violation of work that did not leave its binding in place. -/
def bindingViolation (found : Value) : Violation :=
  ⟨.scopedBinding, "scoped object binding was replaced or cleared before its scope ended",
    some found.kindName⟩

/-- Binds `object` into the slot that `read` and `write` reach while `work` lasts. The outer answer
says whether the work was broken off. -/
def withObject {σ ε α : Type} (read : σ → Value) (write : Value → σ → σ) (raise : Violation → ε)
    (object : ObjectRef) (work : StateM σ (Except ε α)) : StateM σ (Except ε α) := fun s =>
  let previous := read s
  let (answer, s) := work (write (.object object) s)
  let found := read s
  let s := write previous s
  match answer with
  | .error e => (.error e, s)
  | .ok a =>
    if found.isObject object then (.ok a, s) else (.error (raise (bindingViolation found)), s)

end Dataflow
