import Dataflow.Proofs.Scopes
import Dataflow.ScopedBinding
/-!
# Scoped bindings restore their slots

Work that has an object bound into a slot may do with the slot what it likes: read it, set it, copy
into it, swap its value, and bind other objects into it for parts of the work. It may return an
error, or be broken off. However it ends, the slot holds afterwards what it held before. And since
that is so for the bindings inside as well, they are of no concern to the check at the end: it sees
what the work itself has put into the slot last.

The second point is said by comparing two readings of work. `Work.run` does it with a slot that is
written and restored. `Work.eval` knows no slot: a binding lasts as long as its body, and what goes
on behind it goes on with the value from before.
-/

namespace Dataflow

/-- Why work was broken off: it did so itself, or a binding did not stay in place. -/
inductive Unwinding where
  | panic (message : String)
  | broken (v : Violation)

/-- How work ends: it returns a result or an error, or is broken off. -/
abbrev Ending := Except Unwinding (Except String Value)

/-- Work on a slot. -/
inductive Work where
  | done (result : Except String Value)
  | panic (message : String)
  | read (next : Value → Work)
  | set (value : Value) (next : Work)
  /-- Copies a value into the storage of the slot. -/
  | assign (value : Value) (next : Work)
  /-- Sets the slot and goes on with what it held. -/
  | replace (value : Value) (next : Value → Work)
  /-- Has an object bound while other work lasts, and goes on with what that returns. -/
  | bind (object : ObjectRef) (body : Work) (next : Except String Value → Work)

namespace Work

variable {slot : Id .slot} {vars : Variables}

/-- Has an object bound into the slot while work lasts. -/
def bound (slot : Id .slot) (object : ObjectRef) (work : Variables → Ending × Variables) :
    Variables → Ending × Variables :=
  withObject (·.read slot) (fun v vars => vars.write slot v) .broken object work

/-- Does work with a slot. -/
def run (slot : Id .slot) : Work → Variables → Ending × Variables
  | done result, vars => (.ok result, vars)
  | panic message, vars => (.error (.panic message), vars)
  | read next, vars => (next (vars.read slot)).run slot vars
  | set value next, vars => next.run slot (vars.write slot value)
  | assign value next, vars => next.run slot (vars.assign slot value)
  | replace value next, vars => (next (vars.read slot)).run slot (vars.write slot value)
  | bind object body next, vars =>
    match bound slot object (body.run slot) vars with
    | (.error e, vars) => (.error e, vars)
    | (.ok result, vars) => (next result).run slot vars

/-- How work ends and with what value, if it starts with the given one. -/
def eval : Work → Value → Ending × Value
  | done result, v => (.ok result, v)
  | panic message, v => (.error (.panic message), v)
  | read next, v => (next v).eval v
  | set value next, _ => next.eval value
  | assign value next, v => next.eval (v.overwrite value)
  | replace value next, v => (next v).eval value
  | bind object body next, v =>
    match body.eval (.object object) with
    | (.error e, _) => (.error e, v)
    | (.ok result, found) =>
      if found.isObject object then (next result).eval v
      else (.error (.broken (bindingViolation found)), v)

/-- A binding of work that only changes the slot leaves no trace, and is checked by what the work
left in the slot. -/
theorem bound_eq (hslot : slot.row < vars.slots.size) (object : ObjectRef)
    {work : Variables → Ending × Variables} {ending : Ending} {found : Value}
    (h : work (vars.write slot (.object object)) = (ending, vars.write slot found)) :
    bound slot object work vars =
      (if ending.isOk && !found.isObject object then .error (.broken (bindingViolation found))
        else ending, vars) := by
  have hrestored : (vars.write slot found).write slot (vars.read slot) = vars := by
    rw [Variables.write_write, Variables.write_read]
  rw [bound, withObject]
  simp only [h, hrestored, Variables.read_write_self vars hslot]
  cases ending with
  | error e => rfl
  | ok result => cases hfound : found.isObject object <;> simp [Except.isOk, Except.toBool]

/-- The slot is no more than a way to keep the value at hand. The induction is on the work, for all
values at once: what comes behind a binding goes on with the value from before. -/
theorem run_eq (work : Work) (hslot : slot.row < vars.slots.size) (v : Value) :
    work.run slot (vars.write slot v) = ((work.eval v).1, vars.write slot (work.eval v).2) := by
  have hread : ∀ v, (vars.write slot v).read slot = v := Variables.read_write_self vars hslot
  induction work generalizing v with
  | done result => rfl
  | panic message => rfl
  | read next ih => rw [run, hread, ih, eval]
  | set value next ih => rw [run, Variables.write_write, ih, eval]
  | assign value next ih =>
    rw [run, Variables.assign_eq_write, hread, Variables.write_write, ih, eval]
  | replace value next ih => rw [run, hread, Variables.write_write, ih, eval]
  | bind object body next ihBody ihNext =>
    have hbody : body.run slot ((vars.write slot v).write slot (.object object)) =
        ((body.eval (.object object)).1,
          (vars.write slot v).write slot (body.eval (.object object)).2) := by
      rw [Variables.write_write, Variables.write_write, ihBody]
    rw [run, bound_eq (by rwa [Variables.size_write]) object hbody, eval]
    rcases body.eval (.object object) with ⟨e | result, found⟩
    · rfl
    · cases hfound : found.isObject object <;> simp only [hfound, Except.isOk, Except.toBool]
      · rfl
      · exact ihNext result v

/-- A scoped binding nests and always restores. For every slot that is there, every object and every
body, whatever other bindings that makes in the slot and however it ends: when the binding ends, all
variables are as they were before. The binding breaks off with a violation of its own if and only if
its body was not broken off but has left something else than the object in the slot; else it ends as
the body does. And what the body leaves there is what it has put there itself, for the bindings that
it makes leave no trace. -/
theorem binding_restores (hslot : slot.row < vars.slots.size) (object : ObjectRef) (body : Work) :
    let (ending, left) := body.run slot (vars.write slot (.object object))
    let found := left.read slot
    bound slot object (body.run slot) vars =
        (if ending.isOk && !found.isObject object then .error (.broken (bindingViolation found))
          else ending, vars) ∧
      body.eval (.object object) = (ending, found) := by
  have hrun := body.run_eq hslot (.object object)
  simp only [hrun, Variables.read_write_self vars hslot]
  exact ⟨bound_eq hslot object hrun, trivial⟩

/-- A body that has another object bound while it returns an error, and then swaps its own object for
a number. -/
def careless : Work :=
  .bind ⟨.core, .core, .foreign 2⟩ (.done (.error "late")) fun _ =>
    .replace (.int 7) fun old => .read fun _ => .done (.ok old)

/-- The variables of one slot that holds a number. -/
def numbered : Variables := { slots := ⟨#[.int 42]⟩ }

/-- Only the outer binding is found broken, and the slot holds its number again. -/
theorem careless_restores :
    bound ⟨0⟩ ⟨.core, .core, .foreign 1⟩ (careless.run ⟨0⟩) numbered =
      (.error (.broken (bindingViolation (.int 7))), numbered) := by
  have hslot : (⟨0⟩ : Id .slot).row < numbered.slots.size := by decide
  exact (binding_restores hslot ⟨.core, .core, .foreign 1⟩ careless).1

end Work

end Dataflow
