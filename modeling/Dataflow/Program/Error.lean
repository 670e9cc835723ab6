import Dataflow.Program.Printer
import Dataflow.Program.Reader
/-!
# Errors of programs

A program is refused with a message and a place: in its text if it cannot be read, and in what it
was written from if it cannot be evaluated. A program that cannot be written is refused without a
place.
-/

namespace Dataflow

/-- Why a program was refused, and where. -/
structure EvalError where
  message : String
  line : Nat
  column : Nat
  deriving DecidableEq, Repr, Inhabited

/-- The error in words. -/
def EvalError.text (e : EvalError) : String :=
  e.message ++ " (line " ++ toString e.line ++ ", column " ++ toString e.column ++ ")"

/-- The error of a text that cannot be read. -/
def EvalError.ofFault (f : Json.Fault) : EvalError :=
  match f.place with
  | some place => ⟨f.message, place.line, place.column⟩
  | none => ⟨f.message, 0, 0⟩

/-- An error at a place of a program. -/
def Program.Span.error (s : Program.Span) (message : String) : EvalError :=
  ⟨message, s.line.toNat, s.column.toNat⟩

/-- Reads a program from its text. -/
def Program.ofText (text : String) : Except EvalError Program :=
  (Program.read text).mapError EvalError.ofFault

/-- The error of a value that has no written form. -/
def EvalError.unwritable (v : Value) : EvalError :=
  ⟨"the enum variant Var::" ++ v.kindName ++ " cannot be serialized", 0, 0⟩

/-- Writes a program as text, if all its literals can be written. -/
def Program.toText (p : Program) : Except EvalError String :=
  match (p.literals.flatMap Value.leaves).find? Value.isUnwritable with
  | some v => .error (.unwritable v)
  | none => .ok p.pretty

end Dataflow
