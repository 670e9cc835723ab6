import Dataflow.Text.Quoted
/-!
# Findings

What a composition noticed besides its outcome. Warnings do not stop a wire from running, errors
do.
-/

namespace Dataflow

/-- One issue of a wire. -/
inductive Finding where
  /-- The wire cannot run. -/
  | error (text : String)
  /-- The wire can run but likely does not do what was meant. -/
  | warning (text : String)
  deriving DecidableEq, Repr, Inhabited

namespace Finding

/-- Whether the issue prevents the wire from running. -/
def isError : Finding → Bool
  | error _ => true
  | warning _ => false

/-- The text of a warning. -/
def warning? : Finding → Option String
  | error _ => none
  | warning text => some text

/-- The text of an error. -/
def error? : Finding → Option String
  | error text => some text
  | warning _ => none

/-- The form that shows the structure. -/
def outline : Finding → String
  | error text => "Error(" ++ Text.quoted text ++ ")"
  | warning text => "Warning(" ++ Text.quoted text ++ ")"

end Finding

/-- Issues in the order in which they were noticed. -/
structure Findings where
  issues : List Finding := []
  deriving DecidableEq, Repr, Inhabited

namespace Findings

/-- Notes one more issue. -/
def add (f : Findings) (issue : Finding) : Findings := ⟨f.issues ++ [issue]⟩

/-- Notes a warning. -/
def warn (f : Findings) (text : String) : Findings := f.add (.warning text)

/-- Nothing prevents the wire from running. -/
def safe (f : Findings) : Bool := !f.issues.any Finding.isError

/-- The texts of the warnings, in order. -/
def warnings (f : Findings) : List String := f.issues.filterMap Finding.warning?

/-- The texts of the errors, in order. -/
def errors (f : Findings) : List String := f.issues.filterMap Finding.error?

/-- Whether there is a warning. -/
def hasWarnings (f : Findings) : Bool := f.issues.any fun issue => !issue.isError

/-- The issues of both, those of the first one first. -/
def merge (f g : Findings) : Findings := ⟨f.issues ++ g.issues⟩

/-- The form that shows the structure. -/
def outline (f : Findings) : String :=
  Text.record "ValidationResult" [("issues", Text.listed (f.issues.map Finding.outline))]

end Findings

end Dataflow
