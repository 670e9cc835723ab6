import Dataflow.Fault
import Dataflow.Ty.Matching
/-!
# Channel headers

What channels of every kind share: the declared type of their values, whether they are closed, and
whether storage of values is reused.
-/

namespace Dataflow

/-- The common part of channels. -/
structure Header where
  /-- The declared type; `nothing` while undeclared. -/
  ty : Ty
  noCopy : Bool
  closed : Bool := false
  deriving DecidableEq, Repr, Inhabited

namespace Header

/-- Checks a use of the channel `name` with values of type `requested`. An undeclared type is
replaced by the requested one. -/
def verify (h : Header) (name : String) (requested : Ty) : Except ComposeError Header :=
  if h.ty.isNothing then .ok { h with ty := requested }
  else if requested.isNothing || h.ty.accepts requested || requested.accepts h.ty then .ok h
  else .error (.channel name ("declared as " ++ h.ty.text ++ ", used as " ++ requested.text))

/-- Closed for good. -/
def close (h : Header) : Header := { h with closed := true }

end Header

end Dataflow
