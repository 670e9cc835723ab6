import Dataflow.Value.Basic
/-!
# Programs

A program declares wires and constants. A wire is a row of calls, each of which names a stage and
gives arguments for its parameters. Every declaration and every call knows where it stands in the
text it was written in; zero means that the place is unknown.
-/

namespace Dataflow

namespace Program

/-- Where something was written. Zero means unknown. -/
structure Span where
  line : UInt32 := 0
  column : UInt32 := 0
  deriving DecidableEq, Repr, Inhabited

mutual

/-- What an argument or a constant is given as. -/
inductive Expr where
  | literal (value : Value)
  /-- A variable, resolved when the wire is warmed up. -/
  | reference (name : String)
  /-- A wire without a name of its own. -/
  | pipeline (calls : List Call)
  /-- A declared wire. -/
  | wire (name : String)
  /-- A named constant. -/
  | constant (name : String)
  | type (ty : Ty)

/-- A call of a stage. -/
inductive Call where
  | mk (stage : String) (args : List Arg) (span : Span)

/-- An argument. Without a name it is for the parameter at its position. -/
inductive Arg where
  | mk (name : Option String) (value : Expr)

end

instance : Inhabited Expr := ⟨.literal .nothing⟩

namespace Call

/-- The stage that is called. -/
def stage : Call → String
  | mk stage _ _ => stage

/-- The arguments of the call. -/
def args : Call → List Arg
  | mk _ args _ => args

/-- Where the call was written. -/
def span : Call → Span
  | mk _ _ span => span

end Call

namespace Arg

/-- The parameter that is named. -/
def name : Arg → Option String
  | mk name _ => name

/-- What the argument is given as. -/
def value : Arg → Expr
  | mk _ value => value

end Arg

/-- The declaration of a wire. -/
structure WireDecl where
  name : String
  looped : Bool := false
  calls : List Call := []
  span : Span := {}

/-- A declaration. -/
inductive Item where
  | wire (decl : WireDecl)
  /-- A constant, for arguments of the declarations that follow. -/
  | define (name : String) (value : Expr) (span : Span)

end Program

/-- A list of declarations. -/
structure Program where
  items : List Program.Item

namespace Program

/-- The wires that a program declares. -/
def wires (p : Program) : List WireDecl :=
  p.items.filterMap fun
    | .wire decl => some decl
    | .define .. => none

/-! ### Literals -/

mutual

/-- The literals of an expression, in the order in which they are written. -/
def Expr.literals : Expr → List Value
  | .literal value => [value]
  | .pipeline calls => Call.literalsOf calls
  | _ => []
termination_by structural e => e

/-- The literals of calls. -/
def Call.literalsOf : List Call → List Value
  | [] => []
  | .mk _ args _ :: calls => Arg.literalsOf args ++ Call.literalsOf calls
termination_by structural calls => calls

/-- The literals of arguments. -/
def Arg.literalsOf : List Arg → List Value
  | [] => []
  | .mk _ value :: args => value.literals ++ Arg.literalsOf args
termination_by structural args => args

end

/-- The literals of a declaration. -/
def Item.literals : Item → List Value
  | .wire decl => Call.literalsOf decl.calls
  | .define _ value _ => value.literals

/-- The literals of a program, in the order in which they are written. -/
def literals (p : Program) : List Value := p.items.flatMap Item.literals

/-! ### Comparison -/

mutual

/-- Structural comparison of expressions. Literals are compared as values. -/
def Expr.same : Expr → Expr → Bool
  | .literal a, .literal b => a.equal b
  | .reference a, .reference b => a == b
  | .pipeline as, .pipeline bs => Call.sameList as bs
  | .wire a, .wire b => a == b
  | .constant a, .constant b => a == b
  | .type a, .type b => a == b
  | _, _ => false
termination_by structural e => e

/-- Structural comparison of lists of calls. -/
def Call.sameList : List Call → List Call → Bool
  | [], [] => true
  | a :: as, b :: bs => Call.same a b && Call.sameList as bs
  | _, _ => false
termination_by structural calls => calls

/-- Structural comparison of calls. -/
def Call.same : Call → Call → Bool
  | .mk s as p, .mk t bs q => s == t && Arg.sameList as bs && p == q
termination_by structural call => call

/-- Structural comparison of lists of arguments. -/
def Arg.sameList : List Arg → List Arg → Bool
  | [], [] => true
  | a :: as, b :: bs => Arg.same a b && Arg.sameList as bs
  | _, _ => false
termination_by structural args => args

/-- Structural comparison of arguments. -/
def Arg.same : Arg → Arg → Bool
  | .mk m a, .mk n b => m == n && Expr.same a b
termination_by structural arg => arg

end

/-- Structural comparison of declarations. -/
def Item.same : Item → Item → Bool
  | .wire a, .wire b =>
    a.name == b.name && a.looped == b.looped && Call.sameList a.calls b.calls && a.span == b.span
  | .define m a p, .define n b q => m == n && a.same b && p == q
  | _, _ => false

/-- Structural comparison of programs. -/
def same (p q : Program) : Bool :=
  p.items.length == q.items.length && (p.items.zip q.items).all fun (a, b) => a.same b

end Program

end Dataflow
