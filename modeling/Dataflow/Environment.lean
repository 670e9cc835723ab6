import Dataflow.Program.Error
import Dataflow.Registry
import Dataflow.Store
/-!
# Environments

An environment names wires and constants and knows the registry from which stages are taken. A
derived environment finds names also in those it was derived from, but adds its own to itself.

A program is evaluated in three passes: constants are bound in order, then all wires are declared,
then they are filled. So wires may refer to each other in any order. The environment is replaced at
the end; if a pass fails, it is as it was, and the wires made until then belong to nobody.
-/

namespace Dataflow

/-- The names of one environment. -/
structure Layer where
  wires : List (String × Id .wire) := []
  defines : List (String × Value) := []
  deriving Inhabited

/-- Named wires and constants. -/
structure Environment (H : Host) where
  registry : Registry H
  /-- The environment's own names. -/
  names : Layer := {}
  /-- The names of the environments that it was derived from, nearest first. -/
  parents : List Layer := []

/-- Evaluation adds wires to the store. What it did before an error is not undone. -/
abbrev Build (H : Host) (α : Type) := ExceptT EvalError (StateM (Store H)) α

namespace Environment

variable {H : Host}

instance : Inhabited (Environment H) := ⟨{ registry := default }⟩

/-- A new environment that finds the names of this one. -/
def derive (env : Environment H) : Environment H :=
  { registry := env.registry, parents := env.names :: env.parents }

/-- The wire of a name. -/
def findWire? (env : Environment H) (name : String) : Option (Id .wire) :=
  (env.names :: env.parents).findSome? fun layer => lookup? name layer.wires

/-- The constant of a name. -/
def findDefine? (env : Environment H) (name : String) : Option Value :=
  (env.names :: env.parents).findSome? fun layer => lookup? name layer.defines

/-- Binds a constant. -/
def define (env : Environment H) (name : String) (value : Value) : Environment H :=
  { env with names.defines := upsert name value env.names.defines }

/-- Binds a wire. -/
def bindWire (env : Environment H) (name : String) (wire : Id .wire) : Environment H :=
  { env with names.wires := upsert name wire env.names.wires }

/-- The names of the environment's own wires, in order. -/
def wireNames (env : Environment H) : List String := env.names.wires.map (·.1)

/-- The form that shows the structure. -/
def outline (env : Environment H) : String :=
  Text.record "Environment"
    [("wires", Text.listed (env.wireNames.map Text.quoted)),
      ("defines", Text.listed (env.names.defines.map fun d => Text.quoted d.1)),
      ("has_parent", Text.truth !env.parents.isEmpty)]

/-! ### Expressions and calls -/

/-- The index of the parameter that an argument is for. -/
def argIndex (stage : Stage H) (call : String) (span : Program.Span) (position : Nat) :
    Option String → Except EvalError Nat
  | none => .ok position
  | some name =>
    match paramIndex? stage.params name with
    | some index => .ok index
    | none => .error (span.error (call ++ " has no parameter named " ++ name))

/-- Something that must have been found. -/
def found {α : Type} (span : Program.Span) (message : String) : Option α → Except EvalError α
  | some a => .ok a
  | none => .error (span.error message)

mutual

/-- The value of an expression. A pipeline becomes a new wire named after its owner. -/
def resolve (env : Environment H) (owner : String) (span : Program.Span) :
    Program.Expr → Build H Value
  | .literal value => return value
  | .reference name => return .ref name
  | .type ty => return .type ty
  | .constant name => do
    found span ("Unknown constant: " ++ name) (env.findDefine? name)
  | .wire name => do
    return .wire (← found span ("Unknown wire: " ++ name) (env.findWire? name))
  | .pipeline calls => do
    let id ← modifyGet (·.addWire (owner ++ "-pipeline") false)
    let placed ← placeAll env calls
    modify fun s => s.modifyWire id fun w => placed.foldl Wire.push w
    return .wire id

/-- The stages of a row of calls. -/
def placeAll (env : Environment H) : List Program.Call → Build H (List (Placed H))
  | [] => return []
  | c :: calls => do
    let p ← place env c
    return p :: (← placeAll env calls)

/-- The stage of a call. -/
def place (env : Environment H) : Program.Call → Build H (Placed H)
  | .mk name args span => do
    let stage ← found span ("Unknown shard: " ++ name) (env.registry.create? name)
    if !args.isEmpty && !stage.capabilities.parameters then
      throw (span.error (name ++ " takes no parameters"))
    let stage ← assign env name span 0 stage args
    return { stage, line := span.line.toNat, column := span.column.toNat }

/-- Gives a stage its arguments, from a position on. -/
def assign (env : Environment H) (call : String) (span : Program.Span) (position : Nat)
    (stage : Stage H) : List Program.Arg → Build H (Stage H)
  | [] => return stage
  | .mk name value :: args => do
    let index ← argIndex stage call span position name
    let value ← resolve env call span value
    match stage.setParam index value with
    | .ok stage => assign env call span (position + 1) stage args
    | .error e => throw (span.error (call ++ ": " ++ e.message))

end

/-! ### Programs -/

/-- Binds the constants of a program, in order. -/
def evalDefines : List Program.Item → Environment H → Build H (Environment H)
  | [], env => return env
  | .wire _ :: items, env => evalDefines items env
  | .define name value span :: items, env => do
    let value ← resolve env name span value
    evalDefines items (env.define name value)

/-- Declares the wires of a program, still empty. `declared` holds the names declared before. -/
def declareWires : List Program.WireDecl → (declared : List String) → Environment H →
    Build H (Environment H × List (Program.WireDecl × Id .wire))
  | [], _, env => return (env, [])
  | decl :: decls, declared, env => do
    if declared.contains decl.name then
      throw (decl.span.error ("Wire " ++ decl.name ++ " is declared twice"))
    let id ← modifyGet (·.addWire decl.name decl.looped)
    let (env, rest) ← declareWires decls (decl.name :: declared) (env.bindWire decl.name id)
    return (env, (decl, id) :: rest)

/-- Fills declared wires with their stages. -/
def fillWires (env : Environment H) : List (Program.WireDecl × Id .wire) → Build H PUnit
  | [] => return
  | (decl, id) :: rest => do
    let placed ← placeAll env decl.calls
    modify fun s => s.modifyWire id fun w => placed.foldl Wire.push w
    fillWires env rest

/-- Evaluates every declaration of a program. -/
def eval (env : Environment H) (p : Program) : Build H (Environment H) := do
  let env ← evalDefines p.items env
  let (env, declared) ← declareWires p.wires [] env
  fillWires env declared
  return env

/-- Evaluates every declaration of a program into an environment, which an error leaves as it was. -/
def evalInto (p : Program) (env : Environment H) :
    StateM (Store H) (Except EvalError PUnit × Environment H) := do
  match ← (env.eval p).run with
  | .ok scratch => return (.ok (), scratch)
  | .error e => return (.error e, env)

/-- Evaluates a program for one of its wires, or one of the environment's own. -/
def evalWire (env : Environment H) (p : Program) (name : String) : Build H (Id .wire) := do
  let env ← env.eval p
  match lookup? name env.names.wires with
  | some id => return id
  | none => throw ⟨"Wire " ++ name ++ " is not declared", 0, 0⟩

end Environment

end Dataflow
