import Dataflow.Environment
import Dataflow.Mesh.Basic
import Dataflow.Report.Fault
/-!
# Sessions

A session works on a store by names. It starts with an environment `root` of all built-in stages,
an empty scope `vars` and two boards; everything else gets a name when it is made. An action that
fails leaves what it changed before, and the session goes on.
-/

namespace Dataflow

/-- Why an action of a session failed. -/
inductive Trouble where
  /-- There is nothing of that name. -/
  | unknown (text : String)
  | unknownStage (name : String)
  | noParameters (name : String)
  /-- No variable has that name. -/
  | noSlot
  | param (e : ParamError)
  | activation (e : ActivationError)
  | compose (e : ComposeError)
  | mesh (e : MeshError)
  | eval (e : EvalError)
  | settings (f : Json.Fault)
  | halt (h : Halt)
  /-- The work was broken off by whoever asked for it. -/
  | broken (text : String)

/-- The report of a failed action. Work that was broken off with the text of a violation is
reported as one. -/
def Trouble.report : Trouble → Json.Content
  | unknown text => reportFault "BadInput" text []
  | unknownStage name => reportFault "UnknownShard" name []
  | noParameters name => reportFault "NoParameters" name []
  | noSlot => reportFault "NoSlot" "" []
  | param e => e.report
  | activation e => e.report
  | compose e => e.report
  | mesh e => e.report
  | eval e => e.report
  | settings f => reportFault "Json" f.message []
  | halt h => h.report
  | broken text =>
    reportFault (if announcesViolation text then "Invariant" else "Panic") text []

/-- What names stand for. -/
structure Session (H : Host) where
  store : Store H
  environments : List (String × Environment H)
  scopes : List (String × Id .scope)
  wires : List (String × Id .wire) := []
  queues : List (String × Id .queue) := []
  fans : List (String × Id .fan) := []
  handles : List (String × Mesh.Handle) := []
  /-- Foreign objects by their numbers. -/
  objects : List (Nat × ObjectRef) := []
  /-- The board that is used unless another one is named. -/
  main : Id .board
  alternative : Id .board
  /-- Traces of wires that are watched. -/
  collector : Id .collector
  mesh : Option Mesh := none

/-- An action of a session. -/
abbrev Act (H : Host) (α : Type) := ExceptT Trouble (StateM (Session H)) α

namespace Session

variable {H : Host}

/-- A new session whose queues have room for so many values. -/
def fresh (capacity : Nat) : Session H :=
  let store : Store H := {}
  let (scope, vars) := store.vars.addScope none
  let (main, exchange) := store.exchange.addBoard capacity
  let (alternative, exchange) := exchange.addBoard Board.defaultCapacity
  { store := { store with vars, exchange, collectors := store.collectors.push #[] }
    environments := [("root", { registry := Registry.standard })]
    scopes := [("vars", scope)]
    main, alternative, collector := store.collectors.next }

/-- How often a wire is resumed, or a mesh goes round, before an action is given up. -/
def patience : Nat := 5000000

/-! ### Parts of the store -/

/-- The store as it is now. -/
def current : Act H (Store H) := return (← get).store

/-- Works on the store. -/
def onStore {α : Type} (f : Store H → α × Store H) : Act H α :=
  modifyGet fun s =>
    let (a, store) := f s.store
    (a, { s with store })

/-- Changes the store. -/
def update (f : Store H → Store H) : Act H PUnit := onStore fun s => ((), f s)

/-- Works on the channels. -/
def onExchange {α : Type} (f : Exchange → α × Exchange) : Act H α :=
  onStore fun s =>
    let (a, exchange) := f s.exchange
    (a, { s with exchange })

/-- Works on the variables. -/
def onVars {α : Type} (f : Variables → α × Variables) : Act H α :=
  onStore fun s =>
    let (a, vars) := f s.vars
    (a, { s with vars })

/-- Takes an answer, or its error as trouble. -/
def take {ε α : Type} (trouble : ε → Trouble) : Except ε α → Act H α
  | .ok a => return a
  | .error e => throw (trouble e)

/-- Executes something that can be broken off. -/
def exec {α : Type} (e : Exec H α) : Act H α := do take .halt (← onStore e.run.run)

/-- Something that must be there. -/
def need {α : Type} (text : String) : Option α → Act H α
  | some a => return a
  | none => throw (.unknown text)

/-! ### Names -/

/-- The wire of a name. -/
def wire (name : String) : Act H (Id .wire) := do
  need ("no wire " ++ name) (lookup? name (← get).wires)

/-- The wire of a name as it is now. -/
def wireNow (name : String) : Act H (Wire H) := do
  need ("no wire " ++ name) ((← current).wires.get? (← wire name))

/-- Names a wire. -/
def bindWire (name : String) (id : Id .wire) : Act H PUnit :=
  modify fun s => { s with wires := upsert name id s.wires }

/-- The environment of a name. -/
def environment (name : String) : Act H (Environment H) := do
  need ("no environment " ++ name) (lookup? name (← get).environments)

/-- Names an environment. -/
def bindEnvironment (name : String) (env : Environment H) : Act H PUnit :=
  modify fun s => { s with environments := upsert name env s.environments }

/-- The mesh. -/
def theMesh : Act H Mesh := do need "no mesh" (← get).mesh

/-- Puts a mesh in place of the one there is. -/
def setMesh (m : Mesh) : Act H PUnit := modify fun s => { s with mesh := some m }

/-- The scope of a name; the mesh's variables are called `mesh`. -/
def scope (name : String) : Act H (Id .scope) := do
  if name == "mesh" then return (← theMesh).scope
  need ("no scope " ++ name) (lookup? name (← get).scopes)

/-- Makes a scope. -/
def newScope (name : String) (parent : Option String) : Act H PUnit := do
  let parent ← parent.mapM scope
  let id ← onVars (·.addScope parent)
  modify fun s => { s with scopes := upsert name id s.scopes }

/-- The board of a name: that of the mesh, the alternative one, or else the main one. -/
def board (name : String) : Act H (Id .board) := do
  match name with
  | "mesh" => return (← theMesh).board
  | "alt" => return (← get).alternative
  | _ => return (← get).main

/-- The queue of a name. -/
def queue (name : String) : Act H (Id .queue) := do
  need "no queue" (lookup? name (← get).queues)

/-- Names a queue. -/
def bindQueue (name : String) (id : Id .queue) : Act H PUnit :=
  modify fun s => { s with queues := upsert name id s.queues }

/-- The fan of a name. -/
def fan (name : String) : Act H (Id .fan) := do need "no fan" (lookup? name (← get).fans)

/-- Names a fan. -/
def bindFan (name : String) (id : Id .fan) : Act H PUnit :=
  modify fun s => { s with fans := upsert name id s.fans }

/-- The scheduled run of a name. -/
def handle (name : String) : Act H Mesh.Handle := do
  need "no handle" (lookup? name (← get).handles)

/-- The foreign object of a number. Its first use says of what type it is. -/
def object (number : Nat) (vendor kind : FourCC) : Act H ObjectRef := do
  match (← get).objects.lookup number with
  | some o => return o
  | none =>
    let o : ObjectRef := ⟨vendor, kind, .foreign number⟩
    modify fun s => { s with objects := (number, o) :: s.objects }
    return o

/-! ### Variables -/

/-- The slot that a name means in a scope. -/
def slot? (scopeName name : String) : Act H (Option (Id .slot)) := do
  let scope ← scope scopeName
  return (← current).vars.find? scope name

/-- The value in a slot. -/
def read (slot : Id .slot) : Act H Value := return (← current).vars.read slot

/-- Declares a variable. Answers its value. -/
def declare (scopeName name : String) : Act H Value := do
  let scope ← scope scopeName
  let slot ← onVars (·.declare scope name)
  read slot

/-- Binds a variable. Answers its value. -/
def insert (scopeName name : String) (value : Value) (isProtected : Bool) : Act H Value := do
  let scope ← scope scopeName
  let slot ← onVars (·.insert scope name value isProtected)
  read slot

/-- Changes the value of a variable. Answers the values before and after. -/
def change (scopeName name : String) (f : Id .slot → Variables → Variables) :
    Act H (Value × Value) := do
  match ← slot? scopeName name with
  | none => throw .noSlot
  | some slot =>
    let before ← read slot
    onVars fun vars => ((), f slot vars)
    return (before, ← read slot)

/-- Works while a variable holds an object. -/
def withObject {α : Type} (scopeName name : String) (object : ObjectRef) (work : Act H α) :
    Act H α := do
  let scope ← scope scopeName
  let slot ← onVars (·.declare scope name)
  ExceptT.mk (Dataflow.withObject (fun s : Session H => s.store.vars.read slot)
    (fun v s => { s with store.vars := s.store.vars.write slot v })
    (fun v => .halt (.violation v)) object work.run)

end Session

end Dataflow
