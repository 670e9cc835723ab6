import Dataflow.Host
/-!
# Scripted units

Units that do what a script tells them, one entry for each activation, and write a note about
everything that happens to them. They show from outside what wires do with their stages.
-/

namespace Dataflow.Script

/-- One entry of a script. -/
inductive Action where
  | pass
  | proceed (v : Value)
  | finish (v : Value)
  | stop (v : Value)
  | suspend (point : Suspension)
  | fail (e : ActivationError)
  /-- Notes what the unit sees. -/
  | look
  /-- Outputs a variable. -/
  | read (name : String)
  /-- Sets a variable that is there. -/
  | set (name : String) (v : Value)
  /-- Declares a variable and sets it. -/
  | declare (name : String) (v : Value)
  deriving Repr, Inhabited

/-- What a unit answers when it is composed. -/
inductive Answer where
  /-- Its input type. -/
  | echo
  | ok (t : Ty)
  | error (text : String)
  deriving Repr, Inhabited

/-- How a unit is warmed up. -/
structure Lifecycle where
  warmupError : Option String := none
  /-- Notes what the unit sees when it is warmed up. -/
  looks : Bool := false
  deriving Repr, Inhabited

/-- What a unit sees of a run. -/
structure Sight where
  wireName : String
  wireInput : Value
  iteration : Nat
  stopRequested : Bool
  channels : List String
  hasParentScope : Bool
  /-- The input of the activation. -/
  input : Option Value
  deriving Repr, Inhabited

/-- What units write into the journal. -/
inductive Note where
  | line (text : String)
  | composed (name : String) (site : Site)
  | sight (s : Sight)
  | buffer (identity length : Nat) (zeroed : Bool) (source : String)
  | released (source : String)
  deriving Repr, Inhabited

/-- A unit that follows a script. -/
structure Actor where
  name : String := "Mock"
  inputs : List Ty := [.any]
  outputs : List Ty := [.any]
  compose : Option Answer := none
  params : Option (List (Param × Value)) := none
  lifecycle : Option Lifecycle := none
  hasVariables : Bool := false
  exposed : List VarDecl := []
  required : List VarDecl := []
  lent : List VarDecl := []
  /-- What is still to be done; afterwards the unit passes its input on. -/
  script : List Action := []
  deriving Repr, Inhabited

/-- A unit that asks a buffer source for buffers and keeps them until its script lets go. -/
structure Probe where
  source : BufferSource
  /-- For each activation, the numbers of the buffers to let go before. -/
  script : List (List Nat)
  /-- Kept buffers by their numbers. -/
  held : List (Option ObjectId) := []
  /-- Buffers in the order of their first appearance. -/
  seen : List ObjectId := []

/-- A scripted unit. -/
inductive Unit where
  | actor (a : Actor)
  | probe (p : Probe)

/-! ### Actors -/

/-- What is seen through a view. -/
def sight (v : View) (input : Option Value) : Sight :=
  ⟨v.wireName, v.wireInput, v.iteration, v.stopRequested, v.channelNames, v.hasParentScope, input⟩

/-- A reaction that leaves variables and the heap alone. -/
def Actor.reaction {α : Type} (a : Actor) (heap : Heap) (notes : List Note) (answer : α) :
    Reaction Unit Note α :=
  ⟨.actor a, notes, [], heap, answer⟩

/-- A reaction that writes to a variable and passes the input on. -/
def Actor.writing (a : Actor) (heap : Heap) (notes : List Note) (input : Value) (write : Write) :
    Reaction Unit Note (Except ActivationError Activation) :=
  ⟨.actor a, notes, [write], heap, .ok (.proceed input)⟩

/-- Carries out one entry of a script. -/
def Actor.perform (a : Actor) (v : View) (input : Value) (action : Action) :
    Reaction Unit Note (Except ActivationError Activation) :=
  let notes := [Note.line ("activate " ++ a.name)]
  match action with
  | .pass => a.reaction v.heap notes (.ok (.proceed input))
  | .proceed value => a.reaction v.heap notes (.ok (.proceed value))
  | .finish value => a.reaction v.heap notes (.ok (.finish value))
  | .stop value => a.reaction v.heap notes (.ok (.stop value))
  | .suspend point => a.reaction v.heap notes (.ok (.suspend point))
  | .fail e => a.reaction v.heap notes (.error e)
  | .look => a.reaction v.heap (notes ++ [.sight (sight v (some input))]) (.ok (.proceed input))
  | .read name =>
    match v.find name with
    | some value => a.reaction v.heap notes (.ok (.proceed value))
    | none => a.reaction v.heap notes (.error (.missingVariable name))
  | .set name value =>
    match v.find name with
    | some _ => a.writing v.heap notes input (.set name value)
    | none => a.reaction v.heap notes (.error (.missingVariable name))
  | .declare name value => a.writing v.heap notes input (.declare name value)

/-- Activates an actor: the next entry of its script. -/
def Actor.activate (a : Actor) (v : View) (input : Value) :
    Reaction Unit Note (Except ActivationError Activation) :=
  match a.script with
  | [] => a.perform v input .pass
  | action :: rest => Actor.perform { a with script := rest } v input action

/-- Composes an actor and notes where. -/
def Actor.composeAt (a : Actor) (site : Site) (heap : Heap) :
    Reaction Unit Note (Except ComposeError Ty) :=
  let notes := [Note.composed a.name site]
  match a.compose with
  | some (.ok t) => a.reaction heap notes (.ok t)
  | some (.error text) => a.reaction heap notes (.error (.plain text))
  | _ => a.reaction heap notes (.ok site.input)

/-- Warms an actor up. -/
def Actor.warmup (a : Actor) (v : View) : Reaction Unit Note (Except ActivationError PUnit) :=
  match a.lifecycle with
  | none => a.reaction v.heap [] (.ok ())
  | some l =>
    let notes := [Note.line ("warmup " ++ a.name)] ++
      (if l.looks then [.sight (sight v none)] else [])
    match l.warmupError with
    | some text => a.reaction v.heap notes (.error (.failed text))
    | none => a.reaction v.heap notes (.ok ())

/-- Sets a parameter of an actor, if its type is accepted. -/
def Actor.setParam (a : Actor) (index : Nat) (value : Value) : Except ParamError Unit :=
  let params := a.params.getD []
  match params[index]? with
  | none => .error (.outOfRange index)
  | some (param, _) => do
    param.check value
    return .actor { a with params := some (params.set index (param, value)) }

/-! ### Probes -/

/-- Whether a probe keeps a buffer. -/
def Probe.keeps (p : Probe) (id : ObjectId) : Bool := p.held.contains (some id)

/-- Lets go of the buffers that the next entry of the script names. -/
def Probe.letGo (p : Probe) : Probe :=
  match p.script with
  | [] => p
  | numbers :: rest =>
    { p with script := rest, held := numbers.foldl (fun held n => held.set n none) p.held }

/-- Activates a probe: lets go, takes a buffer, notes what it is like, and scribbles on it. -/
def Probe.activate (p : Probe) (v : View) (input : Value) :
    Reaction Unit Note (Except ActivationError Activation) :=
  let p := p.letGo
  match p.source.next p.keeps v.heap with
  | .error violation =>
    ⟨.probe p, [], [], v.heap, .error (.failed violation.message)⟩
  | .ok (object, source, heap) =>
    let seen := if p.seen.contains object.id then p.seen else p.seen ++ [object.id]
    let octets := heap.octets object.id
    let note := Note.buffer (seen.idxOf object.id) octets.length (octets.all (· == 0))
      source.outline
    ⟨.probe { p with source, seen, held := p.held ++ [some object.id] }, [note], [],
      heap.write object.id (List.replicate (octets.length + 1) 255), .ok (.proceed input)⟩

/-- Cleans a probe up. -/
def Probe.cleanup (p : Probe) (heap : Heap) : Reaction Unit Note PUnit :=
  let p := { p with held := [] }
  let source := (p.source.reclaim p.keeps).toOption.getD p.source
  ⟨.probe { p with source }, [.released source.outline], [], heap, ()⟩

/-! ### The host -/

/-- Which optional hooks a scripted unit has. -/
def Unit.capabilities : Unit → Capabilities
  | .actor a => ⟨a.compose.isSome, a.params.isSome, a.lifecycle.isSome, a.hasVariables⟩
  | .probe _ => { lifecycle := true }

theorem Actor.capabilities_composeAt (a : Actor) (site : Site) (heap : Heap) :
    (a.composeAt site heap).unit.capabilities = Unit.capabilities (.actor a) := by
  unfold composeAt
  split <;> rfl

theorem Actor.capabilities_warmup (a : Actor) (v : View) :
    (a.warmup v).unit.capabilities = Unit.capabilities (.actor a) := by
  unfold warmup
  split
  · rfl
  · dsimp only
    split <;> rfl

theorem Actor.capabilities_perform (a : Actor) (v : View) (input : Value) (action : Action) :
    (a.perform v input action).unit.capabilities = Unit.capabilities (.actor a) := by
  cases action <;> simp only [perform] <;> first | rfl | split <;> rfl

theorem Actor.capabilities_activate (a : Actor) (v : View) (input : Value) :
    (a.activate v input).unit.capabilities = Unit.capabilities (.actor a) := by
  unfold activate
  split <;> rw [capabilities_perform]
  rfl

theorem Probe.capabilities_activate (p : Probe) (v : View) (input : Value) :
    (p.activate v input).unit.capabilities = Unit.capabilities (.probe p) := by
  unfold activate
  dsimp only
  split <;> rfl

/-- The host of scripted units. -/
def host : Host where
  Unit := Unit
  Note := Note
  name
    | .actor a => a.name
    | .probe _ => "BufferProbe"
  inputs
    | .actor a => a.inputs
    | .probe _ => [.any]
  outputs
    | .actor a => a.outputs
    | .probe _ => [.any]
  capabilities := Unit.capabilities
  params
    | .actor a => (a.params.getD []).map (·.1)
    | .probe _ => []
  getParam
    | .actor a, index => (((a.params.getD [])[index]?).map (·.2)).getD .nothing
    | .probe _, _ => .nothing
  setParam
    | .actor a, index, value => a.setParam index value
    | .probe _, index, _ => .error (.outOfRange index)
  exposed
    | .actor a => a.exposed
    | .probe _ => []
  required
    | .actor a => a.required
    | .probe _ => []
  lent
    | .actor a, _ => a.lent
    | .probe _, _ => []
  compose
    | .actor a, site, heap => a.composeAt site heap
    | .probe p, site, heap => ⟨.probe p, [], [], heap, .ok site.input⟩
  warmup
    | .actor a, v => a.warmup v
    | .probe p, v => ⟨.probe p, [], [], v.heap, .ok ()⟩
  activate
    | .actor a, v, input => a.activate v input
    | .probe p, v, input => p.activate v input
  cleanup
    | .actor a, heap => a.reaction heap [.line ("cleanup " ++ a.name)] ()
    | .probe p, heap => p.cleanup heap
  holds
    | .actor a, id =>
      ((a.params.getD []).map (·.2)).any (·.anyObject (·.id == id)) ||
        a.script.any fun
          | .proceed v | .finish v | .stop v | .set _ v | .declare _ v => v.anyObject (·.id == id)
          | _ => false
    | .probe p, id => p.keeps id
  capabilities_compose
    | .actor a, site, heap => a.capabilities_composeAt site heap
    | .probe _, _, _ => rfl
  capabilities_warmup
    | .actor a, v => a.capabilities_warmup v
    | .probe _, _ => rfl
  capabilities_activate
    | .actor a, v, input => a.capabilities_activate v input
    | .probe p, v, input => p.capabilities_activate v input
  capabilities_cleanup
    | .actor _, _ => rfl
    | .probe _, _ => rfl

end Dataflow.Script
