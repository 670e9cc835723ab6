import Dataflow.Composition.Key
import Dataflow.ScopedBinding
import Dataflow.Store
/-!
# Warming up and cleaning up

Before a run every stage acquires what it needs, and after the run gives it back, the last stage
first. A stage is cleaned up exactly if it was warmed up, also if its own warm-up failed.
-/

namespace Dataflow

variable {H : Host}

/-- What an action of a stage leads to: the stage as it is afterwards, and the answer, unless the
action was broken off. -/
structure Step (H : Host) (α : Type) where
  stage : Stage H
  answer : Except Halt (Except ActivationError α)

/-- The step of an action that was answered. -/
def Step.of {α : Type} (stage : Stage H) (answer : Except ActivationError α) : Step H α :=
  ⟨stage, .ok answer⟩

namespace Store

/-! ### Units of the host -/

/-- What a unit sees while its wire runs. -/
def view (s : Store H) (wire : Wire H) (iteration : Nat) : View where
  wireName := wire.name
  wireInput := wire.input
  iteration := iteration
  stopRequested := (s.run wire.run).stopRequested
  channelNames := (s.exchange.board wire.board).names
  hasParentScope := (s.vars.scope wire.scope).parent.isSome
  find := fun name => (s.vars.find? wire.scope name).map s.vars.read
  heap := s.heap

/-- Carries out a write in a scope. A variable that is not there is not set. -/
def applyWrite (scope : Id .scope) (vars : Variables) : Write → Variables
  | .set name value =>
    match vars.find? scope name with
    | some slot => vars.write slot value
    | none => vars
  | .declare name value =>
    let (slot, vars) := vars.declare scope name
    vars.write slot value

/-- Takes a reaction into account. -/
def absorb {α : Type} (s : Store H) (scope : Id .scope) (r : Reaction H.Unit H.Note α) : Store H :=
  { s with
    journal := s.journal ++ r.notes
    vars := r.writes.foldl (applyWrite scope) s.vars
    heap := r.heap }

/-! ### Parts of a run -/

/-- Ends the run of a wire with an outcome, which is published in the record of the run. -/
def conclude (s : Store H) (id : Id .wire) (outcome : Outcome) : Store H :=
  match s.wires.get? id with
  | none => s
  | some wire =>
    (s.modifyWire id fun w => { w with cursor := .idle, current := .nothing }).modifyRun wire.run
      (·.close outcome)

/-- Starts a run at the first stage. -/
def start (s : Store H) (id : Id .wire) (input : Value) : Store H :=
  match s.wires.get? id with
  | none => s
  | some wire =>
    (s.modifyWire id fun w =>
      { w with current := input, input, lastOutput := .nothing, iteration := 0,
               cursor := .running 0 }).modifyRun wire.run
      fun r => { r with stopRequested := false, state := .running }

/-- Asks the current run of a wire to stop. -/
def requestStop (s : Store H) (id : Id .wire) : Store H :=
  match s.wires.get? id with
  | none => s
  | some wire => s.modifyRun wire.run fun r => { r with stopRequested := true }

end Store

/-! ### Cleaning up -/

namespace Stage

/-- Gives back what a stage has acquired. `endNested` ends a nested wire; `keep` is held by the
caller. -/
def cleanup (endNested : Id .wire → Exec H PUnit) (keep : Value) (stage : Stage H) :
    Exec H (Stage H) := do
  match stage with
  | add operand => return add operand.release
  | set name ty _ => return set name ty none
  | get name _ => return get name none
  | update name ty _ => return update name ty none
  | pause time _ => return pause time false
  | buffer source =>
    let s ← getThe (Store H)
    match source.reclaim fun id => s.holds id || keep.anyObject (·.id == id) with
    | .ok source => return buffer source
    | .error v => throw (.violation v)
  | inline sub =>
    if let some wire := sub.wire then endNested wire
    return inline { sub with running := false }
  | bound name sub _ =>
    if let some wire := sub.wire then endNested wire
    return bound name { sub with running := false } none
  | produce sender _ => return produce sender none
  | broadcast sender _ => return broadcast sender none
  | consume r queue =>
    modifyGetThe (Store H) fun s =>
      let (r, q) := r.release (queue.bind s.exchange.queues.get?)
      match queue, q with
      | some id, some q =>
        (consume r none,
          { s with exchange.queues := s.exchange.queues.set id q })
      | _, _ => (consume r none, s)
  | listen r queue =>
    modifyGetThe (Store H) fun s =>
      let (r, q) := r.release (queue.bind s.exchange.queues.get?)
      match queue, q with
      | some id, some q =>
        (listen r none,
          { s with exchange.queues := s.exchange.queues.set id q.close })
      | _, _ => (listen r none, s)
  | unit u =>
    modifyGetThe (Store H) fun s =>
      let r := H.cleanup u s.heap
      (unit r.unit, { s.note r.notes with heap := r.heap })
  | const _ | pass | input | fail _ | stop | finish | complete _ | flush _ => return stage

end Stage

namespace Store

/-- The stage at a position of a wire. -/
def placedAt? (s : Store H) (id : Id .wire) (position : Nat) : Option (Placed H) := do
  (← s.wires.get? id).stages[position]?

/-- Cleans up the stages below a position, last to first. -/
def cleanupBelow (endNested : Id .wire → Exec H PUnit) (keep : Value) (id : Id .wire) :
    Nat → Exec H PUnit
  | 0 => return
  | position + 1 => do
    if let some placed := (← get).placedAt? id position then
      if placed.warmedUp then
        modify fun s => s.modifyWire id
          (·.modifyPlaced position fun p => { p with warmedUp := false })
        if placed.stage.capabilities.lifecycle then
          let stage ← placed.stage.cleanup endNested keep
          modify fun s => s.modifyWire id (·.setStage position stage)
    cleanupBelow endNested keep id position

/-- Cleans up every stage of a wire that was warmed up; nested wires at most so deep. -/
def cleanupWithin : Nat → Value → Id .wire → Exec H PUnit
  | 0, _, _ => throw .stuck
  | depth + 1, keep, id => do
    let endNested (sub : Id .wire) : Exec H PUnit := do
      let running := (((← get).wires.get? sub).map (·.midRun)).getD false
      cleanupWithin depth keep sub
      if running then modify (·.conclude sub (.stopped .nothing))
    if let some wire := (← get).wires.get? id then
      cleanupBelow endNested keep id wire.stages.length

/-- Cleans up every stage of a wire that was warmed up, last to first. -/
def cleanup (id : Id .wire) (keep : Value) : Exec H PUnit := do
  cleanupWithin (← get).depthBound keep id

/-- Ends the current run: cleans up and publishes the outcome. -/
def endRun (id : Id .wire) (outcome : Outcome) : Exec H Outcome := do
  cleanup id outcome.output
  modify (·.conclude id outcome)
  return outcome

/-- Ends a run that can no longer be driven with the output of its last completed iteration. -/
def abandon (id : Id .wire) : Exec H Outcome := do
  let output := (((← get).wires.get? id).map (·.lastOutput)).getD .nothing
  modify fun s => s.modifyWire id fun w => { w with lastOutput := .nothing }
  endRun id (.stopped output)

end Store

/-! ### Warming up -/

/-- How a nested wire is warmed up in the scope of the wire around it. -/
abbrev NestedWarmup (H : Host) := Id .wire → Value → Id .scope → Id .board →
  Exec H (Except ActivationError PUnit)

namespace Stage

/-- Resolves an operand that refers to a variable. -/
def resolveOperand (vars : Variables) (scope : Id .scope) (operand : Operand) :
    Except ActivationError Operand :=
  match operand.referent? with
  | none => .ok operand
  | some name =>
    match vars.find? scope name with
    | some slot => .ok { operand with slot := some slot }
    | none => .error (.missingVariable name)

/-- Warms up a nested wire in the scope of the wire around it. -/
def warmupNested (nested : NestedWarmup H) (wire : Wire H) (sub : Nested) :
    StateM (Store H) (Except Halt (Except ActivationError PUnit)) := do
  match sub.wire with
  | none => return .ok (.error (.failed "Do requires a Wire"))
  | some id =>
    let name := (← getThe (Store H)).wireName id
    match ← (nested id wire.input wire.scope wire.board).run with
    | .error halt => return .error halt
    | .ok (.ok _) => return .ok (.ok ())
    | .ok (.error e) => return .ok (.error (.nestedWire name e.message))

/-- Resolves a channel on the board of a wire. -/
def warmupChannel {α : Type} (resolve : Exchange → Except ComposeError α × Exchange) :
    StateM (Store H) (Except ActivationError α) :=
  modifyGetThe (Store H) fun s =>
    let (answer, exchange) := resolve s.exchange
    (answer.mapError fun e => .failed e.message, { s with exchange })

/-- Acquires what a stage needs for a run of its wire. -/
def warmup (nested : NestedWarmup H) (wire : Wire H) (stage : Stage H) :
    StateM (Store H) (Step H PUnit) := do
  match stage with
  | add operand =>
    match resolveOperand (← getThe (Store H)).vars wire.scope operand with
    | .ok operand => return .of (add operand) (.ok ())
    | .error e => return .of stage (.error e)
  | set name ty _ =>
    let s ← getThe (Store H)
    if s.vars.isProtected wire.scope name then
      return .of stage (.error (.protectedVariable name))
    let (slot, vars) := s.vars.declare wire.scope name
    modify fun s => { s with vars }
    return .of (set name ty (some slot)) (.ok ())
  | get name _ =>
    match (← getThe (Store H)).vars.find? wire.scope name with
    | some slot => return .of (get name (some slot)) (.ok ())
    | none => return .of stage (.error (.missingVariable name))
  | update name ty _ =>
    let s ← getThe (Store H)
    if s.vars.isProtected wire.scope name then
      return .of stage (.error (.protectedVariable name))
    match s.vars.find? wire.scope name with
    | some slot => return .of (update name ty (some slot)) (.ok ())
    | none => return .of stage (.error (.missingVariable name))
  | inline sub =>
    let sub := { sub with running := false }
    return ⟨inline sub, ← warmupNested nested wire sub⟩
  | bound name sub _ =>
    let (slot, vars) := (← getThe (Store H)).vars.declare wire.scope name
    modify fun s => { s with vars }
    let sub := { sub with running := false }
    return ⟨bound name sub (some slot), ← warmupNested nested wire sub⟩
  | produce sender _ =>
    match ← warmupChannel (·.initQueue wire.board sender.name sender.ty sender.noCopy) with
    | .ok queue => return .of (produce sender (some queue)) (.ok ())
    | .error e => return .of stage (.error e)
  | broadcast sender _ =>
    match ← warmupChannel (·.initFan wire.board sender.name sender.ty sender.noCopy) with
    | .ok fan => return .of (broadcast sender (some fan)) (.ok ())
    | .error e => return .of stage (.error e)
  | consume r _ =>
    match ← warmupChannel (·.initQueue wire.board r.name r.ty r.noCopy) with
    | .ok queue => return .of (consume r (some queue)) (.ok ())
    | .error e => return .of stage (.error e)
  | listen r _ =>
    match ← warmupChannel (·.initFan wire.board r.name r.ty r.noCopy) with
    | .ok fan =>
      let (queue, exchange) := (← getThe (Store H)).exchange.subscribe fan
      modify fun s => { s with exchange }
      return .of (listen r queue) (.ok ())
    | .error e => return .of stage (.error e)
  | unit u =>
    let r := H.warmup u ((← getThe (Store H)).view wire 0)
    modify (·.absorb wire.scope r)
    return .of (unit r.unit) r.answer
  | const _ | pass | input | pause .. | buffer _ | fail _ | stop | finish | complete _ | flush _ =>
    return .of stage (.ok ())

end Stage

namespace Store

/-- Warms up so many stages from a position on, until one fails. -/
def warmupFrom (nested : NestedWarmup H) (id : Id .wire) :
    (position count : Nat) → Exec H (Except ActivationError PUnit)
  | _, 0 => return .ok ()
  | position, count + 1 => do
    modify fun s => s.modifyWire id (·.modifyPlaced position fun p => { p with warmedUp := true })
    let s ← get
    match s.wires.get? id, s.placedAt? id position with
    | some wire, some placed =>
      if placed.stage.capabilities.lifecycle then
        let step ← (placed.stage.warmup nested wire : StateM (Store H) _)
        modify fun s => s.modifyWire id (·.setStage position step.stage)
        match step.answer with
        | .error halt => throw halt
        | .ok (.error e) => return .error e
        | .ok (.ok _) => warmupFrom nested id (position + 1) count
      else warmupFrom nested id (position + 1) count
    | _, _ => return .ok ()

/-- Acquires what all stages need for a run whose variables live in `scope`; nested wires at most
so deep. After a failure everything is cleaned up again. -/
def warmupWithin : Nat → Id .wire → Value → Id .scope → Id .board →
    Exec H (Except ActivationError PUnit)
  | 0, _, _, _, _ => throw .stuck
  | depth + 1, id, input, scope, board => do
    match (← get).wires.get? id with
    | none => return .ok ()
    | some wire =>
      if wire.composed.isNone then return .error (.notComposed wire.name)
      modify fun s => s.modifyWire id fun w => { w with scope, board, input }
      match ← warmupFrom (warmupWithin depth) id 0 wire.stages.length with
      | .ok _ => return .ok ()
      | .error e =>
        cleanup id .nothing
        return .error e

/-- Warms up a wire whose variables live directly in `scope`. -/
def warmupIn (id : Id .wire) (input : Value) (scope : Id .scope) (board : Id .board) :
    Exec H (Except ActivationError PUnit) := do
  warmupWithin (← get).depthBound id input scope board

/-- Warms up a wire in a new scope. -/
def warmup (id : Id .wire) (input : Value) (parent : Option (Id .scope)) (board : Id .board) :
    Exec H (Except ActivationError PUnit) := do
  let (scope, vars) := (← get).vars.addScope parent
  modify fun s => { s with vars }
  warmupIn id input scope board

/-- Warms up a wire and starts a run of its own record. A failed warm-up ends the run as failed. -/
def beginRun (id : Id .wire) (input : Value) (parent : Option (Id .scope)) (board : Id .board) :
    Exec H (Except ActivationError PUnit) := do
  modify fun s =>
    { s.modifyWire id (fun w => { w with run := s.runs.next }) with runs := s.runs.push {} }
  match ← warmup id input parent board with
  | .error e =>
    modify (·.conclude id (.failed ⟨e.message, "", 0⟩))
    return .error e
  | .ok _ =>
    modify (·.start id input)
    return .ok ()

end Store

end Dataflow
