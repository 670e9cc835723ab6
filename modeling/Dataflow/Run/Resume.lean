import Dataflow.Run.Lifecycle
/-!
# Activating stages and resuming wires

A resumed wire activates its stages in order until one of them suspends, the run ends, or an
iteration of a looped wire is complete. A suspended stage is activated again with the same input.
A stop request is noticed between two activations.
-/

namespace Dataflow

variable {H : Host}

namespace Stage

/-! ### Activations -/

/-- The sum of two numbers of one kind. -/
def sum : Value → Value → Except ActivationError Value
  | .int a, .int b =>
    let exact := a.toInt + b.toInt
    if -0x8000000000000000 ≤ exact ∧ exact < 0x8000000000000000 then
      .ok (.int (Int64.ofInt exact))
    else .error .overflow
  | .float a, .float b => .ok (.float (a.add b))
  | a, b => .error (.typeMismatch a.kindName b.kindName)

/-- The message of a failure in a nested wire. -/
def nestedFailure (wire : String) (f : Failure) : ActivationError :=
  .nestedWire wire (f.stage ++ " (position " ++ toString f.position ++ "): " ++ f.message)

/-- Starts a nested wire unless it is running, and resumes it. -/
def activateNested (resume : Id .wire → Exec H Progress) (sub : Nested) (input : Value) :
    StateM (Store H) (Nested × Except Halt (Except ActivationError Activation)) := do
  match sub.wire with
  | none => return (sub, .ok (.error (.failed "Do requires a Wire")))
  | some id =>
    if !sub.running then modify (·.start id input)
    match ← (resume id).run with
    | .error halt => return (sub, .error halt)
    | .ok (.suspended point) => return ({ sub with running := true }, .ok (.ok (.suspend point)))
    | .ok (.finished output) => return ({ sub with running := false }, .ok (.ok (.proceed output)))
    | .ok (.failed failure) =>
      return ({ sub with running := false },
        .ok (.error (nestedFailure ((← getThe (Store H)).wireName id) failure)))

/-- Activates a nested wire with its input object bound to the slot. What became of the nested wire
is kept also if the binding turns out broken. -/
def activateBound (resume : Id .wire → Exec H Progress) (sub : Nested) (slot : Id .slot)
    (object : ObjectRef) (input : Value) :
    StateM (Store H) (Nested × Except Halt (Except ActivationError Activation)) := fun s =>
  let work : StateM (Nested × Store H) (Except Halt (Except ActivationError Activation)) :=
    fun (sub, s) =>
      let ((sub, answer), s) := activateNested resume sub input s
      (answer, (sub, s))
  let (answer, (sub, s)) :=
    withObject (fun (_, s) => s.vars.read slot)
      (fun v (sub, s) => (sub, { s with vars := s.vars.write slot v }))
      .violation object work (sub, s)
  ((sub, answer), s)

/-- Sends a value into a queue of the store. -/
def sendTo (id : Id .queue) (v : Value) : StateM (Store H) SendOutcome :=
  modifyGetThe (Store H) fun s =>
    match s.exchange.queues.get? id with
    | none => (.closed, s)
    | some q =>
      let (sent, q) := q.send v
      (sent, { s with exchange.queues := s.exchange.queues.set id q })

/-- Lets a receiver drain a queue of the store. -/
def receiveFrom (id : Id .queue) (r : Receiver) : StateM (Store H) (Activation × Receiver) :=
  modifyGetThe (Store H) fun s =>
    match s.exchange.queues.get? id with
    | none => ((.stop .nothing, r), s)
    | some q =>
      let (answer, r, q) := r.receive q
      ((answer, r), { s with exchange.queues := s.exchange.queues.set id q })

/-- Activates a stage of `wire` with an input. `resume` resumes a nested wire. -/
def activate (resume : Id .wire → Exec H Progress) (wire : Wire H) (stage : Stage H)
    (input : Value) : StateM (Store H) (Step H Activation) := do
  match stage with
  | const value => return .of stage (.ok (.proceed value))
  | pass => return .of stage (.ok (.proceed input))
  | Stage.input => return .of stage (.ok (.proceed wire.input))
  | add operand =>
    let s ← getThe (Store H)
    return .of stage ((sum input (operand.current s.vars.read)).map .proceed)
  | set _ _ slot =>
    if let some slot := slot then
      modify fun s => { s with vars := s.vars.assign slot input }
    return .of stage (.ok (.proceed input))
  | get name slot =>
    match slot with
    | some slot => return .of stage (.ok (.proceed ((← getThe (Store H)).vars.read slot)))
    | none => return .of stage (.error (.missingVariable name))
  | update name _ slot =>
    match slot with
    | some slot =>
      modify fun s => { s with vars := s.vars.assign slot input }
      return .of stage (.ok (.proceed input))
    | none => return .of stage (.error (.missingVariable name))
  | pause time paused =>
    if paused then return .of (pause time false) (.ok (.proceed input))
    match pauseDelay time with
    | .ok (some delay) => return .of (pause time true) (.ok (.suspend (.sleep delay)))
    | .ok none => return .of (pause time true) (.ok (.suspend .yield))
    | .error reason => return .of stage (.error (.failed reason))
  | buffer source =>
    let s ← getThe (Store H)
    match source.next s.holds s.heap with
    | .error v => return ⟨stage, .error (.violation v)⟩
    | .ok (object, source, heap) =>
      modify fun s => { s with heap }
      return .of (buffer source) (.ok (.proceed (.object object)))
  | fail message =>
    return .of stage (.error (.failed (if message.isEmpty then "Fail" else message)))
  | stop => return .of stage (.ok (.stop input))
  | finish => return .of stage (.ok (.finish input))
  | inline sub =>
    let (sub, answer) ← activateNested resume sub input
    return ⟨inline sub, answer⟩
  | bound name sub slot =>
    match input, slot with
    | .object object, some slot =>
      let (sub, answer) ← activateBound resume sub slot object input
      return ⟨bound name sub slot, answer⟩
    | .object _, none =>
      return .of stage (.error (.failed ("With " ++ name ++ " was not warmed up")))
    | other, _ =>
      return .of stage
        (.error (.failed ("With expects an Object input, found " ++ other.ty.text)))
  | produce _ queue =>
    match queue with
    | none => return .of stage (.ok (.proceed input))
    | some id =>
      match ← sendTo id input with
      | .full => return .of stage (.ok (.suspend .yield))
      | .delivered | .closed => return .of stage (.ok (.proceed input))
  | broadcast _ fan =>
    if let some id := fan then
      modify fun s => { s with exchange := (s.exchange.publish id input).2 }
    return .of stage (.ok (.proceed input))
  | consume r queue =>
    match queue with
    | none => return .of stage (.ok (.stop .nothing))
    | some id =>
      let (answer, r) ← receiveFrom id r
      return .of (consume r queue) (.ok answer)
  | listen r queue =>
    match queue with
    | none => return .of stage (.ok (.stop .nothing))
    | some id =>
      let (answer, r) ← receiveFrom id r
      return .of (listen r queue) (.ok answer)
  | complete name =>
    modify fun s =>
      let (channel, exchange) := s.exchange.resolve wire.board name
      { s with exchange := (exchange.close channel).2 }
    return .of stage (.ok (.proceed input))
  | flush name =>
    modify fun s =>
      let (channel, exchange) := s.exchange.resolve wire.board name
      { s with exchange := (exchange.flush channel).2 }
    return .of stage (.ok (.proceed input))
  | unit u =>
    let r := H.activate u ((← getThe (Store H)).view wire wire.iteration) input
    modify (·.absorb wire.scope r)
    return .of (unit r.unit) r.answer

end Stage

namespace Store

/-! ### Parts of a resumption -/

/-- Whether the current run of a wire was asked to stop. -/
def stopping (s : Store H) (wire : Wire H) : Bool := (s.run wire.run).stopRequested

/-- Takes the output of the last completed iteration out of the wire. -/
def takeLastOutput (id : Id .wire) : Exec H Value := do
  let output := (((← get).wires.get? id).map (·.lastOutput)).getD .nothing
  modify fun s => s.modifyWire id fun w => { w with lastOutput := .nothing }
  return output

/-- Suspends a run at a position. -/
def suspend (id : Id .wire) (position : Nat) (point : Suspension) : Exec H Progress := do
  modify fun s =>
    match s.wires.get? id with
    | none => s
    | some wire =>
      (s.modifyWire id fun w => { w with cursor := .suspendedAt position point }).modifyRun wire.run
        fun r => { r with state := .suspended }
  return .suspended point

/-- Completes an iteration, behind the last stage. A looped wire begins the next one when it is
resumed again. -/
def completeIteration (id : Id .wire) : Exec H Progress := do
  match (← get).wires.get? id with
  | none => return .finished .nothing
  | some wire =>
    if (← get).stopping wire then return .finished (← takeLastOutput id)
    if wire.looped then
      modify fun s => s.modifyWire id fun w =>
        { w with lastOutput := w.current, current := w.input, iteration := w.iteration + 1 }
      suspend id 0 .yield
    else
      modify fun s => s.modifyWire id fun w =>
        { w with lastOutput := .nothing, current := .nothing }
      return .finished wire.current

/-- How an activation ended, for the trace. -/
def traceEnd : Except ActivationError Activation → TraceEnd
  | .ok activation => activation.traceEnd
  | .error e => .error e.message

/-- Activates the stage at a position: keeps what became of the stage and records the trace. -/
def activateAt (resume : Id .wire → Exec H Progress) (id : Id .wire) (wire : Wire H)
    (position : Nat) (stage : Stage H) : Exec H (Except ActivationError Activation) := do
  let step ← (stage.activate resume wire wire.current : StateM (Store H) _)
  modify fun s => s.modifyWire id (·.setStage position step.stage)
  match step.answer with
  | .error halt => throw halt
  | .ok answer =>
    modify fun s => s.record wire.collector
      ⟨wire.name, step.stage.name, position, wire.iteration, traceEnd answer⟩
    return answer

/-- Activates the last `remaining` stages, from a position on. -/
def advance (resume : Id .wire → Exec H Progress) (id : Id .wire) :
    (position remaining : Nat) → Exec H Progress
  | _, 0 => completeIteration id
  | position, remaining + 1 => do
    let s ← get
    match s.wires.get? id, s.placedAt? id position with
    | some wire, some placed =>
      if s.stopping wire then return .finished (← takeLastOutput id)
      match ← activateAt resume id wire position placed.stage with
      | .ok (.proceed output) =>
        modify fun s => s.modifyWire id fun w => { w with current := output }
        advance resume id (position + 1) remaining
      | .ok (.suspend point) => suspend id position point
      | .ok (.finish output) =>
        modify fun s => s.modifyWire id fun w => { w with current := output }
        completeIteration id
      | .ok (.stop output) => return .finished output
      | .error e => return .failed ⟨e.message, placed.stage.name, position⟩
    | _, _ => completeIteration id

/-- Takes a suspended run up again. Answers the position to go on from. -/
def takeUp (id : Id .wire) (wire : Wire H) : Exec H Nat := do
  match wire.cursor with
  | .idle =>
    throw (.violation ⟨.wireState, "resumed a wire that was not started", some wire.name⟩)
  | .running position => return position
  | .suspendedAt position _ =>
    modify fun s =>
      (s.modifyWire id fun w => { w with cursor := .running position }).modifyRun wire.run
        fun r => { r with state := .running }
    return position

/-- Resumes a wire; nested wires at most so deep. -/
def resumeWithin : Nat → Id .wire → Exec H Progress
  | 0, _ => throw .stuck
  | depth + 1, id => do
    match (← get).wires.get? id with
    | none => return .finished .nothing
    | some wire =>
      let position ← takeUp id wire
      advance (resumeWithin depth) id position (wire.stages.length - position)

/-- Activates the stages of a started wire until it suspends, finishes or fails. -/
def resume (id : Id .wire) : Exec H Progress := do
  resumeWithin (← get).depthBound id

end Store

end Dataflow
