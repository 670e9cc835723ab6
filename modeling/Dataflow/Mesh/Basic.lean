import Dataflow.Composition.Compose
import Dataflow.Mesh.Config
import Dataflow.Run.Resume
/-!
# Meshes

A mesh runs scheduled wires side by side. All of its wires share the variables and the channels of
the mesh. Each scheduled run is a task; tasks take turns, and a task that sleeps is passed over
until its time has come or its run is asked to stop.

Time is counted by the mesh itself. It moves on a little with every round, and to the next task
that is due when all tasks sleep.
-/

namespace Dataflow

namespace Mesh

/-- One scheduled run, as those who watch it see it. -/
structure Handle where
  name : String
  wire : Id .wire
  run : Id .run
  deriving DecidableEq, Repr, Inhabited

/-- A run that is being driven. -/
structure Task where
  handle : Handle
  /-- The time until which it sleeps. -/
  sleepsUntil : Nat := 0
  deriving Repr, Inhabited

end Mesh

/-- Wires that run side by side. -/
structure Mesh where
  config : Mesh.Config
  /-- The scope of the mesh's variables. -/
  scope : Id .scope
  board : Id .board
  collector : Option (Id .collector) := none
  /-- Runs that no wait has collected, in scheduling order. -/
  scheduled : List Mesh.Handle := []
  tasks : List Mesh.Task := []
  /-- The time in nanoseconds. -/
  clock : Nat := 0
  terminated : Bool := false
  deriving Inhabited

namespace Mesh

variable {H : Host}

/-! ### Handles -/

/-- The record of the run. -/
def Handle.record (h : Handle) (s : Store H) : RunRecord := s.run h.run

/-- Whether the run is over. -/
def Handle.isTerminal (h : Handle) (s : Store H) : Bool := (h.record s).state.isTerminal

/-- Whether the run has begun and is not over. -/
def Handle.isActive (h : Handle) (s : Store H) : Bool := (h.record s).state.isActive

/-- The result of the run, once it is over. -/
def Handle.result? (h : Handle) (s : Store H) : Option Outcome :=
  if h.isTerminal s then (h.record s).result else none

/-- Asks the run to stop. -/
def Handle.stop (h : Handle) (s : Store H) : Store H :=
  s.modifyRun h.run fun r => { r with stopRequested := true }

/-! ### Scheduling -/

/-- A new mesh with variables, channels and, if asked for, traces of its own. -/
def create (config : Config) (s : Store H) : Mesh × Store H :=
  let (scope, vars) := s.vars.addScope none
  let (board, exchange) := s.exchange.addBoard config.channelCapacity
  let mesh : Mesh := { config, scope, board }
  if config.telemetry then
    ({ mesh with collector := some s.collectors.next },
      { s with vars, exchange, collectors := s.collectors.push #[] })
  else (mesh, { s with vars, exchange })

/-- What a wire sees while it is composed for a mesh. -/
def site (m : Mesh) (s : Store H) (wire : Id .wire) (input : Ty) : Site :=
  { input, wireInput := input, shared := s.vars.visible m.scope, board := m.board
    wireName := s.wireName wire }

/-- Composes a wire for the mesh. -/
def compose (m : Mesh) (wire : Id .wire) (input : Ty) :
    StateM (Store H) (Except MeshError Signature) := do
  let s ← get
  match ← (Store.composeShared wire (m.site s wire input)).run with
  | .ok signature => return .ok signature
  | .error cause => return .error (.compose (s.wireName wire) cause)

/-- Without the first so many runs that are over. -/
def dropFinished (s : Store H) : Nat → List Handle → List Handle
  | 0, handles => handles
  | _, [] => []
  | n + 1, h :: handles =>
    if h.isTerminal s then dropFinished s n handles else h :: dropFinished s (n + 1) handles

/-- Without the oldest finished runs beyond those that are kept. -/
def prune (m : Mesh) (s : Store H) : Mesh :=
  let finished := (m.scheduled.filter fun h => h.isTerminal s).length
  { m with scheduled := dropFinished s (finished - m.config.retainedResults) m.scheduled }

/-- Composes, warms up and starts a wire. Nothing is scheduled if one of these fails. -/
def schedule (m : Mesh) (wire : Id .wire) (input : Value) :
    Exec H (Except MeshError Handle × Mesh) := do
  if m.terminated then return (.error (.terminated m.config.name), m)
  let s ← get
  let name := s.wireName wire
  let busy : Bool :=
    match s.wires.get? wire with
    | some w => (s.run w.run).state.isActive || w.midRun
    | none => false
  if busy then return (.error (.alreadyScheduled name), m)
  match ← (m.compose wire input.ty : StateM (Store H) _) with
  | .error e => return (.error e, m)
  | .ok _ =>
    modify fun s => s.modifyWire wire fun w => { w with collector := m.collector }
    match ← Store.beginRun wire input (some m.scope) m.board with
    | .error e => return (.error (.warmup name e), m)
    | .ok _ =>
      let s ← get
      let run := ((s.wires.get? wire).map (·.run)).getD ⟨0⟩
      let handle : Handle := { name, wire, run }
      let m := m.prune s
      return (.ok handle,
        { m with scheduled := m.scheduled ++ [handle], tasks := m.tasks ++ [{ handle }] })

/-! ### Turns -/

/-- How much time passes in a round. -/
def tick : Nat := 10000

/-- Whether a task can go on. -/
def Task.isReady (t : Task) (clock : Nat) (s : Store H) : Bool :=
  t.sleepsUntil ≤ clock || (t.handle.record s).stopRequested

/-- Resumes a task once. None if its run has ended. -/
def Task.turn (t : Task) (clock : Nat) : Exec H (Option Task) := do
  if !t.isReady clock (← get) then return some t
  match ← Store.resume t.handle.wire with
  | .suspended .yield => return some { t with sleepsUntil := clock }
  | .suspended (.sleep delay) => return some { t with sleepsUntil := clock + delay.totalNanos }
  | .finished output =>
    let _ ← Store.endRun t.handle.wire (.stopped output)
    return none
  | .failed failure =>
    let _ ← Store.endRun t.handle.wire (.failed failure)
    return none

/-- Every task takes a turn, in order. -/
def turns (clock : Nat) : List Task → Exec H (List Task)
  | [] => return []
  | t :: tasks => do
    match ← t.turn clock with
    | some t => return t :: (← turns clock tasks)
    | none => turns clock tasks

/-- The time of the next round: a little later, or when the first of the sleeping tasks is due. -/
def nextTime (clock : Nat) (tasks : List Task) : Nat :=
  match (tasks.map (·.sleepsUntil)).min? with
  | some due => max due (clock + tick)
  | none => clock + tick

/-- One round: every task takes a turn, and time moves on. -/
def round (m : Mesh) : Exec H Mesh := do
  let tasks ← turns m.clock m.tasks
  return { m with tasks, clock := nextTime m.clock tasks }

/-- Rounds until a condition holds, at most so many. -/
def runUntil (done : Store H → Bool) : Nat → Mesh → Exec H Mesh
  | 0, m => do if done (← get) then return m else throw .exhausted
  | limit + 1, m => do
    if done (← get) then return m
    runUntil done limit (← m.round)

/-! ### Waiting -/

/-- The results of runs that are over. -/
def results (handles : List Handle) (s : Store H) : List Outcome :=
  handles.map fun h => (h.result? s).getD (.stopped .nothing)

/-- Waits for runs to end. -/
def waitFor (limit : Nat) (m : Mesh) (handles : List Handle) : Exec H (List Outcome × Mesh) := do
  let m ← runUntil (fun s => handles.all fun h => h.isTerminal s) limit m
  return (results handles (← get), m)

/-- Waits for one run. -/
def wait (limit : Nat) (m : Mesh) (h : Handle) : Exec H (Except MeshError Outcome × Mesh) := do
  if m.terminated then return (.error (.terminated m.config.name), m)
  let m ← runUntil (fun s => h.isTerminal s) limit m
  return (.ok ((h.result? (← get)).getD (.stopped .nothing)), m)

/-- Waits for all runs since the last wait. The results are in scheduling order. -/
def waitAll (limit : Nat) (m : Mesh) : Exec H (List Outcome × Mesh) := do
  let handles := m.scheduled
  let m := { m with scheduled := [] }
  if m.terminated then return ([], m)
  waitFor limit m handles

/-- The runs that have begun and are not over. -/
def running (m : Mesh) (s : Store H) : List Handle :=
  m.scheduled.filter fun h => h.isActive s

/-- Asks all uncollected runs to stop. -/
def stopAll (m : Mesh) (s : Store H) : Store H := m.scheduled.foldl (fun s h => h.stop s) s

/-! ### Ending -/

/-- Ends the run of a task that is no longer driven, unless the run is over already. -/
def Task.abandon (t : Task) : Exec H PUnit := do
  if let some wire := (← get).wires.get? t.handle.wire then
    if wire.midRun && wire.run == t.handle.run then
      let _ ← Store.abandon t.handle.wire

/-- Ends the runs of all tasks. -/
def abandonAll (m : Mesh) : Exec H Mesh := do
  m.tasks.forM Task.abandon
  return { m with tasks := [] }

/-- Closes the channels of the mesh. -/
def closeChannels (m : Mesh) : Exec H PUnit :=
  modify fun s => { s with exchange := s.exchange.closeAll m.board }

/-- Stops every run, waits for them and closes the channels. Later nothing can be scheduled. -/
def terminate (limit : Nat) (m : Mesh) : Exec H Mesh := do
  if m.terminated then return m
  modify m.stopAll
  let (_, m) ← m.waitAll limit
  let m ← abandonAll { m with terminated := true }
  m.closeChannels
  return m

/-- Stops every run without waiting: runs that have not ended are abandoned. -/
def shutDown (m : Mesh) : Exec H Mesh := do
  if m.terminated then return m
  modify m.stopAll
  let m ← abandonAll { m with terminated := true }
  m.closeChannels
  return m

end Mesh

end Dataflow
