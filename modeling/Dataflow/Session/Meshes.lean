import Dataflow.Session.Wires
/-!
# The mesh of a session

A session has at most one mesh at a time. A new one takes the place of the old one, which is
terminated.
-/

namespace Dataflow.Session

variable {H : Host}

/-- Does something with the mesh. -/
def onMesh {α : Type} (f : Mesh → Exec H (α × Mesh)) : Act H α := do
  let (a, m) ← exec (f (← theMesh))
  setMesh m
  return a

/-- Terminates the mesh, which is gone afterwards. -/
def dropMesh : Act H PUnit := do
  if let some m := (← get).mesh then
    modify fun s => { s with mesh := none }
    let _ ← exec (m.terminate patience)

/-- Makes a mesh from the text of its settings, with two workers unless the settings say more;
`watched` if its traces go to the session's collector. -/
def newMesh (settings : String) (watched : Bool) : Act H Mesh := do
  let config ← take .settings (Mesh.Config.read settings)
  let config := if config.workers.isNone then config.withWorkers 2 else config
  let m ← onStore (Mesh.create config)
  let collector := (← get).collector
  let m := if watched then { m with collector := some collector } else m
  dropMesh
  setMesh m
  return m

/-- Composes a wire for the mesh. -/
def composeForMesh (key : String) (input : Ty) : Act H Signature := do
  let m ← theMesh
  let id ← wire key
  take .mesh (← onStore (m.compose id input).run)

/-- Schedules a wire. The run is bound. -/
def schedule (key : String) (input : Value) (name : String) : Act H Mesh.Handle := do
  let id ← wire key
  let h ← take .mesh (← onMesh fun m => m.schedule id input)
  modify fun s => { s with handles := upsert name h s.handles }
  return h

/-- Waits for a run. -/
def wait (name : String) : Act H Outcome := do
  let h ← handle name
  take .mesh (← onMesh fun m => m.wait patience h)

/-- Waits for all runs since the last wait. A terminated mesh has none. -/
def waitAll : Act H (List Outcome) := onMesh fun m => m.waitAll patience

/-- Waits for all runs since the last wait, which needs a mesh that is not terminated. -/
def waitAllRunning : Act H (List Outcome) := do
  let m ← theMesh
  if m.terminated then throw (.mesh (.terminated m.config.name))
  waitAll

/-- Waits until a run is suspended. -/
def untilSuspended (name : String) : Act H Mesh.Handle := do
  let h ← handle name
  let settled (s : Store H) : Bool := (h.record s).state == .suspended || h.isTerminal s
  onMesh fun m => return (h, ← Mesh.runUntil settled patience m)

/-- Terminates the mesh. -/
def terminate : Act H PUnit := onMesh fun m => return ((), ← m.terminate patience)

/-- Gives up the mesh without waiting for its runs. Answers how a run ended. -/
def abandonMesh (name : String) : Act H Outcome := do
  let h ← handle name
  let m ← theMesh
  modify fun s => { s with mesh := none }
  let _ ← exec m.shutDown
  return (h.result? (← current)).getD (.stopped .nothing)

/-- The traces of the mesh in the order of the wires' names, with suspensions only if asked. -/
def meshTraces (suspensions : Bool) : Act H (List Trace) := do
  let all ← ((← theMesh).collector.mapM traces)
  let kept := (all.getD []).filter fun t => suspensions || t.ended != .suspend
  return sortBy (fun a b => !(decide (b.wire < a.wire))) kept

end Dataflow.Session
