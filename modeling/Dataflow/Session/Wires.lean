import Dataflow.Report.Run
import Dataflow.Run.Once
import Dataflow.Session.Basic
/-!
# Wires of a session

Programs are evaluated, wires are made, composed, run and watched, all by name.
-/

namespace Dataflow.Session

variable {H : Host}

/-! ### Programs -/

/-- Takes what an evaluation answers, and then the store as it left it. The wires of an evaluation that
failed belong to nobody and are dropped. -/
def takeBuilt {α : Type} (answer : Except EvalError α) (store : Store H) : Act H α := do
  let a ← take .eval answer
  update fun _ => store
  return a

/-- Evaluates a program. All wires of the environment are bound by their names. -/
def evaluate (envName text : String) : Act H (Environment H) := do
  let env ← environment envName
  let p ← take .eval (Program.ofText text)
  let ((answer, env), store) := (env.evalInto p).run (← current)
  takeBuilt answer store
  bindEnvironment envName env
  env.names.wires.forM fun (name, id) => bindWire name id
  return env

/-- Evaluates a program for one wire, which is bound. -/
def evaluateWire (envName text wireName key : String) : Act H PUnit := do
  let env ← environment envName
  let p ← take .eval (Program.ofText text)
  let (answer, store) := (env.evalWire p wireName).run.run (← current)
  bindWire key (← takeBuilt answer store)

/-- Binds a constant in an environment. -/
def define (envName name : String) (value : Value) : Act H PUnit := do
  bindEnvironment envName ((← environment envName).define name value)

/-- Adds a wire to an environment under the wire's own name. -/
def addWire (envName key : String) : Act H PUnit := do
  let env ← environment envName
  let id ← wire key
  bindEnvironment envName (env.bindWire (← wireNow key).name id)

/-! ### Stages and wires -/

/-- Sets those parameters of a stage that are given, from an index on. A value is worked out only
when all before it were accepted. -/
def setParams (name : String) : Nat → List (Option (Act H Value)) → Stage H → Act H (Stage H)
  | _, [], stage => return stage
  | index, none :: rest, stage => setParams name (index + 1) rest stage
  | index, some value :: rest, stage => do
    let v ← value
    if !stage.capabilities.parameters then throw (.noParameters name)
    setParams name (index + 1) rest (← take .param (stage.setParam index v))

/-- A built-in stage with the parameters that are given. -/
def stage (name : String) (params : List (Option (Act H Value))) : Act H (Stage H) := do
  match Registry.standard.create? name with
  | none => throw (.unknownStage name)
  | some stage => setParams name 0 params stage

/-- Makes a wire. -/
def newWire (key name : String) (looped : Bool) (stages : List (Placed H)) : Act H PUnit := do
  let id ← onStore (·.addWire name looped)
  update fun s => s.modifyWire id fun w => stages.foldl Wire.push w
  bindWire key id

/-- Changes a wire. -/
def modifyWire (key : String) (f : Wire H → Wire H) : Act H PUnit := do
  let id ← wire key
  update fun s => s.modifyWire id f

/-- Composes a wire; `owned` if the caller holds it. -/
def compose (key : String) (input : Ty) (shared : List VarDecl) (wireName : String)
    (owned : Bool) : Act H Signature := do
  let id ← wire key
  let site : Site := { input, wireInput := input, shared, board := (← get).main, wireName }
  let work : Compose H Signature :=
    if owned then Store.composeOwned id site else Store.composeShared id site
  take .compose (← onStore work.run.run)

/-- Runs one iteration of a wire. -/
def runOnce (key : String) (input : Value) : Act H Outcome := do
  let id ← wire key
  take .compose (← exec (Store.runOnce patience id input))

/-- Where the variables of a run live. -/
inductive Home where
  /-- In a scope of their own. -/
  | own
  /-- In a scope below a named one. -/
  | below (scope : String)
  /-- In a named scope. -/
  | inside (scope : String)

/-- Warms a wire up. -/
def warmup (key : String) (input : Value) (home : Home) (boardName : String) : Act H PUnit := do
  let id ← wire key
  let board ← board boardName
  let answer ←
    match home with
    | .own => exec (Store.warmup id input none board)
    | .below name => exec (Store.warmup id input (some (← scope name)) board)
    | .inside name => exec (Store.warmupIn id input (← scope name) board)
  take .activation answer

/-- Starts a run. -/
def start (key : String) (input : Value) : Act H PUnit := do
  let id ← wire key
  update (·.start id input)

/-- Resumes a run. -/
def resume (key : String) : Act H Progress := do exec (Store.resume (← wire key))

/-- Ends a run. -/
def endRun (key : String) (outcome : Outcome) : Act H Outcome := do
  exec (Store.endRun (← wire key) outcome)

/-- Cleans a wire up. -/
def cleanup (key : String) : Act H PUnit := do exec (Store.cleanup (← wire key) .nothing)

/-- Asks a run to stop. -/
def requestStop (key : String) : Act H PUnit := do
  let id ← wire key
  update (·.requestStop id)

/-! ### Driving several wires -/

/-- Resumes each wire that is in a run once, and ends the run if it came to its end. Answers the
reports in order. -/
def driveRound : List String → Act H (List (String × Json.Content))
  | [] => return []
  | key :: keys => do
    if !(← wireNow key).midRun then return ← driveRound keys
    let progress ← resume key
    let report := (key, progress.report (← current))
    match progress.outcome? with
    | none => return report :: (← driveRound keys)
    | some outcome =>
      let outcome ← endRun key outcome
      let ended := (key, outcome.report (← current))
      return report :: ended :: (← driveRound keys)

/-- At most so many rounds, until nothing is left to do. -/
def drive (keys : List String) : Nat → Act H (List (String × Json.Content))
  | 0 => return []
  | n + 1 => do
    let reports ← driveRound keys
    if reports.isEmpty then return []
    return reports ++ (← drive keys n)

/-! ### Watching -/

/-- Starts or stops tracing a wire. -/
def watch (key : String) (on : Bool) : Act H PUnit := do
  let collector := (← get).collector
  modifyWire key fun w => { w with collector := if on then some collector else none }

/-- The traces of a collector. -/
def traces (id : Id .collector) : Act H (List Trace) :=
  return (((← current).collectors.get? id).getD #[]).toList

/-- Takes the journal, which is empty afterwards. -/
def takeJournal : Act H (List H.Note) :=
  onStore fun s => (s.journal.toList, { s with journal := #[] })

end Dataflow.Session
