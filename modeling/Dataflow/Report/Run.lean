import Dataflow.Mesh.Config
import Dataflow.Program.Basic
import Dataflow.Report.Value
/-!
# Reports of runs

What there is to see of wires and their runs, of channels, and of the settings of a mesh.
-/

namespace Dataflow

open Json

variable {H : Host}

/-! ### Runs -/

/-- Why a run failed. -/
def Failure.report (f : Failure) : Content :=
  .object [("message", .string f.message), ("unit", .string f.stage),
    ("position", .nat f.position)]

/-- How a run ended. -/
def Outcome.report (o : Outcome) (s : Store H) : Content :=
  .object [("state", .string o.state.text), ("output", o.output.report s),
    ("error", .optional Failure.report o.failure?)]

/-- When a suspended wire wants to go on. -/
def Suspension.report : Suspension → Content
  | yield => .string "Yield"
  | sleep d => .object [("Sleep", .object [("secs", .nat d.secs), ("nanos", .nat d.nanos)])]

/-- What a resumed wire ended with. -/
def Progress.report (p : Progress) (s : Store H) : Content :=
  match p with
  | suspended point => .object [("suspended", point.report)]
  | finished v => .object [("finished", v.report s)]
  | failed f => .object [("failed", f.report)]

/-- How a traced activation ended. -/
def TraceEnd.report : TraceEnd → Content
  | proceed => .string "Continue"
  | suspend => .string "Suspend"
  | finish => .string "Return"
  | stop => .string "Stop"
  | error message => .object [("Error", .string message)]

/-- One activation. -/
def Trace.report (t : Trace) : Content :=
  .object [("wire", .string t.wire), ("shard", .string t.stage), ("position", .nat t.position),
    ("iteration", .nat t.iteration), ("outcome", t.ended.report)]

/-! ### Wires -/

/-- What a composition found out. -/
def Signature.report (g : Signature) : Content :=
  .object [("input_type", g.input.content), ("output_type", g.output.content),
    ("exposed", VarDecl.reports g.exposed), ("required", VarDecl.reports g.required),
    ("flow_stopper", .bool g.stopsFlow), ("warnings", .texts g.findings.warnings)]

/-- A place in a text: line and column. -/
def reportPlace (line column : Nat) : Content := .list [.nat line, .nat column]

/-- A stage at its place. -/
def Placed.report (p : Placed H) : Content :=
  .object [("name", .string p.stage.name), ("at", reportPlace p.line p.column),
    ("debug", .string p.outline)]

/-- The state of a wire in short. -/
def Wire.reportState (w : Wire H) (s : Store H) : Content :=
  .object [("state", .string (s.run w.run).state.text), ("mid_run", .bool w.midRun),
    ("composed", .bool w.composed.isSome)]

/-- A wire with its stages and its run. -/
def Wire.report (w : Wire H) (s : Store H) : Content :=
  let run := s.run w.run
  .object [("name", .string w.name), ("looped", .bool w.looped), ("len", .nat w.stages.length),
    ("empty", .bool w.stages.isEmpty), ("state", .string run.state.text),
    ("active", .bool run.state.isActive), ("terminal", .bool run.state.isTerminal),
    ("mid_run", .bool w.midRun), ("input_type", w.inputTy.content),
    ("output_type", .optional Ty.content w.outputTy), ("composed", .bool w.composed.isSome),
    ("result", .optional (fun o => o.report s) run.result),
    ("shards", .list (w.stages.map Placed.report))]

/-- A declared wire. -/
def Program.WireDecl.report (d : Program.WireDecl) : Content :=
  .object [("name", .string d.name), ("looped", .bool d.looped), ("shards", .nat d.calls.length),
    ("at", reportPlace d.span.line.toNat d.span.column.toNat)]

/-- A parameter. -/
def Param.report (p : Param) : Content :=
  .object [("name", .string p.name), ("help", .string p.help), ("types", Ty.reports p.types)]

/-- Findings of a composition. -/
def Findings.report (f : Findings) : Content :=
  .object [("safe", .bool f.safe), ("has_warnings", .bool f.hasWarnings),
    ("warnings", .texts f.warnings), ("errors", .texts f.errors), ("debug", .string f.outline)]

/-! ### Channels and meshes -/

/-- What channels of every kind share, and more. -/
def Header.report (h : Header) (more : List (String × Content)) : Content :=
  .object ([("type", h.ty.content), ("no_copy", .bool h.noCopy)] ++ more)

/-- A queue as a user of its name sees it. -/
def Queue.reportName (q : Queue) : Content := q.header.report [("capacity", .nat q.capacity)]

/-- A queue with what is in it. -/
def Queue.report (q : Queue) : Content :=
  q.header.report [("len", .nat q.items.length), ("empty", .bool q.items.isEmpty),
    ("capacity", .nat q.capacity), ("recycled", .nat q.spare.length),
    ("closed", .bool q.header.closed)]

/-- A fan as a user of its name sees it. -/
def Fan.reportName (f : Fan) : Content :=
  f.header.report [("subscribers", .nat f.subscribers.length)]

/-- A fan. -/
def Fan.report (f : Fan) : Content :=
  f.header.report
    [("subscribers", .nat f.subscribers.length), ("closed", .bool f.header.closed)]

/-- What became of a value that was sent. -/
def SendOutcome.report : SendOutcome → Content
  | delivered => .string "Delivered"
  | closed => .string "Closed"
  | full => .string "Full"

/-- What a receiver got. -/
def ReceiveOutcome.report (r : ReceiveOutcome) (s : Store H) : Content :=
  match r with
  | value v => .object [("value", v.report s)]
  | empty => .string "Empty"
  | ended => .string "EndOfStream"

/-- The settings of a mesh. -/
def Mesh.Config.report (c : Mesh.Config) : Content :=
  .object [("name", .string c.name), ("workers", .optional .nat c.workers),
    ("telemetry", .bool c.telemetry), ("channel_capacity", .nat c.channelCapacity),
    ("retained_results", .nat c.retainedResults),
    ("worker_count", .optional .nat c.workerCount?)]

end Dataflow
