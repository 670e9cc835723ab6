import Dataflow.Report.Value
import Dataflow.Script.Unit
/-!
# Reports of notes

The notes of scripted units, as content.
-/

namespace Dataflow.Script

open Json

/-- What a unit sees of a run. -/
def Sight.report (v : Sight) (s : Store host) : Content :=
  .object ([("wire_name", .string v.wireName), ("wire_input", v.wireInput.report s),
    ("iteration", .nat v.iteration), ("stop_requested", .bool v.stopRequested),
    ("channels", .texts v.channels), ("has_parent_scope", .bool v.hasParentScope)] ++
    v.input.toList.map fun input => ("input", input.report s))

/-- A note. -/
def Note.report (n : Note) (s : Store host) : Content :=
  match n with
  | line text => .string text
  | composed name site =>
    .object [("compose", .string name), ("wire", .string site.wireName),
      ("position", .nat site.position), ("input_type", site.input.content),
      ("wire_input_type", site.wireInput.content),
      ("shared", .texts (site.shared.map (·.name)))]
  | sight v => v.report s
  | buffer identity length zeroed source =>
    .object [("buffer", .nat identity), ("len", .nat length), ("zeroed", .bool zeroed),
      ("debug", .string source)]
  | released source => .object [("cleanup", .string source)]

end Dataflow.Script
