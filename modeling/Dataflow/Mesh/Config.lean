import Dataflow.Channel.Exchange
import Dataflow.Json.Stream
/-!
# Settings of a mesh

Settings are given as an object or as a list of the fields in order. What is left out keeps its
default.
-/

namespace Dataflow.Mesh

/-- The settings of a mesh. -/
structure Config where
  name : String := "mesh"
  /-- How many workers there are; none leaves the choice to the machine. -/
  workers : Option Nat := none
  /-- Whether activations are traced. -/
  telemetry : Bool := false
  /-- How many values a queue holds. -/
  channelCapacity : Nat := Board.defaultCapacity
  /-- How many finished runs are kept for the next wait. -/
  retainedResults : Nat := 1024
  deriving DecidableEq, Repr, Inhabited

namespace Config

/-! ### Changes -/

/-- At least one worker. -/
def withWorkers (c : Config) (n : Nat) : Config := { c with workers := some (max n 1) }

/-- At least one value per queue. -/
def withChannelCapacity (c : Config) (n : Nat) : Config := { c with channelCapacity := max n 1 }

/-- Traces activations or does not. -/
def withTelemetry (c : Config) (on : Bool) : Config := { c with telemetry := on }

/-- Keeps so many finished runs. -/
def withRetainedResults (c : Config) (n : Nat) : Config := { c with retainedResults := n }

/-- How many workers will be started, if that does not depend on the machine. -/
def workerCount? (c : Config) : Option Nat := c.workers.map (max · 1)

/-! ### Reading -/

/-- The settings that were given. -/
structure Parts where
  name : Option String := none
  workers : Option (Option Nat) := none
  telemetry : Option Bool := none
  channelCapacity : Option Nat := none
  retainedResults : Option Nat := none

open Json in
/-- The fields of the settings. -/
def slots : List (Slot Parts) :=
  [⟨"name", fun s => s.name.isSome,
      fun _ s => return { s with name := some (← Reader.readText) }, false⟩,
    ⟨"workers", fun s => s.workers.isSome,
      fun _ s => return { s with workers := some (← Reader.readOptional Reader.readSize) }, false⟩,
    ⟨"telemetry", fun s => s.telemetry.isSome,
      fun _ s => return { s with telemetry := some (← Reader.readTruth) }, false⟩,
    ⟨"channel_capacity", fun s => s.channelCapacity.isSome,
      fun _ s => return { s with channelCapacity := some (← Reader.readSize) }, false⟩,
    ⟨"retained_results", fun s => s.retainedResults.isSome,
      fun _ s => return { s with retainedResults := some (← Reader.readSize) }, false⟩]

/-- Fills in what was left out. -/
def ofParts (p : Parts) : Config :=
  let base : Config := {}
  { name := p.name.getD base.name
    workers := p.workers.getD base.workers
    telemetry := p.telemetry.getD base.telemetry
    channelCapacity := p.channelCapacity.getD base.channelCapacity
    retainedResults := p.retainedResults.getD base.retainedResults }

/-- Reads settings from their text. -/
def read (text : String) : Except Json.Fault Config :=
  (Json.Reader.readAll
    (Json.Reader.readRecord "struct MeshConfig" slots {} Json.Reader.depthLimit) text).map ofParts

end Config

end Dataflow.Mesh
