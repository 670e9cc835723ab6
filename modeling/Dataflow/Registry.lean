import Dataflow.Stage.Basic
/-!
# Registries

A registry knows fresh stages by vendor and name. A name alone is enough if a single vendor has
registered it.
-/

namespace Dataflow

/-- Fresh stages by vendor and name. -/
structure Registry (H : Host) where
  entries : List ((FourCC × String) × Stage H) := []

namespace Registry

variable {H : Host}

instance : Inhabited (Registry H) := ⟨{}⟩

/-- Registers a stage. An earlier one of the same vendor and name is replaced. -/
def register (r : Registry H) (vendor : FourCC) (name : String) (stage : Stage H) : Registry H :=
  ⟨(r.entries.filter fun e => e.1 != (vendor, name)) ++ [((vendor, name), stage)]⟩

/-- Registers a stage under its own name for the `core` vendor. -/
def registerCore (r : Registry H) (stage : Stage H) : Registry H :=
  r.register .core stage.name stage

/-- The stage of a vendor and name. -/
def createBy? (r : Registry H) (vendor : FourCC) (name : String) : Option (Stage H) :=
  (r.entries.find? fun e => e.1 == (vendor, name)).map (·.2)

/-- The stage of a name, if exactly one vendor has registered it. -/
def create? (r : Registry H) (name : String) : Option (Stage H) :=
  match r.entries.filter fun e => e.1.2 == name with
  | [e] => some e.2
  | _ => none

/-- Whether some vendor has registered a name. -/
def contains (r : Registry H) (name : String) : Bool := r.entries.any fun e => e.1.2 == name

/-- Registered names in ascending order, each once. -/
def names (r : Registry H) : List String := sortUnique (r.entries.map fun e => e.1.2)

/-- How many stages are registered. -/
def size (r : Registry H) : Nat := r.entries.length

/-- The stages for values, variables and control. -/
def coreStages : List (Stage H) :=
  [.const .nothing, .pass, .input, .add ⟨.int 0, none⟩, .set "" .nothing none, .get "" none,
    .update "" .nothing none, .pause .nothing false, .buffer {}, .fail "", .stop, .finish,
    .inline {}, .bound "" {} none]

/-- The stages that exchange values between wires. -/
def channelStages : List (Stage H) :=
  [.produce {} none, .broadcast {} none, .consume {} none, .listen {} none, .complete "",
    .flush ""]

/-- Adds the stages for values, variables and control. -/
def withCore (r : Registry H) : Registry H := coreStages.foldl registerCore r

/-- Adds the stages that exchange values between wires. -/
def withChannels (r : Registry H) : Registry H := channelStages.foldl registerCore r

/-- All built-in stages. -/
def standard : Registry H := withChannels (withCore {})

end Registry

end Dataflow
