import Dataflow.Channel.Receiver
import Dataflow.Host
/-!
# Stages

A stage does one step of a wire. The built-in stages come with what they need to remember, be it
for a whole run, such as a resolved slot, or from one activation to the next.
-/

namespace Dataflow

/-- A wire run inside another one. -/
structure Nested where
  wire : Option (Id .wire) := none
  /-- The nested wire was started and has not come to its end. -/
  running : Bool := false
  deriving DecidableEq, Repr, Inhabited

/-- Settings of a sending stage. -/
structure Sender where
  name : String := ""
  noCopy : Bool := false
  /-- The type of the values it sends, known once composed. -/
  ty : Ty := .nothing
  deriving DecidableEq, Repr, Inhabited

/-- One step of a wire. -/
inductive Stage (H : Host) where
  /-- Outputs a constant. -/
  | const (value : Value)
  /-- Outputs its input. -/
  | pass
  /-- Outputs the input of the wire. -/
  | input
  /-- Adds an operand to a number of the same kind. -/
  | add (operand : Operand)
  /-- Stores its input in a variable of the wire, which it exposes. -/
  | set (name : String) (ty : Ty) (slot : Option (Id .slot))
  /-- Outputs a variable. -/
  | get (name : String) (slot : Option (Id .slot))
  /-- Overwrites a variable with its input. -/
  | update (name : String) (ty : Ty) (slot : Option (Id .slot))
  /-- Suspends the wire once, then outputs its input. -/
  | pause (time : Value) (paused : Bool)
  /-- Outputs a zeroed byte buffer. -/
  | buffer (source : BufferSource)
  /-- Fails the wire. -/
  | fail (message : String)
  /-- Ends the run with its input. -/
  | stop
  /-- Ends the iteration with its input. -/
  | finish
  /-- Runs a wire inline. -/
  | inline (sub : Nested)
  /-- Runs a wire inline with the input object bound to a variable. -/
  | bound (name : String) (sub : Nested) (slot : Option (Id .slot))
  /-- Sends its input into a queue. -/
  | produce (sender : Sender) (queue : Option (Id .queue))
  /-- Publishes its input on a fan. -/
  | broadcast (sender : Sender) (fan : Option (Id .fan))
  /-- Takes values from a queue. -/
  | consume (receiver : Receiver) (queue : Option (Id .queue))
  /-- Takes the values published on a fan. -/
  | listen (receiver : Receiver) (queue : Option (Id .queue))
  /-- Closes a channel. -/
  | complete (name : String)
  /-- Empties a channel. -/
  | flush (name : String)
  /-- A unit of the host. -/
  | unit (u : H.Unit)

namespace Stage

variable {H : Host}

/-- The name of the stage. -/
def name : Stage H → String
  | const _ => "Const"
  | pass => "Pass"
  | input => "Input"
  | add _ => "Math.Add"
  | set .. => "Set"
  | get .. => "Get"
  | update .. => "Update"
  | pause .. => "Pause"
  | buffer _ => "Bytes.Buffer"
  | fail _ => "Fail"
  | stop => "Stop"
  | finish => "Return"
  | inline _ => "Do"
  | bound .. => "With"
  | produce .. => "Produce"
  | broadcast .. => "Broadcast"
  | consume .. => "Consume"
  | listen .. => "Listen"
  | complete _ => "Complete"
  | flush _ => "Flush"
  | unit u => H.name u

/-- A line of help, empty for most stages. -/
def help : Stage H → String
  | const _ => "Outputs the value given as parameter, ignoring its input."
  | pause .. => "Yields to other wires, or sleeps for Time seconds."
  | buffer _ => "Outputs a zeroed byte buffer of Size bytes."
  | inline _ => "Runs the given wire inline and outputs its result."
  | bound .. => "Binds the input object to Name while running the given wire."
  | _ => ""

/-- Accepted input types. `nothing` alone accepts, and ignores, every input. -/
def inputs : Stage H → List Ty
  | const _ | consume .. | listen .. => [.nothing]
  | add _ => [.int, .float]
  | unit u => H.inputs u
  | _ => [.any]

/-- Whether the stage takes no notice of its input. -/
def ignoresInput (s : Stage H) : Bool := s.inputs == [.nothing]

/-- Possible output types. -/
def outputs : Stage H → List Ty
  | add _ => [.int, .float]
  | buffer _ => [.object .core .buffer]
  | unit u => H.outputs u
  | _ => [.any]

/-- Which optional hooks the stage has. -/
def capabilities : Stage H → Capabilities
  | const _ => { compose := true, parameters := true }
  | pass | stop | finish => {}
  | input => { compose := true }
  | add _ | pause .. | inline _ | produce .. | broadcast .. | consume .. | listen .. =>
    { compose := true, parameters := true, lifecycle := true }
  | set .. | get .. | update .. | bound .. =>
    { compose := true, parameters := true, lifecycle := true, vars := true }
  | buffer _ => { parameters := true, lifecycle := true }
  | fail _ | complete _ | flush _ => { parameters := true }
  | unit u => H.capabilities u

/-- Whether control never falls off the end of a wire that ends with this stage. -/
def stopsFlow (s : Stage H) : Bool := ["Fail", "Return", "Stop"].contains s.name

/-! ### Variables -/

/-- Variables that the stage publishes. -/
def exposed : Stage H → List VarDecl
  | set name ty _ => [.assignable name ty]
  | unit u => H.exposed u
  | _ => []

/-- Variables that the stage needs. -/
def required : Stage H → List VarDecl
  | get name _ => [.readOnly name .any]
  | update name ty _ => [.assignable name ty]
  | unit u => H.required u
  | _ => []

/-- Variables that the stage binds for its nested wires, given its input type. -/
def lent (s : Stage H) (input : Ty) : List VarDecl :=
  match s with
  | bound name _ _ => [.sealed name input]
  | unit u => H.lent u input
  | _ => []

/-! ### Written form -/

/-- A slot by its content. -/
def slotOutline (read : Id .slot → Value) (slot : Option (Id .slot)) : String :=
  Text.optional (slot.map fun s => "VarSlot(" ++ (read s).outline ++ ")")

/-- The form of a nested wire that shows the structure. -/
def nestedOutline (sub : Nested) : String :=
  Text.record "Do"
    [("has_wire", Text.truth sub.wire.isSome), ("running", Text.truth sub.running)]

/-- The form that shows the structure. Stages without one show their name. -/
def outline (s : Stage H) (read : Id .slot → Value) : String :=
  match s with
  | const value => Text.record "Const" [("value", value.outline)]
  | add operand => Text.record "Add" [("operand", operand.outline read)]
  | set name ty slot =>
    Text.record "Set"
      [("name", Text.quoted name), ("exposed_type", ty.outline), ("slot", slotOutline read slot)]
  | get name slot =>
    Text.record "Get" [("name", Text.quoted name), ("slot", slotOutline read slot)]
  | update name ty slot =>
    Text.record "Update"
      [("name", Text.quoted name), ("value_type", ty.outline), ("slot", slotOutline read slot)]
  | pause time paused =>
    Text.record "Pause" [("time", time.outline), ("paused", Text.truth paused)]
  | buffer source => source.outline
  | fail message => Text.record "Fail" [("message", Text.quoted message)]
  | inline sub => nestedOutline sub
  | bound name sub slot =>
    Text.record "With"
      [("name", Text.quoted name), ("inner", nestedOutline sub), ("slot", slotOutline read slot)]
  | other => other.name

end Stage

end Dataflow
