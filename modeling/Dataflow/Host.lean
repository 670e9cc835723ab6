import Dataflow.Buffer
import Dataflow.Channel.Exchange
import Dataflow.Param
import Dataflow.Progress
import Dataflow.VarDecl
/-!
# Hosts

An embedding program brings units of its own. A host says what these units are and how they react
when they are composed, warmed up, activated and cleaned up. A unit sees its surroundings through a
view, and answers with its new state, with notes for the host's journal, and with writes to
variables.
-/

namespace Dataflow

/-- Which optional hooks a stage has. -/
structure Capabilities where
  compose : Bool := false
  parameters : Bool := false
  lifecycle : Bool := false
  vars : Bool := false
  deriving DecidableEq, Repr, Inhabited

/-- The form that shows the structure. -/
def Capabilities.outline (c : Capabilities) : String :=
  Text.record "Capabilities"
    [("compose", Text.truth c.compose), ("parameters", Text.truth c.parameters),
      ("lifecycle", Text.truth c.lifecycle), ("variables", Text.truth c.vars)]

/-- What a stage sees while it is composed. -/
structure Site where
  /-- The output type of the stage before, or the input type of the wire. -/
  input : Ty
  /-- The input type of the wire. -/
  wireInput : Ty
  /-- Visible variables; later ones shadow earlier ones. -/
  shared : List VarDecl := []
  board : Id .board
  wireName : String := ""
  position : Nat := 0
  deriving Repr, Inhabited

namespace Site

/-- The variable that a name means here. -/
def find? (s : Site) (name : String) : Option VarDecl := VarDecl.find? name s.shared

/-- The site of a nested wire that gets what this stage gets. -/
def nested (s : Site) (lent : List VarDecl) : Site :=
  { s with wireInput := s.input, position := 0, shared := s.shared ++ lent }

end Site

/-- What a unit of the host sees during a run. -/
structure View where
  wireName : String
  wireInput : Value
  iteration : Nat
  stopRequested : Bool
  channelNames : List String
  hasParentScope : Bool
  /-- The value of a visible variable. -/
  find : String → Option Value
  heap : Heap

/-- A change to a variable. -/
inductive Write where
  /-- Sets the variable that the name means. -/
  | set (name : String) (value : Value)
  /-- Declares the variable in the innermost scope and sets it. -/
  | declare (name : String) (value : Value)
  deriving Repr, Inhabited

/-- What a unit answers: its new state, notes for the journal, writes to variables, the heap as it
leaves it, and the answer proper. -/
structure Reaction (Unit Note α : Type) where
  unit : Unit
  notes : List Note := []
  writes : List Write := []
  heap : Heap
  answer : α

/-- The units of an embedding program. A wire asks a unit only once which hooks it has, so nothing that
a unit does may change them. -/
structure Host where
  Unit : Type
  /-- What units write into the journal. -/
  Note : Type
  name : Unit → String
  inputs : Unit → List Ty
  outputs : Unit → List Ty
  capabilities : Unit → Capabilities
  params : Unit → List Param
  getParam : Unit → Nat → Value
  setParam : Unit → Nat → Value → Except ParamError Unit
  exposed : Unit → List VarDecl
  required : Unit → List VarDecl
  lent : Unit → Ty → List VarDecl
  compose : Unit → Site → Heap → Reaction Unit Note (Except ComposeError Ty)
  warmup : Unit → View → Reaction Unit Note (Except ActivationError PUnit)
  activate : Unit → View → Value → Reaction Unit Note (Except ActivationError Activation)
  cleanup : Unit → Heap → Reaction Unit Note PUnit
  /-- Whether the unit holds an object. -/
  holds : Unit → ObjectId → Bool
  capabilities_compose : ∀ u site heap, capabilities (compose u site heap).unit = capabilities u
  capabilities_warmup : ∀ u view, capabilities (warmup u view).unit = capabilities u
  capabilities_activate :
    ∀ u view input, capabilities (activate u view input).unit = capabilities u
  capabilities_cleanup : ∀ u heap, capabilities (cleanup u heap).unit = capabilities u

/-- The host that brings no units. -/
def Host.none : Host where
  Unit := Empty
  Note := Empty
  name := nofun
  inputs := nofun
  outputs := nofun
  capabilities := nofun
  params := nofun
  getParam := nofun
  setParam := nofun
  exposed := nofun
  required := nofun
  lent := nofun
  compose := nofun
  warmup := nofun
  activate := nofun
  cleanup := nofun
  holds := nofun
  capabilities_compose := nofun
  capabilities_warmup := nofun
  capabilities_activate := nofun
  capabilities_cleanup := nofun

end Dataflow
