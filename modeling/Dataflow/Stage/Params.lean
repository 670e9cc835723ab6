import Dataflow.Stage.Basic
/-!
# Parameters of stages

Each stage with parameters declares them in order, answers their values by index and takes new
values by index. A refused value leaves the stage as it was.
-/

namespace Dataflow.Stage

variable {H : Host}

/-! ### Declarations -/

/-- The name of a variable. -/
def variableParam : Param := ⟨"Name", "The name of the variable.", [.string]⟩

/-- The name of a channel. -/
def channelParam : Param := ⟨"Name", "The name of the channel.", [.string]⟩

/-- Whether values are copied into reused storage. -/
def noCopyParam : Param :=
  ⟨"NoCopy",
    "Clone values straight into the queue without recycled storage. " ++
      "Only objects are shared by handle.",
    [.bool]⟩

/-- The type of received values. -/
def typeParam : Param := ⟨"Type", "The type of the values received.", [.type]⟩

/-- The size of a batch. -/
def batchParam : Param :=
  ⟨"Buffer", "Values to collect before outputting them as a sequence.", [.int]⟩

/-- A nested wire. -/
def wireParam : Param := ⟨"Wire", "The wire to run.", [.nothing, .wire]⟩

/-- The operand of an addition. -/
def operandParam : Param :=
  ⟨"Operand", "The value to add to the input.", [.int, .float, .refTo .int, .refTo .float]⟩

/-- How long to pause. -/
def timeParam : Param :=
  ⟨"Time", "Seconds to sleep. None yields for one scheduling pass.", [.nothing, .int, .float]⟩

/-- The parameters of the stage, in order. -/
def params : Stage H → List Param
  | const _ => [⟨"Value", "The constant to output.", [.any]⟩]
  | add _ => [operandParam]
  | set .. | get .. | update .. => [variableParam]
  | pause .. => [timeParam]
  | buffer _ => [⟨"Size", "Length of the buffer in bytes.", [.int]⟩]
  | fail _ => [⟨"Message", "The error message.", [.string]⟩]
  | inline _ => [wireParam]
  | bound .. => [⟨"Name", "The variable holding the object.", [.string]⟩, wireParam]
  | produce .. | broadcast .. => [channelParam, noCopyParam]
  | consume .. | listen .. => [channelParam, typeParam, batchParam, noCopyParam]
  | complete _ | flush _ => [channelParam]
  | unit u => H.params u
  | pass | input | stop | finish => []

/-! ### Pauses -/

/-- How long a pause with the given time lasts; none for a plain yield. Negative times yield, and
times that are no numbers or too long are refused with a reason. -/
def pauseDelay (time : Value) : Except String (Option Delay) :=
  let seconds? : Option Binary64 :=
    match time with
    | .int n => some (.ofInt64 n)
    | .float x => some x
    | _ => none
  match seconds? with
  | none => .ok none
  | some seconds =>
    if seconds.isNaN then .error "Pause Time must be a number, found NaN"
    else if seconds.isNegative || seconds.isZero then .ok none
    else
      match Delay.ofSeconds? seconds with
      | some delay => .ok (some delay)
      | none => .error ("Pause Time " ++ seconds.text ++ " is out of range")

/-! ### Reading -/

/-- The wire of a nested run as a value. -/
def nestedValue (sub : Nested) : Value :=
  match sub.wire with
  | some wire => .wire wire
  | none => .nothing

/-- The settings of a sender by index. -/
def senderParam (s : Sender) : Nat → Value
  | 0 => .string s.name
  | 1 => .bool s.noCopy
  | _ => .nothing

/-- The settings of a receiver by index. -/
def receiverParam (r : Receiver) : Nat → Value
  | 0 => .string r.name
  | 1 => .type r.ty
  | 2 => .int (Int64.ofNat r.batch)
  | 3 => .bool r.noCopy
  | _ => .nothing

/-- The value of a parameter. -/
def getParam (s : Stage H) (index : Nat) : Value :=
  match s, index with
  | const value, 0 => value
  | add operand, 0 => operand.value
  | set name _ _, 0 => .string name
  | get name _, 0 => .string name
  | update name _ _, 0 => .string name
  | pause time _, 0 => time
  | buffer source, 0 => .int (Int64.ofNat source.size)
  | fail message, 0 => .string message
  | inline sub, 0 => nestedValue sub
  | bound name _ _, 0 => .string name
  | bound _ sub _, 1 => nestedValue sub
  | produce sender _, i => senderParam sender i
  | broadcast sender _, i => senderParam sender i
  | consume receiver _, i => receiverParam receiver i
  | listen receiver _, i => receiverParam receiver i
  | complete name, 0 => .string name
  | flush name, 0 => .string name
  | unit u, i => H.getParam u i
  | _, _ => .nothing

/-! ### Writing -/

/-- Refuses a value by its type. -/
def refuse {α : Type} (name : String) (value : Value) : Except ParamError α :=
  .error (.invalidValue name value.ty.text)

/-- Sets the only parameter of a stage, a text. -/
def setText (param : String) (update : String → Stage H) (index : Nat) (value : Value) :
    Except ParamError (Stage H) :=
  match index, value with
  | 0, .string s => .ok (update s)
  | 0, other => refuse param other
  | i, _ => .error (.outOfRange i)

/-- Sets the wire of a nested run. -/
def setNested (sub : Nested) : Value → Except ParamError Nested
  | .wire wire => .ok { sub with wire := some wire }
  | .nothing => .ok { sub with wire := none }
  | other => refuse "Wire" other

/-- Sets a setting of a sender. -/
def setSender (s : Sender) (index : Nat) (value : Value) : Except ParamError Sender :=
  match index, value with
  | 0, .string name => .ok { s with name }
  | 0, other => refuse "Name" other
  | 1, .bool noCopy => .ok { s with noCopy }
  | 1, other => refuse "NoCopy" other
  | i, _ => .error (.outOfRange i)

/-- Sets a setting of a receiver. -/
def setReceiver (r : Receiver) (index : Nat) (value : Value) : Except ParamError Receiver :=
  match index, value with
  | 0, .string name => .ok { r with name }
  | 0, other => refuse "Name" other
  | 1, .type ty => .ok { r with ty }
  | 1, .nothing => .ok { r with ty := .nothing }
  | 1, other => refuse "Type" other
  | 2, .int n => if 1 ≤ n then .ok { r with batch := n.toNatClampNeg } else refuse "Buffer" (.int n)
  | 2, other => refuse "Buffer" other
  | 3, .bool noCopy => .ok { r with noCopy }
  | 3, other => refuse "NoCopy" other
  | i, _ => .error (.outOfRange i)

/-- Sets a parameter. -/
def setParam (s : Stage H) (index : Nat) (value : Value) : Except ParamError (Stage H) :=
  match s with
  | const _ => if index = 0 then .ok (const value) else .error (.outOfRange index)
  | add operand =>
    if index = 0 then do
      operandParam.check value
      return add (operand.set value)
    else .error (.outOfRange index)
  | set _ ty slot => setText "Name" (fun name => set name ty slot) index value
  | get _ slot => setText "Name" (fun name => get name slot) index value
  | update _ ty slot => setText "Name" (fun name => update name ty slot) index value
  | pause _ paused =>
    if index = 0 then do
      timeParam.check value
      match pauseDelay value with
      | .ok _ => return pause value paused
      | .error _ => .error (.invalidValue "Time" value.outline)
    else .error (.outOfRange index)
  | buffer source =>
    match index, value with
    | 0, .int n =>
      if 0 ≤ n then .ok (buffer { source with size := n.toNatClampNeg })
      else .error (.invalidValue "Size" value.outline)
    | 0, other => .error (.invalidValue "Size" other.outline)
    | i, _ => .error (.outOfRange i)
  | fail _ => setText "Message" fail index value
  | inline sub =>
    if index = 0 then return inline (← setNested sub value) else .error (.outOfRange index)
  | bound name sub slot =>
    match index, value with
    | 0, .string name => .ok (bound name sub slot)
    | 0, other => refuse "Name" other
    | 1, value => return bound name (← setNested sub value) slot
    | i, _ => .error (.outOfRange i)
  | produce sender queue => return produce (← setSender sender index value) queue
  | broadcast sender fan => return broadcast (← setSender sender index value) fan
  | consume receiver queue => return consume (← setReceiver receiver index value) queue
  | listen receiver queue => return listen (← setReceiver receiver index value) queue
  | complete _ => setText "Name" complete index value
  | flush _ => setText "Name" flush index value
  | unit u => return unit (← H.setParam u index value)
  | pass | input | stop | finish => .error (.outOfRange index)

end Dataflow.Stage
