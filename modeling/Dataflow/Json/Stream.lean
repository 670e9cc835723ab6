import Dataflow.Json.Shape
import Dataflow.Json.Skip
/-!
# Values read in place

Some values are read straight from the text and not kept as content first. Their faults are placed
where they arise. A value of another kind than expected is read only if it is no list or object.
-/

namespace Dataflow.Json

namespace Reader

/-- The fault of a value of another kind than expected. -/
def wrongKind {α : Type} (expected : String) : Reader α := placing do
  match ← peek with
  | some 'n' =>
    skip
    word "ull".toList
    failUnplaced (invalidType "null" expected)
  | some 't' =>
    skip
    word "rue".toList
    failUnplaced (invalidType "boolean `true`" expected)
  | some 'f' =>
    skip
    word "alse".toList
    failUnplaced (invalidType "boolean `false`" expected)
  | some '"' =>
    let s ← quoted
    failUnplaced (invalidType (Content.describe (.string s)) expected)
  | some '[' => failUnplaced (invalidType "sequence" expected)
  | some '\x7b' => failUnplaced (invalidType "map" expected)
  | some c =>
    if c = '-' || isDigit c then
      let n ← number
      failUnplaced (invalidType n.describe expected)
    else failNext "expected value"
  | none => failNext "expected value"

/-- Reads a text; `expected` says what it is for. -/
def readTextAs (expected : String) : Reader String := do
  if (← tokenOfValue) = '"' then quoted else wrongKind expected

/-- Reads a text. -/
def readText : Reader String := readTextAs "a string"

/-- Reads a truth value. -/
def readTruth : Reader Bool := do
  let c ← tokenOfValue
  if c = 't' then
    skip
    word "rue".toList
    return true
  else if c = 'f' then
    skip
    word "alse".toList
    return false
  else wrongKind "a boolean"

/-- Reads a size: a whole number of sixty-four bits. -/
def readSize : Reader Nat := do
  let c ← tokenOfValue
  if c = '-' || isDigit c then placing do
    match (← number).within "usize" 0 0x10000000000000000 with
    | .ok n => return n.toNat
    | .error text => failUnplaced text
  else wrongKind "usize"

/-- Reads null as nothing, and anything else as `r` does. -/
def readOptional {α : Type} (r : Reader α) : Reader (Option α) := do
  match ← token with
  | some 'n' =>
    skip
    word "ull".toList
    return none
  | _ => return some (← r)

/-- Reads a list whose brackets may be nested less than `depth` deep. -/
def readList {α : Type} (depth : Nat) (item : Nat → Reader α) : Reader (List α) := do
  if (← tokenOfValue) = '[' then
    opening depth fun inner => closing (elements (item inner) true) endList
  else wrongKind "a sequence"

end Reader

/-- A field of a record that is read in place, put together in `σ`. -/
structure Slot (σ : Type) where
  name : String
  /-- Whether the field was read before. -/
  seen : σ → Bool
  /-- Reads the value, whose brackets may be nested less than so deep. -/
  read : Nat → σ → Reader σ
  /-- A required field has no default. -/
  required : Bool

namespace Reader

variable {σ : Type}

/-- Reads an entry of an object as a field. -/
def slotEntry (depth : Nat) (slots : List (Slot σ)) (s : σ) : Reader σ := do
  let k ← quoted
  match slots.find? fun f => f.name == k with
  | none =>
    colon
    skipValue
    return s
  | some f =>
    if f.seen s then failUnplaced (duplicateField k)
    colon
    f.read depth s

/-- Reads the entries of an object as fields. -/
def slotEntries (depth : Nat) (slots : List (Slot σ)) (empty : σ) : Reader σ := do
  let s ← each nextKey (slotEntry depth slots) (← fuel) true empty
  match slots.find? fun f => f.required && !f.seen s with
  | some f => failUnplaced (missingField f.name)
  | none => return s

/-- Reads the elements of a list as fields, from an index on. -/
def slotElements (what : String) (total depth : Nat) :
    (index : Nat) → List (Slot σ) → σ → Reader σ
  | _, [], s => return s
  | index, f :: slots, s => do
    if ← nextElement (index == 0) then
      slotElements what total depth (index + 1) slots (← f.read depth s)
    else if f.required then
      failUnplaced (invalidLength index (what ++ " with " ++ elementCount total))
    else slotElements what total depth (index + 1) slots s

/-- Reads a record, put together from an empty one. -/
def readRecord (what : String) (slots : List (Slot σ)) (empty : σ) (depth : Nat) : Reader σ := do
  let c ← tokenOfValue
  if c = '[' then
    opening depth fun inner =>
      closing (slotElements what slots.length inner 0 slots empty) endList
  else if c = '\x7b' then
    opening depth fun inner =>
      closing (slotEntries inner slots empty) endObject
  else wrongKind what

end Reader

end Dataflow.Json
