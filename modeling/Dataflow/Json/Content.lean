import Dataflow.Json.Number
import Dataflow.Json.Text
/-!
# Content

A value of a JSON text, kept as it was read. Entries of objects are in their order, repeated keys
included.
-/

namespace Dataflow.Json

/-- A value as it was read. -/
inductive Content where
  | null
  | bool (b : Bool)
  | number (n : Number)
  | string (s : String)
  | list (items : List Content)
  | object (entries : List (String × Content))
  deriving Repr, Inhabited

/-! ### Building and taking apart -/

namespace Content

/-- A natural number. -/
def nat (n : Nat) : Content := .number (.whole n)

/-- A list of texts. -/
def texts (l : List String) : Content := .list (l.map .string)

/-- Null stands for nothing. -/
def optional {α : Type} (f : α → Content) : Option α → Content
  | some a => f a
  | none => .null

/-- The entries of an object. Anything else has none. -/
def fields : Content → List (String × Content)
  | .object entries => entries
  | _ => []

/-- The value of a key, if it is there. -/
def field? (c : Content) (key : String) : Option Content := c.fields.lookup key

/-- The value of a key; null if it is not there. -/
def field (c : Content) (key : String) : Content := (c.field? key).getD .null

/-- The elements of a list. Anything else has none. -/
def items : Content → List Content
  | .list items => items
  | _ => []

/-- The text, if it is one. -/
def text? : Content → Option String
  | .string s => some s
  | _ => none

/-- The whole number, if it is one. -/
def int? : Content → Option Int
  | .number (.whole n) => some n
  | _ => none

/-- Whether it is the truth value true. -/
def isTrue : Content → Bool
  | .bool b => b
  | _ => false

end Content

/-! ### Reading -/

namespace Reader

/-- The elements of a list, each read by `item`. -/
def elements {α : Type} (item : Reader α) (first : Bool) : Reader (List α) := do
  let read ← each nextElement (fun read => return (← item) :: read) (← fuel) first []
  return read.reverse

/-- Reads an entry of an object, whose value is read by `item`, in front of which others were
read. -/
def entry {α : Type} (item : Reader α) (read : List (String × α)) :
    Reader (List (String × α)) := do
  let k ← quoted
  colon
  return (k, ← item) :: read

/-- The entries of an object, each value read by `item`. -/
def entries {α : Type} (item : Reader α) : Reader (List (String × α)) := do
  return (← each nextKey (entry item) (← fuel) true []).reverse

/-- Reads a value whose brackets may be nested less than so deep. -/
def value : Nat → Reader Content
  | 0 => failNext "recursion limit exceeded"
  | depth + 1 => do
    let c ← tokenOfValue
    if c = 'n' then
      skip
      word "ull".toList
      return .null
    else if c = 't' then
      skip
      word "rue".toList
      return .bool true
    else if c = 'f' then
      skip
      word "alse".toList
      return .bool false
    else if c = '-' || isDigit c then return .number (← number)
    else if c = '"' then return .string (← quoted)
    else if c = '[' then
      if depth = 0 then failNext "recursion limit exceeded"
      skip
      return .list (← closing (elements (value depth) true) endList)
    else if c = '\x7b' then
      if depth = 0 then failNext "recursion limit exceeded"
      skip
      return .object (← closing (entries (value depth)) endObject)
    else failNext "expected value"

end Reader

end Dataflow.Json
