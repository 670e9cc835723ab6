import Dataflow.Json.Content
import Dataflow.Ordered
/-!
# Writing JSON

Content is written over several lines: every element and every entry on a line of its own, indented
by two blanks more than the bracket around it. Empty lists and objects stay on one line.
-/

namespace Dataflow.Json

/-- How a character of a text is written. -/
def writeChar (c : Char) : String :=
  match c with
  | '"' => "\\\""
  | '\\' => "\\\\"
  | '\n' => "\\n"
  | '\r' => "\\r"
  | '\t' => "\\t"
  | '\x08' => "\\b"
  | '\x0c' => "\\f"
  | c =>
    if c.toNat < 0x10 then "\\u000" ++ Text.hex c.toNat
    else if c.toNat < 0x20 then "\\u00" ++ Text.hex c.toNat
    else c.toString

/-- A text between quotes. -/
def writeText (s : String) : String :=
  "\"" ++ String.join (s.toList.map writeChar) ++ "\""

/-- How a number is written. What is no number is written as null. -/
def Number.written : Number → String
  | .whole n => toString n
  | .fraction x => if x.isNaN || x.isInfinite then "null" else x.dataText

/-- A new line with so many steps of indentation. -/
def newLine (depth : Nat) : String := "\n" ++ String.ofList (List.replicate (2 * depth) ' ')

/-- The parts of a list or an object inside so many brackets, each on a line of its own, up to the
closing bracket. -/
def lines (depth : Nat) : (first : Bool) → List String → String
  | first, [] => if first then "" else newLine depth
  | first, part :: parts =>
    (if first then "" else ",") ++ newLine (depth + 1) ++ part ++ lines depth false parts

mutual

/-- Content over several lines, inside so many brackets. -/
def Content.prettyAt (depth : Nat) : Content → String
  | .null => "null"
  | .bool b => Text.truth b
  | .number n => n.written
  | .string s => writeText s
  | .list items => "[" ++ lines depth true (Content.prettyItems (depth + 1) items) ++ "]"
  | .object entries =>
    "\x7b" ++ lines depth true (Content.prettyEntries (depth + 1) entries) ++ "\x7d"

/-- The elements of a list. -/
def Content.prettyItems (depth : Nat) : List Content → List String
  | [] => []
  | c :: items => c.prettyAt depth :: Content.prettyItems depth items

/-- The entries of an object. -/
def Content.prettyEntries (depth : Nat) : List (String × Content) → List String
  | [] => []
  | (k, c) :: entries =>
    (writeText k ++ ": " ++ c.prettyAt depth) :: Content.prettyEntries depth entries

end

/-- Content over several lines. -/
def Content.pretty (c : Content) : String := c.prettyAt 0

mutual

/-- Content on one line, without blanks. -/
def Content.compact : Content → String
  | .null => "null"
  | .bool b => Text.truth b
  | .number n => n.written
  | .string s => writeText s
  | .list items => "[" ++ String.intercalate "," (Content.compactItems items) ++ "]"
  | .object entries => "\x7b" ++ String.intercalate "," (Content.compactEntries entries) ++ "\x7d"

/-- The elements of a list, each on one line. -/
def Content.compactItems : List Content → List String
  | [] => []
  | c :: items => c.compact :: Content.compactItems items

/-- The entries of an object, each on one line. -/
def Content.compactEntries : List (String × Content) → List String
  | [] => []
  | (k, c) :: entries => (writeText k ++ ":" ++ c.compact) :: Content.compactEntries entries

end

mutual

/-- Content with the keys of every object in ascending order. -/
def Content.ordered : Content → Content
  | .list items => .list (Content.orderedItems items)
  | .object entries =>
    .object (sortBy (fun a b => !(decide (b.1 < a.1))) (Content.orderedEntries entries))
  | .null => .null
  | .bool b => .bool b
  | .number n => .number n
  | .string s => .string s

/-- The elements of a list, each with its keys in order. -/
def Content.orderedItems : List Content → List Content
  | [] => []
  | c :: items => c.ordered :: Content.orderedItems items

/-- The entries of an object, each with its keys in order. -/
def Content.orderedEntries : List (String × Content) → List (String × Content)
  | [] => []
  | (k, c) :: entries => (k, c.ordered) :: Content.orderedEntries entries

end

end Dataflow.Json
