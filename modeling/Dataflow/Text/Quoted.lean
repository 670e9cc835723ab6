import Dataflow.Text.Printable
/-!
# Quoted text

A text between double quotes in which quotes, backslashes and characters that cannot be seen are
escaped, so that the written form shows every character.
-/

namespace Dataflow.Text

/-- A number in lower-case hexadecimal digits. -/
def hex (n : Nat) : String := String.ofList (Nat.toDigits 16 n)

/-- The character by its code point, between braces. -/
def escapeUnicode (c : Char) : String := "\\u\x7b" ++ hex c.toNat ++ "\x7d"

/-- The written form of one character. Combining marks are escaped, because they would be drawn
onto the character before them. -/
def escapeChar (c : Char) : String :=
  if c = '\x00' then "\\0"
  else if c = '\t' then "\\t"
  else if c = '\r' then "\\r"
  else if c = '\n' then "\\n"
  else if c = '\\' then "\\\\"
  else if c = '"' then "\\\""
  else if 0x20 ≤ c.toNat && c.toNat < 0x7f then c.toString
  else if isExtender c then escapeUnicode c
  else if isPrintable c then c.toString
  else escapeUnicode c

/-- The text between double quotes, with escapes. -/
def quoted (s : String) : String :=
  "\"" ++ String.join (s.toList.map escapeChar) ++ "\""

/-- Written forms between square brackets, with commas. -/
def listed (items : List String) : String := "[" ++ String.intercalate ", " items ++ "]"

/-- A record: its name and its fields between braces. -/
def record (name : String) (fields : List (String × String)) : String :=
  name ++ " \x7b " ++ String.intercalate ", " (fields.map fun (k, v) => k ++ ": " ++ v) ++ " \x7d"

/-- A truth value in words. -/
def truth (b : Bool) : String := if b then "true" else "false"

/-- An optional written form. -/
def optional : Option String → String
  | none => "None"
  | some s => "Some(" ++ s ++ ")"

end Dataflow.Text
