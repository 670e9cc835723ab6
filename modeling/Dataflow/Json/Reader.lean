import Dataflow.Text.Quoted
/-!
# Reading JSON

A reader walks over a text and knows the line and the column, counted in octets of the UTF-8 form,
that it has reached. A fault is placed behind the character that caused it. A fault about the shape
of a value that was read before has no place of its own; it gets one from whoever was reading the
surrounding list or object, after an attempt to close it.
-/

namespace Dataflow.Json

/-- A place in a text. -/
structure Place where
  line : Nat
  column : Nat
  deriving DecidableEq, Repr, Inhabited

/-- What is still to be read, and the place that was reached. -/
structure Cursor where
  rest : List Char
  place : Place
  /-- One more than the characters of the whole text; no loop of a reader runs longer. -/
  bound : Nat
  deriving Repr, Inhabited

/-- The start of a text. -/
def Cursor.atStart (text : List Char) : Cursor := ⟨text, ⟨1, 0⟩, text.length + 1⟩

/-- The place behind a character, of which so many octets are taken. -/
def Place.behind (p : Place) (c : Char) (octets : Nat) : Place :=
  if c = '\n' then ⟨p.line + 1, 0⟩ else ⟨p.line, p.column + octets⟩

/-- Passes the next character. -/
def Cursor.pass (c : Cursor) : Cursor :=
  match c.rest with
  | [] => c
  | a :: rest => { c with rest, place := c.place.behind a a.utf8Size }

/-- The place behind the first octet of what comes next. -/
def Cursor.nextPlace (c : Cursor) : Place :=
  match c.rest with
  | [] => c.place
  | a :: _ => c.place.behind a 1

/-- Why a text could not be read, with the place if it is known. -/
structure Fault where
  text : String
  place : Option Place := none
  deriving DecidableEq, Repr, Inhabited

/-- A computation that reads. What was passed before a fault stays passed. -/
abbrev Reader (α : Type) := ExceptT Fault (StateM Cursor) α

namespace Reader

/-! ### Characters and faults -/

/-- The next character. -/
def peek : Reader (Option Char) := return (← get).rest.head?

/-- Passes the next character. -/
def skip : Reader Unit := modify Cursor.pass

/-- A fault at the place that was reached. -/
def failHere {α : Type} (text : String) : Reader α := do throw ⟨text, some (← get).place⟩

/-- A fault about the next character. -/
def failNext {α : Type} (text : String) : Reader α := do throw ⟨text, some (← get).nextPlace⟩

/-- A fault without a place. -/
def failUnplaced {α : Type} (text : String) : Reader α := throw ⟨text, none⟩

/-- A fault without a place gets the place that was reached. -/
def placing {α : Type} (r : Reader α) : Reader α :=
  tryCatch r fun fault =>
    match fault.place with
    | some _ => throw fault
    | none => failHere fault.text

/-- A bound on the length of every loop of a reader. -/
def fuel : Reader Nat := return (← get).bound

/-- Whether a character may stand between tokens. -/
def isBlank (c : Char) : Bool := c = ' ' || c = '\n' || c = '\t' || c = '\r'

/-- What is left behind the characters that satisfy `p`, and the place that is reached then. -/
def dropWhile (p : Char → Bool) : List Char → Place → List Char × Place
  | [], place => ([], place)
  | c :: rest, place =>
    if p c then dropWhile p rest (place.behind c c.utf8Size) else (c :: rest, place)

/-- Passes characters as long as they satisfy `p`. -/
def skipWhile (p : Char → Bool) : Reader Unit :=
  modify fun c =>
    let (rest, place) := dropWhile p c.rest c.place
    { c with rest, place }

/-- Passes blanks and answers the next character. -/
def token : Reader (Option Char) := do
  skipWhile isBlank
  peek

/-- The next character after blanks; the text must not end here. -/
def tokenOfValue : Reader Char := do
  match ← token with
  | some c => return c
  | none => failNext "EOF while parsing a value"

/-- Passes the given characters. -/
def word : List Char → Reader Unit
  | [] => return
  | expected :: rest => do
    match ← peek with
    | none => failHere "EOF while parsing a value"
    | some c =>
      if c = expected then
        skip
        word rest
      else failNext "expected ident"

/-! ### Lists and objects -/

/-- Whether another element follows in a list. -/
def nextElement (first : Bool) : Reader Bool := do
  match ← token with
  | none => failNext "EOF while parsing a list"
  | some ']' => return false
  | some c =>
    if first then return true
    else if c = ',' then
      skip
      match ← token with
      | some ']' => failNext "trailing comma"
      | some _ => return true
      | none => failNext "EOF while parsing a value"
    else failNext "expected `,` or `]`"

/-- Whether another key follows in an object. -/
def nextKey (first : Bool) : Reader Bool := do
  match ← token with
  | none => failNext "EOF while parsing an object"
  | some '\x7d' => return false
  | some c =>
    if first then
      if c = '"' then return true else failNext "key must be a string"
    else if c = ',' then
      skip
      match ← token with
      | some '"' => return true
      | some '\x7d' => failNext "trailing comma"
      | some _ => failNext "key must be a string"
      | none => failNext "EOF while parsing a value"
    else failNext "expected `,` or `\x7d`"

/-- The colon behind a key. -/
def colon : Reader Unit := do
  match ← token with
  | some ':' => skip
  | some _ => failNext "expected `:`"
  | none => failNext "EOF while parsing an object"

/-- The end of a list. -/
def endList : Reader Unit := do
  match ← token with
  | some ']' => skip
  | some ',' =>
    skip
    match ← token with
    | some ']' => failNext "trailing comma"
    | _ => failNext "trailing characters"
  | some _ => failNext "trailing characters"
  | none => failNext "EOF while parsing a list"

/-- The end of an object. -/
def endObject : Reader Unit := do
  match ← token with
  | some '\x7d' => skip
  | some ',' => failNext "trailing comma"
  | some _ => failNext "trailing characters"
  | none => failNext "EOF while parsing an object"

/-- Reads what stands between brackets. The closing bracket is looked for also after a fault, and
the first fault counts. -/
def closing {α : Type} (body : Reader α) (close : Reader Unit) : Reader α :=
  placing do
    let answer ← tryCatch (return Except.ok (← body)) fun fault => return Except.error fault
    match answer with
    | .ok a =>
      close
      return a
    | .error fault =>
      tryCatch close fun _ => return
      throw fault

/-- Reads parts as long as `next` finds another one, each knowing what came of those before it; at
most so many. -/
def each {σ : Type} (next : Bool → Reader Bool) (part : σ → Reader σ) :
    Nat → (first : Bool) → σ → Reader σ
  | 0, _, s => return s
  | n + 1, first, s => do
    if ← next first then each next part n false (← part s) else return s

/-- Opens a bracket at the given remaining depth. -/
def opening {α : Type} (depth : Nat) (body : Nat → Reader α) : Reader α := do
  match depth with
  | 0 | 1 => failNext "recursion limit exceeded"
  | inner + 1 =>
    skip
    body inner

/-- The depth of nested brackets that a text may have. -/
def depthLimit : Nat := 128

/-- The end of the text. -/
def endOfText : Reader Unit := do
  match ← token with
  | some _ => failNext "trailing characters"
  | none => return

/-- Reads a whole text. -/
def readAll {α : Type} (r : Reader α) (text : String) : Except Fault α :=
  ((do
    let a ← r
    endOfText
    return a : Reader α).run (.atStart text.toList)).1

end Reader

/-- The fault in words. -/
def Fault.message (f : Fault) : String :=
  match f.place with
  | some p => f.text ++ " at line " ++ toString p.line ++ " column " ++ toString p.column
  | none => f.text

end Dataflow.Json
