import Dataflow.Json.Reader
/-!
# Texts in JSON

A text stands between quotes. Control characters have to be escaped, and a character beyond sixteen
bits is escaped as a pair of surrogates.
-/

namespace Dataflow.Json.Reader

/-- The value of a hexadecimal digit. -/
def hexDigit? (c : Char) : Option Nat :=
  if '0' ≤ c && c ≤ '9' then some (c.toNat - '0'.toNat)
  else if 'a' ≤ c && c ≤ 'f' then some (c.toNat - 'a'.toNat + 10)
  else if 'A' ≤ c && c ≤ 'F' then some (c.toNat - 'A'.toNat + 10)
  else none

/-- The place behind so many octets of a text, or none if there are fewer. -/
def behindOctets : Nat → List Char → Place → Option Place
  | 0, _, place => some place
  | _ + 1, [], _ => none
  | n + 1, c :: rest, place =>
    if c.utf8Size ≤ n + 1 then behindOctets (n + 1 - c.utf8Size) rest (place.behind c c.utf8Size)
    else some (place.behind c (n + 1))
termination_by structural _ cs _ => cs

/-- Passes everything that is left. -/
def skipToEnd : Reader Unit := skipWhile fun _ => true

/-- Four hexadecimal digits. -/
def hexEscape : Reader Nat := do
  let c ← get
  match c.rest with
  | a :: b :: d :: e :: _ =>
    match hexDigit? a, hexDigit? b, hexDigit? d, hexDigit? e with
    | some p, some q, some r, some s =>
      skip; skip; skip; skip
      return ((p * 16 + q) * 16 + r) * 16 + s
    | _, _, _, _ =>
      throw ⟨"invalid escape", behindOctets 4 c.rest c.place⟩
  | _ =>
    match behindOctets 4 c.rest c.place with
    | some place => throw ⟨"invalid escape", some place⟩
    | none =>
      skipToEnd
      failHere "EOF while parsing a string"

/-- The next character of a text that must not end here. -/
def peekInText : Reader Char := do
  match ← peek with
  | some c => return c
  | none => failHere "EOF while parsing a string"

/-- Passes a character that the second half of a surrogate pair needs. -/
def expectInPair (c : Char) : Reader Unit := do
  if (← peekInText) = c then skip else failNext "unexpected end of hex escape"

/-- The character of an escape by number. -/
def unicodeEscape : Reader Char := do
  let n ← hexEscape
  if 0xDC00 ≤ n && n ≤ 0xDFFF then failHere "lone leading surrogate in hex escape"
  if n < 0xD800 || 0xDBFF < n then return Char.ofNat n
  expectInPair '\\'
  expectInPair 'u'
  let m ← hexEscape
  if m < 0xDC00 || 0xDFFF < m then failHere "lone leading surrogate in hex escape"
  return Char.ofNat ((n - 0xD800) * 1024 + (m - 0xDC00) + 0x10000)

/-- The character that a letter behind a backslash stands for. -/
def shortEscape? : Char → Option Char
  | '"' => some '"'
  | '\\' => some '\\'
  | '/' => some '/'
  | 'b' => some '\x08'
  | 'f' => some '\x0c'
  | 'n' => some '\n'
  | 'r' => some '\r'
  | 't' => some '\t'
  | _ => none

/-- The character of an escape, behind its backslash. -/
def escape : Reader Char := do
  let c ← peekInText
  match shortEscape? c with
  | some meant =>
    skip
    return meant
  | none =>
    if c = 'u' then
      skip
      unicodeEscape
    else failNext "invalid escape"

/-- The fault of a bare control character. -/
def controlFault : String :=
  "control character (\\u0000-\\u001F) found while parsing a string"

/-- Reads characters up to the closing quote, at most so many. The characters read so far are in
reverse order. -/
def textBody : Nat → List Char → Reader String
  | 0, _ => failHere "EOF while parsing a string"
  | n + 1, read => do
    let c ← peekInText
    if c = '"' then
      skip
      return String.ofList read.reverse
    else if c = '\\' then
      skip
      let meant ← escape
      textBody n (meant :: read)
    else if c.toNat < 0x20 then failNext controlFault
    else
      skip
      textBody n (c :: read)

/-- Reads a text behind its opening quote. -/
def text : Reader String := do textBody (← fuel) []

/-- Reads a text from its opening quote on. -/
def quoted : Reader String := do
  skip
  text

/-- Passes characters up to the closing quote, at most so many. -/
def skipTextBody : Nat → Reader Unit
  | 0 => failHere "EOF while parsing a string"
  | n + 1 => do
    let c ← peekInText
    if c = '"' then skip
    else if c = '\\' then
      skip
      let e ← peekInText
      if (shortEscape? e).isSome then skip
      else if e = 'u' then
        skip
        let _ ← hexEscape
      else failNext "invalid escape"
      skipTextBody n
    else if c.toNat < 0x20 then failHere controlFault
    else
      skip
      skipTextBody n

/-- Passes a text behind its opening quote. -/
def skipText : Reader Unit := do skipTextBody (← fuel)

end Dataflow.Json.Reader
