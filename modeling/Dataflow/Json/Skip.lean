import Dataflow.Json.Number
import Dataflow.Json.Text
/-!
# Passing over values

A value that nobody asks for is passed over. Brackets may be nested to any depth, numbers may be of
any size, and surrogates need no partners.
-/

namespace Dataflow.Json.Reader

/-- Passes the digits that come next. -/
def skipDigits : Reader Unit := do skips (← digitsAhead).length

/-- Passes an exponent. -/
def skipExponent : Reader Unit := do
  skip
  match ← peek with
  | some '+' | some '-' => skip
  | _ => pure ()
  match ← peek with
  | some c => if isDigit c then skipDigits else failNext "invalid number"
  | none => failHere "invalid number"

/-- Passes a number behind its sign. -/
def skipUnsigned : Reader Unit := do
  match ← peek with
  | none => failHere "invalid number"
  | some c =>
    if c = '0' then
      skip
      match ← peek with
      | some d => if isDigit d then failNext "invalid number"
      | none => pure ()
    else if isDigit c then skipDigits
    else failNext "invalid number"
  match ← peek with
  | some '.' =>
    skip
    if (← digitsAhead).isEmpty then failNext "invalid number"
    skipDigits
    if ← exponentAhead then skipExponent
  | some 'e' | some 'E' => skipExponent
  | _ => pure ()

/-- Passes a value that is no list or object, or the opening bracket of one. Answers the bracket. -/
def skipScalar : Reader (Option Char) := do
  let c ← tokenOfValue
  if c = 'n' then
    skip
    word "ull".toList
    return none
  else if c = 't' then
    skip
    word "rue".toList
    return none
  else if c = 'f' then
    skip
    word "alse".toList
    return none
  else if c = '-' then
    skip
    skipUnsigned
    return none
  else if isDigit c then
    skipUnsigned
    return none
  else if c = '"' then
    skip
    skipText
    return none
  else if c = '[' || c = '\x7b' then
    skip
    return some c
  else failNext "expected value"

/-- Passes closing brackets and at most one comma. Answers the brackets that are open then, or none
if the whole value was passed. -/
def skipClosers : Nat → (afterValue : Bool) → List Char → Reader (List Char)
  | 0, _, _ => failHere "EOF while parsing a value"
  | _ + 1, _, [] => return []
  | n + 1, afterValue, bracket :: outer => do
    let closer := if bracket = '[' then ']' else '\x7d'
    match ← token with
    | none =>
      failNext (if bracket = '[' then "EOF while parsing a list" else "EOF while parsing an object")
    | some c =>
      if c = ',' && afterValue then
        skip
        return bracket :: outer
      else if c = closer then
        skip
        skipClosers n true outer
      else if afterValue then
        failNext (if bracket = '[' then "expected `,` or `]`" else "expected `,` or `\x7d`")
      else return bracket :: outer

/-- Passes a key and its colon. -/
def skipKey : Reader Unit := do
  match ← token with
  | some '"' =>
    skip
    skipText
    colon
  | some _ => failNext "key must be a string"
  | none => failNext "EOF while parsing an object"

/-- Passes values inside the given brackets until all are closed, at most so many. -/
def skipWithin : Nat → List Char → Reader Unit
  | 0, _ => failHere "EOF while parsing a value"
  | n + 1, brackets => do
    let opened ← skipScalar
    let brackets := opened.toList ++ brackets
    let brackets ← skipClosers (← fuel) opened.isNone brackets
    match brackets with
    | [] => return
    | bracket :: _ =>
      if bracket = '\x7b' then skipKey
      skipWithin n brackets

/-- Passes over one value. -/
def skipValue : Reader Unit := do skipWithin (← fuel) []

end Dataflow.Json.Reader
