import Dataflow.Decimal.Binary64
import Dataflow.Json.Reader
/-!
# Numbers in JSON

A number without fraction and exponent that fits is a whole number. Any other one is taken as a
significand of at most sixty-four bits, further digits only counting by their place, times a power
of ten; the product is computed in double precision.
-/

namespace Dataflow.Json

/-- What a number is read as. -/
inductive Number where
  | whole (n : Int)
  | fraction (x : Binary64)
  deriving DecidableEq, Repr, Inhabited

namespace Reader

/-- Whether a character is a digit. -/
def isDigit (c : Char) : Bool := '0' ≤ c && c ≤ '9'

/-- The value of a digit. -/
def digit (c : Char) : Nat := c.toNat - '0'.toNat

/-- The digits that come next. -/
def digitsAhead : Reader (List Char) := return (← get).rest.takeWhile isDigit

/-- Passes so many characters. -/
def skips : Nat → Reader Unit
  | 0 => return
  | n + 1 => do
    skip
    skips n

/-- Appends digits to a significand as long as it stays below `bound`. Answers the significand and
how many digits were taken. -/
def accumulate (bound : Nat) : Nat → List Char → Nat × Nat
  | n, [] => (n, 0)
  | n, c :: rest =>
    let grown := n * 10 + digit c
    if bound ≤ grown then (n, 0)
    else
      let (n, taken) := accumulate bound grown rest
      (n, taken + 1)

/-- A power of ten in double precision. -/
def powerOfTen (e : Nat) : Float := Float.ofScientific 1 false e

/-- The significand times a power of ten, computed in double precision. Exponents far below zero
are taken in several steps, at most so many. -/
def scale : Nat → Float → Int → Option Float
  | 0, f, _ => some f
  | steps + 1, f, e =>
    if e.natAbs ≤ 308 then
      if 0 ≤ e then
        let product := f * powerOfTen e.natAbs
        if product.isInf then none else some product
      else some (f / powerOfTen e.natAbs)
    else if f == 0 then some f
    else if 0 ≤ e then none
    else scale steps (f / powerOfTen 308) (e + 308)

/-- A number from its parts. -/
def fromParts (positive : Bool) (significand : Nat) (e : Int) : Reader Number := do
  match scale 8 significand.toUInt64.toFloat e with
  | some f => return .fraction (.ofFloat (if positive then f else -f))
  | none => failHere "number out of range"

/-- Exponents stay within thirty-two bits. -/
def clampExponent (e : Int) : Int := max (-2147483648) (min 2147483647 e)

/-- Reads the exponent behind a significand. -/
def exponent (positive : Bool) (significand : Nat) (start : Int) : Reader Number := do
  skip
  let positiveExponent ←
    match ← peek with
    | some '+' =>
      skip
      pure true
    | some '-' =>
      skip
      pure false
    | _ => pure true
  match ← peek with
  | none => failHere "EOF while parsing a value"
  | some c => if !isDigit c then failNext "invalid number"
  let digits ← digitsAhead
  let (e, taken) := accumulate 2147483648 0 digits
  if taken < digits.length then
    if significand ≠ 0 && positiveExponent then
      skips (taken + 1)
      failHere "number out of range"
    skips digits.length
    return .fraction (.ofFloat (if positive then 0.0 else -0.0))
  skips digits.length
  fromParts positive significand
    (clampExponent (if positiveExponent then start + e else start - e))

/-- Whether the next character starts an exponent. -/
def exponentAhead : Reader Bool := do
  match ← peek with
  | some 'e' | some 'E' => return true
  | _ => return false

/-- Reads the digits behind the point. -/
def decimals (positive : Bool) (significand : Nat) (start : Int) : Reader Number := do
  skip
  let digits ← digitsAhead
  if digits.isEmpty then
    match ← peek with
    | some _ => failNext "invalid number"
    | none => failNext "EOF while parsing a value"
  let (significand, taken) := accumulate 0x10000000000000000 significand digits
  skips digits.length
  let e := start - taken
  if ← exponentAhead then exponent positive significand e
  else fromParts positive significand e

/-- What follows the digits of a whole number; further digits only count by their place. -/
def tail (positive : Bool) (significand extra : Nat) : Reader Number := do
  match ← peek with
  | some '.' => decimals positive significand extra
  | some 'e' | some 'E' => exponent positive significand extra
  | _ =>
    if extra ≠ 0 then fromParts positive significand extra
    else if positive then return .whole significand
    else if significand = 0 || 0x8000000000000000 < significand then
      return .fraction (.ofFloat (-significand.toUInt64.toFloat))
    else return .whole (-(significand : Int))

/-- Reads a number behind its sign. -/
def unsigned (positive : Bool) : Reader Number := do
  match ← peek with
  | none => failHere "EOF while parsing a value"
  | some c =>
    if c = '0' then
      skip
      match ← peek with
      | some d => if isDigit d then failNext "invalid number"
      | none => pure ()
      tail positive 0 0
    else if isDigit c then
      let digits ← digitsAhead
      let (significand, taken) := accumulate 0x10000000000000000 0 digits
      skips digits.length
      tail positive significand (digits.length - taken)
    else failNext "invalid number"

/-- Reads a number. -/
def number : Reader Number := do
  match ← peek with
  | some '-' =>
    skip
    unsigned false
  | _ => unsigned true

end Reader

end Dataflow.Json
