/-!
# Shortest decimals

The decimal with the fewest digits that reads back as a given binary number, and of those the
nearest to it. The number is `significand * 2 ^ exponent`; the decimals that read back as it fill
an interval around it that reaches half way to its neighbours, ends included when the significand
is even.
-/

namespace Dataflow

/-- The number `digits * 10 ^ exponent`. -/
structure Decimal where
  digits : Nat
  exponent : Int
  deriving DecidableEq, Repr

namespace Decimal

/-- The number `significand * 2 ^ exponent`. `closeBelow` says that the next smaller number is
only half as far away as the next greater one. -/
structure Dyadic where
  significand : Nat
  exponent : Int
  closeBelow : Bool
  deriving DecidableEq, Repr

/-- A fraction `num / den`. -/
structure Ratio where
  num : Nat
  den : Nat

/-- `n * 2 ^ e` as a fraction. -/
def Ratio.ofBinary (n : Nat) (e : Int) : Ratio :=
  if 0 ≤ e then ⟨n * Nat.pow 2 e.toNat, 1⟩ else ⟨n, Nat.pow 2 (-e).toNat⟩

/-- `d * 10 ^ e` as a fraction. -/
def Ratio.ofDecimal (d : Nat) (e : Int) : Ratio :=
  if 0 ≤ e then ⟨d * Nat.pow 10 e.toNat, 1⟩ else ⟨d, Nat.pow 10 (-e).toNat⟩

/-- Whether the first fraction is less than the second. -/
def Ratio.less (a b : Ratio) : Bool := a.num * b.den < b.num * a.den

/-- Whether the first fraction is at most the second. -/
def Ratio.atMost (a b : Ratio) : Bool := a.num * b.den ≤ b.num * a.den

/-- The number of decimal digits, one for zero. -/
def digitCount (n : Nat) : Nat := (Nat.toDigits 10 n).length

/-- How many times a fraction below one has to be multiplied by ten to reach one, if `limit`
times are enough. -/
def leadingZeros (r : Ratio) : (limit : Nat) → Nat
  | 0 => 0
  | limit + 1 => if r.den ≤ r.num then 0 else leadingZeros ⟨r.num * 10, r.den⟩ limit + 1

/-- The place of the first digit: the `p` with `10 ^ p ≤ r < 10 ^ (p + 1)`. -/
def magnitude (r : Ratio) : Int :=
  if r.den ≤ r.num then (digitCount (r.num / r.den) : Int) - 1
  else - (leadingZeros r 400 : Int)

/-- The greatest multiple of `10 ^ e` that is not above `r`, divided by `10 ^ e`. -/
def gridFloor (r : Ratio) (e : Int) : Nat :=
  if 0 ≤ e then r.num / (r.den * Nat.pow 10 e.toNat)
  else r.num * Nat.pow 10 (-e).toNat / r.den

/-- Whether the decimal `d * 10 ^ e` reads back as `x`. -/
def readsBack (x : Dyadic) (d : Nat) (e : Int) : Bool :=
  let low := Ratio.ofBinary (4 * x.significand - if x.closeBelow then 1 else 2) (x.exponent - 2)
  let high := Ratio.ofBinary (4 * x.significand + 2) (x.exponent - 2)
  let candidate := Ratio.ofDecimal d e
  if x.significand % 2 = 0 then low.atMost candidate && candidate.atMost high
  else low.less candidate && candidate.less high

/-- Which of two equally near neighbours is taken. -/
inductive Tie where
  /-- The one whose last digit is even. -/
  | toEven
  /-- The greater one. -/
  | up
  deriving DecidableEq, Repr

/-- The digits that a tie between `below` and the number after it goes to. -/
def Tie.settle (tie : Tie) (below : Nat) : Nat :=
  match tie with
  | .toEven => if below % 2 = 0 then below else below + 1
  | .up => below + 1

/-- The neighbour of `x` on the grid of multiples of `10 ^ e` that reads back as `x`: the nearer
one if both do, and as `tie` says if both are as near. -/
def onGrid (tie : Tie) (x : Dyadic) (e : Int) : Option Decimal :=
  let value := Ratio.ofBinary x.significand x.exponent
  let below := gridFloor value e
  match readsBack x below e && 0 < below, readsBack x (below + 1) e with
  | true, true =>
    -- twice the value against the middle of the two neighbours
    let middle := Ratio.ofDecimal (2 * below + 1) e
    let twice : Ratio := ⟨2 * value.num, value.den⟩
    if twice.less middle then some ⟨below, e⟩
    else if middle.less twice then some ⟨below + 1, e⟩
    else some ⟨tie.settle below, e⟩
  | true, false => some ⟨below, e⟩
  | false, true => some ⟨below + 1, e⟩
  | false, false => none

/-- The first grid with a hit, from `places` digits down to the last grid of `limit`. -/
def firstHit (tie : Tie) (x : Dyadic) (top : Int) : (limit : Nat) → (places : Nat) → Decimal
  | 0, places => ⟨gridFloor (Ratio.ofBinary x.significand x.exponent) (top - places), top - places⟩
  | limit + 1, places =>
    match onGrid tie x (top - places) with
    | some d => d
    | none => firstHit tie x top limit (places + 1)

/-- Strips zeros from the end of the digits. -/
def trim (d : Decimal) : (limit : Nat) → Decimal
  | 0 => d
  | limit + 1 =>
    if d.digits % 10 = 0 && 0 < d.digits then trim ⟨d.digits / 10, d.exponent + 1⟩ limit else d

/-- The shortest decimal that reads back as the positive number `x`. Seventeen digits are always
enough. -/
def shortest (tie : Tie) (x : Dyadic) : Decimal :=
  trim (firstHit tie x (magnitude (Ratio.ofBinary x.significand x.exponent)) 17 0) 20

/-- The digits as text. -/
def digitText (d : Decimal) : String := toString d.digits

/-- Positional notation without an exponent, and without a point for whole numbers. -/
def positional (d : Decimal) : String :=
  let text := d.digitText
  if 0 ≤ d.exponent then text ++ String.ofList (List.replicate d.exponent.toNat '0')
  else
    let places := (-d.exponent).toNat
    let chars := text.toList
    if places < chars.length then
      let whole := chars.length - places
      String.ofList (chars.take whole ++ '.' :: chars.drop whole)
    else
      "0." ++ String.ofList (List.replicate (places - chars.length) '0' ++ chars)

/-- An exponent with its sign. -/
def exponentText (e : Int) : String := (if 0 ≤ e then "e+" else "e") ++ toString e

/-- Notation for data files: a point or an exponent is always there. The exponent, which has a
sign, appears when the first digit stands more than sixteen places before the point or more than
five behind it. -/
def scientific (d : Decimal) : String :=
  let chars := d.digitText.toList
  let pointAt : Int := chars.length + d.exponent
  if 0 ≤ d.exponent && pointAt ≤ 16 then d.positional ++ ".0"
  else if 0 < pointAt && pointAt ≤ 16 then d.positional
  else if -5 < pointAt && pointAt ≤ 0 then d.positional
  else
    let mantissa := match chars with
      | [c] => [c]
      | c :: rest => c :: '.' :: rest
      | [] => []
    String.ofList mantissa ++ exponentText (pointAt - 1)

end Decimal

end Dataflow
