import Dataflow.Decimal.Shortest
/-!
# Double precision numbers

A number in the 64-bit binary format is kept by its bits, so that two numbers are the same value
exactly when their bits agree. Arithmetic follows the format's own rules.
-/

namespace Dataflow

/-- A number of the 64-bit binary format, by its bits. -/
structure Binary64 where
  bits : UInt64
  deriving DecidableEq, Repr, Inhabited

namespace Binary64

/-- The number as the machine computes with it. -/
def toFloat (x : Binary64) : Float := Float.ofBits x.bits

/-- A computed number by its bits. -/
def ofFloat (x : Float) : Binary64 := ⟨x.toBits⟩

/-- The exponent field, eleven bits. -/
def exponentField (x : Binary64) : Nat := (x.bits >>> 52).toNat % 2048

/-- The fraction field, fifty-two bits. -/
def fraction (x : Binary64) : Nat := x.bits.toNat % 0x10000000000000

/-- Whether the sign bit is set. -/
def isNegative (x : Binary64) : Bool := 0x8000000000000000 ≤ x.bits.toNat

/-- Not a number. -/
def isNaN (x : Binary64) : Bool := x.exponentField = 2047 && x.fraction ≠ 0

/-- One of the two infinities. -/
def isInfinite (x : Binary64) : Bool := x.exponentField = 2047 && x.fraction = 0

/-- One of the two zeros. -/
def isZero (x : Binary64) : Bool := x.exponentField = 0 && x.fraction = 0

/-- The absolute value of a finite number as `significand * 2 ^ exponent`. -/
def magnitude (x : Binary64) : Decimal.Dyadic :=
  if x.exponentField = 0 then ⟨x.fraction, -1074, false⟩
  else
    ⟨0x10000000000000 + x.fraction, x.exponentField - 1075,
      x.fraction = 0 && 1 < x.exponentField⟩

/-- Numeric equality. -/
def same (a b : Binary64) : Bool :=
  if a.isNaN || b.isNaN then false
  else if a.isZero && b.isZero then true
  else a.bits = b.bits

/-- The rounded sum. -/
def add (a b : Binary64) : Binary64 := ofFloat (a.toFloat + b.toFloat)

/-- The number nearest to a 64-bit integer. -/
def ofInt64 (n : Int64) : Binary64 := ofFloat n.toFloat

/-- A finite number's sign and the written form of its absolute value. -/
def signed (x : Binary64) (tie : Decimal.Tie) (zero : String) (render : Decimal → String) :
    String :=
  let body := if x.isZero then zero else render (Decimal.shortest tie x.magnitude)
  if x.isNegative then "-" ++ body else body

/-- The shortest decimal that reads back, in positional notation. Of two equally near ones the
greater is written. -/
def text (x : Binary64) : String :=
  if x.isNaN then "NaN"
  else if x.isInfinite then (if x.isNegative then "-inf" else "inf")
  else x.signed .up "0" Decimal.positional

/-- The shortest decimal that reads back, with a point or an exponent. Of two equally near ones the
even is written. -/
def dataText (x : Binary64) : String :=
  if x.isNaN then "NaN"
  else if x.isInfinite then (if x.isNegative then "-inf" else "inf")
  else x.signed .toEven "0.0" Decimal.scientific

end Binary64

end Dataflow
