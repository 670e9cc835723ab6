import Dataflow.Decimal.Binary64
/-!
# Delays

A stretch of time in whole seconds and nanoseconds. Seconds given as a binary fraction are rounded
to the nearest nanosecond, and a tie goes to the even neighbour.
-/

namespace Dataflow

/-- The quotient rounded to the nearest whole number; a tie goes to the even one. -/
def divideRounded (num den : Nat) : Nat :=
  let q := num / den
  let twice := 2 * (num % den)
  if twice < den then q
  else if den < twice then q + 1
  else if q % 2 = 0 then q else q + 1

/-- A stretch of time. -/
structure Delay where
  secs : Nat
  nanos : Nat
  deriving DecidableEq, Repr, Inhabited

namespace Delay

/-- Nanoseconds in a second. -/
def perSecond : Nat := 1000000000

/-- A delay of so many nanoseconds. -/
def ofNanos (n : Nat) : Delay := ⟨n / perSecond, n % perSecond⟩

/-- A delay of so many milliseconds. -/
def ofMillis (n : Nat) : Delay := ofNanos (n * 1000000)

/-- The whole delay in nanoseconds. -/
def totalNanos (d : Delay) : Nat := d.secs * perSecond + d.nanos

/-- A positive number of seconds, rounded to nanoseconds. None if it is infinite or the seconds do
not fit into sixty-four bits. -/
def ofSeconds? (x : Binary64) : Option Delay :=
  if x.isInfinite then none
  else
    let m := x.magnitude
    let nanos :=
      if 0 ≤ m.exponent then m.significand * Nat.pow 2 m.exponent.toNat * perSecond
      else divideRounded (m.significand * perSecond) (Nat.pow 2 (-m.exponent).toNat)
    let delay := ofNanos nanos
    if delay.secs < 0x10000000000000000 then some delay else none

end Delay

end Dataflow
