import Dataflow.Octets
/-!
# SipHash-1-3

The keyed 64-bit hash of a list of octets with one compression round per word and three final
rounds. Fingerprints use the key zero.
-/

namespace Dataflow

/-- A 64-bit hash of octet lists. -/
abbrev Digest := List UInt8 → UInt64

namespace Sip

/-- The four words that are mixed. -/
structure State where
  v0 : UInt64
  v1 : UInt64
  v2 : UInt64
  v3 : UInt64
  deriving DecidableEq, Repr

/-- Rotation of a word to the left by `n` places, for `n` between 1 and 63. -/
def rotateLeft (x : UInt64) (n : UInt64) : UInt64 := (x <<< n) ||| (x >>> (64 - n))

/-- One round of additions, rotations and exclusive ors. -/
def round (s : State) : State :=
  let v0 := s.v0 + s.v1
  let v1 := rotateLeft s.v1 13 ^^^ v0
  let v0 := rotateLeft v0 32
  let v2 := s.v2 + s.v3
  let v3 := rotateLeft s.v3 16 ^^^ v2
  let v0 := v0 + v3
  let v3 := rotateLeft v3 21 ^^^ v0
  let v2 := v2 + v1
  let v1 := rotateLeft v1 17 ^^^ v2
  let v2 := rotateLeft v2 32
  ⟨v0, v1, v2, v3⟩

/-- The state for the key zero. -/
def initial : State :=
  ⟨0x736f6d6570736575, 0x646f72616e646f6d, 0x6c7967656e657261, 0x7465646279746573⟩

/-- Takes one word into the state. -/
def absorb (s : State) (word : UInt64) : State :=
  let mixed := round { s with v3 := s.v3 ^^^ word }
  { mixed with v0 := mixed.v0 ^^^ word }

/-- The word made of the octets `os`, the first one least significant. -/
def word : List UInt8 → UInt64
  | [] => 0
  | o :: os => o.toUInt64 ||| (word os <<< 8)

/-- Absorbs whole words. What is left over, fewer than eight octets, is absorbed together with
the length of the input in the highest octet. -/
def absorbAll (length : UInt64) (s : State) : List UInt8 → State
  | a :: b :: c :: d :: e :: f :: g :: h :: rest =>
    absorbAll length (absorb s (word [a, b, c, d, e, f, g, h])) rest
  | last => absorb s (word last ||| (length <<< 56))

/-- The final rounds and the exclusive or of the four words. -/
def finish (s : State) : UInt64 :=
  let s := round (round (round { s with v2 := s.v2 ^^^ 0xff }))
  s.v0 ^^^ s.v1 ^^^ s.v2 ^^^ s.v3

/-- SipHash-1-3 of `octets` with the key zero. -/
def digest : Digest := fun octets =>
  finish (absorbAll octets.length.toUInt64 initial octets)

end Sip

/-- Combines hashes in order: the digest of their octets, one after the other. -/
def combine (digest : Digest) (parts : List UInt64) : UInt64 :=
  digest (parts.flatMap octets64)

end Dataflow
