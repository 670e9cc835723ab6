/-!
# Octet streams

Everything that is hashed is first written as a list of octets. Numbers are little endian, a text
is its UTF-8 form closed by the octet `0xff`, which no UTF-8 text holds.
-/

namespace Dataflow

/-- The octets of a 32-bit word, least significant first. -/
def octets32 (n : UInt32) : List UInt8 :=
  [n.toUInt8, (n >>> 8).toUInt8, (n >>> 16).toUInt8, (n >>> 24).toUInt8]

/-- The octets of a 64-bit word, least significant first. -/
def octets64 (n : UInt64) : List UInt8 :=
  [n.toUInt8, (n >>> 8).toUInt8, (n >>> 16).toUInt8, (n >>> 24).toUInt8,
    (n >>> 32).toUInt8, (n >>> 40).toUInt8, (n >>> 48).toUInt8, (n >>> 56).toUInt8]

/-- A length or an index, written as a 64-bit word. -/
def octetsLength (n : Nat) : List UInt8 := octets64 n.toUInt64

/-- The UTF-8 form of a text. -/
def utf8 (s : String) : List UInt8 := s.toByteArray.toList

/-- A text as it is hashed: its UTF-8 form and a closing `0xff`. -/
def octetsText (s : String) : List UInt8 := utf8 s ++ [0xff]

/-- A truth value as one octet. -/
def octetBool (b : Bool) : UInt8 := if b then 1 else 0

end Dataflow
