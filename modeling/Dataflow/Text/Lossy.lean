/-!
# Reading octets as text, with replacements

A UTF-8 reader that never fails: each longest run of octets that starts a character but does not
finish it, and each octet that starts none, becomes one replacement character.
-/

namespace Dataflow.Text

/-- The mark that stands for octets that are no text. -/
def replacement : Char := '�'

/-- Octets that may follow the first octet of a character. -/
def isTail (o : UInt8) : Bool := 0x80 ≤ o && o ≤ 0xBF

/-- The octets that may follow `lead` directly, when `lead` opens a character of three octets. -/
def secondOfThree (lead o : UInt8) : Bool :=
  if lead = 0xE0 then 0xA0 ≤ o && o ≤ 0xBF
  else if lead = 0xED then 0x80 ≤ o && o ≤ 0x9F
  else isTail o

/-- The octets that may follow `lead` directly, when `lead` opens a character of four octets. -/
def secondOfFour (lead o : UInt8) : Bool :=
  if lead = 0xF0 then 0x90 ≤ o && o ≤ 0xBF
  else if lead = 0xF4 then 0x80 ≤ o && o ≤ 0x8F
  else isTail o

/-- The low six bits of a tail octet. -/
def tailBits (o : UInt8) : Nat := o.toNat % 64

/-- The characters that a list of octets spells, with replacements for what is no UTF-8. -/
def lossyChars : List UInt8 → List Char
  | [] => []
  | a :: rest =>
    if a < 0x80 then Char.ofNat a.toNat :: lossyChars rest
    else if 0xC2 ≤ a && a ≤ 0xDF then
      match rest with
      | b :: rest' =>
        if isTail b then Char.ofNat ((a.toNat % 32) * 64 + tailBits b) :: lossyChars rest'
        else replacement :: lossyChars (b :: rest')
      | [] => [replacement]
    else if 0xE0 ≤ a && a ≤ 0xEF then
      match rest with
      | b :: c :: rest' =>
        if secondOfThree a b then
          if isTail c then
            Char.ofNat ((a.toNat % 16) * 4096 + tailBits b * 64 + tailBits c) :: lossyChars rest'
          else replacement :: lossyChars (c :: rest')
        else replacement :: lossyChars (b :: c :: rest')
      | [b] => if secondOfThree a b then [replacement] else replacement :: lossyChars [b]
      | [] => [replacement]
    else if 0xF0 ≤ a && a ≤ 0xF4 then
      match rest with
      | b :: c :: d :: rest' =>
        if secondOfFour a b then
          if isTail c then
            if isTail d then
              Char.ofNat ((a.toNat % 8) * 262144 + tailBits b * 4096 + tailBits c * 64 + tailBits d)
                :: lossyChars rest'
            else replacement :: lossyChars (d :: rest')
          else replacement :: lossyChars (c :: d :: rest')
        else replacement :: lossyChars (b :: c :: d :: rest')
      | [b, c] =>
        if secondOfFour a b then
          if isTail c then [replacement] else replacement :: lossyChars [c]
        else replacement :: lossyChars [b, c]
      | [b] => if secondOfFour a b then [replacement] else replacement :: lossyChars [b]
      | [] => [replacement]
    else replacement :: lossyChars rest
  termination_by octets => octets.length

/-- The text that a list of octets spells, with replacements for what is no UTF-8. -/
def lossy (octets : List UInt8) : String := String.ofList (lossyChars octets)

end Dataflow.Text
