import Dataflow.Ty.Fingerprint
import Dataflow.Value.Basic
/-!
# The type of a value

Each value has a type of its own. The element types of a sequence are listed once each, in the
order of their fingerprints, so that the type does not depend on the order of the elements.
-/

namespace Dataflow

/-- The types of a list, each once, in ascending order of their fingerprints. -/
def Ty.canonical (digest : Digest) (types : List Ty) : List Ty :=
  sortBy (fun a b => a.fingerprintBy digest ≤ b.fingerprintBy digest) types.eraseDups

namespace Value

variable (digest : Digest)

mutual

/-- The type of a value. -/
def tyBy : Value → Ty
  | nothing => .nothing
  | bool _ => .bool
  | int _ => .int
  | float _ => .float
  | string _ => .string
  | bytes _ => .bytes
  | seq items => .seq (Ty.canonical digest (tyItems items))
  | table entries => .table (entries.map (·.1)) (tyEntries entries)
  | object o => o.ty
  | ref _ => .ref []
  | wire _ => .wire
  | type _ => .type

/-- The types of items, in their order. -/
def tyItems : List Value → List Ty
  | [] => []
  | v :: vs => tyBy v :: tyItems vs

/-- The types of the values of entries, in their order. -/
def tyEntries : List (String × Value) → List Ty
  | [] => []
  | (_, v) :: rest => tyBy v :: tyEntries rest

end

/-- The type of a value. -/
def ty (v : Value) : Ty := v.tyBy Sip.digest

mutual

/-- The octets of a value's type, written straight from the value. -/
def typeOctets : Value → List UInt8
  | nothing => [0]
  | bool _ => [2]
  | int _ => [3]
  | float _ => [4]
  | string _ => [5]
  | bytes _ => [6]
  | seq items => 7 :: octetsHashSet ((typeOctetsItems items).map digest)
  | table entries =>
    8 :: octetsLength entries.length ++ (entries.map (·.1)).flatMap octetsText ++
      octetsLength entries.length ++ (typeOctetsEntries entries).flatten
  | object o => 9 :: octets32 o.vendor ++ octets32 o.kind
  | ref _ => 10 :: octetsLength 0
  | wire _ => [11]
  | type _ => [12]

/-- The octets of the types of items. -/
def typeOctetsItems : List Value → List (List UInt8)
  | [] => []
  | v :: vs => typeOctets v :: typeOctetsItems vs

/-- The octets of the types of the values of entries. -/
def typeOctetsEntries : List (String × Value) → List (List UInt8)
  | [] => []
  | (_, v) :: rest => typeOctets v :: typeOctetsEntries rest

end

/-- The hash of a value's type by the given digest. -/
def typeFingerprintBy (v : Value) : UInt64 := digest (v.typeOctets digest)

/-- The hash of a value's type. -/
def typeFingerprint (v : Value) : UInt64 := v.typeFingerprintBy Sip.digest

end Value

end Dataflow
