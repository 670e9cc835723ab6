import Dataflow.Ty.Fingerprint
import Dataflow.Value.Basic
/-!
# Fingerprints of values

A value is written as octets and hashed. Objects are known by the identity of their type only,
wires by their own identity, and a type inside a value by its fingerprint.
-/

namespace Dataflow.Value

variable (digest : Digest)

mutual

/-- The octets of a value: a tag, then its content. -/
def octets : Value → List UInt8
  | nothing => [0]
  | bool b => [2, octetBool b]
  | int n => 3 :: octets64 n.toUInt64
  | float x => 4 :: octets64 x.bits
  | string s => 5 :: octetsText s
  | bytes os => 6 :: octetsLength os.length ++ os
  | seq items => 7 :: octetsLength items.length ++ octetsItems items
  | table entries => 8 :: octetsLength entries.length ++ octetsEntries entries
  | object o => 9 :: octets32 o.vendor ++ octets32 o.kind
  | ref name => 10 :: octetsText name
  | wire id => 11 :: octetsLength id.row
  | type t => 12 :: octets64 (t.fingerprintBy digest)

/-- The octets of items, one after the other. -/
def octetsItems : List Value → List UInt8
  | [] => []
  | v :: vs => octets v ++ octetsItems vs

/-- The octets of entries, one after the other. -/
def octetsEntries : List (String × Value) → List UInt8
  | [] => []
  | (k, v) :: rest => octetsText k ++ octets v ++ octetsEntries rest

end

/-- The hash of a value by the given digest. -/
def fingerprintBy (v : Value) : UInt64 := digest (v.octets digest)

/-- The hash of a value. -/
def fingerprint (v : Value) : UInt64 := v.fingerprintBy Sip.digest

end Dataflow.Value
