import Dataflow.Digest.Sip
import Dataflow.Ordered
import Dataflow.Ty.Basic
/-!
# Fingerprints of types

A type is written as octets and hashed. The element types of a sequence form a set: they go in by
their own fingerprints, in ascending order and each once, so that neither their order nor their
repetition shows.
-/

namespace Dataflow

/-- A set of hashes as octets: how many there are, then each in ascending order. -/
def octetsHashSet (hashes : List UInt64) : List UInt8 :=
  let set := sortUnique hashes
  octetsLength set.length ++ set.flatMap octets64

namespace Ty

variable (digest : Digest)

mutual

/-- The octets of a type: a tag, then what the kind needs. -/
def octets : Ty → List UInt8
  | nothing => [0]
  | any => [1]
  | bool => [2]
  | int => [3]
  | float => [4]
  | string => [5]
  | bytes => [6]
  | seq elements => 7 :: octetsHashSet ((octetsEach elements).map digest)
  | table keys types =>
    8 :: octetsLength keys.length ++ keys.flatMap octetsText ++
      octetsLength types.length ++ (octetsEach types).flatten
  | object vendor kind => 9 :: octets32 vendor ++ octets32 kind
  | ref inner => 10 :: octetsLength inner.length ++ (octetsEach inner).flatten
  | wire => [11]
  | type => [12]

/-- The octets of each of several types. -/
def octetsEach : List Ty → List (List UInt8)
  | [] => []
  | t :: ts => octets t :: octetsEach ts

end

/-- The hash of a type by the given digest. -/
def fingerprintBy (t : Ty) : UInt64 := digest (octets digest t)

/-- The hash of a type. -/
def fingerprint (t : Ty) : UInt64 := t.fingerprintBy Sip.digest

end Ty

end Dataflow
