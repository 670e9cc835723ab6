import Dataflow.Program.Printer
import Dataflow.Store
/-!
# Reports of values

A report is content that tells a watcher everything there is to see. Unlike the written form of a
program it covers what exists only while wires run: a float is given by its bits, an object by its
identity or, if it is a buffer, by its octets, and a wire by its name.
-/

namespace Dataflow

open Json

variable {H : Host}

/-- A word in sixteen hexadecimal digits. -/
def hexWord (n : UInt64) : String :=
  let digits := Nat.toDigits 16 n.toNat
  String.ofList (List.replicate (16 - digits.length) '0' ++ digits)

/-- A hash as it is reported. -/
def reportHash (n : UInt64) : Content := .string (hexWord n)

/-- A float by its bits. Not-a-numbers are not told apart. -/
def Binary64.report (x : Binary64) : Content :=
  .string (if x.isNaN then "NaN" else "0x" ++ hexWord x.bits)

/-- Octets as numbers. -/
def reportOctets (octets : List UInt8) : Content := .list (octets.map fun b => .nat b.toNat)

/-- An object: a foreign one by its number, a buffer by its octets. -/
def ObjectRef.report (o : ObjectRef) (heap : Heap) : Content :=
  let tags : List (String × Content) :=
    [("vendor", .string (FourCC.text o.vendor)), ("type", .string (FourCC.text o.kind))]
  match o.id with
  | .foreign n => .object (("id", .nat n) :: tags)
  | .buffer _ =>
    let octets := heap.octets o.id
    .object (tags ++ [("bytes", reportOctets octets), ("len", .nat octets.length),
      ("empty", .bool octets.isEmpty)])

mutual

/-- A value with everything that can be seen of it. -/
def Value.report (s : Store H) : Value → Content
  | .float x => .object [("Float", x.report)]
  | .seq items => .object [("Seq", .list (Value.reports s items))]
  | .table entries => .object [("Table", .object (Value.reportEntries s entries))]
  | .object o => .object [("Object", o.report s.heap)]
  | .wire id => .object [("Wire", .string (s.wireName id))]
  | .nothing => Value.nothing.content
  | .bool b => (Value.bool b).content
  | .int n => (Value.int n).content
  | .string t => (Value.string t).content
  | .bytes octets => (Value.bytes octets).content
  | .ref name => (Value.ref name).content
  | .type t => (Value.type t).content

/-- The reports of several values. -/
def Value.reports (s : Store H) : List Value → List Content
  | [] => []
  | v :: items => Value.report s v :: Value.reports s items

/-- The reports of named values. -/
def Value.reportEntries (s : Store H) : List (String × Value) → List (String × Content)
  | [] => []
  | (k, v) :: entries => (k, Value.report s v) :: Value.reportEntries s entries

end

/-- Several types. -/
def Ty.reports (types : List Ty) : Content := .list (Ty.contents types)

namespace VarDecl

/-- A variable with its flags. -/
def report (v : VarDecl) : Content :=
  .object [("name", .string v.name), ("exposed_type", v.ty.content),
    ("is_mutable", .bool v.isMutable), ("is_protected", .bool v.isProtected),
    ("is_global", .bool v.isGlobal)]

/-- Several variables. -/
def reports (decls : List VarDecl) : Content := .list (decls.map report)

end VarDecl

end Dataflow
