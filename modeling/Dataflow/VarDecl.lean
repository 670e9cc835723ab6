import Dataflow.Ty.Fingerprint
import Dataflow.Ty.Matching
/-!
# Variable descriptors

What composition knows of a variable: its name, its type, and whether a wire may change or
publish it. Lists of descriptors are read from the end, so that later ones shadow earlier ones.
-/

namespace Dataflow

/-- A variable that a stage publishes or needs. -/
structure VarDecl where
  name : String
  ty : Ty
  isMutable : Bool
  isProtected : Bool
  isGlobal : Bool
  deriving DecidableEq, Repr, Inhabited

namespace VarDecl

/-- A variable that may be changed and published again. -/
def assignable (name : String) (ty : Ty) : VarDecl := ⟨name, ty, true, false, false⟩

/-- A variable that can be read only and that wires may not publish again. -/
def sealed (name : String) (ty : Ty) : VarDecl := ⟨name, ty, false, true, false⟩

/-- A need that only reads the variable. -/
def readOnly (name : String) (ty : Ty) : VarDecl := ⟨name, ty, false, false, false⟩

/-- The same variable, visible everywhere. -/
def global (v : VarDecl) : VarDecl := { v with isGlobal := true }

/-- The descriptor that `name` means: the last one of that name. -/
def find? (name : String) (decls : List VarDecl) : Option VarDecl :=
  decls.reverse.find? fun d => d.name == name

/-- The flags in the three low bits of an octet. -/
def flags (v : VarDecl) : UInt8 :=
  octetBool v.isMutable ||| (octetBool v.isProtected <<< 1) ||| (octetBool v.isGlobal <<< 2)

/-- The octets of one descriptor. -/
def octets (digest : Digest) (v : VarDecl) : List UInt8 :=
  octetsText v.name ++ octets64 (v.ty.fingerprintBy digest) ++ [v.flags]

/-- The hash of a set of descriptors by the given digest. Repetitions count, order does not. -/
def fingerprintsBy (digest : Digest) (decls : List VarDecl) : UInt64 :=
  let hashes := sortBy (fun a b => a ≤ b) (decls.map fun d => digest (d.octets digest))
  digest (octetsLength hashes.length ++ hashes.flatMap octets64)

/-- The hash of a set of descriptors. -/
def fingerprints (decls : List VarDecl) : UInt64 := fingerprintsBy Sip.digest decls

/-- The form that shows the structure. -/
def outline (v : VarDecl) : String :=
  Text.record "ExposedTypeInfo"
    [("name", Text.quoted v.name), ("exposed_type", v.ty.outline),
      ("is_mutable", Text.truth v.isMutable), ("is_protected", Text.truth v.isProtected),
      ("is_global", Text.truth v.isGlobal)]

end VarDecl

end Dataflow
