import Dataflow.Decimal.Binary64
import Dataflow.Ident
import Dataflow.Ordered
import Dataflow.Ty.Basic
/-!
# Values

Values flow from stage to stage. Objects and wires are shared and known by identity, everything
else is plain data. A table is a list of entries in ascending order of their keys, each key once.
-/

namespace Dataflow

/-- Which object it is: a byte buffer of the runtime, or one that the embedding program numbers. -/
inductive ObjectId where
  | buffer (number : Nat)
  | foreign (number : Nat)
  deriving DecidableEq, Repr, Inhabited

/-- A shared foreign object, tagged with the identity of its type. -/
structure ObjectRef where
  vendor : FourCC
  kind : FourCC
  id : ObjectId
  deriving DecidableEq, Repr, Inhabited

/-- Whether both refer to the same object. -/
def ObjectRef.is (a b : ObjectRef) : Bool := a.id == b.id

/-- The type of the object. -/
def ObjectRef.ty (o : ObjectRef) : Ty := .object o.vendor o.kind

/-- A value that flows between stages. -/
inductive Value where
  | nothing
  | bool (b : Bool)
  | int (n : Int64)
  | float (x : Binary64)
  | string (s : String)
  | bytes (octets : List UInt8)
  | seq (items : List Value)
  /-- Entries in ascending order of their keys. -/
  | table (entries : List (String × Value))
  | object (o : ObjectRef)
  /-- A reference to a variable by name. -/
  | ref (name : String)
  /-- A nested wire. -/
  | wire (id : Id .wire)
  /-- A type used as a value. -/
  | type (t : Ty)
  deriving Repr, Inhabited

namespace Value

/-- Whether there is no value. -/
def isNothing : Value → Bool
  | nothing => true
  | _ => false

/-- The name of the value's kind. -/
def kindName : Value → String
  | nothing => "None"
  | bool _ => "Bool"
  | int _ => "Int"
  | float _ => "Float"
  | string _ => "String"
  | bytes _ => "Bytes"
  | seq _ => "Seq"
  | table _ => "Table"
  | object _ => "Object"
  | ref _ => "ContextVar"
  | wire _ => "Wire"
  | type _ => "Type"

/-- A table from entries in any order. Of entries with the same key the last one stays. -/
def tableOf (entries : List (String × Value)) : Value :=
  table (entries.foldl (fun sorted (k, v) => upsert k v sorted) [])

/-! ### Equality -/

mutual

/-- Equality as the program sees it: numeric for floats, by identity for objects and wires. -/
def equal : Value → Value → Bool
  | nothing, nothing => true
  | bool a, bool b => a == b
  | int a, int b => a == b
  | float a, float b => a.same b
  | string a, string b => a == b
  | bytes a, bytes b => a == b
  | seq as, seq bs => equalItems as bs
  | table as, table bs => equalEntries as bs
  | object a, object b => a.is b
  | ref a, ref b => a == b
  | wire a, wire b => a == b
  | type a, type b => a == b
  | _, _ => false

/-- Equality of sequences, element by element. -/
def equalItems : List Value → List Value → Bool
  | [], [] => true
  | a :: as, b :: bs => equal a b && equalItems as bs
  | _, _ => false

/-- Equality of tables: the same keys with equal values. -/
def equalEntries : List (String × Value) → List (String × Value) → Bool
  | [], [] => true
  | (k, a) :: as, (l, b) :: bs => k == l && equal a b && equalEntries as bs
  | _, _ => false

end

/-! ### Copying into existing storage -/

mutual

/-- What storage holding `old` contains after `new` was copied into it. Containers of one kind are
reused: sequences are cut or extended to the new length and overwritten place by place, tables
lose the keys that are not in the new one and are overwritten key by key. -/
def copyOver : (new old : Value) → Value
  | seq items, seq old => seq (copyItems items old)
  | table entries, table old =>
    table (copyEntries entries (old.filter fun (k, _) => (lookup? k entries).isSome))
  | new, _ => new

/-- Overwrites place by place; what is too long is cut, what is missing is added. -/
def copyItems : (new old : List Value) → List Value
  | [], _ => []
  | v :: vs, d :: ds => copyOver v d :: copyItems vs ds
  | v :: vs, [] => v :: copyItems vs []

/-- Overwrites the entries that are there and adds the others. -/
def copyEntries : (new old : List (String × Value)) → List (String × Value)
  | [], old => old
  | (k, v) :: rest, old =>
    match lookup? k old with
    | some d => copyEntries rest (upsert k (copyOver v d) old)
    | none => copyEntries rest (upsert k v old)

end

/-- Copies `src` into the storage that holds `dst`. -/
def overwrite (dst src : Value) : Value := copyOver src dst

/-! ### What a value holds -/

mutual

/-- Whether some object in the value satisfies `p`. -/
def anyObject (p : ObjectRef → Bool) : Value → Bool
  | seq items => anyObjectItems p items
  | table entries => anyObjectEntries p entries
  | object o => p o
  | _ => false

/-- Whether some object in the items satisfies `p`. -/
def anyObjectItems (p : ObjectRef → Bool) : List Value → Bool
  | [] => false
  | v :: vs => anyObject p v || anyObjectItems p vs

/-- Whether some object in the entries satisfies `p`. -/
def anyObjectEntries (p : ObjectRef → Bool) : List (String × Value) → Bool
  | [] => false
  | (_, v) :: rest => anyObject p v || anyObjectEntries p rest

end

mutual

/-- Whether a wire is somewhere in the value. -/
def holdsWire : Value → Bool
  | seq items => holdsWireItems items
  | table entries => holdsWireEntries entries
  | wire _ => true
  | _ => false

/-- Whether a wire is somewhere in the items. -/
def holdsWireItems : List Value → Bool
  | [] => false
  | v :: vs => holdsWire v || holdsWireItems vs

/-- Whether a wire is somewhere in the entries. -/
def holdsWireEntries : List (String × Value) → Bool
  | [] => false
  | (_, v) :: rest => holdsWire v || holdsWireEntries rest

end

mutual

/-- The values inside a value that are no sequences and no tables, in their order. -/
def leaves : Value → List Value
  | seq items => leavesOfItems items
  | table entries => leavesOfEntries entries
  | v => [v]

/-- The leaves of some items. -/
def leavesOfItems : List Value → List Value
  | [] => []
  | v :: vs => leaves v ++ leavesOfItems vs

/-- The leaves of some entries. -/
def leavesOfEntries : List (String × Value) → List Value
  | [] => []
  | (_, v) :: rest => leaves v ++ leavesOfEntries rest

end

/-- Whether an object is somewhere in the value. -/
def holdsObject (v : Value) : Bool := v.anyObject fun _ => true

/-! ### Written form -/

mutual

/-- The form that shows the structure. Objects and wires have no structure to show. -/
def outline : Value → String
  | nothing => "None"
  | bool b => "Bool(" ++ Text.truth b ++ ")"
  | int n => "Int(" ++ toString n.toInt ++ ")"
  | float x => "Float(" ++ x.text ++ ")"
  | string s => "String(" ++ Text.quoted s ++ ")"
  | bytes octets => "Bytes(" ++ toString octets.length ++ " bytes)"
  | seq items => "Seq(" ++ Text.listed (outlines items) ++ ")"
  | table entries =>
    "Table(\x7b" ++ String.intercalate ", " (outlineEntries entries) ++ "\x7d)"
  | object _ => "Object"
  | ref name => "ContextVar(" ++ name ++ ")"
  | wire _ => "Wire"
  | type t => "Type(" ++ t.text ++ ")"

/-- The outlines of several values. -/
def outlines : List Value → List String
  | [] => []
  | v :: vs => v.outline :: outlines vs

/-- The outlines of entries. -/
def outlineEntries : List (String × Value) → List String
  | [] => []
  | (k, v) :: rest => (Text.quoted k ++ ": " ++ v.outline) :: outlineEntries rest

end

end Value

end Dataflow
