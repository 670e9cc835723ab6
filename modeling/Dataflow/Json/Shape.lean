import Dataflow.Json.Content
import Dataflow.Ordered
/-!
# Shapes

A shape takes content as a value of some type, or says what is wrong with it. Records may be given
as objects, whose unknown keys are ignored, or as lists of their fields in order.
-/

namespace Dataflow.Json

/-- Content taken as a value, or a fault. -/
abbrev Shape (α : Type) := Content → Except String α

/-- A number as faults name it. -/
def Number.describe : Number → String
  | .whole n => "integer `" ++ toString n ++ "`"
  | .fraction x => "floating point `" ++ x.dataText ++ "`"

/-- Content as faults name it. -/
def Content.describe : Content → String
  | .null => "null"
  | .bool b => "boolean `" ++ Text.truth b ++ "`"
  | .number n => n.describe
  | .string s => "string " ++ Text.quoted s
  | .list _ => "sequence"
  | .object _ => "map"

/-- The fault of something of the wrong kind. -/
def invalidType (found expected : String) : String :=
  "invalid type: " ++ found ++ ", expected " ++ expected

/-- The fault of something outside its range. -/
def invalidValue (found expected : String) : String :=
  "invalid value: " ++ found ++ ", expected " ++ expected

/-- The fault of a list of the wrong length. -/
def invalidLength (found : Nat) (expected : String) : String :=
  "invalid length " ++ toString found ++ ", expected " ++ expected

/-- The fault of a field that is not there. -/
def missingField (name : String) : String := "missing field `" ++ name ++ "`"

/-- The fault of a field that is there twice. -/
def duplicateField (name : String) : String := "duplicate field `" ++ name ++ "`"

/-- So many elements, in words. -/
def elementCount (n : Nat) : String :=
  toString n ++ (if n = 1 then " element" else " elements")

/-- The fault of a name that is none of the alternatives. -/
def unknownVariant (found : String) (names : List String) : String :=
  let quoted := names.map fun n => "`" ++ n ++ "`"
  "unknown variant `" ++ found ++ "`, expected " ++
    match quoted with
    | [a, b] => a ++ " or " ++ b
    | _ => "one of " ++ String.intercalate ", " quoted

/-- A whole number in a range, or a fault that names the kind of number. -/
def Number.within (kind : String) (low high : Int) : Number → Except String Int
  | .whole n =>
    if low ≤ n ∧ n < high then .ok n
    else .error (invalidValue (Number.describe (.whole n)) kind)
  | .fraction x => .error (invalidType (Number.describe (.fraction x)) kind)

namespace Shape

/-- A truth value. -/
def truth : Shape Bool
  | .bool b => .ok b
  | c => .error (invalidType c.describe "a boolean")

/-- A text. -/
def text : Shape String
  | .string s => .ok s
  | c => .error (invalidType c.describe "a string")

/-- A text, or nothing. -/
def optionalText : Shape (Option String)
  | .null => .ok none
  | c => (text c).map some

/-- A whole number in a range. -/
def whole (kind : String) (low high : Int) : Shape Int
  | .number n => n.within kind low high
  | c => .error (invalidType c.describe kind)

/-- A signed number of sixty-four bits. -/
def int64 : Shape Int64 := fun c =>
  (whole "i64" (-0x8000000000000000) 0x8000000000000000 c).map Int64.ofInt

/-- A number of thirty-two bits. -/
def word : Shape UInt32 := fun c => (whole "u32" 0 0x100000000 c).map fun n => n.toNat.toUInt32

/-- An octet. -/
def octet : Shape UInt8 := fun c => (whole "u8" 0 0x100 c).map fun n => n.toNat.toUInt8

/-- A whole number in double precision. -/
def wholeFloat (n : Int) : Binary64 :=
  .ofFloat (if 0 ≤ n then n.toNat.toUInt64.toFloat else (Int64.ofInt n).toFloat)

/-- A number in double precision. -/
def float : Shape Binary64
  | .number (.whole n) => .ok (wholeFloat n)
  | .number (.fraction x) => .ok x
  | c => .error (invalidType c.describe "f64")

/-- A list of values of one shape. -/
def listOf {α : Type} (item : Shape α) : Shape (List α)
  | .list items => items.mapM item
  | c => .error (invalidType c.describe "a sequence")

/-- Named values of one shape. Of a repeated name the last value counts. -/
def tableOf {α : Type} (item : Shape α) : Shape (List (String × α))
  | .object entries =>
    entries.foldlM (fun table (k, c) => return upsert k (← item c) table) []
  | c => .error (invalidType c.describe "a map")

/-! ### Alternatives -/

/-- A name that is one of the alternatives. -/
def known (names : List String) (name : String) : Except String String :=
  if names.contains name then .ok name else .error (unknownVariant name names)

/-- The name of an alternative with what it is given: a text, or an object with one key. -/
def variant (names : List String) : Shape (String × Option Content)
  | .string s => return (← known names s, none)
  | .object [(k, given)] => return (← known names k, some given)
  | .object _ => .error (invalidValue "map" "map with a single key")
  | c => .error (invalidType c.describe "string or map")

/-- The name of an alternative: a text, or its number counted from zero. -/
def tag (names : List String) : Shape String
  | .string s => known names s
  | .number (.whole (.ofNat n)) =>
    match names[n]? with
    | some name => .ok name
    | none =>
      .error (invalidValue (Number.describe (.whole n))
        ("variant index 0 <= i < " ++ toString names.length))
  | c => .error (invalidType c.describe "variant identifier")

/-- An alternative that is given nothing. -/
def bare {α : Type} (a : α) : Option Content → Except String α
  | none | some .null | some (.object []) => .ok a
  | some c => .error (invalidType c.describe "unit")

/-- An alternative that is given one value. -/
def given {α β : Type} (make : α → β) (shape : Shape α) : Option Content → Except String β
  | some c => (shape c).map make
  | none => .error (invalidType "unit variant" "newtype variant")

/-- An alternative that is given a record. -/
def givenRecord {α β : Type} (make : α → β) (shape : Shape α) : Option Content → Except String β
  | none => .error (invalidType "unit variant" "struct variant")
  | some (.object entries) => (shape (.object entries)).map make
  | some (.list items) => (shape (.list items)).map make
  | some c => .error (invalidType c.describe "struct variant")

end Shape

/-! ### Records -/

/-- A field of a record that is being put together in `σ`. -/
structure RecordField (σ : Type) where
  name : String
  /-- Whether the field was read before. -/
  seen : σ → Bool
  read : Content → σ → Except String σ
  /-- A required field has no default. -/
  required : Bool

/-- A field whose value has a shape, and that `get` finds in the record once it was read. -/
def RecordField.of {σ α : Type} (name : String) (get : σ → Option α) (set : α → σ → σ)
    (shape : Shape α) (required : Bool) : RecordField σ :=
  ⟨name, fun s => (get s).isSome, fun c s => (shape c).map fun a => set a s, required⟩

namespace Shape

variable {σ : Type}

/-- Reads one entry of an object. -/
def entry (fields : List (RecordField σ)) (s : σ) (key : String) (c : Content) : Except String σ :=
  match fields.find? fun f => f.name == key with
  | none => .ok s
  | some f => if f.seen s then .error (duplicateField key) else f.read c s

/-- Reads the elements of a list as fields, from an index on. -/
def positional (what : String) (total : Nat) :
    Nat → List (RecordField σ) → List Content → σ → Except String σ
  | index, f :: fields, c :: items, s => do
    positional what total (index + 1) fields items (← f.read c s)
  | index, f :: fields, [], s =>
    if f.required then .error (invalidLength index (what ++ " with " ++ elementCount total))
    else positional what total (index + 1) fields [] s
  | _, [], [], s => .ok s
  | index, [], rest, _ =>
    .error (invalidLength (index + rest.length) (elementCount index ++ " in sequence"))

/-- The first required field that was not read. -/
def missing? (fields : List (RecordField σ)) (s : σ) : Option String :=
  (fields.find? fun f => f.required && !f.seen s).map (·.name)

/-- A record, put together from an empty one. -/
def record (what : String) (fields : List (RecordField σ)) (empty : σ) : Shape σ
  | .object entries => do
    let s ← entries.foldlM (fun s (k, c) => entry fields s k c) empty
    match missing? fields s with
    | some name => .error (missingField name)
    | none => return s
  | .list items => positional what fields.length 0 fields items empty
  | c => .error (invalidType c.describe what)

end Shape

end Dataflow.Json
