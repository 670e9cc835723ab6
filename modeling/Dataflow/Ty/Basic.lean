import Dataflow.FourCC
import Dataflow.Text.Quoted
/-!
# Types

A type describes the shape of a value. Sequences list the types that their elements may have,
tables pair keys with types, objects are told apart by vendor and kind, and a reference names a
variable that holds one of the inner types.
-/

namespace Dataflow

/-- Structural description of a value's shape. -/
inductive Ty where
  /-- No value. -/
  | nothing
  /-- Any value at all. -/
  | any
  | bool
  | int
  | float
  | string
  | bytes
  /-- A sequence whose elements have one of the given types; none given means any. -/
  | seq (elements : List Ty)
  /-- A table. Keys are paired with the types at their positions. Without keys only the values
  are constrained. -/
  | table (keys : List String) (types : List Ty)
  /-- A foreign object, by its vendor and kind. -/
  | object (vendor kind : FourCC)
  /-- A reference to a variable that holds one of the inner types. -/
  | ref (inner : List Ty)
  | wire
  /-- A type used as a value. -/
  | type
  deriving Repr, Inhabited

namespace Ty

/-! ### Parts -/

/-- The types that a type lists. -/
def parts : Ty → List Ty
  | seq ts | table _ ts | ref ts => ts
  | _ => []

/-- What holds of a type if it holds of the types listed in it holds of every type. -/
@[elab_as_elim]
theorem byParts {motive : Ty → Prop} (step : ∀ t, (∀ u ∈ t.parts, motive u) → motive t) (t : Ty) :
    motive t :=
  step t fun u _ => byParts step u
termination_by t
decreasing_by
  rename_i hu
  cases t with
  | seq ts | table _ ts | ref ts =>
    have hlt : sizeOf u < sizeOf ts := List.sizeOf_lt_of_mem hu
    simp
    omega
  | _ => cases hu

/-! ### Equality -/

mutual

/-- Structural comparison. -/
def same : Ty → Ty → Bool
  | nothing, nothing => true
  | any, any => true
  | bool, bool => true
  | int, int => true
  | float, float => true
  | string, string => true
  | bytes, bytes => true
  | seq as, seq bs => sameList as bs
  | table ks as, table ls bs => ks == ls && sameList as bs
  | object v k, object w l => v == w && k == l
  | ref as, ref bs => sameList as bs
  | wire, wire => true
  | type, type => true
  | _, _ => false

/-- Structural comparison of lists of types. -/
def sameList : List Ty → List Ty → Bool
  | [], [] => true
  | a :: as, b :: bs => same a b && sameList as bs
  | _, _ => false

end

mutual

/-- The structural comparison decides equality. -/
theorem same_iff : ∀ a b : Ty, same a b = true ↔ a = b := by
  intro a b
  cases a with
  | seq as => cases b <;> simp [same, sameList_iff as]
  | table ks as => cases b <;> simp [same, sameList_iff as]
  | ref as => cases b <;> simp [same, sameList_iff as]
  | object v k => cases b <;> simp [same]
  | _ => cases b <;> simp [same]

/-- The comparison of lists decides equality. -/
theorem sameList_iff : ∀ as bs : List Ty, sameList as bs = true ↔ as = bs := by
  intro as bs
  cases as with
  | nil => cases bs <;> simp [sameList]
  | cons a as => cases bs <;> simp [sameList, same_iff a, sameList_iff as]

end

instance : DecidableEq Ty := fun a b => decidable_of_iff _ (same_iff a b)

/-! ### Shapes -/

/-- A sequence of elements of one type. -/
def seqOf (element : Ty) : Ty := seq [element]

/-- A reference to a variable of one type. -/
def refTo (inner : Ty) : Ty := ref [inner]

/-- Whether the type is that of no value. -/
def isNothing : Ty → Bool
  | nothing => true
  | _ => false

/-- Whether the type admits every value. -/
def isAny : Ty → Bool
  | any => true
  | _ => false

/-- Whether the type is that of references to variables. -/
def isRef : Ty → Bool
  | ref _ => true
  | _ => false

/-- Whether the type is that of foreign objects. -/
def isObject : Ty → Bool
  | object _ _ => true
  | _ => false

/-! ### Written forms -/

mutual

/-- The form shown to people. -/
def text : Ty → String
  | nothing => "None"
  | any => "Any"
  | bool => "Bool"
  | int => "Int"
  | float => "Float"
  | string => "String"
  | bytes => "Bytes"
  | seq elements => "[" ++ textList elements ++ "]"
  | table [] types => "\x7b" ++ textList types ++ "\x7d"
  | table (key :: keys) types => "\x7b" ++ textFields (key :: keys) types ++ "\x7d"
  | object vendor kind => "Object(" ++ vendor.text ++ "/" ++ kind.text ++ ")"
  | ref inner => "&(" ++ textList inner ++ ")"
  | wire => "Wire"
  | type => "Type"

/-- Types with blanks between them. -/
def textList : List Ty → String
  | [] => ""
  | [t] => t.text
  | t :: ts => t.text ++ " " ++ textList ts

/-- Keys with their types. Keys or types left over are not shown. -/
def textFields : List String → List Ty → String
  | k :: k' :: ks, t :: t' :: ts => k ++ ": " ++ t.text ++ " " ++ textFields (k' :: ks) (t' :: ts)
  | k :: _, t :: _ => k ++ ": " ++ t.text
  | _, _ => ""

end

mutual

/-- The form that shows the structure. -/
def outline : Ty → String
  | nothing => "None"
  | any => "Any"
  | bool => "Bool"
  | int => "Int"
  | float => "Float"
  | string => "String"
  | bytes => "Bytes"
  | seq elements => "Seq(" ++ Text.listed (outlines elements) ++ ")"
  | table keys types =>
    Text.record "Table"
      [("keys", Text.listed (keys.map Text.quoted)), ("types", Text.listed (outlines types))]
  | object vendor kind =>
    Text.record "Object"
      [("vendor_id", toString vendor.toNat), ("type_id", toString kind.toNat)]
  | ref inner => "ContextVar(" ++ Text.listed (outlines inner) ++ ")"
  | wire => "Wire"
  | type => "Type"

/-- The outlines of several types. -/
def outlines : List Ty → List String
  | [] => []
  | t :: ts => t.outline :: outlines ts

end

end Ty

end Dataflow
