import Dataflow.Json.Writer
import Dataflow.Program.Basic
/-!
# Writing programs

The content of a program has all fields of every part, in a fixed order and with the kind first.
Values that exist only while programs run, objects and wires, have no written form; nothing stands
in their place, and a program that holds one is not written at all.
-/

namespace Dataflow

open Json

mutual

/-- A type as content. -/
def Ty.content : Ty → Content
  | .nothing => .string "None"
  | .any => .string "Any"
  | .bool => .string "Bool"
  | .int => .string "Int"
  | .float => .string "Float"
  | .string => .string "String"
  | .bytes => .string "Bytes"
  | .seq elements => .object [("Seq", .list (Ty.contents elements))]
  | .table keys types =>
    .object [("Table", .object [("keys", .list (keys.map .string)),
      ("types", .list (Ty.contents types))])]
  | .object vendor kind =>
    .object [("Object", .object [("vendor_id", .number (.whole vendor.toNat)),
      ("type_id", .number (.whole kind.toNat))])]
  | .ref inner => .object [("ContextVar", .list (Ty.contents inner))]
  | .wire => .string "Wire"
  | .type => .string "Type"

/-- Types as content. -/
def Ty.contents : List Ty → List Content
  | [] => []
  | t :: types => t.content :: Ty.contents types

end

mutual

/-- A value as content. -/
def Value.content : Value → Content
  | .nothing => .string "None"
  | .bool b => .object [("Bool", .bool b)]
  | .int n => .object [("Int", .number (.whole n.toInt))]
  | .float x => .object [("Float", .number (.fraction x))]
  | .string s => .object [("String", .string s)]
  | .bytes octets => .object [("Bytes", .list (octets.map fun b => .number (.whole b.toNat)))]
  | .seq items => .object [("Seq", .list (Value.contents items))]
  | .table entries => .object [("Table", .object (Value.entryContents entries))]
  | .ref name => .object [("ContextVar", .string name)]
  | .type ty => .object [("Type", ty.content)]
  | .object _ | .wire _ => .null

/-- Values as content. -/
def Value.contents : List Value → List Content
  | [] => []
  | v :: items => v.content :: Value.contents items

/-- Named values as content. -/
def Value.entryContents : List (String × Value) → List (String × Content)
  | [] => []
  | (k, v) :: entries => (k, v.content) :: Value.entryContents entries

end

/-- Whether the value exists only while programs run. -/
def Value.isUnwritable : Value → Bool
  | .object _ | .wire _ => true
  | _ => false

namespace Program

/-- A place as content. -/
def Span.content (s : Span) : Content :=
  .object [("line", .number (.whole s.line.toNat)), ("column", .number (.whole s.column.toNat))]

/-- The kind and the value of an expression. -/
def Expr.wrapped (kind : String) (value : Content) : Content :=
  .object [("kind", .string kind), ("value", value)]

mutual

/-- An expression as content. -/
def Expr.content : Expr → Content
  | .literal value => Expr.wrapped "Literal" value.content
  | .reference name => Expr.wrapped "Variable" (.string name)
  | .pipeline calls => Expr.wrapped "Pipeline" (.list (Call.contents calls))
  | .wire name => Expr.wrapped "WireRef" (.string name)
  | .constant name => Expr.wrapped "Constant" (.string name)
  | .type ty => Expr.wrapped "Type" ty.content

/-- A call as content. -/
def Call.content : Call → Content
  | .mk stage args span =>
    .object [("name", .string stage), ("params", .list (Arg.contents args)),
      ("span", span.content)]

/-- Calls as content. -/
def Call.contents : List Call → List Content
  | [] => []
  | c :: calls => c.content :: Call.contents calls

/-- An argument as content. -/
def Arg.content : Arg → Content
  | .mk (some name) value => .object [("name", .string name), ("value", value.content)]
  | .mk none value => .object [("name", .null), ("value", value.content)]

/-- Arguments as content. -/
def Arg.contents : List Arg → List Content
  | [] => []
  | a :: args => a.content :: Arg.contents args

end

/-- A declaration as content. -/
def Item.content : Item → Content
  | .wire decl =>
    .object [("kind", .string "Wire"), ("name", .string decl.name), ("looped", .bool decl.looped),
      ("shards", .list (Call.contents decl.calls)), ("span", decl.span.content)]
  | .define name value span =>
    .object [("kind", .string "Define"), ("name", .string name), ("value", value.content),
      ("span", span.content)]

/-- A program as content. -/
def content (p : Program) : Content := .object [("items", .list (p.items.map Item.content))]

/-- A program as text, over several lines. -/
def pretty (p : Program) : String := p.content.pretty

end Program

end Dataflow
