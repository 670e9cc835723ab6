import Dataflow.Json.Stream
import Dataflow.Program.Basic
/-!
# Reading programs

A program is an object with a list of items. Each item says its kind. What else an item holds is
kept as content until the item is complete, and only then taken for a declaration.
-/

namespace Dataflow.Program

open Json

/-! ### Types and values -/

/-- The parts of a table type while they are read. -/
structure TableParts where
  keys : Option (List String) := none
  types : Option (List Ty) := none

/-- The parts of an object type while they are read. -/
structure ObjectParts where
  vendor : Option UInt32 := none
  kind : Option UInt32 := none

/-- The kinds of types. -/
def tyNames : List String :=
  ["None", "Any", "Bool", "Int", "Float", "String", "Bytes", "Seq", "Table", "Object",
    "ContextVar", "Wire", "Type"]

/-- The fields of a table type. -/
def tableFields (ty : Shape Ty) : List (RecordField TableParts) :=
  [.of "keys" (·.keys) (fun ks s => { s with keys := some ks }) (Shape.listOf Shape.text) true,
    .of "types" (·.types) (fun ts s => { s with types := some ts }) (Shape.listOf ty) true]

/-- The fields of an object type. -/
def objectFields : List (RecordField ObjectParts) :=
  [.of "vendor_id" (·.vendor) (fun v s => { s with vendor := some v }) Shape.word true,
    .of "type_id" (·.kind) (fun k s => { s with kind := some k }) Shape.word true]

/-- A type, nested at most so deep. -/
def tyShape : Nat → Shape Ty
  | 0 => fun _ => .error "recursion limit exceeded"
  | depth + 1 => fun c => do
    let (name, given) ← Shape.variant tyNames c
    match name with
    | "None" => Shape.bare Ty.nothing given
    | "Any" => Shape.bare Ty.any given
    | "Bool" => Shape.bare Ty.bool given
    | "Int" => Shape.bare Ty.int given
    | "Float" => Shape.bare Ty.float given
    | "String" => Shape.bare Ty.string given
    | "Bytes" => Shape.bare Ty.bytes given
    | "Seq" => Shape.given Ty.seq (Shape.listOf (tyShape depth)) given
    | "Table" =>
      Shape.givenRecord (fun (t : TableParts) => .table (t.keys.getD []) (t.types.getD []))
        (Shape.record "struct variant TypeInfo::Table" (tableFields (tyShape depth)) {}) given
    | "Object" =>
      Shape.givenRecord (fun (o : ObjectParts) => .object (o.vendor.getD 0) (o.kind.getD 0))
        (Shape.record "struct variant TypeInfo::Object" objectFields {}) given
    | "ContextVar" => Shape.given Ty.ref (Shape.listOf (tyShape depth)) given
    | "Wire" => Shape.bare Ty.wire given
    | _ => Shape.bare Ty.type given

/-- The kinds of values that can be written down. -/
def valueNames : List String :=
  ["None", "Bool", "Int", "Float", "String", "Bytes", "Seq", "Table", "ContextVar", "Type"]

/-- A value, nested at most so deep. -/
def valueShape : Nat → Shape Value
  | 0 => fun _ => .error "recursion limit exceeded"
  | depth + 1 => fun c => do
    let (name, given) ← Shape.variant valueNames c
    match name with
    | "None" => Shape.bare Value.nothing given
    | "Bool" => Shape.given Value.bool Shape.truth given
    | "Int" => Shape.given Value.int Shape.int64 given
    | "Float" => Shape.given Value.float Shape.float given
    | "String" => Shape.given Value.string Shape.text given
    | "Bytes" => Shape.given Value.bytes (Shape.listOf Shape.octet) given
    | "Seq" => Shape.given Value.seq (Shape.listOf (valueShape depth)) given
    | "Table" => Shape.given Value.table (Shape.tableOf (valueShape depth)) given
    | "ContextVar" => Shape.given Value.ref Shape.text given
    | _ => Shape.given Value.type (tyShape depth) given

/-! ### Places, arguments and calls -/

/-- The parts of a place while they are read. -/
structure SpanParts where
  line : Option UInt32 := none
  column : Option UInt32 := none

/-- A place in the text that a program was written in. -/
def spanShape : Shape Span := fun c =>
  (Shape.record "struct Span"
    [.of "line" (·.line) (fun n s => { s with line := some n }) Shape.word true,
      .of "column" (·.column) (fun n s => { s with column := some n }) Shape.word true] {} c).map
    fun (parts : SpanParts) => ⟨parts.line.getD 0, parts.column.getD 0⟩

/-- The parts of an argument while they are read. -/
structure ArgParts where
  name : Option (Option String) := none
  value : Option Expr := none

/-- An argument whose value is read by `expr`. -/
def argShape (expr : Shape Expr) : Shape Arg := fun c =>
  (Shape.record "struct Param"
    [.of "name" (·.name) (fun n s => { s with name := some n }) Shape.optionalText false,
      .of "value" (·.value) (fun v s => { s with value := some v }) expr true] {} c).map
    fun (parts : ArgParts) => .mk (parts.name.getD none) (parts.value.getD default)

/-- The parts of a call while they are read. -/
structure CallParts where
  stage : Option String := none
  args : Option (List Arg) := none
  span : Option Span := none

/-- A call whose arguments are read by `expr`. -/
def callShape (expr : Shape Expr) : Shape Call := fun c =>
  (Shape.record "struct ShardCall"
    [.of "name" (·.stage) (fun n s => { s with stage := some n }) Shape.text true,
      .of "params" (·.args) (fun as s => { s with args := some as })
        (Shape.listOf (argShape expr)) false,
      .of "span" (·.span) (fun p s => { s with span := some p }) spanShape false] {} c).map
    fun (parts : CallParts) =>
      .mk (parts.stage.getD "") (parts.args.getD []) (parts.span.getD {})

/-! ### Expressions -/

/-- The kinds of expressions. -/
def exprNames : List String := ["Literal", "Variable", "Pipeline", "WireRef", "Constant", "Type"]

/-- What is wrong with an expression that is none. -/
def exprExpected : String := "adjacently tagged enum Expr"

/-- The kind of an expression that names its parts. -/
def exprKind : Shape String := fun c => do
  let (name, given) ← Shape.variant exprNames c
  Shape.bare name given

/-- What is known of an expression while its entries are read. The value may come before the
kind. -/
inductive ExprParts where
  | start
  | kind (name : String)
  | value (c : Content)
  | complete (e : Expr)

/-- Takes one entry of an expression into account; `body` reads the value of a known kind. -/
def exprEntry (body : String → Shape Expr) (parts : ExprParts) (key : String) (c : Content) :
    Except String ExprParts :=
  match key, parts with
  | "kind", .start => return .kind (← exprKind c)
  | "kind", .value v => do
    let name ← exprKind c
    return .complete (← body name v)
  | "kind", _ => .error (duplicateField "kind")
  | "value", .start => .ok (.value c)
  | "value", .kind name => return .complete (← body name c)
  | "value", _ => .error (duplicateField "value")
  | _, parts => .ok parts

/-- An expression with its kind and its value: by name and in either order, or as a list, where
the kind comes first and may be given by its number. -/
def tagged (body : String → Shape Expr) : Shape Expr
  | .object entries => do
    match ← entries.foldlM (fun parts (k, c) => exprEntry body parts k c) .start with
    | .complete e => return e
    | .kind _ => .error (missingField "value")
    | _ => .error (missingField "kind")
  | .list [] => .error (invalidLength 0 exprExpected)
  | .list (kind :: items) => do
    let name ← Shape.tag exprNames kind
    match items with
    | [] => .error (invalidLength 1 exprExpected)
    | value :: rest =>
      let e ← body name value
      if rest.isEmpty then return e
      else .error (invalidLength (rest.length + 2) (elementCount 2 ++ " in sequence"))
  | c => .error (invalidType c.describe exprExpected)

/-- The value of an expression of a known kind; `expr` reads what is nested. -/
def exprBody (expr : Shape Expr) (name : String) : Shape Expr := fun c =>
  match name with
  | "Literal" => (valueShape Reader.depthLimit c).map .literal
  | "Variable" => (Shape.text c).map .reference
  | "Pipeline" => (Shape.listOf (callShape expr) c).map .pipeline
  | "WireRef" => (Shape.text c).map .wire
  | "Constant" => (Shape.text c).map .constant
  | _ => (tyShape Reader.depthLimit c).map .type

/-- An expression, nested at most so deep. -/
def exprShape : Nat → Shape Expr
  | 0 => fun _ => .error "recursion limit exceeded"
  | depth + 1 => tagged (exprBody (exprShape depth))

/-! ### Declarations -/

/-- The parts of a declaration of a wire while they are read. -/
structure WireParts where
  name : Option String := none
  looped : Option Bool := none
  calls : Option (List Call) := none
  span : Option Span := none

/-- The declaration of a wire. -/
def wireShape (expr : Shape Expr) : Shape Item := fun c =>
  (Shape.record "struct WireDecl"
    [.of "name" (·.name) (fun n s => { s with name := some n }) Shape.text true,
      .of "looped" (·.looped) (fun b s => { s with looped := some b }) Shape.truth false,
      .of "shards" (·.calls) (fun cs s => { s with calls := some cs })
        (Shape.listOf (callShape expr)) false,
      .of "span" (·.span) (fun p s => { s with span := some p }) spanShape false] {} c).map
    fun (parts : WireParts) => .wire
      ⟨parts.name.getD "", parts.looped.getD false, parts.calls.getD [], parts.span.getD {}⟩

/-- The parts of a declaration of a constant while they are read. -/
structure DefineParts where
  name : Option String := none
  value : Option Expr := none
  span : Option Span := none

/-- The declaration of a constant. -/
def defineShape (expr : Shape Expr) : Shape Item := fun c =>
  (Shape.record "struct variant Item::Define"
    [.of "name" (·.name) (fun n s => { s with name := some n }) Shape.text true,
      .of "value" (·.value) (fun v s => { s with value := some v }) expr true,
      .of "span" (·.span) (fun p s => { s with span := some p }) spanShape false] {} c).map
    fun (parts : DefineParts) =>
      .define (parts.name.getD "") (parts.value.getD default) (parts.span.getD {})

/-! ### Items and programs -/

/-- The kinds of declarations. -/
inductive ItemKind where
  | wire
  | define

/-- The declaration of a kind that was kept as content. -/
def ItemKind.shape : ItemKind → Shape Item
  | .wire => wireShape (exprShape Reader.depthLimit)
  | .define => defineShape (exprShape Reader.depthLimit)

/-- Reads the kind of an item. -/
def readKind : Reader ItemKind := Reader.placing do
  match ← Reader.readTextAs "variant identifier" with
  | "Wire" => return .wire
  | "Define" => return .define
  | other => Reader.failUnplaced (unknownVariant other ["Wire", "Define"])

/-- What is known of an item while its entries are read: its kind, and all others as content. -/
structure ItemParts where
  kind : Option ItemKind := none
  kept : List (String × Content) := []

/-- Reads an entry of an item. -/
def itemEntry (depth : Nat) (parts : ItemParts) : Reader ItemParts := do
  let k ← Reader.quoted
  if k = "kind" then
    if parts.kind.isSome then Reader.failUnplaced (duplicateField "kind")
    Reader.colon
    return { parts with kind := some (← readKind) }
  else
    Reader.colon
    return { parts with kept := (k, ← Reader.value depth) :: parts.kept }

/-- Reads the entries of an item: its kind, and all others as content. -/
def itemEntries (depth : Nat) : Reader (ItemKind × Content) := do
  let parts ← Reader.each Reader.nextKey (itemEntry depth) (← Reader.fuel) true {}
  match parts.kind with
  | some kind => return (kind, .object parts.kept.reverse)
  | none => Reader.failUnplaced (missingField "kind")

/-- Reads the elements of an item: its kind, and all others as content. -/
def itemElements (depth : Nat) : Reader (ItemKind × Content) := do
  if ← Reader.nextElement true then
    let kind ← readKind
    return (kind, .list (← Reader.elements (Reader.value depth) false))
  else Reader.failUnplaced (missingField "kind")

/-- Reads an item. -/
def readItem (depth : Nat) : Reader Item := do
  let c ← Reader.tokenOfValue
  let (kind, content) ←
    if c = '[' then
      Reader.opening depth fun inner => Reader.closing (itemElements inner) Reader.endList
    else if c = '\x7b' then
      Reader.opening depth fun inner =>
        Reader.closing (itemEntries inner) Reader.endObject
    else Reader.wrongKind "internally tagged enum Item"
  match kind.shape content with
  | .ok item => return item
  | .error text => Reader.failUnplaced text

/-- The parts of a program while they are read. -/
structure Parts where
  items : Option (List Item) := none

/-- The only field of a program. -/
def itemsSlot : Slot Parts :=
  ⟨"items", fun s => s.items.isSome,
    fun depth _ => return ⟨some (← Reader.readList depth readItem)⟩, true⟩

/-- Reads a program from its text. -/
def read (text : String) : Except Fault Program :=
  (Reader.readAll (Reader.readRecord "struct Ast" [itemsSlot] {} Reader.depthLimit) text).map
    fun parts => ⟨parts.items.getD []⟩

end Dataflow.Program
