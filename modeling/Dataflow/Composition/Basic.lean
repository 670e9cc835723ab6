import Dataflow.Store
/-!
# Rules of composition

What a stage contributes when its wire is composed: its output type, and the variables that it
needs and publishes.
-/

namespace Dataflow

/-- A computation that composes. What it changed before an error stays. -/
abbrev Compose (H : Host) (α : Type) := ExceptT ComposeError (StateM (Store H)) α

namespace Stage

variable {H : Host}

/-- The error of a stage without a name for its variable or channel. -/
def unnamed (stage what : String) : ComposeError :=
  .plain (stage ++ " requires a " ++ what ++ " Name")

/-- The output type of a nested wire, as its own composition has found it. -/
def nestedOutput (s : Store H) (sub : Nested) : Except ComposeError Ty :=
  match sub.wire with
  | none => .error (.plain "Do requires a Wire")
  | some id =>
    match s.wires.get? id with
    | none => .error (.plain "Do requires a Wire")
    | some wire =>
      match wire.outputTy with
      | some ty => .ok ty
      | none => .error (.plain ("sub-wire " ++ wire.name ++ " is not composed"))

/-- The type of an addition's operand. A variable that is not there has no type. -/
def operandTy (operand : Operand) (site : Site) : Ty :=
  match operand.referent? with
  | some name => ((site.find? name).map (·.ty)).getD .nothing
  | none => operand.value.ty

/-- The output type of an addition. -/
def addOutput (operand : Operand) (site : Site) : Except ComposeError Ty :=
  let ty := operandTy operand site
  if site.input.accepts ty then .ok site.input
  else .error (.plain
    ("cannot add an operand of type " ++ ty.text ++ " to " ++ site.input.text))

/-- The output type of reading a variable. -/
def getOutput (name : String) (site : Site) : Except ComposeError Ty :=
  if name.isEmpty then .error (unnamed "Get" "variable")
  else
    match site.find? name with
    | some found => .ok found.ty
    | none => .error (.missingVariable name ⟨"Get", site.position⟩)

/-- The type of the variable that is to be overwritten. -/
def updateTarget (name : String) (site : Site) : Except ComposeError Ty :=
  if name.isEmpty then .error (unnamed "Update" "variable")
  else
    match site.find? name with
    | none => .error (.missingVariable name ⟨"Update", site.position⟩)
    | some found =>
      if found.ty.accepts site.input then .ok found.ty
      else .error (.variableTypeMismatch name ⟨"Update", site.position⟩ found.ty site.input)

/-- The output type of a receiver. -/
def receiverOutput (stage : String) (r : Receiver) : Except ComposeError Ty :=
  if r.name.isEmpty then .error (unnamed stage "channel")
  else if r.ty.isNothing then .error (.plain (stage ++ " requires a Type"))
  else .ok (if 1 < r.batch then .seqOf r.ty else r.ty)

/-- The output type of a stage that binds its input object for a nested wire. -/
def boundOutput (s : Store H) (name : String) (sub : Nested) (site : Site) :
    Except ComposeError Ty :=
  if name.isEmpty then .error (.plain "With requires a Name")
  else if !site.input.isObject then
    .error (.plain ("With expects an Object input, found " ++ site.input.text))
  else nestedOutput s sub

/-- Resolves a name as a queue on the board of a site. -/
def siteQueue (site : Site) (name : String) (ty : Ty) (noCopy : Bool) :
    StateM (Store H) (Except ComposeError (Id .queue)) :=
  modifyGet fun s =>
    let (answer, exchange) := s.exchange.initQueue site.board name ty noCopy
    (answer, { s with exchange })

/-- Resolves a name as a fan on the board of a site. -/
def siteFan (site : Site) (name : String) (ty : Ty) (noCopy : Bool) :
    StateM (Store H) (Except ComposeError (Id .fan)) :=
  modifyGet fun s =>
    let (answer, exchange) := s.exchange.initFan site.board name ty noCopy
    (answer, { s with exchange })

/-- The compose hook of a stage: the stage as it is afterwards, and its output type. Stages
without a hook pass their input type on. -/
def compose (stage : Stage H) (site : Site) :
    StateM (Store H) (Stage H × Except ComposeError Ty) := do
  match stage with
  | const value => return (stage, .ok value.ty)
  | input => return (stage, .ok site.wireInput)
  | add operand => return (stage, addOutput operand site)
  | set name _ slot =>
    if name.isEmpty then return (stage, .error (unnamed "Set" "variable"))
    else return (set name site.input slot, .ok site.input)
  | get name _ => return (stage, getOutput name site)
  | update name _ slot =>
    match updateTarget name site with
    | .ok ty => return (update name ty slot, .ok site.input)
    | .error e => return (stage, .error e)
  | pause time _ =>
    match pauseDelay time with
    | .ok _ => return (stage, .ok site.input)
    | .error reason => return (stage, .error (.plain reason))
  | inline sub => return (stage, nestedOutput (← getThe (Store H)) sub)
  | bound name sub _ => return (stage, boundOutput (← getThe (Store H)) name sub site)
  | produce sender queue =>
    if sender.name.isEmpty then return (stage, .error (unnamed "Produce" "channel"))
    else
      let resolved ← siteQueue site sender.name site.input sender.noCopy
      return (produce { sender with ty := site.input } queue, resolved.map fun _ => site.input)
  | broadcast sender fan =>
    if sender.name.isEmpty then return (stage, .error (unnamed "Broadcast" "channel"))
    else
      let resolved ← siteFan site sender.name site.input sender.noCopy
      return (broadcast { sender with ty := site.input } fan, resolved.map fun _ => site.input)
  | consume r _ =>
    match receiverOutput "Consume" r with
    | .error e => return (stage, .error e)
    | .ok ty =>
      let resolved ← siteQueue site r.name r.ty r.noCopy
      return (stage, resolved.map fun _ => ty)
  | listen r _ =>
    match receiverOutput "Listen" r with
    | .error e => return (stage, .error e)
    | .ok ty =>
      let resolved ← siteFan site r.name r.ty r.noCopy
      return (stage, resolved.map fun _ => ty)
  | unit u =>
    let reaction := H.compose u site (← getThe (Store H)).heap
    modify fun s => { s.note reaction.notes with heap := reaction.heap }
    return (unit reaction.unit, reaction.answer)
  | pass | buffer _ | fail _ | stop | finish | complete _ | flush _ =>
    return (stage, .ok site.input)

/-- The output type of a stage without a compose hook. A stage that may output anything passes its
input type on, unless it takes one specific type, and then nothing is known. -/
def defaultOutput (stage : Stage H) (previous : Ty) (position : Nat) : Except ComposeError Ty :=
  match stage.outputs with
  | [] => .ok .nothing
  | [single] =>
    if !single.isAny then .ok single
    else
      match stage.inputs with
      | [only] => if !only.isAny && !only.isNothing then .ok .any else .ok previous
      | _ => .ok previous
  | _ => .error (.ambiguousOutput ⟨stage.name, position⟩)

end Stage

/-- Says where a plain error arose. -/
def ComposeError.annotate (e : ComposeError) (place : Place) (wire : String) : ComposeError :=
  match e with
  | .plain text => .stage place wire text
  | other => other

/-- What is known of a wire up to some stage. -/
structure Bound where
  /-- The output type of the stage before. -/
  previous : Ty
  /-- Variables that the wire publishes so far. -/
  exposed : List VarDecl := []
  /-- Variables that it needs from outside so far. -/
  required : List VarDecl := []
  findings : Findings := {}
  deriving Repr, Inhabited

namespace Bound

/-- The variable that a name means, and whether the wire itself publishes it. -/
def find? (b : Bound) (inherited : List VarDecl) (name : String) : Option (VarDecl × Bool) :=
  match VarDecl.find? name b.exposed with
  | some found => some (found, true)
  | none => (VarDecl.find? name inherited).map (·, false)

/-- A stage needs a variable. It has to be there with a type that fits, and must not be protected
or read-only if the stage changes it. -/
def require (b : Bound) (inherited : List VarDecl) (place : Place) (need : VarDecl) :
    Except ComposeError Bound :=
  match b.find? inherited need.name with
  | none => .error (.missingVariable need.name place)
  | some (found, isLocal) =>
    if !need.ty.accepts found.ty then
      .error (.variableTypeMismatch need.name place need.ty found.ty)
    else if need.isMutable && (found.isProtected || !found.isMutable) then
      .error (.protectedVariable need.name place)
    else if isLocal || b.required.any (fun r => r.name == need.name) then .ok b
    else
      .ok { b with
        required := b.required ++ [{ need with ty := found.ty, isProtected := found.isProtected }] }

/-- The warning of hiding an outer variable. -/
def shadowWarning (place : Place) (name : String) : String :=
  place.text ++ " shadows inherited variable " ++ name

/-- A stage publishes a variable. A variable of that name must not be protected and has to take the
new type; hiding one from outside is worth a warning. -/
def expose (b : Bound) (inherited : List VarDecl) (place : Place) (var : VarDecl) :
    Except ComposeError Bound :=
  match b.find? inherited var.name with
  | none => .ok { b with exposed := b.exposed ++ [var] }
  | some (found, isLocal) =>
    if found.isProtected then .error (.protectedVariable var.name place)
    else if found.ty ≠ var.ty && !found.ty.accepts var.ty then
      .error (.incompatibleExposure var.name place found.ty var.ty)
    else if isLocal then .ok b
    else
      .ok { b with
        exposed := b.exposed ++ [var]
        findings := b.findings.warn (shadowWarning place var.name) }

/-- All needs of a stage, then all variables it publishes. -/
def add (b : Bound) (inherited : List VarDecl) (place : Place) (needs vars : List VarDecl) :
    Except ComposeError Bound := do
  let b ← needs.foldlM (fun b need => b.require inherited place need) b
  vars.foldlM (fun b var => b.expose inherited place var) b

end Bound

end Dataflow
