import Dataflow.Composition.Basic
import Dataflow.Composition.Key
/-!
# Composing wires

A wire is composed stage by stage: the input type has to fit, parameters are checked and nested
wires composed, the stage tells its output type, and its variables are taken into account. Either
every stage composes or the wire is refused. The result is kept with its key.
-/

namespace Dataflow

/-- The wires that are being composed: entered ones are rejected when met again, and what is locked
cannot be read. -/
structure Trail where
  entered : List (Id .wire) := []
  locked : List (Id .wire) := []
  deriving Repr, Inhabited

namespace Store

variable {H : Host}

/-- How a nested wire is composed at a site. -/
abbrev NestedCompose (H : Host) := Id .wire → Site → Compose H Signature

/-- A reference to a variable as a parameter: it has to be taken, to be there, and to fit. -/
def bindReference (place : Place) (site : Site) (param : Param) (name : String) :
    Except ComposeError VarDecl :=
  let accepted := param.types.filter Ty.isRef
  if accepted.isEmpty then
    .error (.parameter place param.name ("does not accept variable reference " ++ name))
  else
    match site.find? name with
    | none => .error (.missingVariable name place)
    | some found =>
      if accepted.any fun t => t.accepts (.refTo found.ty) then .ok found
      else .error (.parameter place param.name
        ("variable " ++ name ++ " has type " ++ found.ty.text ++ ", which is not accepted"))

/-- Checks one parameter. Answers the variables that it needs and publishes. -/
def bindParam (nested : NestedCompose H) (stage : Stage H) (place : Place) (site : Site)
    (param : Param) (value : Value) : Compose H (List VarDecl × List VarDecl) := do
  match value with
  | .ref name => return ([← (bindReference place site param name)], [])
  | .wire sub =>
    if !param.types.contains .wire then
      throw (.parameter place param.name "does not accept a wire")
    let lent := stage.lent site.input
    let signature ← tryCatch (nested sub (site.nested lent)) fun cause =>
      throw (.nestedWire place param.name cause)
    return (signature.required.filter fun r => !lent.any fun l => l.name == r.name,
      signature.exposed)
  | literal =>
    if param.accepts literal then return ([], [])
    else
      throw (.parameter place param.name
        ("expected one of " ++ Text.listed (param.types.map Ty.outline) ++ ", found " ++
          literal.ty.text))

/-- Checks the parameters from `index` on. -/
def bindParams (nested : NestedCompose H) (stage : Stage H) (place : Place) (site : Site) :
    Nat → List Param → Compose H (List VarDecl × List VarDecl)
  | _, [] => return ([], [])
  | index, param :: rest => do
    let (needs, vars) ← bindParam nested stage place site param (stage.getParam index)
    let (needs', vars') ← bindParams nested stage place site (index + 1) rest
    return (needs ++ needs', vars ++ vars')

/-- The output type of a stage. What its hook changed about the stage stays, also after an error. -/
def stageOutput (id : Id .wire) (wireName : String) (stage : Stage H) (place : Place)
    (site : Site) : Compose H Ty := do
  if stage.capabilities.compose then
    let (stage, answer) ← (stage.compose site : StateM (Store H) _)
    modify fun s => s.modifyWire id (·.setStage place.position stage)
    match answer with
    | .ok ty => return ty
    | .error e => throw (e.annotate place wireName)
  else
    stage.defaultOutput site.input place.position

/-- The stage at a position, as it is now. -/
def stageAt? (s : Store H) (id : Id .wire) (position : Nat) : Option (Stage H) := do
  let wire ← s.wires.get? id
  let placed ← wire.stages[position]?
  return placed.stage

/-- Composes one stage. -/
def composeStage (nested : NestedCompose H) (id : Id .wire) (wireName : String) (wireInput : Ty)
    (site : Site) (b : Bound) (position : Nat) (stage : Stage H) : Compose H Bound := do
  let place : Place := ⟨stage.name, position⟩
  if !stage.ignoresInput && !stage.inputs.any (fun t => t.accepts b.previous) then
    throw (.inputTypeMismatch place stage.inputs b.previous)
  let here : Site :=
    { input := b.previous, wireInput, shared := site.shared ++ b.exposed, board := site.board,
      wireName, position }
  let (needs, vars) ←
    if stage.capabilities.parameters then bindParams nested stage place here 0 stage.params
    else pure ([], [])
  let output ← stageOutput id wireName stage place here
  let composed := ((← get).stageAt? id position).getD stage
  let (exposed, required) :=
    if stage.capabilities.vars then (composed.exposed, composed.required) else ([], [])
  let b ← b.add site.shared place (required ++ needs) (exposed ++ vars)
  return { b with previous := output }

/-- Composes the stages from a position on. -/
def composeStages (nested : NestedCompose H) (id : Id .wire) (wireName : String) (wireInput : Ty)
    (site : Site) : Nat → List (Placed H) → Bound → Compose H Bound
  | _, [], b => return b
  | position, p :: rest, b => do
    let b ← composeStage nested id wireName wireInput site b position p.stage
    composeStages nested id wireName wireInput site (position + 1) rest b

/-- Composes a wire from scratch. -/
def composeFresh (nested : NestedCompose H) (id : Id .wire) (wire : Wire H) (site : Site) :
    Compose H Signature := do
  let input := if wire.ignoresInput then .nothing else site.input
  let b ← composeStages nested id wire.name input site 0 wire.stages { previous := input }
  modify fun s => s.modifyWire id fun w => { w with inputTy := input, outputTy := some b.previous }
  return {
    input, output := b.previous, exposed := b.exposed, required := b.required
    stopsFlow := wire.stopsFlow, findings := b.findings }

/-- Composes a wire that is locked, or reuses what is known if the key is the same. -/
def composeLocked (nested : NestedCompose H) (locked : List (Id .wire)) (id : Id .wire)
    (site : Site) : Compose H Signature := do
  let s ← get
  match s.wires.get? id with
  | none => throw (.recursive site.wireName)
  | some wire =>
    let key := s.composeKey locked wire site
    match key, wire.composed with
    | some k, some ⟨some known, signature⟩ =>
      if k = known then return signature
    | _, _ => pure ()
    modify fun s => s.modifyWire id fun w => { w with composed := none }
    let signature ← composeFresh nested id wire site
    modify fun s => s.modifyWire id fun w => { w with composed := some ⟨key, signature⟩ }
    return signature

/-- Composes a shared wire that may be nested so deep. A wire that is already being composed is
refused; each level enters another wire, so the depth never exceeds the number of wires. -/
def composeWithin : Nat → Trail → Id .wire → Site → Compose H Signature
  | 0, _, _, site => throw (.recursive site.wireName)
  | depth + 1, trail, id, site => do
    if trail.entered.contains id then throw (.recursive site.wireName)
    if trail.locked.contains id then throw (.locked site.wireName)
    let trail : Trail := ⟨id :: trail.entered, id :: trail.locked⟩
    composeLocked (composeWithin depth trail) trail.locked id site

/-- Composes a wire that others share. -/
def composeShared (id : Id .wire) (site : Site) : Compose H Signature := do
  composeWithin (← get).depthBound {} id site

/-- Composes a wire that the caller holds. Nested wires that lead back to it find it locked. -/
def composeOwned (id : Id .wire) (site : Site) : Compose H Signature := do
  let trail : Trail := ⟨[], [id]⟩
  composeLocked (composeWithin (← get).depthBound trail) trail.locked id site

end Store

end Dataflow
