import Dataflow.Proofs.Code
/-!
# How a composition proceeds

The equations of composing a wire, one per function, and what follows from them for every
composition: it leaves the code of all wires alone. How nested wires are composed is a parameter
throughout, so that each fact is proved once and carried to any depth by induction on the bound.
-/

namespace Dataflow

/-- A use of a channel name. -/
structure Use where
  board : Id .board
  name : String
  isFan : Bool
  ty : Ty
  noCopy : Bool := false
  deriving DecidableEq

/-- Resolves a name as a channel of either kind. -/
def Exchange.use (x : Exchange) (u : Use) : Except ComposeError Channel × Exchange :=
  if u.isFan then (x.initFan u.board u.name u.ty u.noCopy).map (·.map .fan) id
  else (x.initQueue u.board u.name u.ty u.noCopy).map (·.map .queue) id

variable {H : Host} {s s' : Store H} {position : Nat} {stage : Stage H} {id : Id .wire}
  {T : Set (Id .wire)} {ρ : Store H → Store H → Prop}

/-- Whether a stage takes the type of what comes before it. -/
def Stage.takes (stage : Stage H) (input : Ty) : Bool :=
  stage.ignoresInput || stage.inputs.any fun t => t.accepts input

namespace Store

/-! ### Stages -/

/-- What a stage sees: the output of the stages before it, and the variables that they publish. -/
def hereSite (wireName : String) (wireInput : Ty) (site : Site) (b : Bound) (position : Nat) :
    Site :=
  { input := b.previous, wireInput, shared := site.shared ++ b.exposed, board := site.board,
    wireName, position }

/-- The variables that the parameters of a stage need and publish. -/
def composeParams (nested : NestedCompose H) (stage : Stage H) (position : Nat) (here : Site) :
    Compose H (List VarDecl × List VarDecl) :=
  if stage.capabilities.parameters then
    bindParams nested stage ⟨stage.name, position⟩ here 0 stage.params
  else pure ([], [])

/-- The variables that a stage itself publishes and needs, once it is composed. -/
def ownVars (stage composed : Stage H) : List VarDecl × List VarDecl :=
  if stage.capabilities.vars then (composed.exposed, composed.required) else ([], [])

theorem eval_composeStage (s : Store H) (nested : NestedCompose H) (id : Id .wire)
    (wireName : String) (wireInput : Ty) (site : Site) (b : Bound) (position : Nat)
    (stage : Stage H) :
    s.eval (composeStage nested id wireName wireInput site b position stage) =
      let here := hereSite wireName wireInput site b position
      if stage.takes b.previous then
        match s.eval (composeParams nested stage position here) with
        | (.error e, s₁) => (.error e, s₁)
        | (.ok (needs, vars), s₁) =>
          match s₁.eval (stageOutput id wireName stage ⟨stage.name, position⟩ here) with
          | (.error e, s₂) => (.error e, s₂)
          | (.ok output, s₂) =>
            let own := ownVars stage ((s₂.stageAt? id position).getD stage)
            ((b.add site.shared ⟨stage.name, position⟩ (own.2 ++ needs) (own.1 ++ vars)).map
              ({ · with previous := output }), s₂)
      else (.error (.inputTypeMismatch ⟨stage.name, position⟩ stage.inputs b.previous), s) := by
  unfold composeStage composeParams hereSite
  by_cases ht : stage.takes b.previous
  · have hcheck :
        (!stage.ignoresInput && !stage.inputs.any fun t => t.accepts b.previous) = false := by
      grind [Stage.takes]
    simp only [hcheck, ht, Bool.false_eq_true, if_false, if_true]
    by_cases hp : stage.capabilities.parameters
    · simp only [hp, if_true, eval_bind, eval_get, eval_except]
      rcases s.eval (bindParams nested stage _ _ 0 stage.params) with ⟨_ | ⟨needs, vars⟩, s₁⟩
      · rfl
      dsimp only
      rcases s₁.eval (stageOutput id wireName stage _ _) with ⟨_ | output, s₂⟩
      · rfl
      dsimp only [ownVars]
      rcases b.add site.shared _ _ _ with _ | b' <;> rfl
    · simp only [hp, Bool.false_eq_true, if_false, eval_bind, eval_get, eval_except, eval_pure]
      rcases s.eval (stageOutput id wireName stage _ _) with ⟨_ | output, s₂⟩
      · rfl
      dsimp only [ownVars]
      rcases b.add site.shared _ _ _ with _ | b' <;> rfl
  · have hcheck :
        (!stage.ignoresInput && !stage.inputs.any fun t => t.accepts b.previous) = true := by
      grind [Stage.takes]
    simp only [hcheck, ht]
    rfl

/-- What a stage that composes has gone through: its input fits, its parameters are checked, its
output is known, and its variables are taken into account. -/
theorem composeStage_ok {nested : NestedCompose H} {wireName : String} {wireInput : Ty}
    {site : Site} {b b' : Bound}
    (h : s.eval (composeStage nested id wireName wireInput site b position stage) = (.ok b', s')) :
    let here := hereSite wireName wireInput site b position
    let own := ownVars stage ((s'.stageAt? id position).getD stage)
    stage.takes b.previous = true ∧ ∃ needs vars s₁ output b₁,
      s.eval (composeParams nested stage position here) = (.ok (needs, vars), s₁) ∧
      s₁.eval (stageOutput id wireName stage ⟨stage.name, position⟩ here) = (.ok output, s') ∧
      b.add site.shared ⟨stage.name, position⟩ (own.2 ++ needs) (own.1 ++ vars) = .ok b₁ ∧
      b' = { b₁ with previous := output } := by
  rw [eval_composeStage] at h
  dsimp only at h ⊢
  split at h
  · rename_i htakes
    refine ⟨htakes, ?_⟩
    rcases hp : s.eval (composeParams nested stage position
      (hereSite wireName wireInput site b position)) with ⟨_ | ⟨needs, vars⟩, s₁⟩
    · simp [hp] at h
    simp only [hp] at h
    rcases ho : s₁.eval (stageOutput id wireName stage ⟨stage.name, position⟩
      (hereSite wireName wireInput site b position)) with ⟨_ | output, s₂⟩
    · simp [ho] at h
    simp only [ho, Prod.mk.injEq] at h
    obtain ⟨hb, rfl⟩ := h
    cases hadd : b.add site.shared ⟨stage.name, position⟩
      ((ownVars stage ((s₂.stageAt? id position).getD stage)).2 ++ needs)
      ((ownVars stage ((s₂.stageAt? id position).getD stage)).1 ++ vars) with
    | error e => simp [hadd, Except.map] at hb
    | ok b₁ =>
      rw [hadd] at hb
      exact ⟨needs, vars, s₁, output, b₁, rfl, ho, hadd, (Except.ok.inj hb).symm⟩
  · simp at h

/-! ### Parameters -/

/-- What the value of a parameter needs, the composition of a nested wire apart. -/
def bindValue (place : Place) (here : Site) (param : Param) (value : Value) :
    Except ComposeError (List VarDecl) :=
  match value with
  | .ref name => (bindReference place here param name).map ([·])
  | .wire _ =>
    if param.types.contains .wire then .ok []
    else .error (.parameter place param.name "does not accept a wire")
  | literal =>
    if param.accepts literal then .ok []
    else
      .error (.parameter place param.name
        ("expected one of " ++ Text.listed (param.types.map Ty.outline) ++ ", found " ++
          literal.ty.text))

/-- The needs of a nested wire that the stage around it does not meet itself. -/
def outerNeeds (stage : Stage H) (here : Site) (signature : Signature) : List VarDecl :=
  signature.required.filter fun r => !(stage.lent here.input).any fun l => l.name == r.name

theorem eval_bindParam (s : Store H) (nested : NestedCompose H) (stage : Stage H) (place : Place)
    (here : Site) (param : Param) (value : Value) :
    s.eval (bindParam nested stage place here param value) =
      match bindValue place here param value, value with
      | .error e, _ => (.error e, s)
      | .ok _, .wire sub =>
        match s.eval (nested sub (here.nested (stage.lent here.input))) with
        | (.error e, s₁) => (.error (.nestedWire place param.name e), s₁)
        | (.ok signature, s₁) => (.ok (outerNeeds stage here signature, signature.exposed), s₁)
      | .ok needs, _ => (.ok (needs, []), s) := by
  cases value with
  | ref name =>
    simp only [bindParam, bindValue, eval_bind, eval_except]
    cases bindReference place here param name <;> rfl
  | wire sub =>
    simp only [bindParam, bindValue]
    by_cases hw : param.types.contains .wire
    · simp only [hw, Bool.not_true, Bool.false_eq_true, if_false, if_true, eval_bind, eval_tryCatch]
      rcases s.eval (nested sub _) with ⟨_ | signature, s₁⟩ <;> rfl
    · simp only [hw, Bool.not_false, Bool.false_eq_true, if_false, if_true]
      rfl
  | _ =>
    simp only [bindParam, bindValue, eval_ite]
    split <;> rfl

/-- What the parameters from `index` on need, the composition of nested wires apart. -/
def bindValues (stage : Stage H) (place : Place) (here : Site) :
    Nat → List Param → Except ComposeError (List VarDecl)
  | _, [] => .ok []
  | index, param :: rest => do
    let needs ← bindValue place here param (stage.getParam index)
    return needs ++ (← bindValues stage place here (index + 1) rest)

/-- Where no parameter takes a wire, checking the parameters changes nothing. -/
theorem eval_bindParams (s : Store H) (nested : NestedCompose H) (stage : Stage H) (place : Place)
    (here : Site) (index : Nat) (params : List Param)
    (hw : ∀ p ∈ params, p.types.contains .wire = false) :
    s.eval (bindParams nested stage place here index params) =
      ((bindValues stage place here index params).map (·, []), s) := by
  induction params generalizing index with
  | nil => rfl
  | cons param rest ih =>
    have hbind : s.eval (bindParam nested stage place here param (stage.getParam index)) =
        ((bindValue place here param (stage.getParam index)).map (·, []), s) := by
      rw [eval_bindParam]
      cases hv : stage.getParam index with
      | wire sub =>
        simp only [bindValue, hw param List.mem_cons_self, Bool.false_eq_true, if_false]
        rfl
      | _ => cases bindValue place here param _ <;> rfl
    have hrest := ih (index + 1) fun p hp => hw p (List.mem_cons_of_mem _ hp)
    simp only [bindParams, bindValues, eval_bind, hbind]
    cases bindValue place here param (stage.getParam index) with
    | error e => rfl
    | ok needs =>
      simp only [Except.map, hrest]
      cases bindValues stage place here (index + 1) rest <;> rfl

/-- A wire as the last parameter is composed with what the stage lends to it. -/
theorem eval_bindParams_wire (s : Store H) (nested : NestedCompose H) (stage : Stage H)
    (place : Place) (here : Site) (index : Nat) {sub : Id .wire}
    (h : stage.getParam index = .wire sub) :
    s.eval (bindParams nested stage place here index [Stage.wireParam]) =
      match s.eval (nested sub (here.nested (stage.lent here.input))) with
      | (.error e, s₁) => (.error (.nestedWire place "Wire" e), s₁)
      | (.ok signature, s₁) => (.ok (outerNeeds stage here signature, signature.exposed), s₁) := by
  have hw : bindValue place here Stage.wireParam (.wire sub) = .ok [] := rfl
  simp only [bindParams, eval_bind, eval_bindParam, h, hw]
  rcases s.eval (nested sub _) with ⟨_ | signature, s₁⟩
  · rfl
  · simp

/-- What the parameters of a stage need, the composition of nested wires apart. -/
def ownNeeds (stage : Stage H) (position : Nat) (here : Site) :
    Except ComposeError (List VarDecl) :=
  if stage.capabilities.parameters then
    bindValues stage ⟨stage.name, position⟩ here 0 stage.params
  else .ok []

/-- A built-in stage checks its own parameters and then composes the wire that it runs. -/
theorem eval_composeParams (s : Store H) (nested : NestedCompose H) (hb : stage.isBuiltIn)
    (position : Nat) (here : Site) :
    s.eval (composeParams nested stage position here) =
      match ownNeeds stage position here, stage.nested? with
      | .error e, _ => (.error e, s)
      | .ok needs, none => (.ok (needs, []), s)
      | .ok needs, some sub =>
        match s.eval (nested sub (here.nested (stage.lent here.input))) with
        | (.error e, s₁) => (.error (.nestedWire ⟨stage.name, position⟩ "Wire" e), s₁)
        | (.ok signature, s₁) =>
          (.ok (needs ++ outerNeeds stage here signature, signature.exposed), s₁) := by
  by_cases hp : stage.capabilities.parameters
  · simp only [composeParams, ownNeeds, hp, if_true]
    cases stage with
    | inline sub =>
      rcases sub with ⟨_ | sub, running⟩
      · rfl
      · have hown : bindValues (.inline ⟨some sub, running⟩ : Stage H) ⟨"Do", position⟩ here 0
            [Stage.wireParam] = .ok [] := rfl
        simp only [Stage.params, Stage.name, Stage.nested?, hown, List.nil_append]
        exact eval_bindParams_wire s nested _ _ here 0 rfl
    | bound name sub slot =>
      rcases sub with ⟨_ | sub, running⟩
      · rfl
      · have hown : bindValues (.bound name ⟨some sub, running⟩ slot : Stage H) ⟨"With", position⟩
            here 0 [⟨"Name", "The variable holding the object.", [.string]⟩, Stage.wireParam] =
              .ok [] := rfl
        have hwire := eval_bindParams_wire s nested (.bound name ⟨some sub, running⟩ slot)
          ⟨"With", position⟩ here 1 rfl
        have hname : s.eval (bindParam nested (.bound name ⟨some sub, running⟩ slot)
            ⟨"With", position⟩ here ⟨"Name", "The variable holding the object.", [.string]⟩
            ((.bound name ⟨some sub, running⟩ slot : Stage H).getParam 0)) = (.ok ([], []), s) := by
          rw [eval_bindParam]
          rfl
        simp only [Stage.params, Stage.name, Stage.nested?, hown, List.nil_append]
        rw [bindParams, eval_bind, hname]
        dsimp only
        rw [eval_bind, hwire]
        rcases s.eval (nested sub _) with ⟨_ | signature, s₁⟩ <;> rfl
    | unit u => simp [Stage.isBuiltIn] at hb
    | _ => 
      rw [eval_bindParams _ _ _ _ _ _ _ (by simp [Stage.params]; try decide)]
      cases bindValues _ _ here 0 _ <;> rfl
  · simp only [composeParams, ownNeeds, hp, Bool.false_eq_true, if_false, eval_pure]
    cases stage with
    | inline sub | bound name sub slot => simp [Stage.capabilities] at hp
    | _ => rfl

/-! ### Output types -/

theorem eval_stageOutput (s : Store H) (id : Id .wire) (wireName : String) (stage : Stage H)
    (place : Place) (here : Site) :
    s.eval (stageOutput id wireName stage place here) =
      if stage.capabilities.compose then
        let hook := (stage.compose here).run s
        (hook.1.2.mapError (·.annotate place wireName),
          hook.2.modifyWire id (·.setStage place.position hook.1.1))
      else (stage.defaultOutput here.input place.position, s) := by
  unfold stageOutput
  split
  · simp only [eval_bind, eval_lift, eval_modify]
    rcases (StateT.run (stage.compose here) s).1.2 with e | ty <;> rfl
  · exact eval_except ..

theorem stageAt?_setStage (s : Store H) (id : Id .wire) (position : Nat) (stage : Stage H) :
    (s.modifyWire id (·.setStage position stage)).stageAt? id position =
      (s.stageAt? id position).map fun _ => stage := by
  unfold stageAt?
  rw [get?_modifyWire_self]
  cases s.wires.get? id with
  | none => rfl
  | some w =>
    simp only [Option.map_some, Option.bind_eq_bind, Option.bind_some, Wire.setStage,
      Wire.modifyPlaced, List.getElem?_modify_eq]
    cases w.stages[position]? <;> rfl

/-- A compose hook that answers has put its stage back. -/
theorem stageOutput_ok {wireName : String} {place : Place} {here : Site} {output : Ty}
    (hc : stage.capabilities.compose = true)
    (h : s.eval (stageOutput id wireName stage place here) = (.ok output, s')) :
    ∃ stage' s₁, (stage.compose here).run s = ((stage', .ok output), s₁) ∧
      s' = s₁.modifyWire id (·.setStage place.position stage') := by
  rw [eval_stageOutput, if_pos hc] at h
  rcases hr : (stage.compose here).run s with ⟨⟨stage', _ | ty⟩, s₁⟩
  · simp [hr, Except.mapError] at h
  · simp only [hr, Except.mapError, Prod.mk.injEq, Except.ok.injEq] at h
    obtain ⟨rfl, rfl⟩ := h
    exact ⟨stage', s₁, rfl, rfl⟩

/-! ### Wires -/

/-- What a composition found out about a wire, once all its stages are composed. -/
def signatureOf (wire : Wire H) (input : Ty) (b : Bound) : Signature where
  input := input
  output := b.previous
  exposed := b.exposed
  required := b.required
  stopsFlow := wire.stopsFlow
  findings := b.findings

/-- The wire without its memo. -/
def forget (w : Wire H) : Wire H := { w with composed := none }

/-- The wire with the types that its composition has found. -/
def typed (input output : Ty) (w : Wire H) : Wire H :=
  { w with inputTy := input, outputTy := some output }

/-- The wire with a memo. -/
def remember (key : Option UInt64) (signature : Signature) (w : Wire H) : Wire H :=
  { w with composed := some ⟨key, signature⟩ }

@[simp] theorem code_forget (s : Store H) (id : Id .wire) :
    (s.modifyWire id forget).code = s.code := s.code_modifyWire id fun _ => rfl

@[simp] theorem code_typed (s : Store H) (id : Id .wire) (input output : Ty) :
    (s.modifyWire id (typed input output)).code = s.code := s.code_modifyWire id fun _ => rfl

@[simp] theorem code_remember (s : Store H) (id : Id .wire) (key : Option UInt64)
    (signature : Signature) : (s.modifyWire id (remember key signature)).code = s.code :=
  s.code_modifyWire id fun _ => rfl

/-- The input type that a wire is composed with. -/
def inputAt (wire : Wire H) (site : Site) : Ty :=
  if wire.ignoresInput then .nothing else site.input

theorem eval_composeFresh (s : Store H) (nested : NestedCompose H) (id : Id .wire) (wire : Wire H)
    (site : Site) :
    s.eval (composeFresh nested id wire site) =
      let input := inputAt wire site
      match s.eval (composeStages nested id wire.name input site 0 wire.stages
        { previous := input }) with
      | (.error e, s') => (.error e, s')
      | (.ok b, s') =>
        (.ok (signatureOf wire input b),
          s'.modifyWire id (typed input b.previous)) := by
  simp only [composeFresh, inputAt, eval_bind, eval_modify, eval_pure]
  rcases s.eval (composeStages nested id wire.name _ site 0 wire.stages _) with ⟨_ | b, s'⟩ <;> rfl

/-- The signature that the memo of a wire answers at a site. -/
def recalled? (s : Store H) (locked : List (Id .wire)) (wire : Wire H) (site : Site) :
    Option Signature :=
  match s.composeKey locked wire site, wire.composed with
  | some key, some ⟨some known, signature⟩ => if key = known then some signature else none
  | _, _ => none

theorem eval_composeLocked (s : Store H) (nested : NestedCompose H) (locked : List (Id .wire))
    (id : Id .wire) (site : Site) :
    s.eval (composeLocked nested locked id site) =
      match s.wires.get? id with
      | none => (.error (.recursive site.wireName), s)
      | some wire =>
        match s.recalled? locked wire site with
        | some signature => (.ok signature, s)
        | none =>
          match (s.modifyWire id forget).eval (composeFresh nested id wire site) with
          | (.error e, s') => (.error e, s')
          | (.ok signature, s') =>
            (.ok signature,
              s'.modifyWire id (remember (s.composeKey locked wire site) signature)) := by
  have hforget : (fun w : Wire H => { w with composed := none }) = forget := rfl
  simp only [composeLocked, eval_bind, eval_get, hforget]
  cases hw : s.wires.get? id with
  | none => rfl
  | some wire =>
    simp only [recalled?]
    rcases s.composeKey locked wire site with _ | key <;>
      rcases wire.composed with _ | ⟨_ | known, signature⟩
    all_goals simp only [eval_bind, eval_modify, eval_pure]
    case some.some.some =>
      by_cases hk : key = known
      · simp only [hk, if_true]
        rfl
      · simp only [hk, if_false, eval_bind, eval_modify]
        rcases (s.modifyWire id forget).eval (composeFresh nested id wire site) with ⟨_ | _, s'⟩ <;>
          rfl
    all_goals
      rcases (s.modifyWire id forget).eval (composeFresh nested id wire site) with ⟨_ | _, s'⟩ <;> rfl

theorem eval_composeWithin_succ (s : Store H) (depth : Nat) (trail : Trail) (id : Id .wire)
    (site : Site) :
    s.eval (composeWithin (depth + 1) trail id site) =
      if trail.entered.contains id then (.error (.recursive site.wireName), s)
      else if trail.locked.contains id then (.error (.locked site.wireName), s)
      else
        s.eval (composeLocked (composeWithin depth ⟨id :: trail.entered, id :: trail.locked⟩)
          (id :: trail.locked) id site) := by
  rw [composeWithin]
  split
  · simp [*]
  · split <;> simp [*]

theorem eval_composeShared (s : Store H) (id : Id .wire) (site : Site) :
    s.eval (composeShared id site) = s.eval (composeWithin s.depthBound {} id site) := by
  simp only [composeShared, eval_bind, eval_get]

theorem eval_composeOwned (s : Store H) (id : Id .wire) (site : Site) :
    s.eval (composeOwned id site) =
      s.eval (composeLocked (composeWithin s.depthBound ⟨[], [id]⟩) [id] id site) := by
  simp only [composeOwned, eval_bind, eval_get]

/-- Composes a wire that the caller holds, or one that others share. -/
def composeAs (owned : Bool) (id : Id .wire) (site : Site) : Compose H Signature :=
  if owned then composeOwned id site else composeShared id site

end Store

/-! ### Compose hooks -/

namespace Stage

variable {here : Site} {stage' : Stage H} {ty : Ty}

/-- How a stage resolves its channel on a board when it is warmed up. -/
def use? (board : Id .board) : Stage H → Option Use
  | produce sender _ => some ⟨board, sender.name, false, sender.ty, sender.noCopy⟩
  | broadcast sender _ => some ⟨board, sender.name, true, sender.ty, sender.noCopy⟩
  | consume r _ => some ⟨board, r.name, false, r.ty, r.noCopy⟩
  | listen r _ => some ⟨board, r.name, true, r.ty, r.noCopy⟩
  | _ => none

theorem board_of_use? {board : Id .board} {u : Use} (h : stage.use? board = some u) :
    u.board = board := by
  cases stage <;> cases h <;> rfl

theorem use?_board (b b' : Id .board) :
    stage.use? b' = (stage.use? b).map ({ · with board := b' }) := by
  cases stage <;> rfl

/-- A stage whose compose hook resolves a channel: the stage afterwards, and its output type if it
gets the channel. -/
def claim? (here : Site) : Stage H → Option (Stage H × Ty)
  | produce sender queue =>
    if sender.name.isEmpty then none
    else some (produce { sender with ty := here.input } queue, here.input)
  | broadcast sender fan =>
    if sender.name.isEmpty then none
    else some (broadcast { sender with ty := here.input } fan, here.input)
  | consume r queue =>
    match receiverOutput "Consume" r with
    | .ok ty => some (consume r queue, ty)
    | .error _ => none
  | listen r queue =>
    match receiverOutput "Listen" r with
    | .ok ty => some (listen r queue, ty)
    | .error _ => none
  | _ => none

/-- A stage resolves its channel as it will when it is warmed up. -/
theorem run_compose_of_claim? (h : stage.claim? here = some (stage', ty)) :
    ∃ u, stage'.use? here.board = some u ∧ ∀ s : Store H, (stage.compose here).run s =
      ((stage', (s.exchange.use u).1.map fun _ => ty),
        { s with exchange := (s.exchange.use u).2 }) := by
  have hmap : ∀ {α : Type} (f : α → Channel) (r : Except ComposeError α),
      r.map (fun _ => ty) = (r.map f).map fun _ => ty := by
    rintro α f (_ | _) <;> rfl
  cases stage with
  | produce sender queue | broadcast sender fan =>
    simp only [claim?] at h
    split at h <;> cases h
    refine ⟨_, rfl, fun s => ?_⟩
    rw [compose, if_neg ‹_›]
    exact Prod.ext (Prod.ext rfl (hmap _ _)) rfl
  | consume r queue | listen r queue =>
    simp only [claim?] at h
    split at h <;> cases h
    rename_i hout
    refine ⟨_, rfl, fun s => ?_⟩
    rw [compose, hout]
    exact Prod.ext (Prod.ext rfl (hmap _ _)) rfl
  | _ => cases h

/-- A built-in stage that resolves no channel only answers. -/
theorem store_compose (hb : stage.isBuiltIn = true) (h : stage.claim? here = none) (s : Store H) :
    ((stage.compose here).run s).2 = s := by
  cases stage with
  | set | update | pause =>
    simp only [compose]
    split <;> rfl
  | produce | broadcast =>
    simp only [claim?] at h
    split at h <;> cases h
    rw [compose, if_pos ‹_›]
    rfl
  | consume | listen =>
    simp only [claim?] at h
    split at h <;> cases h
    rename_i hout
    rw [compose, hout]
    rfl
  | unit => cases hb
  | _ => rfl

/-- All that a compose hook does to a store: it resolves a channel, or is one of the host. -/
theorem effect_compose (stage : Stage H) (here : Site) (s : Store H) :
    ((stage.compose here).run s).2 = s ∨
      (∃ u, ((stage.compose here).run s).2 = { s with exchange := (s.exchange.use u).2 }) ∨
      ∃ notes heap, ((stage.compose here).run s).2 = { s.note notes with heap } := by
  cases hclaim : stage.claim? here with
  | some claim =>
    obtain ⟨u, -, hrun⟩ := run_compose_of_claim? hclaim
    exact .inr (.inl ⟨u, by rw [hrun]⟩)
  | none =>
    cases hb : stage.isBuiltIn with
    | true => exact .inl (store_compose hb hclaim s)
    | false =>
      cases stage with
      | unit => exact .inr (.inr ⟨_, _, rfl⟩)
      | _ => cases hb

/-- The output type of a nested wire is known if the wire has one. -/
theorem nestedOutput_eq_ok_iff {sub : Nested} : nestedOutput s sub = .ok ty ↔
    (sub.wire.bind fun j => (s.wires.get? j).bind (·.outputTy)) = some ty := by
  unfold nestedOutput
  cases sub.wire with
  | none => simp
  | some j =>
    rw [Option.bind_some]
    dsimp only
    cases s.wires.get? j with
    | none => simp
    | some w =>
      rw [Option.bind_some]
      dsimp only
      cases w.outputTy <;> simp

/-- What the compose hook of a built-in stage has found when it answers. -/
inductive Composes (here : Site) (s : Store H) : Stage H → Stage H → Ty → Store H → Prop where
  | const (v : Value) : Composes here s (const v) (const v) v.ty s
  | input : Composes here s input input here.wireInput s
  | add {operand : Operand} (hfits : here.input.accepts (operandTy operand here) = true) :
      Composes here s (add operand) (add operand) here.input s
  | set {x : String} {ty : Ty} {slot : Option (Id .slot)} (hx : x.isEmpty = false) :
      Composes here s (set x ty slot) (set x here.input slot) here.input s
  | get {x : String} {slot : Option (Id .slot)} {found : VarDecl} (hx : x.isEmpty = false)
      (hfound : here.find? x = some found) : Composes here s (get x slot) (get x slot) found.ty s
  | update {x : String} {ty : Ty} {slot : Option (Id .slot)} {found : VarDecl}
      (hx : x.isEmpty = false) (hfound : here.find? x = some found)
      (hfits : found.ty.accepts here.input = true) :
      Composes here s (update x ty slot) (update x found.ty slot) here.input s
  | pause {time : Value} {paused : Bool} {delay : Option Delay} (hdelay : pauseDelay time = .ok delay) :
      Composes here s (pause time paused) (pause time paused) here.input s
  | inline {sub : Nested} {ty : Ty} (hsub : nestedOutput s sub = .ok ty) :
      Composes here s (inline sub) (inline sub) ty s
  | bound {x : String} {sub : Nested} {slot : Option (Id .slot)} {ty : Ty} (hx : x.isEmpty = false)
      (hobject : here.input.isObject = true) (hsub : nestedOutput s sub = .ok ty) :
      Composes here s (bound x sub slot) (bound x sub slot) ty s
  | channel {stage stage' : Stage H} {ty : Ty} {u : Use} {c : Channel} {x : Exchange}
      (hclaim : stage.claim? here = some (stage', ty)) (hu : stage'.use? here.board = some u)
      (huse : s.exchange.use u = (.ok c, x)) :
      Composes here s stage stage' ty { s with exchange := x }
  | idle {stage : Stage H} (hb : stage.isBuiltIn = true) (h : stage.capabilities.compose = false) :
      Composes here s stage stage here.input s

theorem composes_of_run (hb : stage.isBuiltIn = true)
    (h : (stage.compose here).run s = ((stage', .ok ty), s')) :
    Composes here s stage stage' ty s' := by
  cases hclaim : stage.claim? here with
  | some claim =>
    obtain ⟨u, hu, hrun⟩ := run_compose_of_claim? hclaim
    rw [hrun] at h
    rcases huse : s.exchange.use u with ⟨_ | c, x⟩ <;> rw [huse] at h <;> cases h
    exact .channel hclaim hu huse
  | none =>
    obtain rfl : s = s' := (store_compose hb hclaim s).symm.trans (congrArg Prod.snd h)
    cases stage with
    | const v =>
      cases h
      exact .const v
    | input =>
      cases h
      exact .input
    | add operand =>
      have hout : addOutput operand here = .ok ty := congrArg (·.1.2) h
      obtain rfl : Stage.add operand = stage' := congrArg (·.1.1) h
      simp only [addOutput] at hout
      split at hout <;> cases hout
      exact .add ‹_›
    | set x ty slot =>
      simp only [compose] at h
      split at h <;> cases h
      exact .set (Bool.eq_false_iff.2 ‹_›)
    | get x slot =>
      have hout : getOutput x here = .ok ty := congrArg (·.1.2) h
      obtain rfl : Stage.get x slot = stage' := congrArg (·.1.1) h
      simp only [getOutput] at hout
      split at hout
      · cases hout
      · split at hout <;> cases hout
        exact .get (Bool.eq_false_iff.2 ‹_›) ‹_›
    | update x ty slot =>
      simp only [compose, updateTarget] at h
      split at h
      · rename_i hout
        split at hout
        · cases hout
        · split at hout
          · cases hout
          · split at hout <;> cases hout
            cases h
            exact .update (Bool.eq_false_iff.2 ‹_›) ‹_› ‹_›
      · cases h
    | pause time paused =>
      simp only [compose] at h
      split at h <;> cases h
      exact .pause ‹_›
    | inline sub =>
      obtain rfl : Stage.inline sub = stage' := congrArg (·.1.1) h
      exact .inline (congrArg (·.1.2) h)
    | bound x sub slot =>
      have hout : boundOutput s x sub here = .ok ty := congrArg (·.1.2) h
      obtain rfl : Stage.bound x sub slot = stage' := congrArg (·.1.1) h
      simp only [boundOutput] at hout
      split at hout
      · cases hout
      · split at hout
        · cases hout
        · rename_i hx hobject
          exact .bound (Bool.eq_false_iff.2 hx) (by simpa using hobject) hout
    | produce | broadcast =>
      simp only [claim?] at hclaim
      split at hclaim <;> cases hclaim
      rw [compose, if_pos ‹_›] at h
      cases h
    | consume | listen =>
      simp only [claim?] at hclaim
      split at hclaim <;> cases hclaim
      rename_i hout
      rw [compose, hout] at h
      cases h
    | unit => cases hb
    | _ =>
      cases h
      exact .idle rfl rfl

theorem Composes.run (h : Composes here s stage stage' ty s') :
    (stage.compose here).run s = ((stage', .ok ty), s') := by
  cases h with
  | const | input => rfl
  | add hfits => exact Prod.ext (Prod.ext rfl (if_pos hfits)) rfl
  | set hx =>
    rw [compose, hx]
    rfl
  | get hx hfound =>
    simp only [compose, getOutput, hx, hfound]
    rfl
  | update hx hfound hfits =>
    simp only [compose, updateTarget, hx, hfound, hfits]
    rfl
  | pause hdelay =>
    rw [compose, hdelay]
    rfl
  | inline hsub => exact Prod.ext (Prod.ext rfl hsub) rfl
  | bound hx hobject hsub =>
    refine Prod.ext (Prod.ext rfl ?_) rfl
    change boundOutput s _ _ here = _
    rw [boundOutput, hx, hobject]
    exact hsub
  | channel hclaim hu huse =>
    obtain ⟨u', hu', hrun⟩ := run_compose_of_claim? hclaim
    obtain rfl := Option.some.inj (hu.symm.trans hu')
    rw [hrun, huse]
    rfl
  | idle hb hc =>
    cases stage with
    | unit => cases hb
    | _ => first | rfl | cases hc

end Stage

/-! ### What a composition leaves alone -/

namespace Stage

/-- The compose hook of a stage leaves the plan of the stage and all wires as they are. -/
theorem compose_keeps (stage : Stage H) (site : Site) (s : Store H) :
    ((stage.compose site).run s).1.1.plan? = stage.plan? ∧
      ((stage.compose site).run s).2.wires = s.wires := by
  constructor
  · cases stage with
    | set | update | pause | produce | broadcast | consume | listen =>
      simp only [compose]
      split <;> rfl
    | _ => rfl
  · rcases stage.effect_compose site s with h | ⟨_, h⟩ | ⟨_, _, h⟩ <;> exact (congrArg Store.wires h :)

theorem compose_gear (stage : Stage H) (site : Site) (s : Store H) :
    ((stage.compose site).run s).1.1.gear = stage.gear := by
  have hplan := (stage.compose_keeps site s).1
  refine Prod.ext hplan ?_
  cases hb : stage.isBuiltIn with
  | true => exact capabilities_of_plan? hplan hb
  | false =>
    cases stage with
    | unit u => exact H.capabilities_compose u site s.heap
    | _ => simp [isBuiltIn] at hb

end Stage

namespace Store

/-- The gear of a stage stands at a position of a wire. -/
def GearedAt (s : Store H) (id : Id .wire) (position : Nat) (stage : Stage H) : Prop :=
  ∃ w, s.wires.get? id = some w ∧ (w.gear[position]?).map (·.1) = some stage.gear

theorem GearedAt.of_keeps (h : s.GearedAt id position stage) (hs : Keeps Wire.gear T s s') :
    s'.GearedAt id position stage := by
  obtain ⟨w, hw, hat⟩ := h
  obtain ⟨w', hw', hgear⟩ := hs.get? hw
  exact ⟨w', hw', by rw [hgear, hat]⟩

/-- A stage with the gear that stands at its position may replace what stands there. -/
theorem GearedAt.keeps_setStage (h : s.GearedAt id position stage) (hid : id ∈ T) :
    Keeps Wire.gear T s (s.modifyWire id (·.setStage position stage)) := by
  refine Keeps.modifyWire hid fun w hw => ?_
  obtain ⟨w', hw', hat⟩ := h
  obtain rfl := Option.some.inj (hw.symm.trans hw')
  refine List.ext_getElem? fun n => ?_
  simp only [Wire.gear, Wire.setStage, Wire.modifyPlaced, List.getElem?_map, List.getElem?_modify]
    at hat ⊢
  by_cases hn : position = n
  · subst hn
    cases hp : w.stages[position]? with
    | none => rfl
    | some p =>
      rw [hp] at hat
      simp only [Option.map_some, Option.some.injEq] at hat
      simp [hat]
  · simp [hn]

/-- The plan of a stage stands at a position of a wire. -/
def PlannedAt (s : Store H) (id : Id .wire) (position : Nat) (stage : Stage H) : Prop :=
  ∃ plans, s.code id = some plans ∧ plans[position]? = some stage.plan?

theorem PlannedAt.of_code_eq (h : s.PlannedAt id position stage) (hs : s'.code = s.code) :
    s'.PlannedAt id position stage := by
  unfold PlannedAt
  rwa [hs]

theorem PlannedAt.stageAt? (h : s.PlannedAt id position stage) :
    ∃ st, s.stageAt? id position = some st := by
  obtain ⟨plans, hplans, hat⟩ := h
  obtain ⟨w, hw, rfl⟩ := Option.map_eq_some_iff.1 hplans
  simp only [Wire.code, List.getElem?_map] at hat
  obtain ⟨p, hp, -⟩ := Option.map_eq_some_iff.1 hat
  exact ⟨p.stage, by simp [Store.stageAt?, hw, hp]⟩

/-- The plans of stages stand in a wire, from a position on. -/
def PlannedFrom (s : Store H) (id : Id .wire) (position : Nat) (stages : List (Placed H)) : Prop :=
  ∃ plans, s.code id = some plans ∧ plans.drop position = stages.map (·.stage.plan?)

section PlannedFrom

variable {p : Placed H} {rest : List (Placed H)}

theorem PlannedFrom.head (h : s.PlannedFrom id position (p :: rest)) :
    s.PlannedAt id position p.stage := by
  obtain ⟨plans, hplans, hdrop⟩ := h
  refine ⟨plans, hplans, ?_⟩
  rw [← List.head?_drop, hdrop]
  rfl

theorem PlannedFrom.tail (h : s.PlannedFrom id position (p :: rest)) (hs : s'.code = s.code) :
    s'.PlannedFrom id (position + 1) rest := by
  obtain ⟨plans, hplans, hdrop⟩ := h
  refine ⟨plans, by rw [hs, hplans], ?_⟩
  rw [← List.tail_drop, hdrop, List.map_cons, List.tail_cons]

theorem plannedFrom_zero {w : Wire H} (h : s.code id = some w.code) :
    s.PlannedFrom id 0 w.stages :=
  ⟨w.code, h, rfl⟩

end PlannedFrom

theorem PlannedAt.code_setStage (h : s.PlannedAt id position stage) :
    (s.modifyWire id (·.setStage position stage)).code = s.code := by
  obtain ⟨plans, hplans, hat⟩ := h
  refine (Keeps.modifyWire (T := Set.univ) trivial fun w hw =>
    Wire.code_setStage fun p hp => ?_).code_eq
  simp only [code, hw, Option.map_some, Option.some.injEq, Wire.code] at hplans
  subst hplans
  simpa [hp] using hat.symm

/-- The output type of a stage leaves all code as it is. -/
theorem code_stageOutput (h : s.PlannedAt id position stage) (wireName name : String) (here : Site)
    :
    (s.eval (stageOutput id wireName stage ⟨name, position⟩ here)).2.code = s.code := by
  rw [eval_stageOutput]
  split
  · obtain ⟨hplan, hwires⟩ := stage.compose_keeps here s
    have hcode : ((stage.compose here).run s).2.code = s.code := by
      unfold code
      rw [hwires]
    obtain ⟨plans, hplans, hat⟩ := h.of_code_eq hcode
    exact (PlannedAt.code_setStage ⟨plans, hplans, by rw [hat, hplan]⟩).trans hcode
  · rfl

/-- The output type of a stage changes nothing of its wire but stages. -/
theorem same_stageOutput {β : Type} {π : Wire H → β}
    (hπ : ∀ w position st, π (w.setStage position st) = π w) (s : Store H) (id : Id .wire)
    (wireName : String) (stage : Stage H) (place : Place) (here : Site) (j : Id .wire) :
    ((s.eval (stageOutput id wireName stage place here)).2.wires.get? j).map π =
      (s.wires.get? j).map π := by
  rw [eval_stageOutput]
  split
  · have hwires := (stage.compose_keeps here s).2
    generalize (stage.compose here).run s = hook at hwires
    rw [← hwires]
    exact (Keeps.modifyWire (T := Set.univ) trivial fun w _ => hπ w _ _).same j
  · rfl

/-! ### Changes of a composition -/

/-- What composing a wire leaves alone of the wire itself. -/
def husk (w : Wire H) : Wire H :=
  { w with stages := [], inputTy := .nothing, outputTy := none, composed := none }

/-- Every change that composing wires makes to the store is one that the relation permits. Stages are
put back only where they may stand. -/
structure Permits (may : Store H → Id .wire → Nat → Stage H → Prop) (ρ : Store H → Store H → Prop) :
    Prop where
  refl : ∀ s, ρ s s
  trans : ∀ {s s₁ s₂}, ρ s s₁ → ρ s₁ s₂ → ρ s s₂
  /-- The stages of a wire may stand where they do. -/
  stand : ∀ {s : Store H} {i : Id .wire} {w : Wire H} {n : Nat} {p : Placed H},
    s.wires.get? i = some w → w.stages[n]? = some p → may s i n p.stage
  stay : ∀ {s s' : Store H} {i : Id .wire} {n : Nat} {stage : Stage H}, ρ s s' → may s i n stage →
    may s' i n stage
  hook : ∀ {s : Store H} {i : Id .wire} {n : Nat} {stage : Stage H} (here : Site), may s i n stage →
    ρ s (((stage.compose here).run s).2.modifyWire i
      (·.setStage n ((stage.compose here).run s).1.1))
  note : ∀ (s : Store H) (i : Id .wire) {f : Wire H → Wire H},
    (∀ w, husk (f w) = husk w ∧ (f w).stages = w.stages) → ρ s (s.modifyWire i f)

namespace Permits

/-- Where stages stand makes no difference if all changes of stages are permitted. -/
theorem of_husk (refl : ∀ s, ρ s s) (trans : ∀ {s s₁ s₂}, ρ s s₁ → ρ s₁ s₂ → ρ s s₂)
    (hook : ∀ (stage : Stage H) (here : Site) (s : Store H), ρ s ((stage.compose here).run s).2)
    (modifyWire : ∀ (s : Store H) (i : Id .wire) {f : Wire H → Wire H},
      (∀ w, husk (f w) = husk w) → ρ s (s.modifyWire i f)) :
    Permits (fun _ _ _ _ => True) ρ where
  refl := refl
  trans := trans
  stand _ _ := trivial
  stay _ _ := trivial
  hook here _ := trans (hook _ here _) (modifyWire _ _ fun _ => rfl)
  note s i _ hf := modifyWire s i fun w => (hf w).1

variable {may : Store H → Id .wire → Nat → Stage H → Prop} (hρ : Permits may ρ)

include hρ

section Nested

variable {nested : NestedCompose H} (hn : ∀ (s : Store H) j site, ρ s (s.eval (nested j site)).2)

include hn

theorem bindParam (s : Store H) (stage : Stage H) (place : Place) (here : Site) (param : Param)
    (value : Value) : ρ s (s.eval (bindParam nested stage place here param value)).2 := by
  rw [eval_bindParam]
  split
  · exact hρ.refl s
  · rename_i sub _
    have := hn s sub (here.nested (stage.lent here.input))
    split <;> simp_all
  · exact hρ.refl s

theorem bindParams (s : Store H) (stage : Stage H) (place : Place) (here : Site) (index : Nat)
    (params : List Param) : ρ s (s.eval (bindParams nested stage place here index params)).2 := by
  induction params generalizing s index with
  | nil => exact hρ.refl s
  | cons param rest ih =>
    have hparam := hρ.bindParam hn s stage place here param (stage.getParam index)
    rw [Store.bindParams, eval_bind]
    rcases h : s.eval (Store.bindParam nested stage place here param (stage.getParam index)) with
      ⟨_ | found, s₁⟩ <;> rw [h] at hparam
    · exact hparam
    · refine hρ.trans hparam ?_
      have hrest := ih s₁ (index + 1)
      simp only [eval_bind]
      rcases hr : s₁.eval (Store.bindParams nested stage place here (index + 1) rest) with
        ⟨_ | _, s₂⟩ <;> simpa [hr] using hrest

theorem composeParams (s : Store H) (stage : Stage H) (position : Nat) (here : Site) :
    ρ s (s.eval (composeParams nested stage position here)).2 := by
  unfold Store.composeParams
  split
  · exact hρ.bindParams hn s stage _ here 0 stage.params
  · exact hρ.refl s

omit hn in
theorem stageOutput (s : Store H) (id : Id .wire) (wireName : String) (stage : Stage H)
    (place : Place) (here : Site) (h : may s id place.position stage) :
    ρ s (s.eval (stageOutput id wireName stage place here)).2 := by
  rw [eval_stageOutput]
  split
  · exact hρ.hook here h
  · exact hρ.refl s

theorem composeStage (s : Store H) (id : Id .wire) (wireName : String) (wireInput : Ty) (site : Site)
    (b : Bound) (position : Nat) (stage : Stage H) (h : may s id position stage) :
    ρ s (s.eval (composeStage nested id wireName wireInput site b position stage)).2 := by
  rw [eval_composeStage]
  dsimp only
  split
  · have hparams := hρ.composeParams hn s stage position
      (hereSite wireName wireInput site b position)
    rcases hp : s.eval (Store.composeParams nested stage position _) with ⟨_ | ⟨needs, vars⟩, s₁⟩ <;>
      rw [hp] at hparams
    · exact hparams
    · refine hρ.trans hparams ?_
      have hout := hρ.stageOutput s₁ id wireName stage ⟨stage.name, position⟩
        (hereSite wireName wireInput site b position) (hρ.stay hparams h)
      rcases ho : s₁.eval (Store.stageOutput id wireName stage ⟨stage.name, position⟩
        (hereSite wireName wireInput site b position)) with ⟨_ | output, s₂⟩ <;>
      simpa [ho] using hout
  · exact hρ.refl s

theorem composeStages (s : Store H) (id : Id .wire) (wireName : String) (wireInput : Ty)
    (site : Site) (position : Nat) (stages : List (Placed H)) (b : Bound)
    (h : ∀ n p, stages[n]? = some p → may s id (position + n) p.stage) :
    ρ s (s.eval (composeStages nested id wireName wireInput site position stages b)).2 := by
  induction stages generalizing s position b with
  | nil => exact hρ.refl s
  | cons p rest ih =>
    have hstage := hρ.composeStage hn s id wireName wireInput site b position p.stage (h 0 p rfl)
    rw [Store.composeStages, eval_bind]
    rcases hs : s.eval (Store.composeStage nested id wireName wireInput site b position p.stage) with
      ⟨_ | b', s₁⟩ <;> rw [hs] at hstage
    · exact hstage
    · refine hρ.trans hstage (ih s₁ (position + 1) b' fun n q hq => hρ.stay hstage ?_)
      rw [Nat.add_assoc, Nat.add_comm 1]
      exact h (n + 1) q hq

theorem composeLocked (s : Store H) (locked : List (Id .wire)) (id : Id .wire) (site : Site) :
    ρ s (s.eval (composeLocked nested locked id site)).2 := by
  rw [eval_composeLocked]
  cases hw : s.wires.get? id with
  | none => exact hρ.refl s
  | some wire =>
    cases hr : s.recalled? locked wire site with
    | some signature => simpa [hr] using hρ.refl s
    | none =>
      have hclear : ρ s (s.modifyWire id forget) := hρ.note s id fun _ => ⟨rfl, rfl⟩
      have hstages := hρ.composeStages hn _ id wire.name (inputAt wire site) site 0 wire.stages
        { previous := inputAt wire site } fun n p hp => hρ.stay hclear (by
          rw [Nat.zero_add]
          exact hρ.stand hw hp)
      simp only [hr, eval_composeFresh]
      rcases hb : (s.modifyWire id forget).eval (Store.composeStages nested id wire.name
        (inputAt wire site) site 0 wire.stages { previous := inputAt wire site }) with
        ⟨_ | b, s₁⟩ <;> rw [hb] at hstages
      · exact hρ.trans hclear hstages
      · have htyped : ρ s₁ (s₁.modifyWire id (typed (inputAt wire site) b.previous)) :=
          hρ.note s₁ id fun _ => ⟨rfl, rfl⟩
        exact hρ.trans (hρ.trans (hρ.trans hclear hstages) htyped)
          (hρ.note _ id fun _ => ⟨rfl, rfl⟩)

end Nested

theorem composeWithin (depth : Nat) (trail : Trail) (id : Id .wire) (site : Site) (s : Store H) :
    ρ s (s.eval (composeWithin depth trail id site)).2 := by
  induction depth generalizing trail id site s with
  | zero => exact hρ.refl s
  | succ depth ih =>
    rw [eval_composeWithin_succ]
    split
    · exact hρ.refl s
    · split
      · exact hρ.refl s
      · exact hρ.composeLocked (fun s j site => ih _ j site s) s _ id site

theorem composeAs (s : Store H) (owned : Bool) (id : Id .wire) (site : Site) :
    ρ s (s.eval (composeAs owned id site)).2 := by
  cases owned with
  | true =>
    change ρ s (s.eval (composeOwned id site)).2
    rw [eval_composeOwned]
    exact hρ.composeLocked (fun s j site => hρ.composeWithin _ _ j site s) s _ id site
  | false =>
    change ρ s (s.eval (composeShared id site)).2
    rw [eval_composeShared]
    exact hρ.composeWithin _ _ id site s

end Permits

/-- Composing wires leaves the gear of all stages alone. -/
theorem permits_gear : Permits GearedAt (Keeps (Wire.gear (H := H)) Set.univ) where
  refl := .refl
  trans := .trans
  stand hw hp := ⟨_, hw, by simp [Wire.gear, hp]⟩
  stay hs h := h.of_keeps hs
  hook {s i n stage} here h := by
    have hkeep : Keeps Wire.gear Set.univ s ((stage.compose here).run s).2 :=
      .of_wires_eq (stage.compose_keeps here s).2
    refine hkeep.trans (GearedAt.keeps_setStage ?_ (Set.mem_univ i))
    obtain ⟨w, hw, hat⟩ := h.of_keeps hkeep
    exact ⟨w, hw, by rw [hat, stage.compose_gear]⟩
  note s i f hf := .modifyWire (Set.mem_univ i) fun w _ => by rw [Wire.gear, (hf w).2, Wire.gear]

theorem code_composeAs (s : Store H) (owned : Bool) (id : Id .wire) (site : Site) :
    (s.eval (composeAs owned id site)).2.code = s.code :=
  (permits_gear.composeAs s owned id site).code_of_gear.code_eq

end Store

end Dataflow
