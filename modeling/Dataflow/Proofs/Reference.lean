import Dataflow.Proofs.Composed
import Dataflow.Proofs.Nesting
import Dataflow.Proofs.Sketch
/-!
# Composition without memos

Composing a wire reads parameters, types and variables, and writes only what a later composition
writes again. So its result is a function of the code of the wire and of what the wire runs. This
module writes the function down, without stores and without memos, for built-in stages that use no
channels. Such a stage answers from its parameters, from its site, and from the signature of the
wire that it runs.
-/

namespace Dataflow

variable {H : Host} {st : Stage H} {code code' : Code H} {j id k : Id .wire}
  {plans : List (Option (Stage H))} {s : Store H} {position depth : Nat}
  {wireName wireName' : String} {answers answers' : Answers} {wireInput : Ty} {site σ σ' : Site}
  {b b' : Bound}

open Relation (TransGen)

/-- What parameters need depends on the values of the parameters, at a site. -/
theorem Store.ownNeeds_congr {st' : Stage H} {here here' : Site}
    (hcapabilities : st'.capabilities = st.capabilities) (hparams : st'.params = st.params)
    (hname : st'.name = st.name) (hvalue : ∀ place param index,
      bindValue place here' param (st'.getParam index) = bindValue place here param (st.getParam index))
    (position : Nat) : ownNeeds st' position here' = ownNeeds st position here := by
  have hvalues : ∀ (params : List Param) (index : Nat) (place : Place),
      bindValues st' place here' index params = bindValues st place here index params := by
    intro params
    induction params with
    | nil => exact fun _ _ => rfl
    | cons param rest ih =>
      intro index place
      rw [bindValues, bindValues, hvalue, ih]
  rw [ownNeeds, ownNeeds, hcapabilities, hparams, hname, hvalues]

namespace Stage

/-- The output type of a stage that passes on what its wire outputs. -/
def relayed : Option Ty → Except ComposeError Ty
  | some ty => .ok ty
  | none => .error (.plain "Do requires a Wire")

/-- The compose hook of a stage, from the output type of the wire that it runs. -/
def hook (stage : Stage H) (here : Site) (inner : Option Ty) : Stage H × Except ComposeError Ty :=
  match stage with
  | inline _ => (stage, relayed inner)
  | bound name _ _ =>
    (stage,
      if name.isEmpty then .error (.plain "With requires a Name")
      else if !here.input.isObject then
        .error (.plain ("With expects an Object input, found " ++ here.input.text))
      else relayed inner)
  | other => ((other.compose here).run {}).1

/-- The output type of the wire that a stage runs, as a store has it. -/
def innerTy? (s : Store H) (stage : Stage H) : Option Ty :=
  stage.nested?.bind fun j => (s.wires.get? j).bind (·.outputTy)

theorem isPure_bare (st : Stage H) : st.bare.isPure = st.isPure := by
  cases st with
  | add operand => simp [isPure, bare]
  | _ => rfl

theorem sketch_bare (h : st.isPure = true) : st.bare.sketch = st.sketch := by
  cases st with
  | add operand => simp only [bare, sketch, Operand.value_bare]
  | produce | broadcast | consume | listen => cases h
  | _ => rfl

theorem isBuiltIn_of_isPure (h : st.isPure = true) : st.isBuiltIn = true := by
  cases st <;> first | rfl | cases h

@[simp] theorem takes_bare (st : Stage H) (input : Ty) : st.bare.takes input = st.takes input := by
  rw [takes, takes, ignoresInput_bare, inputs_bare]

@[simp] theorem ownNeeds_bare (st : Stage H) (position : Nat) (here : Site) :
    Store.ownNeeds st.bare position here = Store.ownNeeds st position here :=
  Store.ownNeeds_congr st.capabilities_bare st.params_bare st.name_bare
    (fun _ _ index => by rw [getParam_bare]) position

@[simp] theorem defaultOutput_bare (st : Stage H) (input : Ty) (position : Nat) :
    st.bare.defaultOutput input position = st.defaultOutput input position := by
  cases st <;> rfl

@[simp] theorem ignoresInput_sketch (st : Stage H) : st.sketch.ignoresInput = st.ignoresInput := by
  rw [ignoresInput, ignoresInput, inputs_sketch]

@[simp] theorem takes_sketch (st : Stage H) (input : Ty) : st.sketch.takes input = st.takes input := by
  rw [takes, takes, ignoresInput_sketch, inputs_sketch]

@[simp] theorem stopsFlow_sketch (st : Stage H) : st.sketch.stopsFlow = st.stopsFlow := by
  rw [stopsFlow, stopsFlow, name_sketch]

@[simp] theorem defaultOutput_sketch (st : Stage H) (input : Ty) (position : Nat) :
    st.sketch.defaultOutput input position = st.defaultOutput input position := by
  rw [defaultOutput, defaultOutput, outputs_sketch, inputs_sketch, name_sketch]

@[simp] theorem outerNeeds_sketch (st : Stage H) (here : Site) (signature : Signature) :
    Store.outerNeeds st.sketch here signature = Store.outerNeeds st here signature := by
  rw [Store.outerNeeds, Store.outerNeeds, lent_sketch]

/-- Parameters are judged by their types and by the names that they refer to. -/
theorem bindValue_sketch (place : Place) (here : Site) (param : Param) (v : Value) :
    Store.bindValue place here param v.sketch = Store.bindValue place here param v := by
  have hty := v.ty_sketch
  cases v with
  | seq items =>
    rw [Value.sketch] at hty ⊢
    have haccepts : param.accepts (.seq (Value.sketchItems items)) = param.accepts (.seq items) := by
      simp only [Param.accepts, hty]
    simp only [Store.bindValue, haccepts, hty]
  | table entries =>
    rw [Value.sketch] at hty ⊢
    have haccepts : param.accepts (.table (Value.sketchEntries entries)) =
        param.accepts (.table entries) := by
      simp only [Param.accepts, hty]
    simp only [Store.bindValue, haccepts, hty]
  | _ => rfl

@[simp] theorem ownNeeds_sketch (st : Stage H) (position : Nat) (here : Site) :
    Store.ownNeeds st.sketch position here = Store.ownNeeds st position here := by
  refine Store.ownNeeds_congr st.capabilities_sketch st.params_sketch st.name_sketch
    (fun place param index => ?_) position
  cases st with
  | const v | pause v _ =>
    cases index with
    | zero => exact bindValue_sketch place here param v
    | succ index => rfl
  | add operand =>
    cases index with
    | zero => exact bindValue_sketch place here param operand.value
    | succ index => rfl
  | _ => rcases index with _ | _ | index <;> rfl

/-- The compose hook of a pure stage changes nothing but the stage, and answers what the function
says of its sketch, provided that the wire that it runs is composed. -/
theorem hook_agrees (hpure : st.isPure = true) (here : Site) (s : Store H)
    (hinner : ∀ j, st.nested? = some j → (st.innerTy? s).isSome = true) :
    ((st.compose here).run s).2 = s ∧
      ((st.compose here).run s).1.2 = (st.sketch.hook here (st.innerTy? s)).2 ∧
      ∀ ty, ((st.compose here).run s).1.2 = .ok ty →
        ((st.compose here).run s).1.1.exposed = (st.sketch.hook here (st.innerTy? s)).1.exposed ∧
        ((st.compose here).run s).1.1.required = (st.sketch.hook here (st.innerTy? s)).1.required := by
  have hrelayed : ∀ sub : Nested, (sub.wire.isSome = true →
      (sub.wire.bind fun j => (s.wires.get? j).bind (·.outputTy)).isSome = true) →
      nestedOutput s sub = relayed (sub.wire.bind fun j => (s.wires.get? j).bind (·.outputTy)) := by
    intro sub hsub
    cases hty : sub.wire.bind fun j => (s.wires.get? j).bind (·.outputTy) with
    | some ty => exact nestedOutput_eq_ok_iff.2 hty
    | none =>
      cases hw : sub.wire with
      | none => rw [nestedOutput, hw, relayed]
      | some j =>
        have hknown := hsub (by rw [hw]; rfl)
        rw [hty] at hknown
        cases hknown
  have hsome : ∀ {sub : Nested} {st' : Stage H}, st' = st → st'.nested? = sub.wire →
      sub.wire.isSome = true → (st'.innerTy? s).isSome = true := by
    rintro sub st' rfl hnested hsub
    obtain ⟨j, hj⟩ := Option.isSome_iff_exists.1 hsub
    exact hinner j (hnested.trans hj)
  cases st with
  | inline sub => exact ⟨rfl, hrelayed sub (hsome rfl rfl), fun _ _ => ⟨rfl, rfl⟩⟩
  | bound x sub slot =>
    refine ⟨rfl, ?_, fun _ _ => ⟨rfl, rfl⟩⟩
    change boundOutput s x sub here = _
    rw [boundOutput, hrelayed sub (hsome rfl rfl)]
    rfl
  | set x ty slot =>
    simp only [compose, hook, sketch]
    split
    · exact ⟨rfl, rfl, fun _ h => by cases h⟩
    · exact ⟨rfl, rfl, fun _ _ => ⟨rfl, rfl⟩⟩
  | update x ty slot =>
    simp only [compose, hook, sketch]
    split
    · exact ⟨rfl, rfl, fun _ _ => ⟨rfl, rfl⟩⟩
    · exact ⟨rfl, rfl, fun _ h => by cases h⟩
  | pause time paused =>
    have hdelay : pauseDelay time.sketch = pauseDelay time := by
      cases time <;> rfl
    simp only [compose, hook, sketch, hdelay]
    split <;> exact ⟨rfl, rfl, fun _ _ => ⟨rfl, rfl⟩⟩
  | const v => exact ⟨rfl, congrArg Except.ok v.ty_sketch.symm, fun _ _ => ⟨rfl, rfl⟩⟩
  | add operand =>
    refine ⟨rfl, ?_, fun _ _ => ⟨rfl, rfl⟩⟩
    have hty : operandTy ⟨operand.value.sketch, none⟩ here = operandTy operand here := by
      obtain ⟨v, slot⟩ := operand
      have hty := v.ty_sketch
      cases v <;> first | rfl | exact hty
    change addOutput operand here = addOutput ⟨operand.value.sketch, none⟩ here
    rw [addOutput, addOutput, hty]
  | produce | broadcast | consume | listen | unit => cases hpure
  | _ => exact ⟨rfl, rfl, fun _ _ => ⟨rfl, rfl⟩⟩

end Stage

/-! ### Signatures as functions of code -/

/-- The trail inside a wire. -/
def Trail.push (trail : Trail) (j : Id .wire) : Trail := ⟨j :: trail.entered, j :: trail.locked⟩

/-- How wires answer requests. -/
abbrev Answers := Id .wire → Site → Except ComposeError Signature

namespace Code

open Store (hereSite ownNeeds outerNeeds ownVars)

/-- Code as fingerprints know it. -/
def sketch (code : Code H) : Code H := fun j => (code j).map (·.map (·.map Stage.sketch))

/-- Fingerprints know which wires a wire runs. -/
theorem child_sketch : code.sketch.Child j k ↔ code.Child j k := by
  constructor
  · rintro ⟨_, hsketch, st, hst, hk⟩
    obtain ⟨plans, hplans, rfl⟩ := Option.map_eq_some_iff.1 hsketch
    obtain ⟨_ | st, hst', heq⟩ := List.mem_map.1 hst <;> cases heq
    exact ⟨plans, hplans, st, hst', by rw [← st.nested?_sketch, hk]⟩
  · rintro ⟨plans, hplans, st, hst, hk⟩
    refine ⟨_, Option.map_eq_some_iff.2 ⟨plans, hplans, rfl⟩, st.sketch, List.mem_map.2 ⟨_, hst, rfl⟩, ?_⟩
    rw [Stage.nested?_sketch, hk]

theorem child_of_sketch_eq (h : code'.sketch j = code.sketch j) (hk : code.Child j k) :
    code'.Child j k := by
  obtain ⟨plans, hplans, hst⟩ := child_sketch.2 hk
  exact child_sketch.1 ⟨plans, h.trans hplans, hst⟩

/-- The output type of a stage, from that of the wire that it runs. -/
def stageOutput (wireName : String) (position : Nat) (stage : Stage H) (here : Site)
    (inner : Option Ty) : Except ComposeError Ty :=
  if stage.capabilities.compose then
    (stage.hook here inner).2.mapError (·.annotate ⟨stage.name, position⟩ wireName)
  else stage.defaultOutput here.input position

/-- What is known of a wire behind a stage, once the parameters of the stage are checked and the
wire that it runs is composed. -/
def conclude (wireName : String) (site : Site) (b : Bound) (position : Nat) (stage : Stage H)
    (here : Site) (needs vars : List VarDecl) (inner : Option Ty) : Except ComposeError Bound := do
  let output ← stageOutput wireName position stage here inner
  let own := ownVars stage (stage.hook here inner).1
  (b.add site.shared ⟨stage.name, position⟩ (own.2 ++ needs) (own.1 ++ vars)).map
    ({ · with previous := output })

/-- What is known of a wire behind a stage. -/
def composeStage (answers : Answers) (wireName : String) (wireInput : Ty) (site : Site) (b : Bound)
    (position : Nat) (stage : Stage H) : Except ComposeError Bound :=
  let here := hereSite wireName wireInput site b position
  if stage.takes b.previous then do
    let needs ← ownNeeds stage position here
    match stage.nested? with
    | none => conclude wireName site b position stage here needs [] none
    | some j =>
      let signature ← (answers j (here.nested (stage.lent here.input))).mapError
        (.nestedWire ⟨stage.name, position⟩ "Wire")
      conclude wireName site b position stage here (needs ++ outerNeeds stage here signature)
        signature.exposed (some signature.output)
  else .error (.inputTypeMismatch ⟨stage.name, position⟩ stage.inputs b.previous)

/-- What is known of a wire behind its stages. Units of the host have no part in this. -/
def composeStages (answers : Answers) (wireName : String) (wireInput : Ty) (site : Site) :
    Nat → List (Option (Stage H)) → Bound → Except ComposeError Bound
  | _, [], b => .ok b
  | _, none :: _, _ => .error (.recursive wireName)
  | position, some stage :: rest, b => do
    let b ← composeStage answers wireName wireInput site b position stage
    composeStages answers wireName wireInput site (position + 1) rest b

/-- The input type that a wire is composed with. -/
def inputTy (plans : List (Option (Stage H))) (site : Site) : Ty :=
  match plans with
  | some first :: _ => if first.ignoresInput then .nothing else site.input
  | _ => site.input

/-- The signature of a wire behind its stages. -/
def signatureOf (plans : List (Option (Stage H))) (input : Ty) (b : Bound) : Signature where
  input := input
  output := b.previous
  exposed := b.exposed
  required := b.required
  stopsFlow :=
    match plans.getLast? with
    | some (some last) => last.stopsFlow
    | _ => false
  findings := b.findings

/-- The answer of a wire, from the answers of the wires that it runs. -/
def answer (names : Id .wire → String) (code : Code H) (answers : Answers) : Answers := fun j site =>
  match code.sketch j with
  | none => .error (.recursive site.wireName)
  | some plans => do
    let input := inputTy plans site
    let b ← composeStages answers (names j) input site 0 plans { previous := input }
    return signatureOf plans input b

theorem answer_of_plans (names : Id .wire → String) (answers : Answers)
    (h : code.sketch j = some plans) (site : Site) :
    code.answer names answers j site = do
      let b ← composeStages answers (names j) (inputTy plans site) site 0 plans
        { previous := inputTy plans site }
      return signatureOf plans (inputTy plans site) b := by
  rw [answer, h]

/-- The signature of a wire at a site, or why there is none; wires nested at most so deep. Wires on
the trail are refused. -/
def signature (names : Id .wire → String) (code : Code H) : Nat → Trail → Answers
  | 0, _ => fun _ site => .error (.recursive site.wireName)
  | depth + 1, trail => fun j site =>
    if trail.entered.contains j then .error (.recursive site.wireName)
    else if trail.locked.contains j then .error (.locked site.wireName)
    else code.answer names (signature names code depth (trail.push j)) j site

theorem signature_succ (names : Id .wire → String) (code : Code H) (depth : Nat) (trail : Trail)
    (j : Id .wire) (site : Site) : code.signature names (depth + 1) trail j site =
      if trail.entered.contains j then .error (.recursive site.wireName)
      else if trail.locked.contains j then .error (.locked site.wireName)
      else code.answer names (code.signature names depth (trail.push j)) j site := rfl

end Code

/-! ### Composing a stage -/

namespace Store

/-- What the output type of a pure stage and its variables come to. -/
theorem stageOutput_agrees (hpure : st.isPure = true) (hat : s.PlannedAt id position st)
    (hinner : ∀ j, st.nested? = some j → (st.innerTy? s).isSome = true) (wireName : String)
    (here : Site) :
    (s.eval (stageOutput id wireName st ⟨st.name, position⟩ here)).1 =
        Code.stageOutput wireName position st.sketch here (st.innerTy? s) ∧
      ∀ output s', s.eval (stageOutput id wireName st ⟨st.name, position⟩ here) = (.ok output, s') →
        ownVars st ((s'.stageAt? id position).getD st) =
          ownVars st.sketch (st.sketch.hook here (st.innerTy? s)).1 := by
  obtain ⟨hstore, hanswer, hvars⟩ := st.hook_agrees hpure here s hinner
  rw [Code.stageOutput, Stage.capabilities_sketch, Stage.name_sketch, Stage.defaultOutput_sketch,
    eval_stageOutput]
  cases hc : st.capabilities.compose with
  | false =>
    have hnone : st.capabilities.vars = false := by
      cases st <;> first | rfl | cases hc | cases hpure
    refine ⟨rfl, fun output s' _ => ?_⟩
    rw [ownVars, ownVars, Stage.capabilities_sketch, hnone]
    rfl
  | true =>
    obtain ⟨st₀, hst₀⟩ := hat.stageAt?
    simp only [if_true]
    rw [← hanswer]
    refine ⟨rfl, fun output s' h => ?_⟩
    rcases hrun : (st.compose here).run s with ⟨⟨st', e | ty⟩, s₁⟩ <;> rw [hrun] at hstore hvars h
    · cases h
    · obtain rfl : s₁ = s := hstore
      obtain ⟨hexposed, hrequired⟩ := hvars ty rfl
      cases h
      rw [stageAt?_setStage, hst₀, Option.map_some, Option.getD_some, ownVars, ownVars,
        Stage.capabilities_sketch, ← hexposed, ← hrequired]

/-- What is known behind a pure stage, once its output type has been asked for. -/
theorem conclude_agrees (hpure : st.isPure = true) (hat : s.PlannedAt id position st)
    {inner : Option Ty} (hinner : st.innerTy? s = inner)
    (hsome : ∀ j, st.nested? = some j → inner.isSome = true) (here site : Site) (b : Bound)
    (needs vars : List VarDecl) :
    (match s.eval (stageOutput id wireName st ⟨st.name, position⟩ here) with
      | (Except.error e, s₂) => (Except.error e, s₂)
      | (.ok output, s₂) =>
        let own := ownVars st ((s₂.stageAt? id position).getD st)
        ((b.add site.shared ⟨st.name, position⟩ (own.2 ++ needs) (own.1 ++ vars)).map
          fun b : Bound => { b with previous := output }, s₂)).1 =
      Code.conclude wireName site b position st.sketch here needs vars inner := by
  subst hinner
  obtain ⟨hanswer, hvars⟩ := stageOutput_agrees hpure hat hsome wireName here
  rw [Code.conclude, ← hanswer, Stage.name_sketch]
  rcases hout : s.eval (stageOutput id wireName st ⟨st.name, position⟩ here) with ⟨_ | output, s₂⟩
  · rfl
  · dsimp only
    rw [hvars output s₂ hout]
    rfl

/-- A wire that is asked for by a stage answers as it should, and is composed afterwards. -/
def AnswersAs (answers : Answers) (nested : NestedCompose H) (s : Store H) (j : Id .wire)
    (site : Site) : Prop :=
  (s.eval (nested j site)).1 = answers j site ∧
    ∀ signature, (s.eval (nested j site)).1 = .ok signature →
      ((s.eval (nested j site)).2.wires.get? j).bind (·.outputTy) = some signature.output

/-- A pure stage composes as the function says, if the wire that it runs does. -/
theorem composeStage_agrees {nested : NestedCompose H} (hpure : st.isPure = true)
    (hat : s.PlannedAt id position st) (hn : st.takes b.previous = true → ∀ j, st.nested? = some j →
      let inner := (hereSite wireName wireInput site b position).nested
        (st.lent (hereSite wireName wireInput site b position).input)
      AnswersAs answers nested s j inner ∧
        (s.eval (nested j inner)).2.PlannedAt id position st) :
    (s.eval (composeStage nested id wireName wireInput site b position st)).1 =
      Code.composeStage answers wireName wireInput site b position st.sketch := by
  have hbuilt := Stage.isBuiltIn_of_isPure hpure
  rw [eval_composeStage, Code.composeStage]
  dsimp only
  rw [Stage.takes_sketch, Stage.ownNeeds_sketch, Stage.nested?_sketch, Stage.name_sketch, Stage.lent_sketch,
    Stage.inputs_sketch]
  cases htakes : st.takes b.previous with
  | false => rfl
  | true =>
    simp only [if_true]
    rw [eval_composeParams s nested hbuilt]
    rcases hown : ownNeeds st position (hereSite wireName wireInput site b position) with e | needs
    · rfl
    rcases hj : st.nested? with _ | j
    · -- a stage that runs no wire
      have hnone : st.innerTy? s = none := by rw [Stage.innerTy?, hj, Option.bind_none]
      exact conclude_agrees hpure hat hnone (fun j h => by rw [hj] at h; cases h) _ site b needs []
    · -- the wire is composed first, and then has an output type
      obtain ⟨⟨hanswer, houtput⟩, hat'⟩ := hn htakes j hj
      simp only [Stage.outerNeeds_sketch]
      rw [← hanswer]
      rcases hnested : s.eval (nested j ((hereSite wireName wireInput site b position).nested
        (st.lent (hereSite wireName wireInput site b position).input))) with ⟨_ | signature, s₁⟩
      · rfl
      · rw [hnested] at houtput hat'
        have hsome : st.innerTy? s₁ = some signature.output := by
          rw [Stage.innerTy?, hj, Option.bind_some]
          exact houtput signature rfl
        exact conclude_agrees hpure hat' hsome (fun _ _ => rfl) _ site b _ _

end Store

/-! ### What a signature depends on -/

/-- Sites that a wire cannot tell apart: they give it the same input, and each name means the same
variable. -/
structure Site.Like (σ σ' : Site) : Prop where
  input : σ'.input = σ.input
  find : ∀ x, VarDecl.find? x σ'.shared = VarDecl.find? x σ.shared

namespace Site.Like

/-- What stands behind in both lists hides the same variables. -/
theorem append (h : σ.Like σ') (decls : List VarDecl) (x : String) :
    VarDecl.find? x (σ'.shared ++ decls) = VarDecl.find? x (σ.shared ++ decls) := by
  rw [VarDecl.find?_append, VarDecl.find?_append, h.find]

theorem nested (h : σ.Like σ') (lent : List VarDecl) : (σ.nested lent).Like (σ'.nested lent) :=
  ⟨h.input, h.append lent⟩

theorem bindReference (h : σ.Like σ') (place : Place) (param : Param) (name : String) :
    Store.bindReference place σ' param name = Store.bindReference place σ param name := by
  rw [Store.bindReference, Store.bindReference, Site.find?, Site.find?, h.find]

theorem ownNeeds (h : σ.Like σ') (st : Stage H) (position : Nat) :
    Store.ownNeeds st position σ' = Store.ownNeeds st position σ := by
  refine Store.ownNeeds_congr rfl rfl rfl (fun place param index => ?_) position
  cases st.getParam index with
  | ref name => rw [Store.bindValue, Store.bindValue, h.bindReference]
  | _ => rfl

/-- The compose hook of a pure stage sees no difference. -/
theorem hook (h : σ.Like σ') (hwire : σ'.wireInput = σ.wireInput)
    (hposition : σ'.position = σ.position) (hpure : st.isPure = true) (inner : Option Ty) :
    st.hook σ' inner = st.hook σ inner := by
  cases st with
  | input =>
    change (Stage.input, Except.ok σ'.wireInput) = (Stage.input, Except.ok σ.wireInput)
    rw [hwire]
  | add operand =>
    have hty : Stage.operandTy operand σ' = Stage.operandTy operand σ := by
      unfold Stage.operandTy
      cases operand.referent? with
      | none => rfl
      | some x => simp only [Site.find?, h.find]
    change (Stage.add operand, Stage.addOutput operand σ') = (.add operand, Stage.addOutput operand σ)
    rw [Stage.addOutput, Stage.addOutput, hty, h.input]
  | set x ty slot =>
    simp only [Stage.hook, Stage.compose, h.input]
  | get x slot =>
    simp only [Stage.hook, Stage.compose, Stage.getOutput, Site.find?, h.find, hposition]
  | update x ty slot =>
    simp only [Stage.hook, Stage.compose, Stage.updateTarget, Site.find?, h.find, hposition, h.input]
  | bound x sub slot =>
    simp only [Stage.hook, h.input]
  | produce | broadcast | consume | listen | unit => cases hpure
  | _ => simp only [Stage.hook, Stage.compose, h.input]

end Site.Like

namespace Bound

/-- Needs and publications are judged by what names mean. -/
theorem add_congr (b : Bound) {inherited inherited' : List VarDecl}
    (h : ∀ x, VarDecl.find? x inherited' = VarDecl.find? x inherited) (place : Place)
    (needs vars : List VarDecl) :
    b.add inherited' place needs vars = b.add inherited place needs vars := by
  have hfind : ∀ (b : Bound) (x : String), b.find? inherited' x = b.find? inherited x := by
    intro b x
    rw [find?, find?, h]
  have hrequire : ∀ (b : Bound) (need : VarDecl),
      b.require inherited' place need = b.require inherited place need := by
    intro b need
    rw [require, require, hfind]
  have hexpose : ∀ (b : Bound) (var : VarDecl),
      b.expose inherited' place var = b.expose inherited place var := by
    intro b var
    rw [expose, expose, hfind]
  simp only [add, hrequire, hexpose]

end Bound

namespace Code

open Store (hereSite)

/-- A pure stage that composes does so at every site that looks alike, if the wire that it runs
does. -/
theorem composeStage_transfer (hsite : σ.Like σ') (hpure : st.isPure = true)
    (hn : ∀ j, st.nested? = some j → ∀ τ τ' signature, τ.Like τ' → answers j τ = .ok signature →
      answers' j τ' = .ok signature)
    (h : composeStage answers wireName wireInput σ b position st = .ok b') :
    composeStage answers' wireName' wireInput σ' b position st = .ok b' := by
  have hhere : (hereSite wireName wireInput σ b position).Like
      (hereSite wireName' wireInput σ' b position) := ⟨rfl, hsite.append b.exposed⟩
  have hconclude : ∀ {needs vars inner},
      conclude wireName σ b position st (hereSite wireName wireInput σ b position) needs vars inner =
        .ok b' →
      conclude wireName' σ' b position st (hereSite wireName' wireInput σ' b position) needs vars
        inner = .ok b' := by
    intro needs vars inner h
    obtain ⟨output, hout, h⟩ := exists_of_bind_ok h
    have hout' : stageOutput wireName' position st (hereSite wireName' wireInput σ' b position)
        inner = .ok output := by
      rw [stageOutput] at hout ⊢
      split at hout
      · rw [if_pos ‹_›, hhere.hook rfl rfl hpure, of_mapError_ok hout]
        rfl
      · rw [if_neg ‹_›]
        exact hout
    simp only [conclude, hout', hhere.hook rfl rfl hpure, Bound.add_congr b hsite.find]
    exact h
  rw [composeStage] at h ⊢
  split at h
  · obtain ⟨needs, hneeds, h⟩ := exists_of_bind_ok h
    rw [if_pos ‹_›, hhere.ownNeeds, hneeds]
    cases hj : st.nested? with
    | none =>
      rw [hj] at h
      exact hconclude h
    | some j =>
      rw [hj] at h
      obtain ⟨signature, hanswer, h⟩ := exists_of_bind_ok h
      have hanswer' : answers' j ((hereSite wireName' wireInput σ' b position).nested
          (st.lent (hereSite wireName' wireInput σ' b position).input)) = .ok signature :=
        hn j hj _ _ signature (hhere.nested _) (of_mapError_ok hanswer)
      simp only [hanswer']
      exact hconclude h
  · cases h

/-- Pure stages that compose one after the other do so at every site that looks alike. -/
theorem composeStages_transfer (hsite : σ.Like σ')
    (hpure : ∀ st, some st ∈ plans → st.isPure = true)
    (hn : ∀ st, some st ∈ plans → ∀ j, st.nested? = some j → ∀ τ τ' signature, τ.Like τ' →
      answers j τ = .ok signature → answers' j τ' = .ok signature)
    (h : composeStages answers wireName wireInput σ position plans b = .ok b') :
    composeStages answers' wireName' wireInput σ' position plans b = .ok b' := by
  induction plans generalizing b position with
  | nil => exact h
  | cons plan rest ih =>
    cases plan with
    | none => cases h
    | some st =>
      obtain ⟨b₁, hstage, h⟩ := exists_of_bind_ok h
      rw [composeStages,
        composeStage_transfer hsite (hpure st List.mem_cons_self) (hn st List.mem_cons_self) hstage]
      exact ih (fun st' hst' => hpure st' (List.mem_cons_of_mem _ hst'))
        (fun st' hst' => hn st' (List.mem_cons_of_mem _ hst')) h

/-- What fingerprints know of wires of pure stages. -/
theorem Closed.sketch {T : Set (Id .wire)} (h : code.Closed (·.isPure = true) T) (hj : j ∈ T) :
    ∃ plans, code.sketch j = some plans ∧ ∀ st, some st ∈ plans → st.isPure = true := by
  obtain ⟨stages, hstages, hpure⟩ := h.known j hj
  refine ⟨_, Option.map_eq_some_iff.2 ⟨_, hstages, rfl⟩, fun st hst => ?_⟩
  rw [List.map_map] at hst
  obtain ⟨st', hst', heq⟩ := List.mem_map.1 hst
  obtain rfl : st'.sketch = st := Option.some.inj heq
  rw [Stage.isPure_sketch, hpure st' hst']

/-- A wire of pure stages that has an answer has it at every site that looks alike and in all code with
the same sketch, if the wires that it runs have. -/
theorem answer_of_nested {names names' : Id .wire → String} (hplans : code.sketch j = some plans)
    (hpure : ∀ st, some st ∈ plans → st.isPure = true) (hself : code'.sketch j = code.sketch j)
    (hn : ∀ k, code.Child j k → code'.Child j k → ∀ τ τ' signature, τ.Like τ' →
      answers k τ = .ok signature → answers' k τ' = .ok signature) (hsite : σ.Like σ')
    {signature : Signature} (h : code.answer names answers j σ = .ok signature) :
    code'.answer names' answers' j σ' = .ok signature := by
  rw [answer_of_plans _ _ hplans] at h
  have hinput : inputTy plans σ' = inputTy plans σ := by
    unfold inputTy
    rw [hsite.input]
  rw [answer_of_plans _ _ (hself.trans hplans), hinput]
  obtain ⟨b, hb, h⟩ := exists_of_bind_ok h
  rw [composeStages_transfer hsite hpure (fun st hst k hk => ?_) hb]
  · exact h
  · have hchild := child_sketch.1 ⟨plans, hplans, st, hst, hk⟩
    exact hn k hchild (child_of_sketch_eq hself hchild)

/-- The answer of a wire depends on what fingerprints know of the code below it, on its input, and on
what names mean. The bound on the depth does not matter if it is large enough, nor do trails that the
wire does not meet. -/
theorem answer_transfer {names names' : Id .wire → String} {T : Set (Id .wire)}
    (hclosed : code.Closed (·.isPure = true) T) {depth' : Nat} {trail trail' : Trail} (hj : j ∈ T)
    (hagree : ∀ l, code.Below j l → code'.sketch l = code.sketch l) (hacyclic : code.Acyclic j)
    (hclear : ∀ l, TransGen code.Child j l → l ∉ trail'.entered ∧ l ∉ trail'.locked)
    (hheight : code'.Height (depth' + 1) j) (hsite : σ.Like σ') {signature : Signature}
    (h : code.answer names (code.signature names depth trail) j σ = .ok signature) :
    code'.answer names' (code'.signature names' depth' trail') j σ' = .ok signature := by
  induction depth generalizing depth' trail trail' j σ σ' signature with
  | zero =>
    obtain ⟨plans, hplans, hpure⟩ := hclosed.sketch hj
    exact answer_of_nested hplans hpure (hagree j .refl)
      (fun k _ _ τ τ' sig _ hsig => by cases hsig) hsite h
  | succ depth ih =>
    obtain ⟨plans, hplans, hpure⟩ := hclosed.sketch hj
    refine answer_of_nested hplans hpure (hagree j .refl) (fun k hk hk' τ τ' sig hτ hsig => ?_)
      hsite h
    cases depth' with
    | zero => exact (hheight k hk').elim
    | succ depth' =>
      obtain ⟨hentered, hlocked⟩ := hclear k (.single hk)
      rw [signature_succ] at hsig ⊢
      split at hsig
      · cases hsig
      · split at hsig
        · cases hsig
        · rw [if_neg (by simpa using hentered), if_neg (by simpa using hlocked)]
          refine ih (hclosed.child j hj k hk) (fun l hl => hagree l (.head hk hl))
            (fun l hl => hacyclic l (.head hk hl)) (fun l hl => ?_) (hheight k hk') hτ hsig
          obtain ⟨hentered', hlocked'⟩ := hclear l (.head hk hl)
          have hne : l ≠ k := by
            rintro rfl
            exact hacyclic l (.single hk) hl
          simp [Trail.push, hne, hentered', hlocked']

/-- Where stages compose, the wires that they run have answers. -/
theorem exists_of_composeStages
    (h : composeStages answers wireName wireInput site position plans b = .ok b')
    (hst : some st ∈ plans) (hk : st.nested? = some k) :
    ∃ τ signature, answers k τ = .ok signature := by
  induction plans generalizing position b with
  | nil => cases hst
  | cons plan rest ih =>
    cases plan with
    | none => cases h
    | some first =>
      obtain ⟨b₁, hfirst, h⟩ := exists_of_bind_ok h
      rcases List.mem_cons.1 hst with heq | hst
      · cases heq
        rw [composeStage] at hfirst
        split at hfirst
        · obtain ⟨needs, -, hfirst⟩ := exists_of_bind_ok hfirst
          rw [hk] at hfirst
          obtain ⟨signature, hsignature, -⟩ := exists_of_bind_ok hfirst
          exact ⟨_, signature, of_mapError_ok hsignature⟩
        · cases hfirst
      · exact ih h hst

/-- The wires that a wire with an answer runs have answers. -/
theorem exists_of_answer {names : Id .wire → String} {signature : Signature}
    (h : code.answer names answers j site = .ok signature) (hk : code.Child j k) :
    ∃ τ inner, answers k τ = .ok inner := by
  obtain ⟨plans, hplans, st, hst, hnested⟩ := child_sketch.2 hk
  rw [answer_of_plans _ _ hplans] at h
  obtain ⟨b, hb, -⟩ := exists_of_bind_ok h
  exact exists_of_composeStages hb hst hnested

/-- A wire that has an answer is acyclic and clear of the trail. -/
theorem clears_of_answer {names : Id .wire → String} {entered locked : List (Id .wire)}
    {signature : Signature} (hj : j ∉ locked)
    (h : code.answer names (code.signature names depth ⟨entered, j :: locked⟩) j site =
      .ok signature) : code.Clears locked j := by
  induction depth generalizing entered locked j site signature with
  | zero =>
    refine clears_of_child hj fun k hk => ?_
    obtain ⟨τ, inner, hinner⟩ := exists_of_answer h hk
    cases hinner
  | succ depth ih =>
    refine clears_of_child hj fun k hk => ?_
    obtain ⟨τ, inner, hinner⟩ := exists_of_answer h hk
    rw [signature_succ] at hinner
    split at hinner
    · cases hinner
    · split at hinner
      · cases hinner
      · rename_i hlocked
        exact ih (by simpa using hlocked) hinner

end Code

end Dataflow
