import Dataflow.Proofs.Typing
/-!
# Composed stages are typed

A stage that composes and runs no wire has a typing, which follows from what it needs and publishes.
Of a stage that runs a wire, all that remains is the wire.
-/

namespace Dataflow

variable {H : Host} {b b' : Bound} {inherited needs vars : List VarDecl} {place : Place}
  {position : Nat} {stage : Stage H} {s' s : Store H} {here site : Site} {wireName : String}
  {output wireInput : Ty} {signature : Signature} {id : Id .wire}

/-! ### Needs and publications -/

/-- Whether a variable hides one of those around its wire. -/
def VarDecl.hidesIn (inherited : List VarDecl) (d : VarDecl) : Bool :=
  (VarDecl.find? d.name inherited).isSome

namespace Bound

variable {need var : VarDecl}

theorem find?_eq (b : Bound) (inherited : List VarDecl) (x : String) :
    b.find? inherited x = (VarDecl.find? x (inherited ++ b.exposed)).map
      (·, decide (x ∈ b.exposed.map (·.name))) := by
  rw [find?]
  by_cases hx : x ∈ b.exposed.map (·.name)
  · obtain ⟨d, hd⟩ := Option.isSome_iff_exists.1 (VarDecl.find?_isSome_iff.2 hx)
    rw [VarDecl.find?_append_of_mem hx, hd, decide_eq_true hx]
    rfl
  · rw [VarDecl.find?_append_of_notMem hx, VarDecl.find?_eq_none_iff.2 hx, decide_eq_false hx]

/-- What is known once a need has been met by a variable. It is noted once, unless the wire itself
publishes the variable. -/
def noted (b : Bound) (need found : VarDecl) : Bound :=
  if need.name ∈ b.exposed.map (·.name) ∨ need.name ∈ b.required.map (·.name) then b
  else { b with
    required := b.required ++ [{ need with ty := found.ty, isProtected := found.isProtected }] }

/-- What is known once a variable has been published. -/
def shown (b : Bound) (inherited : List VarDecl) (place : Place) (var : VarDecl) : Bound :=
  if var.name ∈ b.exposed.map (·.name) then b
  else { b with
    exposed := b.exposed ++ [var]
    findings :=
      if var.hidesIn inherited then b.findings.warn (shadowWarning place var.name)
      else b.findings }

/-- A need is met by a variable that fits. -/
theorem require_eq_ok_iff : b.require inherited place need = .ok b' ↔
    ∃ found, VarDecl.find? need.name (inherited ++ b.exposed) = some found ∧
      need.ty.accepts found.ty = true ∧
      (need.isMutable = true → found.isProtected = false ∧ found.isMutable = true) ∧
      b' = b.noted need found := by
  unfold require noted
  rw [find?_eq]
  cases VarDecl.find? need.name (inherited ++ b.exposed) with
  | none => simp
  | some found =>
    simp only [Option.map_some, List.mem_map]
    split_ifs with hty hmutable hknown <;> grind

/-- A variable is published if its name is free, or means a variable that it may hide. -/
theorem expose_eq_ok_iff : b.expose inherited place var = .ok b' ↔
    (∀ found, VarDecl.find? var.name (inherited ++ b.exposed) = some found →
      found.isProtected = false ∧ (found.ty = var.ty ∨ found.ty.accepts var.ty = true)) ∧
      b' = b.shown inherited place var := by
  unfold expose shown VarDecl.hidesIn
  rw [find?_eq]
  by_cases hmem : var.name ∈ b.exposed.map (·.name)
  · obtain ⟨found, hfound⟩ := Option.isSome_iff_exists.1 (VarDecl.find?_isSome_iff.2 hmem)
    rw [VarDecl.find?_append_of_mem hmem, hfound, decide_eq_true hmem, if_pos hmem]
    grind
  · rw [VarDecl.find?_append_of_notMem hmem, decide_eq_false hmem, if_neg hmem]
    cases VarDecl.find? var.name inherited <;> grind

@[simp] theorem exposed_noted (b : Bound) (need found : VarDecl) :
    (b.noted need found).exposed = b.exposed := by
  unfold noted
  split <;> rfl

theorem free_shown (h : ∀ d ∈ b.exposed, d.isProtected = false) (hfree : var.isProtected = false) :
    ∀ d ∈ (b.shown inherited place var).exposed, d.isProtected = false := by
  unfold shown
  split
  · exact h
  · intro d hd
    rcases List.mem_append.1 hd with hd | hd
    · exact h d hd
    · rw [List.mem_singleton.1 hd, hfree]

/-- The descriptors that a stage sees are orderly, and the wire publishes none that is protected. -/
structure Tidy (inherited : List VarDecl) (b : Bound) : Prop where
  orderly : Orderly (inherited ++ b.exposed)
  free : ∀ d ∈ b.exposed, d.isProtected = false

/-- What is known of the variables that a stage sees. -/
def env (inherited : List VarDecl) (b : Bound) : Env := Env.ofDecls (inherited ++ b.exposed)

theorem requires_ok (h : needs.foldlM (fun b need => b.require inherited place need) b = .ok b') :
    b'.exposed = b.exposed ∧ ∀ need ∈ needs,
      ∃ found, VarDecl.find? need.name (inherited ++ b.exposed) = some found ∧
        (need.isMutable = true → found.isProtected = false) := by
  induction needs generalizing b with
  | nil =>
    cases h
    exact ⟨rfl, by simp⟩
  | cons need rest ih =>
    rw [List.foldlM_cons] at h
    obtain ⟨b₁, hb, h⟩ := exists_of_bind_ok h
    obtain ⟨found, hfound, -, hmutable, rfl⟩ := require_eq_ok_iff.1 hb
    obtain ⟨hrest, hneeds⟩ := ih h
    rw [exposed_noted] at hrest hneeds
    exact ⟨hrest, List.forall_mem_cons.2 ⟨⟨found, hfound, fun hm => (hmutable hm).1⟩, hneeds⟩⟩

theorem expose_ok (h : b.expose inherited place var = .ok b') (ht : b.Tidy inherited)
    (hfree : var.isProtected = false) (hany : var.ty ≠ .any) :
    b'.Tidy inherited ∧
      b'.env inherited =
        Function.update (b.env inherited) var.name (some (var.ty.tag, false)) ∧
      (b.env inherited var.name = none ∨ b.env inherited var.name = some (var.ty.tag, false)) := by
  obtain ⟨hfits, rfl⟩ := expose_eq_ok_iff.1 h
  have htag : ∀ found, VarDecl.find? var.name (inherited ++ b.exposed) = some found →
      found.isProtected = false ∧ found.ty.tag = var.ty.tag := by
    intro found hfound
    obtain ⟨hopen, hty | haccepts⟩ := hfits found hfound
    · exact ⟨hopen, by rw [hty]⟩
    · have hknown := ht.orderly.known found (VarDecl.mem_of_find? hfound).1
      exact ⟨hopen, Ty.tag_eq_of_accepts haccepts hknown⟩
  have hmeans : ∀ found, VarDecl.find? var.name (inherited ++ b.exposed) = some found →
      b.env inherited var.name = some (var.ty.tag, false) := by
    intro found hfound
    simp [env, Env.ofDecls, hfound, htag found hfound]
  have hbefore : b.env inherited var.name = none ∨
      b.env inherited var.name = some (var.ty.tag, false) := by
    cases hfound : VarDecl.find? var.name (inherited ++ b.exposed) with
    | none => exact .inl (by simp [env, Env.ofDecls, hfound])
    | some found => exact .inr (hmeans found hfound)
  have hshown : ∀ d ∈ (b.shown inherited place var).exposed, d.isProtected = false :=
    free_shown ht.free hfree
  by_cases hmem : var.name ∈ b.exposed.map (·.name)
  · obtain ⟨d, hd, hname⟩ := List.mem_map.1 hmem
    obtain ⟨found, hfound⟩ := VarDecl.find?_isSome_of_mem (List.mem_append_right inherited hd)
    rw [shown, if_pos hmem]
    refine ⟨ht, ?_, hbefore⟩
    rw [← hmeans found (hname ▸ hfound), Function.update_eq_self]
  · rw [shown, if_neg hmem] at hshown ⊢
    refine ⟨⟨?_, hshown⟩, ?_, hbefore⟩
    · simpa only [List.append_assoc] using ht.orderly.concat hany hfree htag
    · simp only [env, ← List.append_assoc, Env.ofDecls_append, Env.overlay_singleton, hfree]

theorem exposes_ok (h : vars.foldlM (fun b var => b.expose inherited place var) b = .ok b')
    (ht : b.Tidy inherited) (hvars : ∀ d ∈ vars, d.isProtected = false ∧ d.ty ≠ .any) :
    b'.Tidy inherited ∧ b'.env inherited = (b.env inherited).overlay vars ∧
      ∀ d ∈ vars, b.env inherited d.name = none ∨
        b.env inherited d.name = some (d.ty.tag, false) := by
  induction vars generalizing b with
  | nil =>
    cases h
    exact ⟨ht, rfl, by simp⟩
  | cons var rest ih =>
    rw [List.foldlM_cons] at h
    obtain ⟨b₁, hb, h⟩ := exists_of_bind_ok h
    obtain ⟨hfree, hany⟩ := hvars var List.mem_cons_self
    obtain ⟨ht₁, henv₁, hvar⟩ := expose_ok hb ht hfree hany
    obtain ⟨ht', henv', hrest⟩ := ih h ht₁ fun d hd => hvars d (List.mem_cons_of_mem _ hd)
    refine ⟨ht', by rw [henv', henv₁, Env.overlay_cons, hfree], fun d hd => ?_⟩
    rcases List.mem_cons.1 hd with rfl | hd
    · exact hvar
    · by_cases hname : d.name = var.name
      · have := hrest d hd
        rw [henv₁, hname, Function.update_self] at this
        rw [hname]
        simpa using this.imp_right fun h => by simpa [h] using hvar
      · have := hrest d hd
        rwa [henv₁, Function.update_of_ne hname] at this

/-- What the needs and publications of a stage come to. -/
theorem add_ok (h : b.add inherited place needs vars = .ok b') (ht : b.Tidy inherited)
    (hvars : ∀ d ∈ vars, d.isProtected = false ∧ d.ty ≠ .any) :
    b'.Tidy inherited ∧ b'.env inherited = (b.env inherited).overlay vars ∧
      (∀ d ∈ vars, b.env inherited d.name = none ∨
        b.env inherited d.name = some (d.ty.tag, false)) ∧
      ∀ need ∈ needs, ∃ found, VarDecl.find? need.name (inherited ++ b.exposed) = some found ∧
        (need.isMutable = true → found.isProtected = false) := by
  unfold add at h
  obtain ⟨b₁, hb, h⟩ := exists_of_bind_ok h
  obtain ⟨hexposed, hneeds⟩ := requires_ok hb
  have htidy : b₁.Tidy inherited := ⟨by rw [hexposed]; exact ht.orderly, by rw [hexposed]; exact ht.free⟩
  have henv : b₁.env inherited = b.env inherited := by rw [env, env, hexposed]
  have := exposes_ok h htidy hvars
  rw [henv] at this
  exact ⟨this.1, this.2.1, this.2.2, hneeds⟩

end Bound

/-! ### Stages that run no wire -/

theorem Value.ty_ne_any (v : Value) : v.ty ≠ .any := by
  cases v <;> simp [ty, tyBy, ObjectRef.ty]

namespace Store

theorem composeParams_ok {nested : NestedCompose H} (hb : stage.isBuiltIn = true)
    (hn : stage.nested? = none) {found : List VarDecl × List VarDecl}
    (h : s.eval (composeParams nested stage position here) = (.ok found, s')) :
    s' = s ∧ found.2 = [] := by
  rw [eval_composeParams s nested hb, hn] at h
  cases ho : ownNeeds stage position here with
  | error e => simp [ho] at h
  | ok needs =>
    simp only [ho, Prod.mk.injEq, Except.ok.injEq] at h
    obtain ⟨rfl, rfl⟩ := h
    exact ⟨rfl, rfl⟩

/-- A compose hook that answers leaves its stage in the wire. -/
theorem stageAt?_stageOutput {name : String} (hat : s.PlannedAt id position stage)
    (hc : stage.capabilities.compose = true)
    (h : s.eval (stageOutput id wireName stage ⟨name, position⟩ here) = (.ok output, s')) :
    ∃ stage' s₁, (stage.compose here).run s = ((stage', .ok output), s₁) ∧
      (s'.stageAt? id position).getD stage = stage' := by
  obtain ⟨stage', s₁, hrun, rfl⟩ := stageOutput_ok hc h
  have hwires : s₁.wires = s.wires := by simpa [hrun] using (stage.compose_keeps here s).2
  obtain ⟨st, hst⟩ := hat.stageAt?
  have hst₁ : s₁.stageAt? id position = some st := by rw [← hst, stageAt?, stageAt?, hwires]
  refine ⟨stage', s₁, hrun, ?_⟩
  rw [stageAt?_setStage, hst₁]
  rfl

theorem stageTyped_add {wireTag : UInt8} {operand : Operand} (hslot : operand.bare.slot = none)
    (htakes : (Stage.add operand : Stage H).takes here.input = true)
    (h : Stage.addOutput operand here = .ok output) :
    StageTyped wireTag (Stage.add operand : Stage H).bare here.input.tag (Env.ofDecls here.shared)
      output.tag (Env.ofDecls here.shared) ∧ output = here.input := by
  have hinput : here.input = .int ∨ here.input = .float := by
    have hnumber : Ty.int.accepts here.input = true ∨ Ty.float.accepts here.input = true := by
      simpa [Stage.takes, Stage.ignoresInput, Stage.inputs] using htakes
    revert hnumber
    generalize here.input = t
    rintro (h | h)
    · cases t <;> first | exact .inl rfl | exact Bool.noConfusion h
    · cases t <;> first | exact .inr rfl | exact Bool.noConfusion h
  have hnumber : here.input.tag = Ty.int.tag ∨ here.input.tag = Ty.float.tag :=
    hinput.imp (congrArg Ty.tag) (congrArg Ty.tag)
  unfold Stage.addOutput at h
  dsimp only at h
  split at h
  · rename_i haccepts
    cases h
    have hany : here.input ≠ .any := by rcases hinput with h | h <;> simp [h]
    have htag := Ty.tag_eq_of_accepts haccepts hany
    refine ⟨?_, rfl⟩
    unfold Stage.operandTy at htag
    cases href : operand.referent? with
    | none =>
      rw [href] at htag
      refine .addLiteral hnumber hslot (by simpa using href) ?_
      simpa using htag.symm
    | some x =>
      rw [href] at htag
      cases hx : here.find? x with
      | none =>
        rcases hinput with h | h <;> simp [hx, h, Ty.tag] at htag
      | some found =>
        refine .addVariable (b := found.isProtected) hnumber (by simpa using href) ?_
        have hfind : VarDecl.find? x here.shared = some found := hx
        simp [Env.ofDecls, hfind, htag, hx]
  · simp at h

/-- A stage that has no variables of its own and runs no wire is typed by its output. -/
theorem stageTyped_stageOutput
    (h : s.eval (stageOutput id wireName stage place here) = (.ok output, s'))
    (hplain : stage.bare.isPlain = true) (hnest : stage.isNesting = false)
    (hvars : stage.capabilities.vars = false) (htakes : stage.takes here.input = true)
    (hinput : here.input ≠ .any) (hwire : here.wireInput ≠ .any) :
    StageTyped here.wireInput.tag stage.bare here.input.tag (Env.ofDecls here.shared) output.tag
      (Env.ofDecls here.shared) ∧ output ≠ .any := by
  cases stage with
  | const v =>
    obtain ⟨_, _, hrun, -⟩ := stageOutput_ok rfl h
    cases hrun
    exact ⟨.const v, v.ty_ne_any⟩
  | input =>
    obtain ⟨_, _, hrun, -⟩ := stageOutput_ok rfl h
    cases hrun
    exact ⟨.input, hwire⟩
  | add operand =>
    obtain ⟨_, _, hrun, -⟩ := stageOutput_ok rfl h
    have hout : Stage.addOutput operand here = .ok output := congrArg (·.1.2) hrun
    obtain ⟨htyped, rfl⟩ := stageTyped_add (by simpa [Stage.bare, Stage.isPlain] using hplain)
      htakes hout
    exact ⟨htyped, hinput⟩
  | pause time paused =>
    obtain ⟨_, _, hrun, -⟩ := stageOutput_ok rfl h
    simp only [Stage.compose] at hrun
    cases hdelay : Stage.pauseDelay time <;> rw [hdelay] at hrun <;> cases hrun
    exact ⟨.pause hdelay, hinput⟩
  | pass | fail message =>
    rw [eval_stageOutput] at h
    cases h
    exact ⟨by constructor, hinput⟩
  | buffer source =>
    rw [eval_stageOutput] at h
    cases h
    exact ⟨.buffer _, by simp⟩
  | set _ _ _ | get _ _ | update _ _ _ => simp [Stage.capabilities] at hvars
  | inline _ | bound _ _ _ => simp [Stage.isNesting] at hnest
  | _ => simp [Stage.bare, Stage.isPlain] at hplain

/-- A stage that composes and runs no wire is typed. -/
theorem stageTyped_composeStage {nested : NestedCompose H}
    (h : s.eval (composeStage nested id wireName wireInput site b position stage) = (.ok b', s'))
    (hat : s.PlannedAt id position stage) (hplain : stage.bare.isPlain = true)
    (hnest : stage.isNesting = false) (ht : b.Tidy site.shared) (hprev : b.previous ≠ .any)
    (hwire : wireInput ≠ .any) :
    StageTyped wireInput.tag stage.bare b.previous.tag (b.env site.shared) b'.previous.tag
        (b'.env site.shared) ∧
      b'.Tidy site.shared ∧ b'.previous ≠ .any := by
  obtain ⟨htakes, needs, vars, s₁, output, b₁, hparams, hout, hadd, rfl⟩ := composeStage_ok h
  have hbuilt : stage.isBuiltIn = true := by
    cases stage <;> first | rfl | simp [Stage.bare, Stage.isPlain] at hplain
  have hnone : stage.nested? = none := by
    cases stage <;> first | rfl | simp [Stage.isNesting] at hnest
  obtain ⟨rfl, hvars⟩ := composeParams_ok hbuilt hnone hparams
  dsimp only at hvars
  subst hvars
  cases stage with
  | set name ty slot =>
    obtain ⟨stage', s₂, hrun, hstage'⟩ := stageAt?_stageOutput hat rfl hout
    rw [hstage'] at hadd
    simp only [Stage.compose] at hrun
    split at hrun <;> cases hrun
    obtain ⟨htidy, henv, hvar, -⟩ := Bound.add_ok hadd ht fun d hd => by
      obtain rfl : d = .assignable name b.previous := List.mem_singleton.mp hd
      exact ⟨rfl, hprev⟩
    refine ⟨?_, ⟨htidy.orderly, htidy.free⟩, hprev⟩
    have henv' : b₁.env site.shared =
        Function.update (b.env site.shared) name (some (b.previous.tag, false)) :=
      henv.trans (Env.overlay_singleton ..)
    change StageTyped _ _ _ _ _ (b₁.env site.shared)
    rw [henv']
    exact .set (hvar (.assignable name b.previous) List.mem_cons_self)
  | get name slot =>
    obtain ⟨stage', s₂, hrun, hstage'⟩ := stageAt?_stageOutput hat rfl hout
    rw [hstage'] at hadd
    cases Stage.composes_of_run rfl hrun with
    | channel hclaim => cases hclaim
    | idle _ hnone => cases hnone
    | @get _ _ found hx hfound =>
      have hfind : VarDecl.find? name (site.shared ++ b.exposed) = some found := hfound
      obtain ⟨htidy, henv, -⟩ := Bound.add_ok hadd ht (by simp [ownVars, Stage.capabilities, Stage.exposed])
      refine ⟨?_, ⟨htidy.orderly, htidy.free⟩, ht.orderly.known found (VarDecl.mem_of_find? hfind).1⟩
      change StageTyped _ _ _ _ _ (b₁.env site.shared)
      rw [henv]
      exact .get (b := found.isProtected) (by simp [Bound.env, Env.ofDecls, hfind])
  | update name ty slot =>
    obtain ⟨stage', s₂, hrun, hstage'⟩ := stageAt?_stageOutput hat rfl hout
    rw [hstage'] at hadd
    cases Stage.composes_of_run rfl hrun with
    | channel hclaim => cases hclaim
    | idle _ hnone => cases hnone
    | @update _ _ _ found hx hfound hfits =>
      have hfind : VarDecl.find? name (site.shared ++ b.exposed) = some found := hfound
      have hknown := ht.orderly.known found (VarDecl.mem_of_find? hfind).1
      obtain ⟨htidy, henv, -, hneeds⟩ := Bound.add_ok hadd ht
        (by simp [ownVars, Stage.capabilities, Stage.exposed])
      obtain ⟨found', hfind', hfree⟩ := hneeds (.assignable name found.ty) List.mem_cons_self
      obtain rfl : found = found' := Option.some.inj (hfind.symm.trans hfind')
      refine ⟨?_, ⟨htidy.orderly, htidy.free⟩, hprev⟩
      change StageTyped _ _ _ _ _ (b₁.env site.shared)
      rw [henv]
      have htag : found.ty.tag = b.previous.tag := Ty.tag_eq_of_accepts hfits hknown
      exact .update (by simp [Bound.env, Env.ofDecls, hfind, htag, hfree rfl])
  | inline sub | bound name sub slot => simp [Stage.isNesting] at hnest
  | unit u => simp [Stage.isBuiltIn] at hbuilt
  | _ =>
    obtain ⟨htyped, hany⟩ := stageTyped_stageOutput hout hplain hnest rfl htakes hprev hwire
    simp only [ownVars, Stage.capabilities, Bool.false_eq_true, if_false, List.nil_append] at hadd
    obtain ⟨htidy, henv, -⟩ := Bound.add_ok hadd ht (by simp)
    refine ⟨?_, ⟨htidy.orderly, htidy.free⟩, hany⟩
    change StageTyped _ _ _ _ _ (b₁.env site.shared)
    rw [henv]
    exact htyped

/-! ### Stages that run a wire -/

theorem nestedOutput_ok {sub : Nested} {ty : Ty} (h : Stage.nestedOutput s sub = .ok ty) :
    ∃ j w, sub.wire = some j ∧ s.wires.get? j = some w ∧ w.outputTy = some ty := by
  obtain ⟨j, hj, h⟩ := Option.bind_eq_some_iff.1 (Stage.nestedOutput_eq_ok_iff.1 h)
  obtain ⟨w, hw, hty⟩ := Option.bind_eq_some_iff.1 h
  exact ⟨j, w, hj, hw, hty⟩

/-- What is left of a stage that runs a wire, once the wire has been composed: its output is that of
the wire, and it has no variables of its own. -/
theorem stageOutput_nesting_ok (hnest : stage.isNesting = true)
    (h : s.eval (stageOutput id wireName stage ⟨stage.name, position⟩ here) = (.ok output, s')) :
    s' = s.modifyWire id (·.setStage position stage) ∧
      ownVars stage ((s'.stageAt? id position).getD stage) = ([], []) ∧
      (∃ j w, stage.nested? = some j ∧ s.wires.get? j = some w ∧ w.outputTy = some output) ∧
      ∀ x sub slot, stage = .bound x sub slot → here.input.tag = objectTag := by
  cases stage with
  | inline sub =>
    obtain ⟨stage', s₁, hrun, rfl⟩ := stageOutput_ok rfl h
    have hout : Stage.nestedOutput s sub = .ok output := congrArg (·.1.2) hrun
    obtain rfl : Stage.inline sub = stage' := congrArg (·.1.1) hrun
    obtain rfl : s = s₁ := congrArg (·.2) hrun
    exact ⟨rfl, rfl, nestedOutput_ok hout, by simp⟩
  | bound x sub slot =>
    obtain ⟨stage', s₁, hrun, rfl⟩ := stageOutput_ok rfl h
    have hout : Stage.boundOutput s x sub here = .ok output := congrArg (·.1.2) hrun
    obtain rfl : Stage.bound x sub slot = stage' := congrArg (·.1.1) hrun
    obtain rfl : s = s₁ := congrArg (·.2) hrun
    unfold Stage.boundOutput at hout
    split at hout
    · simp at hout
    split at hout
    · simp at hout
    rename_i hobject
    refine ⟨rfl, ?_, nestedOutput_ok hout, fun _ _ _ _ => ?_⟩
    · rw [stageAt?_setStage]
      cases s.stageAt? id position <;> rfl
    · exact Ty.isObject_iff_tag.1 (by simpa using hobject)
  | _ => simp [Stage.isNesting] at hnest

/-- The requests of the wire that a stage runs are among those of its parameters. -/
theorem nested_subset_paramRequests (nested : NestedCompose H) (requests : NestedRequests H)
    {j : Id .wire} (hj : stage.nested? = some j) (place : Place) (here : Site) (s : Store H) :
    requests j (here.nested (stage.lent here.input)) s ⊆
      paramRequests nested requests stage place here 0 stage.params s := by
  cases stage with
  | inline sub =>
    have hvalue : (Stage.inline sub : Stage H).getParam 0 = .wire j := by
      simp_all [Stage.nested?, Stage.getParam, Stage.nestedValue]
    simp only [Stage.params, paramRequests, hvalue]
    exact List.subset_append_left _ _
  | bound x sub slot =>
    have hvalue : (Stage.bound x sub slot : Stage H).getParam 1 = .wire j := by
      simp_all [Stage.nested?, Stage.getParam, Stage.nestedValue]
    have hname : s.eval (bindParam nested (.bound x sub slot) place here
        ⟨"Name", "The variable holding the object.", [.string]⟩
        ((Stage.bound x sub slot : Stage H).getParam 0)) = (.ok ([], []), s) := by
      rw [eval_bindParam]
      rfl
    simp only [Stage.params, paramRequests, hname, hvalue]
    exact fun a ha => List.mem_append_right _ (List.mem_append_left _ ha)
  | _ => simp [Stage.nested?] at hj

/-- The memos and output types of wires. -/
def memoView (w : Wire H) : Option Memo × Option Ty := (w.composed, w.outputTy)

end Store

end Dataflow
