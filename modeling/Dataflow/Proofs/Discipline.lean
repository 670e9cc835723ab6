import Dataflow.Proofs.Records
/-!
# Disciplines of composition

Many facts about compositions that succeed have one form. Each wire that is composed afresh is
*good* because the wires that it runs are; a memo answers only where what it was left by makes the
wire good again; and what is left behind is such a memo. `Discipline` says what such a fact comes
down to: what memos promise, which sites are fit, what is known of a wire up to some stage, and what
it takes for a wire to be good. That is said once here, and carried through the stages, the wires
and the depth of nesting. Some of these facts outlast a composition that fails, others do not.
-/

namespace Dataflow

variable {H : Host} {position : Nat} {site : Site} {b : Bound} {stage : Stage H} (owned : Bool)
  {id j : Id .wire} {p : Placed H} {T : Set (Id .wire)} {s : Store H} {locked : List (Id .wire)}
  {requests : Store.NestedRequests H}

theorem Stage.isNesting_of_nested? (h : stage.nested? = some j) : stage.isNesting = true := by
  cases stage <;> first | rfl | cases h

namespace Store

/-! ### Stages that were composed -/

/-- The stages from a position on have been composed, and the wires that they run are good, given
their signatures and output types. -/
inductive Composes (good : Id .wire → Site → Signature → Option Ty → Prop) (id : Id .wire)
    (wireName : String) (wireInput : Ty) (site : Site) :
    Nat → List (Placed H) → Bound → Bound → Prop where
  | nil {position : Nat} {b : Bound} : Composes good id wireName wireInput site position [] b b
  | leaf {position : Nat} {p : Placed H} {rest : List (Placed H)} {b b₁ b' : Bound}
      {nested : NestedCompose H} {s s' : Store H} (hb : p.stage.isBuiltIn = true)
      (hn : p.stage.nested? = none) (hat : s.PlannedAt id position p.stage)
      (h : s.eval (composeStage nested id wireName wireInput site b position p.stage) = (.ok b₁, s'))
      (hrest : Composes good id wireName wireInput site (position + 1) rest b₁ b') :
      Composes good id wireName wireInput site position (p :: rest) b b'
  | nest {position : Nat} {p : Placed H} {rest : List (Placed H)} {b b₁ b' : Bound} {j : Id .wire}
      {signature : Signature} {needs : List VarDecl} {output : Ty} (hj : p.stage.nested? = some j)
      (hobject : ∀ x sub slot, p.stage = .bound x sub slot → b.previous.tag = objectTag)
      (hgood : good j ((hereSite wireName wireInput site b position).nested
        (p.stage.lent b.previous)) signature (some output))
      (hadd : b.add site.shared ⟨p.stage.name, position⟩ needs signature.exposed = .ok b₁)
      (hrest : Composes good id wireName wireInput site (position + 1) rest
        { b₁ with previous := output } b') :
      Composes good id wireName wireInput site position (p :: rest) b b'

/-- The wires that the stages run are good at some site. -/
theorem Composes.good {good : Id .wire → Site → Signature → Option Ty → Prop} {wireName : String}
    {wireInput : Ty} {stages : List (Placed H)} {b' : Bound}
    (h : Composes good id wireName wireInput site position stages b b') (hp : p ∈ stages)
    (hj : p.stage.nested? = some j) :
    ∃ site' signature output, good j site' signature output := by
  induction h with
  | nil => cases hp
  | leaf _ hn _ _ _ ih =>
    rcases List.mem_cons.1 hp with rfl | hp
    · rw [hn] at hj
      cases hj
    · exact ih hp
  | nest hj' _ hgood _ _ ih =>
    rcases List.mem_cons.1 hp with rfl | hp
    · rw [hj'] at hj
      cases hj
      exact ⟨_, _, _, hgood⟩
    · exact ih hp

/-! ### Memos -/

/-- What the memos of the wires in `T` promise, given their keys and the output types of the wires. -/
def Remembers (promise : Id .wire → UInt64 → Signature → Option Ty → Prop) (T : Set (Id .wire))
    (s : Store H) : Prop :=
  ∀ j ∈ T, ∀ w m k, s.wires.get? j = some w → w.composed = some m → m.key = some k →
    promise j k m.signature w.outputTy

section Remembers

variable {promise : Id .wire → UInt64 → Signature → Option Ty → Prop} {s' : Store H}

/-- Memos that are kept or dropped keep their promise. -/
theorem Remembers.of_composed (h : s.Remembers promise T)
    (hmemos : ∀ j ∈ T, ∀ w', s'.wires.get? j = some w' → w'.composed = none ∨
      ∃ w, s.wires.get? j = some w ∧ w'.composed = w.composed ∧
        ∀ k g, promise j k g w.outputTy → promise j k g w'.outputTy) : s'.Remembers promise T := by
  intro j hj w' m k hw' hm hk
  rcases hmemos j hj w' hw' with hnone | ⟨w, hw, hsame, hpromise⟩
  · rw [hnone] at hm
    cases hm
  · exact hpromise k _ (h j hj w m k hw (hsame.symm.trans hm) hk)

/-- What is promised whatever the output types holds as long as the memos are there. -/
theorem Remembers.of_composed_eq {promise : Id .wire → UInt64 → Signature → Prop}
    (h : s.Remembers (fun j k g _ => promise j k g) T)
    (hsame : ∀ j ∈ T, (s'.wires.get? j).map Wire.composed = (s.wires.get? j).map Wire.composed) :
    s'.Remembers (fun j k g _ => promise j k g) T := by
  refine h.of_composed fun j hj w' hw' => .inr ?_
  have hj := hsame j hj
  rw [hw', Option.map_some] at hj
  obtain ⟨w, hw, hcomposed⟩ := Option.map_eq_some_iff.1 hj.symm
  exact ⟨w, hw, hcomposed.symm, fun _ _ h => h⟩

theorem Remembers.of_memoView_eq (h : s.Remembers promise T)
    (hsame : ∀ j, (s'.wires.get? j).map memoView = (s.wires.get? j).map memoView) :
    s'.Remembers promise T := by
  refine h.of_composed fun j _ w' hw' => .inr ?_
  have hj := hsame j
  rw [hw', Option.map_some] at hj
  obtain ⟨w, hw, hview⟩ := Option.map_eq_some_iff.1 hj.symm
  obtain ⟨hcomposed, houtput⟩ := Prod.mk.inj hview
  exact ⟨w, hw, hcomposed.symm, fun _ _ h => houtput ▸ h⟩

theorem Remembers.of_fresh (h : ∀ j ∈ T, s.isComposed j = false) : s.Remembers promise T := by
  intro j hj w m k hw hm
  have := h j hj
  simp [isComposed, hw, hm] at this

theorem Remembers.forget (h : s.Remembers promise T) :
    (s.modifyWire id forget).Remembers promise T := by
  refine h.of_composed fun j _ w' hw' => ?_
  obtain ⟨rfl, w, -, rfl⟩ | ⟨-, hw'⟩ := get?_of_modifyWire hw'
  · exact .inl rfl
  · exact .inr ⟨w', hw', rfl, fun _ _ h => h⟩

theorem Remembers.remember (h : s.Remembers promise T) {key : Option UInt64} {signature : Signature}
    {input output : Ty} (hkey : ∀ k, key = some k → promise id k signature (some output)) :
    ((s.modifyWire id (typed input output)).modifyWire id (remember key signature)).Remembers
      promise T := by
  intro j hj w m k hw hm hk
  rw [modifyWire_modifyWire] at hw
  obtain ⟨rfl, w₀, -, rfl⟩ | ⟨-, hw⟩ := get?_of_modifyWire hw
  · cases hm
    exact hkey k hk
  · exact h j hj w m k hw hm hk

end Remembers

/-! ### The laws -/

/-- A discipline for the wires in `T`, which are made of built-in stages and run only each other.
A wire is good among some locked wires; requests count only if they are `asked`. -/
structure Discipline (code : Code H) (T : Set (Id .wire)) where
  asked : Request → Prop
  promise : Id .wire → UInt64 → Signature → Option Ty → Prop
  fit : Site → Prop
  /-- What is known of a wire, given its input type, up to some stage. -/
  known : Site → Ty → Bound → Prop
  good : List (Id .wire) → Id .wire → Site → Signature → Option Ty → Prop
  /-- Memos keep their promise also if the composition fails. -/
  lasting : Prop
  sort : Stage H → Prop
  closed : code.Closed sort T
  /-- What is known before the first stage. -/
  start : ∀ {site : Site} {wire : Wire H}, fit site →
    known site (inputAt wire site) { previous := inputAt wire site }
  /-- The wire that a stage runs is composed at a fit site, or the stage fails to bind an object. -/
  inner : ∀ {site : Site} {b : Bound} {stage : Stage H} {wireName : String} {wireInput : Ty}
    {position : Nat}, stage.isNesting = true → known site wireInput b →
      (lasting ∨ ∀ x sub slot, stage = .bound x sub slot → b.previous.tag = objectTag) →
      fit ((hereSite wireName wireInput site b position).nested (stage.lent b.previous))
  /-- What is known behind a stage that runs no wire. -/
  leaf : ∀ {site : Site} {b b₁ : Bound} {stage : Stage H} {nested : NestedCompose H}
    {s s' : Store H} {id : Id .wire} {wireName : String} {wireInput : Ty} {position : Nat},
    known site wireInput b → stage.isBuiltIn = true → sort stage.bare → stage.nested? = none →
      s.PlannedAt id position stage →
      s.eval (composeStage nested id wireName wireInput site b position stage) = (.ok b₁, s') →
        known site wireInput b₁
  /-- What is known behind a stage that runs a good wire. -/
  nest : ∀ {site site' : Site} {wireInput : Ty} {b b₁ : Bound} {locked : List (Id .wire)}
    {j : Id .wire} {signature : Signature} {place : Place} {needs : List VarDecl} {output : Ty},
    known site wireInput b → good locked j site' signature (some output) →
      b.add site.shared place needs signature.exposed = .ok b₁ →
        known site wireInput { b₁ with previous := output }
  /-- A wire that is composed afresh is good. -/
  fresh : ∀ {id : Id .wire} {locked : List (Id .wire)} {wire : Wire H} {site : Site} {b : Bound},
    id ∈ T → id ∉ locked → code id = some wire.code → fit site →
      Composes (good (id :: locked)) id wire.name (inputAt wire site) site 0 wire.stages
        { previous := inputAt wire site } b →
        good locked id site (signatureOf wire (inputAt wire site) b) (some b.previous)
  /-- A wire whose memo answers is good. -/
  revive : ∀ {s : Store H} {id : Id .wire} {locked : List (Id .wire)} {wire : Wire H} {site : Site}
    {k : UInt64} {signature : Signature} {output : Option Ty} {recalled : Bool}, s.code = code →
      id ∈ T → id ∉ locked → s.wires.get? id = some wire → fit site →
      asked ⟨id, site, s.contentHash (id :: locked) s.depthBound [] wire, recalled⟩ →
      s.composeKey (id :: locked) wire site = some k → promise id k signature output →
        good locked id site signature output
  /-- A memo that a good wire leaves keeps the promise. -/
  keep : ∀ {s : Store H} {id : Id .wire} {locked : List (Id .wire)} {wire : Wire H} {site : Site}
    {k : UInt64} {signature : Signature} {output : Option Ty} {recalled : Bool}, s.code = code →
      id ∈ T → id ∉ locked → s.wires.get? id = some wire → fit site →
      asked ⟨id, site, s.contentHash (id :: locked) s.depthBound [] wire, recalled⟩ →
      s.composeKey (id :: locked) wire site = some k → good locked id site signature output →
        promise id k signature output

namespace Discipline

variable {code : Code H} {T : Set (Id .wire)} (D : Discipline code T)

/-- The code is as it was, and all memos keep their promise. -/
def Kept (s : Store H) : Prop := s.code = code ∧ s.Remembers D.promise T

/-- How a composition ends that keeps the discipline. -/
def Ends {α : Type} (ending : Except ComposeError α × Store H) (holds : α → Store H → Prop) : Prop :=
  match ending with
  | (.ok a, s) => D.Kept s ∧ holds a s
  | (.error _, s) => D.lasting → D.Kept s

/-- The wire has been composed, and is good. -/
def Leaves (locked : List (Id .wire)) (j : Id .wire) (site : Site) (signature : Signature)
    (s : Store H) : Prop :=
  ∃ output, D.good locked j site signature output ∧
    ∀ w, s.wires.get? j = some w → w.outputTy = output

/-- Composing a wire that is in `T`, if it is there at all, keeps the discipline, and the wire is good
if it is composed. -/
def Obeys (locked : List (Id .wire)) (nested : NestedCompose H) (requests : NestedRequests H) :
    Prop :=
  ∀ (s : Store H) (j : Id .wire) (site : Site), (∀ w, s.wires.get? j = some w → j ∈ T) →
    D.fit site → (∀ r ∈ requests j site s, D.asked r) → D.Kept s →
      D.Ends (s.eval (nested j site)) (D.Leaves locked j site)

variable {D}

theorem Ends.kept {α : Type} {ending : Except ComposeError α × Store H}
    {holds : α → Store H → Prop} (h : D.Ends ending holds) (hl : D.lasting) : D.Kept ending.2 := by
  rcases ending with ⟨_ | _, s⟩
  · exact h hl
  · exact h.1

theorem Kept.stageOutput (hs : D.Kept s) (hat : s.PlannedAt id position stage) (wireName : String)
    (here : Site) :
    D.Kept (s.eval (stageOutput id wireName stage ⟨stage.name, position⟩ here)).2 :=
  ⟨(code_stageOutput hat wireName stage.name here).trans hs.1, hs.2.of_memoView_eq
    (same_stageOutput (π := memoView) (fun _ _ _ => rfl) s id wireName stage _ here)⟩

section Stages

variable {nested : NestedCompose H} (hn : D.Obeys locked nested requests)

include hn

theorem composeParams {here : Site} (hb : stage.isBuiltIn = true)
    (hsub : ∀ j, stage.nested? = some j → j ∈ T)
    (hfit : ∀ j, stage.nested? = some j → D.fit (here.nested (stage.lent here.input)))
    (hasked : stage.capabilities.parameters = true →
      ∀ r ∈ paramRequests nested requests stage ⟨stage.name, position⟩ here 0 stage.params s,
        D.asked r) (hs : D.Kept s) :
    D.Ends (s.eval (composeParams nested stage position here)) fun found s₁ =>
      ∀ j, stage.nested? = some j → ∃ signature, found.2 = signature.exposed ∧
        D.Leaves locked j (here.nested (stage.lent here.input)) signature s₁ := by
  rw [eval_composeParams s nested hb]
  cases ownNeeds stage position here with
  | error e => exact fun _ => hs
  | ok own =>
    cases hj : stage.nested? with
    | none => exact ⟨hs, by simp⟩
    | some j =>
      have hends := hn s j (here.nested (stage.lent here.input)) (fun _ _ => hsub j hj) (hfit j hj)
        (fun r hr => hasked (Stage.parameters_of_nested? hj) r
          (nested_subset_paramRequests nested requests hj _ _ s hr)) hs
      dsimp only
      rcases heval : s.eval (nested j (here.nested (stage.lent here.input))) with ⟨_ | signature, s₁⟩
        <;> rw [heval] at hends
      · exact hends
      · refine ⟨hends.1, fun j' hj' => ?_⟩
        cases hj'
        exact ⟨signature, rfl, hends.2⟩

theorem composeStage (wireName : String) (wireInput : Ty) (hat : s.PlannedAt id position p.stage)
    (hb : p.stage.isBuiltIn = true) (hsort : D.sort p.stage.bare)
    (hsub : ∀ j, p.stage.nested? = some j → j ∈ T) (hknown : D.known site wireInput b)
    (hasked : p.stage.takes b.previous = true → p.stage.capabilities.parameters = true →
      ∀ r ∈ paramRequests nested requests p.stage ⟨p.stage.name, position⟩
        (hereSite wireName wireInput site b position) 0 p.stage.params s, D.asked r) (hs : D.Kept s)
    :
    D.Ends (s.eval (composeStage nested id wireName wireInput site b position p.stage)) fun b₁ _ =>
      D.known site wireInput b₁ ∧ ∀ rest b', Composes (D.good locked) id wireName wireInput site
        (position + 1) rest b₁ b' →
          Composes (D.good locked) id wireName wireInput site position (p :: rest) b b' := by
  rcases hstage : s.eval (Store.composeStage nested id wireName wireInput site b position p.stage)
    with ⟨_ | b₁, s'⟩
  · intro hl
    rw [eval_composeStage] at hstage
    dsimp only at hstage
    split at hstage
    · rename_i htakes
      have hends := composeParams hn hb hsub (fun j hj => D.inner (Stage.isNesting_of_nested? hj)
        hknown (.inl hl)) (hasked htakes) hs
      rcases hp : s.eval (Store.composeParams nested p.stage position
        (hereSite wireName wireInput site b position)) with ⟨_ | ⟨needs, vars⟩, s₁⟩ <;>
        rw [hp] at hends hstage
      · cases hstage
        exact hends hl
      · have hs₂ := hends.1.stageOutput (hat.of_code_eq (hends.1.1.trans hs.1.symm)) wireName
          (hereSite wireName wireInput site b position)
        dsimp only at hstage
        rcases ho : s₁.eval (Store.stageOutput id wireName p.stage ⟨p.stage.name, position⟩
          (hereSite wireName wireInput site b position)) with ⟨_ | output, s₂⟩ <;>
          rw [ho] at hs₂ hstage <;> obtain ⟨-, rfl⟩ := Prod.mk.inj hstage <;> exact hs₂
    · cases hstage
      exact hs
  · obtain ⟨htakes, needs, vars, s₁, output, b₂, hparams, hout, hadd, rfl⟩ := composeStage_ok hstage
    have hobject := fun j hj =>
      stageOutput_nesting_ok (Stage.isNesting_of_nested? (j := j) hj) hout
    have hends := composeParams hn hb hsub (fun j hj => D.inner (Stage.isNesting_of_nested? hj)
      hknown (.inr (hobject j hj).2.2.2)) (hasked htakes) hs
    rw [hparams] at hends
    have hs' := hends.1.stageOutput (hat.of_code_eq (hends.1.1.trans hs.1.symm)) wireName
      (hereSite wireName wireInput site b position)
    rw [hout] at hs'
    refine ⟨hs', ?_⟩
    cases hj : p.stage.nested? with
    | none =>
      exact ⟨D.leaf hknown hb hsort hj hat hstage, fun _ _ => .leaf hb hj hat hstage⟩
    | some j =>
      obtain ⟨-, hown, ⟨j', w, hj', hw, houtput⟩, hbinds⟩ := hobject j hj
      obtain rfl := Option.some.inj (hj.symm.trans hj')
      obtain ⟨signature, hexposed, out, hgood, hleft⟩ := hends.2 j hj
      obtain rfl : some output = out := houtput.symm.trans (hleft w hw)
      dsimp only at hexposed
      subst hexposed
      rw [hown, List.nil_append] at hadd
      exact ⟨D.nest hknown hgood hadd, fun _ _ => .nest hj hbinds hgood hadd⟩

theorem composeStages (wireName : String) (wireInput : Ty) {stages : List (Placed H)}
    (hat : s.PlannedFrom id position stages)
    (hbuilt : ∀ p ∈ stages, p.stage.isBuiltIn = true ∧ D.sort p.stage.bare ∧
      ∀ j, p.stage.nested? = some j → j ∈ T) (hknown : D.known site wireInput b)
    (hasked : ∀ r ∈ stagesRequests nested requests id wireName wireInput site position stages b s,
      D.asked r) (hs : D.Kept s) :
    D.Ends (s.eval (composeStages nested id wireName wireInput site position stages b)) fun b' _ =>
      Composes (D.good locked) id wireName wireInput site position stages b b' := by
  induction stages generalizing s position b with
  | nil => exact ⟨hs, .nil⟩
  | cons p rest ih =>
    obtain ⟨hb, hsort, hsub⟩ := hbuilt p List.mem_cons_self
    have hends := composeStage hn wireName wireInput hat.head hb hsort hsub hknown
      (fun htakes hparams r hr => hasked r (by
        rw [stagesRequests]
        exact List.mem_append_left _ (by simpa [htakes, hparams] using hr))) hs
    rw [Store.composeStages, eval_bind]
    rcases hstage : s.eval (Store.composeStage nested id wireName wireInput site b position p.stage)
      with ⟨_ | b₁, s₁⟩ <;> rw [hstage] at hends <;> dsimp only
    · exact hends
    · obtain ⟨hs₁, hknown₁, hfrom⟩ := hends
      have hrest := ih (hat.tail (hs₁.1.trans hs.1.symm))
        (fun q hq => hbuilt q (List.mem_cons_of_mem _ hq)) hknown₁
        (fun r hr => hasked r (by
          simp only [stagesRequests, hstage]
          exact List.mem_append_right _ hr)) hs₁
      rcases hall : s₁.eval (Store.composeStages nested id wireName wireInput site (position + 1) rest
        b₁) with ⟨_ | b', s₂⟩ <;> rw [hall] at hrest
      · exact hrest
      · exact ⟨hrest.1, hfrom rest b' hrest.2⟩

end Stages

/-- What composing a locked wire comes to. -/
theorem composeLocked {nested : NestedCompose H} (hid : ∀ w, s.wires.get? id = some w → id ∈ T)
    (hlocked : id ∉ locked) (hn : D.Obeys (id :: locked) nested requests) (hfit : D.fit site)
    (hasked : ∀ r ∈ lockedRequests nested requests (id :: locked) id site s, D.asked r)
    (hs : D.Kept s) :
    D.Ends (s.eval (composeLocked nested (id :: locked) id site)) (D.Leaves locked id site) := by
  rw [eval_composeLocked]
  unfold lockedRequests at hasked
  cases hw : s.wires.get? id with
  | none => exact fun _ => hs
  | some wire =>
    have hid := hid wire hw
    simp only [hw] at hasked ⊢
    cases hrecall : s.recalled? (id :: locked) wire site with
    | some signature =>
      simp only [hrecall] at hasked ⊢
      unfold recalled? at hrecall
      split at hrecall
      · rename_i k known signature' hk hcomposed
        split at hrecall
        · rename_i hknown
          obtain rfl := Option.some.inj hrecall
          refine ⟨hs, wire.outputTy, ?_, fun w hw' => ?_⟩
          · refine D.revive hs.1 hid hlocked hw hfit (hasked _ List.mem_cons_self) hk ?_
            rw [hknown]
            exact hs.2 id hid wire _ known hw hcomposed rfl
          · rw [Option.some.inj (hw.symm.trans hw')]
        · cases hrecall
      · cases hrecall
    | none =>
      simp only [hrecall, eval_composeFresh] at hasked ⊢
      have hplans : code id = some wire.code := by rw [← hs.1, Store.code, hw, Option.map_some]
      have hstage := fun p hp => D.closed.stage hid hplans (p := p) hp
      have hends := composeStages hn wire.name (inputAt wire site)
        (plannedFrom_zero (by rw [code_forget, hs.1, hplans]))
        (fun p hp => ⟨(Stage.plan?_eq_some_iff.1 (hstage p hp).1).1, (hstage p hp).2⟩)
        (D.start hfit) (fun r hr => hasked r (List.mem_cons_of_mem _ hr))
        ⟨by rw [code_forget, hs.1], hs.2.forget⟩
      rcases hb : (s.modifyWire id forget).eval (Store.composeStages nested id wire.name
        (inputAt wire site) site 0 wire.stages { previous := inputAt wire site }) with ⟨_ | b, s₁⟩ <;>
        rw [hb] at hends <;> dsimp only
      · exact hends
      · have hgood := D.fresh hid hlocked hplans hfit hends.2
        refine ⟨⟨by simpa using hends.1.1, hends.1.2.remember fun k hk => ?_⟩, _, hgood,
          fun w hw' => ?_⟩
        · exact D.keep hs.1 hid hlocked hw hfit (hasked _ List.mem_cons_self) hk hgood
        · rw [get?_modifyWire_self, get?_modifyWire_self, Option.map_map] at hw'
          obtain ⟨w₀, -, rfl⟩ := Option.map_eq_some_iff.1 hw'
          rfl

theorem composeWithin (depth : Nat) (trail : Trail) :
    D.Obeys trail.locked (composeWithin depth trail) (requestsWithin depth trail) := by
  induction depth generalizing trail with
  | zero => exact fun s id site _ _ _ hs _ => hs
  | succ depth ih =>
    intro s id site hid hfit hasked hs
    rw [eval_composeWithin_succ]
    split
    · exact fun _ => hs
    · split
      · exact fun _ => hs
      · rename_i hentered hlocked
        simp only [requestsWithin, hentered, hlocked, Bool.or_false, Bool.false_eq_true,
          if_false] at hasked
        exact composeLocked hid (by simpa using hlocked) (ih _) hfit hasked hs

end Discipline

/-! ### Owned and shared wires -/

/-- The requests of composing a wire that the caller holds, or one that others share. -/
def requestsAs (owned : Bool) (id : Id .wire) (site : Site) (s : Store H) : List Request :=
  if owned then ownedRequests id site s else sharedRequests id site s

theorem Discipline.composeAs {code : Code H} {D : Discipline code T}
    (hid : ∀ w, s.wires.get? id = some w → id ∈ T) (hfit : D.fit site)
    (hasked : ∀ r ∈ requestsAs owned id site s, D.asked r) (hs : D.Kept s) :
    D.Ends (s.eval (composeAs owned id site)) (D.Leaves [] id site) := by
  cases owned with
  | true =>
    change D.Ends (s.eval (composeOwned id site)) _
    rw [eval_composeOwned]
    exact composeLocked hid (by simp) (composeWithin s.depthBound ⟨[], [id]⟩) hfit hasked hs
  | false =>
    change D.Ends (s.eval (composeShared id site)) _
    rw [eval_composeShared]
    exact composeWithin _ {} s id site hid hfit hasked hs

/-- What a discipline that outlasts failures makes of a composition. -/
theorem Discipline.lasts {code : Code H} {D : Discipline code T} (hl : D.lasting)
    (hid : ∀ w, s.wires.get? id = some w → id ∈ T) (hfit : D.fit site)
    (hasked : ∀ r ∈ requestsAs owned id site s, D.asked r) (hs : D.Kept s) :
    D.Kept (s.eval (Store.composeAs owned id site)).2 ∧
      ∀ signature, (s.eval (Store.composeAs owned id site)).1 = .ok signature →
        ∃ output, D.good [] id site signature output := by
  have hends := Discipline.composeAs owned hid hfit hasked hs
  refine ⟨hends.kept hl, fun signature h => ?_⟩
  rcases heval : s.eval (Store.composeAs owned id site) with ⟨_ | _, s'⟩ <;> rw [heval] at h hends
  · cases h
  · cases h
    exact hends.2.imp fun _ h => h.1

end Store

end Dataflow
