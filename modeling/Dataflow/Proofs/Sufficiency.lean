import Dataflow.Proofs.Keys
import Dataflow.Proofs.Needs
/-!
# Reported needs suffice

A wire is composed, and then composed again with nothing around it but the needs that its signature
reports. The two compositions go through the same stages in the same order. They ask for the same
wires, where the second one shows the reports in place of the surroundings, and a memo that answers
one of them answers the other, since hashes tell the same requests apart.

The second composition can come to another end in two ways. A need is reported as it was first
asked for, so a variable that is read first and changed later is reported as one that is only read.
And a channel that has been declared with a type that does not take itself is not declared again. If
neither is the case, both compositions find the same.
-/

namespace Dataflow

variable {H : Host} {w : Wire H} {st st' st₁ : Stage H} {s s' s₁ t : Store H}
  {E needs vars : List VarDecl} {wireName' x : String} {position : Nat} {σ σ' : Site}
  {wireInput : Ty} {b b' c : Dataflow.Bound} {requests : Store.NestedRequests H}

/-- The stages of a wire of built-in stages are known from the code. -/
theorem Code.Closed.bare_stages {code : Code H} {sort : Stage H → Prop} {T : Set (Id .wire)}
    (h : code.Closed sort T) {i : Id .wire} (hi : i ∈ T) (hw : code i = some w.code) :
    w.code = (w.stages.map (·.stage.bare)).map some := by
  rw [List.map_map]
  exact List.map_congr_left fun p hp => (h.stage hi hw hp).1

/-! ### A composition and its repetition -/

/-- The variable that a stage changes. -/
def Stage.changes? : Stage H → Option String
  | update x _ _ => some x
  | _ => none

/-- The names that the stages of some wires change. -/
def Code.changed (code : Code H) (T : Set (Id .wire)) : Set String :=
  {x | ∃ j ∈ T, ∃ plans, code j = some plans ∧ ∃ st, some st ∈ plans ∧ st.changes? = some x}

/-- A composition, and its repetition with reported needs in place of the surroundings. -/
structure Rehearsal (H : Host) where
  code : Code H
  /-- The wires that take part. -/
  members : Set (Id .wire)
  around : List VarDecl
  reported : List VarDecl
  board : Id .board
  /-- What channels are declared as at the end of the composition. -/
  final : String → Option Declaration
  /-- The requests of the composition, and those of the repetition. -/
  asked : List Request
  asked' : List Request
  closed : code.Closed (fun st => ∀ k ∈ st.wires, k ∈ members) members
  reports : Reports reported around
  apart : NoCollision asked
  apart' : NoCollision asked'

namespace Stage

/-- A built-in stage with variables of its own has a compose hook. -/
theorem vars_of_isBuiltIn (hb : st.isBuiltIn = true) (hc : st.capabilities.compose = false) :
    st.capabilities.vars = false := by
  cases st with
  | set x ty slot | get x slot | update x ty slot | bound x sub slot => cases hc
  | unit u => cases hb
  | _ => rfl

@[simp] theorem changes?_bare (st : Stage H) : st.bare.changes? = st.changes? := by
  cases st <;> rfl

/-- A stage that runs the same wire knows the same of it. -/
theorem innerTy?_congr (h : st'.bare = st.bare) (s : Store H) : st'.innerTy? s = st.innerTy? s := by
  rw [innerTy?, innerTy?, ← nested?_bare, h, nested?_bare]

/-- What is known of the hook of a built-in stage is known of the hook of any stage with its plan. -/
theorem upTo_compose_congr (hbare : st'.bare = st.bare) (hb : st.isBuiltIn = true) {here : Site}
    {short : ComposeError → Prop} {ty : Ty} {exposed required : List VarDecl}
    (wanted : Store H → Prop)
    (h : UpTo short (fun ty' => ty' = ty ∧ ((st.compose here).run t).1.1.exposed = exposed ∧
      ((st.compose here).run t).1.1.required = required ∧ wanted ((st.compose here).run t).2)
      ((st.compose here).run t).1.2) :
    UpTo short (fun ty' => ty' = ty ∧ ((st'.compose here).run t).1.1.exposed = exposed ∧
      ((st'.compose here).run t).1.1.required = required ∧ wanted ((st'.compose here).run t).2)
      ((st'.compose here).run t).1.2 := by
  have hb' : st'.isBuiltIn = true := by rw [← isBuiltIn_bare, hbare, isBuiltIn_bare, hb]
  obtain ⟨hstore, hanswer, hkept⟩ := compose_bare hb here t
  obtain ⟨hstore', hanswer', hkept'⟩ := compose_bare hb' here t
  rw [hbare] at hstore' hanswer' hkept'
  rw [hanswer', ← hanswer]
  cases hans : ((st.compose here).run t).1.2 with
  | error e =>
    rw [hans] at h
    exact h
  | ok ty' =>
    rw [hans] at h
    obtain ⟨rfl, hexposed, hrequired, hwanted⟩ := h
    obtain ⟨hexposed₁, hrequired₁⟩ := hkept _ hans
    obtain ⟨hexposed₂, hrequired₂⟩ := hkept' ty' (by rw [hanswer', ← hanswer, hans])
    exact ⟨rfl, by rw [hexposed₂, ← hexposed₁, hexposed], by rw [hrequired₂, ← hrequired₁, hrequired],
      by rwa [hstore', ← hstore]⟩

/-- What a built-in stage needs itself, it only reads or is known to change. -/
theorem kin_required (hb : st.isBuiltIn = true) {here : Site} {ty : Ty}
    (hrun : (st.compose here).run s = ((st₁, .ok ty), s₁)) {R : List VarDecl}
    (hchanges : ∀ x, st.changes? = some x → x ∈ E.map (·.name) ∨
      ∃ r, VarDecl.find? x R = some r ∧ r.isMutable = true) :
    List.Forall₂ (Kin R E) (Store.ownVars st st₁).2 (Store.ownVars st st₁).2 := by
  cases st with
  | get x slot =>
    obtain rfl : Stage.get x slot = st₁ := congrArg (·.1.1) hrun
    exact .cons (Kin.of_eq fun h => by cases h) .nil
  | update x ty slot =>
    simp only [compose] at hrun
    cases hout : updateTarget x here <;> rw [hout] at hrun <;> cases hrun
    exact .cons (Kin.of_eq fun _ => hchanges x rfl) .nil
  | set x ty slot =>
    simp only [compose] at hrun
    split at hrun <;> cases hrun
    exact .nil
  | bound x sub slot =>
    obtain rfl : Stage.bound x sub slot = st₁ := congrArg (·.1.1) hrun
    exact .nil
  | unit u => cases hb
  | _ => exact .nil

/-- A stage that changes a variable needs it first of all. -/
theorem required_of_changes? {here : Site} {ty : Ty}
    (hrun : (st.compose here).run s = ((st₁, .ok ty), s₁)) (hx : st.changes? = some x) :
    ∃ ty, (Store.ownVars st st₁).2 = [.assignable x ty] := by
  cases st with
  | update y ty slot =>
    simp only [compose] at hrun
    cases hout : updateTarget y here <;> rw [hout] at hrun <;> cases hrun
    cases hx
    exact ⟨_, rfl⟩
  | _ => cases hx

theorem name_of_bindReference {place : Place} {here : Site} {param : Param} {d : VarDecl}
    (h : Store.bindReference place here param x = .ok d) : d.name = x := by
  unfold Store.bindReference at h
  dsimp only at h
  split at h
  · cases h
  · split at h
    · cases h
    · rename_i found hfound
      split at h <;> cases h
      exact (VarDecl.mem_of_find? hfound).2

/-- A stage that has to find a variable has a hook, and runs no wire. -/
theorem of_reads? (h : st.reads? = some x) :
    st.capabilities.compose = true ∧ st.nested? = none := by
  cases st with
  | add operand | get x slot | update x ty slot => exact ⟨rfl, rfl⟩
  | _ => cases h

theorem reads?_of_changes? (h : st.changes? = some x) : st.reads? = some x := by
  cases st with
  | update y ty slot => exact h
  | _ => cases h

/-- A variable that has to be there for a stage is one that the stage needs. -/
theorem needed_of_reads? {here : Site} {ty : Ty}
    (hrun : (st.compose here).run s = ((st₁, .ok ty), s₁))
    (hneeds : Store.ownNeeds st position here = .ok needs) (hx : st.reads? = some x) :
    x ∈ ((Store.ownVars st st₁).2 ++ needs).map (·.name) := by
  rw [List.map_append, List.mem_append]
  cases st with
  | add operand =>
    have hvalue : (Stage.add operand : Stage H).getParam 0 = .ref x := by
      change operand.referent? = some x at hx
      unfold Operand.referent? at hx
      change operand.value = .ref x
      split at hx <;> simp_all
    simp only [Store.ownNeeds, capabilities, if_true, params, Store.bindValues, hvalue,
      Store.bindValue, name] at hneeds
    cases hd : Store.bindReference ⟨"Math.Add", position⟩ here operandParam x with
    | error e => simp [hd, Except.map, bind, Except.bind] at hneeds
    | ok d =>
      rw [hd] at hneeds
      cases hneeds
      exact .inr (List.mem_map.2 ⟨d, List.mem_cons_self, name_of_bindReference hd⟩)
  | get y slot =>
    obtain rfl : Stage.get y slot = st₁ := congrArg (·.1.1) hrun
    cases hx
    exact .inl List.mem_cons_self
  | update y ty slot =>
    simp only [compose] at hrun
    cases hout : updateTarget y here <;> rw [hout] at hrun <;> cases hrun
    cases hx
    exact .inl List.mem_cons_self
  | _ => cases hx

end Stage

/-- Signatures of a composition and of its repetition. -/
structure Signature.Echo (R E : List VarDecl) (g g' : Signature) : Prop where
  input : g'.input = g.input
  output : g'.output = g.output
  exposed : g'.exposed = g.exposed
  required : List.Forall₂ (Kin R E) g.required g'.required

namespace Store

/-- The parameters of a stage that runs no wire need what they refer to. -/
theorem ownNeeds_of_composeParams {nested : NestedCompose H} (hb : st.isBuiltIn = true)
    (hn : st.nested? = none) {here : Site}
    (h : s.eval (composeParams nested st position here) = (.ok (needs, vars), s')) :
    ownNeeds st position here = .ok needs := by
  rw [eval_composeParams s nested hb, hn] at h
  cases hown : ownNeeds st position here with
  | error e => simp [hown] at h
  | ok own =>
    simp only [hown, Prod.mk.injEq, Except.ok.injEq] at h
    rw [h.1.1]

/-- Wires of the same stages are composed with the same type. -/
theorem inputAt_congr {w' : Wire H} (h : w'.stages.map (·.stage.bare) = w.stages.map (·.stage.bare))
    (hinput : σ'.input = σ.input) :
    inputAt w' σ' = inputAt w σ := by
  have hfirst : w'.ignoresInput = w.ignoresInput := by
    unfold Wire.ignoresInput
    cases hs : w.stages with
    | nil =>
      rw [hs] at h
      rw [List.map_eq_nil_iff.1 h]
    | cons p rest =>
      rw [hs] at h
      obtain ⟨p', rest', hs', hp, -⟩ := List.map_eq_cons_iff.1 h
      rw [hs']
      dsimp only
      rw [← Stage.ignoresInput_bare, hp, Stage.ignoresInput_bare]
  rw [inputAt, inputAt, hfirst, hinput]

/-- The output type of a wire that has just been composed. -/
theorem outputTy_remember {id : Id .wire} {plans : List (Option (Stage H))}
    (h : s.code id = some plans) (input output : Ty) (key : Option UInt64) (g : Signature) :
    (((s.modifyWire id (typed input output)).modifyWire id (remember key g)).wires.get? id).bind
      (·.outputTy) = some output := by
  obtain ⟨w, hw, -⟩ := exists_of_code h
  rw [get?_modifyWire_self, get?_modifyWire_self, hw]
  rfl

end Store

/-- Needs that were noted stay noted. -/
theorem Bound.composeStages_required {nested : Store.NestedCompose H} {id : Id .wire}
    {wireName : String} {site : Site} {stages : List (Placed H)}
    (h : s.eval (Store.composeStages nested id wireName wireInput site position stages b) =
      (.ok b', s')) : b.required ⊆ b'.required := by
  induction stages generalizing s position b with
  | nil =>
    simp only [Store.composeStages, Store.eval_pure, Prod.mk.injEq, Except.ok.injEq] at h
    rw [h.1]
    exact List.Subset.refl _
  | cons p rest ih =>
    rw [Store.composeStages] at h
    obtain ⟨b₁, s₁, hstage, h⟩ := Store.eval_bind_ok h
    obtain ⟨-, _, _, _, _, b₂, -, -, hadd, rfl⟩ := Store.composeStage_ok hstage
    have hrest := ih h
    exact List.Subset.trans (Bound.add_names hadd).1 hrest

namespace Rehearsal

open Store

variable (π : Rehearsal H)

/-- Errors of the repetition. -/
abbrev Short : ComposeError → Prop := Shortfall (π.code.changed π.members) π.reported π.final

/-- A site of the composition, and that of the repetition. -/
abbrev Sites (E : List VarDecl) (σ σ' : Site) : Prop := σ.Thinned π.around π.reported E σ'

/-- Memos that the composition and its repetition have left: they answered the same request. -/
inductive Memos : Option Memo → Option Memo → Prop where
  | untouched : Memos none none
  | made {r r' : Request} {E : List VarDecl} {m m' : Memo} (hr : r ∈ π.asked) (hr' : r' ∈ π.asked')
      (hsites : π.Sites E r.site r'.site) (hcontent : r'.content = r.content) (hkey : m.key = r.key)
      (hkey' : m'.key = r'.key) (hecho : m.signature.Echo π.reported E m'.signature) :
      Memos (some m) (some m')

variable {π}

/-- Memos answer a request of the composition and that of the repetition, or neither. -/
theorem Memos.recall {m m' : Option Memo} (h : π.Memos m m') {q q' : Request} (hq : q ∈ π.asked)
    (hq' : q' ∈ π.asked') {F : List VarDecl} (hsites : π.Sites F q.site q'.site)
    (hcontent : q'.content = q.content) :
    recallBy q.key m = none ∧ recallBy q'.key m' = none ∨
      ∃ g g', recallBy q.key m = some g ∧ recallBy q'.key m' = some g' ∧
        g.Echo π.reported F g' ∧ (∃ k, m = some ⟨some k, g⟩) ∧ ∃ k, m' = some ⟨some k, g'⟩ := by
  cases h with
  | untouched =>
    refine .inl ⟨?_, ?_⟩
    · cases q.key <;> rfl
    · cases q'.key <;> rfl
  | @made r r' E m m' hr hr' hmade hmade' hkey hkey' hecho =>
    -- A key that fits on one side fits on the other.
    have hfits : (∃ k, r.key = some k ∧ q.key = some k) → (∃ k, r'.key = some k ∧ q'.key = some k) ∧
        ∀ x, x ∈ E.map (·.name) ↔ x ∈ F.map (·.name) := by
      rintro ⟨k, hk, hk'⟩
      exact π.apart.key_eq_of_key_eq hr hq hk hk' hmade.shared hsites.shared hmade.shared'
        hsites.shared' hmade.input hsites.input (fun h => by rw [hmade.board, hsites.board, h]) hmade'
        hcontent
    have hfits' : (∃ k, r'.key = some k ∧ q'.key = some k) → ∃ k, r.key = some k ∧ q.key = some k := by
      rintro ⟨k, hk, hk'⟩
      exact (π.apart'.key_eq_of_key_eq hr' hq' hk hk' hmade.shared' hsites.shared' hmade.shared
        hsites.shared hmade.input.symm hsites.input.symm
        (fun h => by rw [← hmade.board, ← hsites.board, h]) hmade'.symm hcontent.symm).1
    by_cases hk : ∃ k, r.key = some k ∧ q.key = some k
    · obtain ⟨⟨k', hr', hq'⟩, hnames⟩ := hfits hk
      obtain ⟨k, hr, hq⟩ := hk
      obtain ⟨key, g⟩ := m
      obtain ⟨key', g'⟩ := m'
      obtain rfl : key = some k := hkey.trans hr
      obtain rfl : key' = some k' := hkey'.trans hr'
      refine .inr ⟨g, g', ?_, ?_, ?_, ⟨_, rfl⟩, ⟨_, rfl⟩⟩
      · exact recallBy_eq_some_iff.2 ⟨k, hq, rfl⟩
      · exact recallBy_eq_some_iff.2 ⟨k', hq', rfl⟩
      · exact ⟨hecho.input, hecho.output, hecho.exposed,
          hecho.required.imp fun e d hkin => hkin.congr fun x => (hnames x).symm⟩
    · have hnone : ∀ {q r : Request} {m : Memo}, m.key = r.key →
          (¬ ∃ k, r.key = some k ∧ q.key = some k) → recallBy q.key (some m) = none := by
        intro q r m hkey hno
        cases hrecall : recallBy q.key (some m) with
        | none => rfl
        | some g =>
          obtain ⟨k, hqk, hm⟩ := recallBy_eq_some_iff.1 hrecall
          obtain rfl := Option.some.inj hm
          exact absurd ⟨k, hkey.symm, hqk⟩ hno
      exact .inl ⟨hnone hkey hk, hnone hkey' fun h => hk (hfits' h)⟩

variable (π)

/-- Where the repetition stands while the composition stands somewhere: the code is the same, what
the composition has still to declare is declared already, and memos answer the same. -/
structure Stores (s t : Store H) : Prop where
  code : s.code = π.code
  code' : t.code = π.code
  stocked : s.exchange.Stocked π.board
  settled : t.exchange.Settled π.board π.final
  memos : ∀ j ∈ π.members, ∀ w w', s.wires.get? j = some w → t.wires.get? j = some w' →
    π.Memos w.composed w'.composed
  output : s.Remembers (fun _ _ g output => output = some g.output) π.members
  output' : t.Remembers (fun _ _ g output => output = some g.output) π.members

/-- Composing a wire that takes part gives the same with the reports in place of the surroundings,
unless these fall short. -/
def Echoes (nested : NestedCompose H) (requests : NestedRequests H) : Prop :=
  ∀ (s s' t : Store H) (j : Id .wire) (σ σ' : Site) (E : List VarDecl) (g : Signature),
    j ∈ π.members → π.Sites E σ σ' → σ.board = π.board → requests j σ s ⊆ π.asked →
    requests j σ' t ⊆ π.asked' → π.Stores s t → s.eval (nested j σ) = (.ok g, s') →
    s'.exchange.Settling π.board π.final → (∀ d ∈ g.required, Covers π.reported E d.name) →
      let again := t.eval (nested j σ')
      UpTo π.Short (fun g' => g.Echo π.reported E g' ∧ π.Stores s' again.2 ∧
        (s'.wires.get? j).bind (·.outputTy) = some g.output ∧
        (again.2.wires.get? j).bind (·.outputTy) = some g.output) again.1

variable {π}

variable (π) in
/-- A stage of a wire that takes part. -/
structure Staged (st : Stage H) : Prop where
  isBuiltIn : st.isBuiltIn = true
  nested : ∀ j, st.nested? = some j → j ∈ π.members
  changes : ∀ x, st.changes? = some x → x ∈ π.code.changed π.members

theorem staged {id : Id .wire} (hid : id ∈ π.members) (hw : π.code id = some w.code) {p : Placed H}
    (hp : p ∈ w.stages) : π.Staged p.stage := by
  obtain ⟨hplan, -, hnested⟩ := π.closed.stage hid hw hp
  refine ⟨(Stage.plan?_eq_some_iff.1 hplan).1, hnested, fun x hx => ?_⟩
  exact ⟨id, hid, w.code, hw, p.stage.bare, List.mem_map.2 ⟨p, hp, hplan⟩,
    by rw [Stage.changes?_bare, hx]⟩

/-- Changes that leave code, memos and output types alone. -/
theorem Stores.of_memoView_eq {t' : Store H} (h : π.Stores s t) (hcode : s'.code = s.code)
    (hcode' : t'.code = t.code)
    (hview : ∀ j, (s'.wires.get? j).map memoView = (s.wires.get? j).map memoView)
    (hview' : ∀ j, (t'.wires.get? j).map memoView = (t.wires.get? j).map memoView)
    (hstocked : s'.exchange.Stocked π.board) (hsettled : t'.exchange.Settled π.board π.final) :
    π.Stores s' t' := by
  have hback : ∀ {s s' : Store H} {j w'}, ((s'.wires.get? j).map memoView =
      (s.wires.get? j).map memoView) → s'.wires.get? j = some w' →
        ∃ w, s.wires.get? j = some w ∧ w.composed = w'.composed := by
    intro s s' j w' hj hw'
    rw [hw', Option.map_some] at hj
    obtain ⟨w, hw, hsame⟩ := Option.map_eq_some_iff.1 hj.symm
    exact ⟨w, hw, congrArg (·.1) hsame⟩
  refine ⟨hcode.trans h.code, hcode'.trans h.code', hstocked, hsettled, fun j hj w w' hw hw' => ?_,
    h.output.of_memoView_eq hview, h.output'.of_memoView_eq hview'⟩
  obtain ⟨v, hv, hm⟩ := hback (hview j) hw
  obtain ⟨v', hv', hm'⟩ := hback (hview' j) hw'
  rw [← hm, ← hm']
  exact h.memos j hj v v' hv hv'

/-! ### Stages -/

section Stages

variable {here here' : Site} {id : Id .wire}

/-- The parameters of a stage, twice. -/
theorem echoes_composeParams {nested : NestedCompose H} (hn : π.Echoes nested requests)
    (hs : π.Stores s t) (hbare : st'.bare = st.bare) (hst : π.Staged st)
    (hsites : π.Sites E here here') (hboard : here.board = π.board)
    (hasked : st.capabilities.parameters = true →
      paramRequests nested requests st ⟨st.name, position⟩ here 0 st.params s ⊆ π.asked)
    (hasked' : st'.capabilities.parameters = true →
      paramRequests nested requests st' ⟨st'.name, position⟩ here' 0 st'.params t ⊆ π.asked')
    (h : s.eval (composeParams nested st position here) = (.ok (needs, vars), s₁))
    (hsettling : s₁.exchange.Settling π.board π.final)
    (hc : ∀ e ∈ needs, Covers π.reported E e.name) :
    let again := t.eval (composeParams nested st' position here')
    UpTo π.Short (fun found => found.2 = vars ∧ List.Forall₂ (Kin π.reported E) needs found.1 ∧
      π.Stores s₁ again.2 ∧ st'.innerTy? again.2 = st.innerTy? s₁) again.1 := by
  have hb := hst.isBuiltIn
  have hb' : st'.isBuiltIn = true := by rw [← Stage.isBuiltIn_bare, hbare, Stage.isBuiltIn_bare, hb]
  have hnested : st'.nested? = st.nested? := by
    rw [← Stage.nested?_bare, hbare, Stage.nested?_bare]
  have hown' : ownNeeds st' position here' = ownNeeds st position here' := by
    rw [← Stage.ownNeeds_bare, hbare, Stage.ownNeeds_bare]
  have hlent : st'.lent here'.input = st.lent here.input := by
    rw [← Stage.lent_bare, hbare, Stage.lent_bare, hsites.input]
  rw [eval_composeParams s nested hb] at h
  rw [eval_composeParams t nested hb', hown', hnested]
  cases hown : ownNeeds st position here with
  | error e => simp [hown] at h
  | ok own =>
    cases hj : st.nested? with
    | none =>
      simp only [hown, hj, Prod.mk.injEq, Except.ok.injEq] at h
      obtain ⟨⟨rfl, rfl⟩, rfl⟩ := h
      obtain ⟨own', hown'', hkin⟩ := hsites.ownNeeds π.reports st position hown hc
      rw [hown'']
      refine ⟨rfl, hkin, hs, ?_⟩
      rw [Stage.innerTy?, Stage.innerTy?, hnested, hj]
      rfl
    | some j =>
      simp only [hown, hj] at h
      rcases hrun : s.eval (nested j (here.nested (st.lent here.input))) with ⟨_ | g, s₂⟩
      · simp [hrun] at h
      simp only [hrun, Prod.mk.injEq, Except.ok.injEq] at h
      obtain ⟨⟨rfl, rfl⟩, rfl⟩ := h
      obtain ⟨own', hown'', hkin⟩ := hsites.ownNeeds π.reports st position hown fun e he =>
        hc e (List.mem_append_left _ he)
      -- What the wire needs is covered, or is lent by the stage.
      have hcovers : ∀ d ∈ g.required, Covers π.reported (E ++ st.lent here.input) d.name := by
        intro d hd
        rw [Covers, List.map_append, List.mem_append]
        by_cases hlent : d.name ∈ (st.lent here.input).map (·.name)
        · exact .inl (.inr hlent)
        · refine (hc d (List.mem_append_right _ ?_)).imp .inl id
          exact List.mem_filter.2 ⟨hd, Kin.not_lent_iff.2 hlent⟩
      have hparam := Stage.parameters_of_nested? hj
      have hj' : st'.nested? = some j := hnested.trans hj
      have hagain := hn s s₂ t j _ _ _ g (hst.nested j hj)
        (hsites.nested (st.lent here.input)) hboard
        (fun r hr => hasked hparam (nested_subset_paramRequests nested requests hj _ _ s hr))
        (fun r hr => hasked' (Stage.parameters_of_nested? hj')
          (nested_subset_paramRequests nested requests hj' _ _ t (by rwa [hlent])))
        hs hrun hsettling hcovers
      rw [hown'', hlent]
      dsimp only at hagain ⊢
      generalize t.eval (nested j (here'.nested (st.lent here.input))) = result at hagain ⊢
      rcases result with ⟨_ | g', t₁⟩
      · exact .nested hagain
      obtain ⟨hecho, hs₁, hout, hout'⟩ := hagain
      refine ⟨hecho.exposed, List.rel_append hkin ?_, hs₁, ?_⟩
      · rw [outerNeeds, outerNeeds, hlent]
        exact Kin.not_lent hecho.required
      · rw [Stage.innerTy?, Stage.innerTy?, hnested, hj, Option.bind_some, Option.bind_some, hout,
          hout']

/-- The output type of a stage, twice. -/
theorem echoes_stageOutput (hs : π.Stores s t) (hbare : st'.bare = st.bare)
    (hb : st.isBuiltIn = true) (hat : s.PlannedAt id position st)
    (hat' : t.PlannedAt id position st') (hsites : π.Sites E here here')
    (hboard : here.board = π.board) (hc : ∀ x, st.reads? = some x → Covers π.reported E x)
    (hinner : st'.innerTy? t = st.innerTy? s) {wireName name : String} {output : Ty}
    (h : s.eval (stageOutput id wireName st ⟨name, position⟩ here) = (.ok output, s'))
    (hsettling : s'.exchange.Settling π.board π.final) (wireName' name' : String) :
    let again := t.eval (stageOutput id wireName' st' ⟨name', position⟩ here')
    UpTo π.Short (fun output' => output' = output ∧ π.Stores s' again.2 ∧
      ownVars st' ((again.2.stageAt? id position).getD st') =
        ownVars st ((s'.stageAt? id position).getD st)) again.1 := by
  have hcapabilities : st'.capabilities = st.capabilities := by
    rw [← Stage.capabilities_bare, hbare, Stage.capabilities_bare]
  have hb' : st'.isBuiltIn = true := by rw [← Stage.isBuiltIn_bare, hbare, Stage.isBuiltIn_bare, hb]
  cases hcompose : st.capabilities.compose with
  | false =>
    rw [eval_stageOutput, hcompose, if_neg (by simp)] at h
    obtain ⟨hout, rfl⟩ := Prod.mk.inj h
    have hvars := Stage.vars_of_isBuiltIn hb hcompose
    rw [eval_stageOutput, hcapabilities, hcompose, if_neg (by simp), ← Stage.defaultOutput_bare,
      hbare, Stage.defaultOutput_bare, hsites.input, hout]
    refine ⟨rfl, hs, ?_⟩
    rw [ownVars, ownVars, hcapabilities, hvars]
    rfl
  | true =>
    have hcompose' : st'.capabilities.compose = true := hcapabilities ▸ hcompose
    obtain ⟨st₁, s₁, hrun, hown⟩ := stageAt?_stageOutput hat hcompose h
    have hs₁ : s'.exchange = s₁.exchange := by
      rw [eval_stageOutput, if_pos hcompose, hrun] at h
      obtain rfl := congrArg (·.2) h
      rfl
    have hagain := Stage.upTo_compose_congr hbare hb (·.exchange.Settled here.board π.final)
      (hsites.hook (π.code.changed π.members) π.reports hb hc ((Stage.innerTy?_congr hbare t).symm.trans hinner) (hboard ▸ hs.stocked) hrun
      (hs₁ ▸ hboard ▸ hsettling) (hboard ▸ hs.settled))
    have hcode' := code_stageOutput hat' wireName' name' here'
    have hview' := same_stageOutput (π := memoView) (fun _ _ _ => rfl) t id wireName' st'
      ⟨name', position⟩ here'
    rcases hout : t.eval (stageOutput id wireName' st' ⟨name', position⟩ here') with ⟨e | output', t'⟩
    · rw [eval_stageOutput, if_pos hcompose'] at hout
      cases hanswer : ((st'.compose here').run t).1.2 with
      | ok ty => simp [hanswer, Except.mapError] at hout
      | error e =>
        rw [hanswer] at hagain
        simp only [hanswer, Except.mapError, Prod.mk.injEq, Except.error.injEq] at hout
        rw [← hout.1]
        exact Shortfall.annotate hagain _ _
    · rw [hout] at hcode' hview'
      obtain ⟨st₂, t₁, hrun', hown'⟩ := stageAt?_stageOutput hat' hcompose' hout
      rw [hrun'] at hagain
      obtain ⟨rfl, hexposed, hrequired, ht₁⟩ := hagain
      refine ⟨rfl, hs.of_memoView_eq ?_ hcode' ?_ hview' ?_ ?_, ?_⟩
      · have hcode := code_stageOutput hat wireName name here
        rwa [h] at hcode
      · have hview := same_stageOutput (π := memoView) (fun _ _ _ => rfl) s id wireName st
          ⟨name, position⟩ here
        rwa [h] at hview
      · have hgrows := (permits_grows π.board).stageOutput s id wireName st ⟨name, position⟩ here
          trivial
        rw [h] at hgrows
        exact (hgrows hs.stocked).1
      · rw [eval_stageOutput, if_pos hcompose', hrun'] at hout
        obtain rfl := congrArg (·.2) hout
        exact hboard ▸ ht₁
      · rw [hown', hown, ownVars, ownVars, hcapabilities, hexposed, hrequired]

/-- One stage, twice. -/
theorem echoes_composeStage {nested : NestedCompose H} (hn : π.Echoes nested requests)
    (hgrows : ∀ (s : Store H) j site,
      Exchange.Grows π.board s.exchange (s.eval (nested j site)).2.exchange) (hs : π.Stores s t)
    (hbare : st'.bare = st.bare) (hst : π.Staged st) (hat : s.PlannedAt id position st)
    (hat' : t.PlannedAt id position st') (hsites : π.Sites E σ σ') (hboard : σ.board = π.board)
    {wireName : String} (hb : b.Echo π.reported E c) (hasked : st.capabilities.parameters = true →
      paramRequests nested requests st ⟨st.name, position⟩
        (hereSite wireName wireInput σ b position) 0 st.params s ⊆ π.asked)
    (hasked' : st'.capabilities.parameters = true →
      paramRequests nested requests st' ⟨st'.name, position⟩
        (hereSite wireName' wireInput σ' c position) 0 st'.params t ⊆ π.asked')
    (h : s.eval (composeStage nested id wireName wireInput σ b position st) = (.ok b', s'))
    (hsettling : s'.exchange.Settling π.board π.final) (hc : b'.Covered π.reported E) :
    let again := t.eval (composeStage nested id wireName' wireInput σ' c position st')
    UpTo π.Short (fun c' => b'.Echo π.reported E c' ∧ π.Stores s' again.2) again.1 := by
  obtain ⟨htakes, needs, vars, s₁, output, b₁, hparams, hout, hadd, rfl⟩ := composeStage_ok h
  have hhere := hsites.here hb wireName wireName' wireInput position
  -- All that the stage needs is published by stages before it, or is among the needs of the wire.
  have hcovers : ∀ need ∈ (ownVars st ((s'.stageAt? id position).getD st)).2 ++ needs,
      Covers π.reported (E ++ b.exposed) need.name := by
    intro need hneed
    rw [Covers, List.map_append, List.mem_append]
    rcases (Bound.add_names hadd).2 need hneed with hmem | hmem
    · exact .inl (.inr hmem)
    · obtain ⟨d, hd, hname⟩ := List.mem_map.1 hmem
      rw [← hname]
      exact (hc d hd).imp_left .inl
  have hstocked₁ : s₁.exchange.Stocked π.board := by
    have hparams' := (permits_grows π.board).composeParams hgrows s st position
      (hereSite wireName wireInput σ b position)
    rw [hparams] at hparams'
    exact (hparams' hs.stocked).1
  have hsettling₁ : s₁.exchange.Settling π.board π.final := by
    have hgrows' := (permits_grows π.board).stageOutput s₁ id wireName st ⟨st.name, position⟩
      (hereSite wireName wireInput σ b position) trivial
    rw [hout] at hgrows'
    exact hsettling.of_grows hstocked₁ hgrows'
  have htakes' : st'.takes c.previous = true := by
    rw [← Stage.takes_bare, hbare, Stage.takes_bare, hb.previous, htakes]
  rw [eval_composeStage, if_pos htakes']
  dsimp only
  have hagain := echoes_composeParams hn hs hbare hst hhere hboard hasked hasked' hparams hsettling₁
    fun e he => hcovers e (List.mem_append_right _ he)
  dsimp only at hagain
  generalize t.eval (composeParams nested st' position (hereSite wireName' wireInput σ' c position)) =
    result at hagain ⊢
  rcases result with ⟨_ | ⟨needs', vars'⟩, t₁⟩
  · exact hagain
  obtain ⟨rfl, hkin, hs₁, hinner⟩ := hagain
  have hat₁ := hat.of_code_eq (hs₁.code.trans hs.code.symm)
  have hat₁' := hat'.of_code_eq (hs₁.code'.trans hs.code'.symm)
  have hreads : ∀ x, st.reads? = some x → Covers π.reported (E ++ b.exposed) x := by
    intro x hx
    obtain ⟨hcompose, hnone⟩ := Stage.of_reads? hx
    obtain ⟨st₁, s₂, hrun, hown⟩ := stageAt?_stageOutput hat₁ hcompose hout
    rw [hown] at hcovers
    obtain ⟨need, hneed, rfl⟩ := List.mem_map.1 (Stage.needed_of_reads? hrun
      (ownNeeds_of_composeParams hst.isBuiltIn hnone hparams) hx)
    exact hcovers need hneed
  have hagain := echoes_stageOutput hs₁ hbare hst.isBuiltIn hat₁ hat₁' hhere hboard hreads hinner hout
    hsettling wireName' st'.name
  dsimp only at hagain ⊢
  generalize t₁.eval (stageOutput id wireName' st' ⟨st'.name, position⟩
    (hereSite wireName' wireInput σ' c position)) = result at hagain ⊢
  rcases result with ⟨_ | output', t'⟩
  · exact hagain
  obtain ⟨rfl, hs', hown⟩ := hagain
  have hname : st'.name = st.name := by rw [← Stage.name_bare, hbare, Stage.name_bare]
  rw [hsites.shared] at hadd
  dsimp only at hown hadd ⊢
  rw [hown, hsites.shared', hname]
  by_cases hchanges : ∀ x, st.changes? = some x → x ∈ (E ++ b.exposed).map (·.name) ∨
      ∃ r, VarDecl.find? x π.reported = some r ∧ r.isMutable = true
  · have hkin' : List.Forall₂ (Kin π.reported (E ++ b.exposed))
        (ownVars st ((s'.stageAt? id position).getD st)).2
        (ownVars st ((s'.stageAt? id position).getD st)).2 := by
      cases hcompose : st.capabilities.compose with
      | false =>
        rw [ownVars, Stage.vars_of_isBuiltIn hst.isBuiltIn hcompose]
        exact .nil
      | true =>
        obtain ⟨st₁, s₂, hrun, hown⟩ := stageAt?_stageOutput hat₁ hcompose hout
        rw [hown]
        exact Stage.kin_required hst.isBuiltIn hrun hchanges
    have hc₁ : b₁.Covered π.reported E := hc
    obtain ⟨c₁, hadd', hb₁⟩ := hb.add π.reports (List.rel_append hkin' hkin) hc₁ hadd
    rw [hadd']
    exact ⟨⟨rfl, hb₁.exposed, hb₁.required⟩, hs'⟩
  · -- The stage changes a variable that is reported as read-only.
    push Not at hchanges
    obtain ⟨x, hx, hinner, hreadOnly⟩ := hchanges
    obtain ⟨r, hr⟩ := Option.isSome_iff_exists.1 (VarDecl.find?_isSome_iff.2
      ((hreads x (Stage.reads?_of_changes? hx)).resolve_left hinner))
    obtain ⟨st₁, s₂, hrun, hown⟩ := stageAt?_stageOutput hat₁
      (Stage.of_reads? (Stage.reads?_of_changes? hx)).1 hout
    obtain ⟨ty, hneed⟩ := Stage.required_of_changes? hrun hx
    rw [hown, hneed] at hadd ⊢
    have hfixed : r.isMutable = false := by simpa using hreadOnly r hr
    rw [hb.add_denied π.reports rfl hinner hr hfixed hadd]
    exact .readOnly (hst.changes x hx) hr hfixed

/-- Stages one after the other, twice. -/
theorem echoes_composeStages {nested : NestedCompose H} (hn : π.Echoes nested requests)
    (hgrows : ∀ (s : Store H) j site,
      Exchange.Grows π.board s.exchange (s.eval (nested j site)).2.exchange)
    (hsites : π.Sites E σ σ') (hboard : σ.board = π.board) {wireName : String}
    {stages stages' : List (Placed H)}
    (hbare : stages'.map (·.stage.bare) = stages.map (·.stage.bare))
    (hstages : ∀ p ∈ stages, π.Staged p.stage) (hs : π.Stores s t)
    (hat : s.PlannedFrom id position stages) (hb : b.Echo π.reported E c)
    (hasked : stagesRequests nested requests id wireName wireInput σ position stages b s ⊆ π.asked)
    (hasked' : stagesRequests nested requests id wireName' wireInput σ' position stages' c t ⊆
      π.asked')
    (h : s.eval (composeStages nested id wireName wireInput σ position stages b) = (.ok b', s'))
    (hsettling : s'.exchange.Settling π.board π.final) (hc : b'.Covered π.reported E) :
    let again := t.eval (composeStages nested id wireName' wireInput σ' position stages' c)
    UpTo π.Short (fun c' => b'.Echo π.reported E c' ∧ π.Stores s' again.2) again.1 := by
  induction stages generalizing s t position b c stages' with
  | nil =>
    obtain rfl : stages' = [] := by simpa using hbare
    simp only [composeStages, eval_pure, Prod.mk.injEq, Except.ok.injEq] at h
    obtain ⟨rfl, rfl⟩ := h
    exact ⟨hb, hs⟩
  | cons p rest ih =>
    obtain ⟨p', rest', rfl, hp, hrest⟩ := List.map_eq_cons_iff.1 hbare
    have hat' : t.PlannedAt id position p'.stage := by
      obtain ⟨plans, hplans, hpos⟩ := hat.head.of_code_eq (hs.code'.trans hs.code.symm)
      exact ⟨plans, hplans, hpos.trans (congrArg some (Stage.plan?_congr hp.symm))⟩
    rw [composeStages] at h
    obtain ⟨b₁, s₁, hstage, h⟩ := eval_bind_ok h
    obtain ⟨htakes, -⟩ := composeStage_ok hstage
    have htakes' : p'.stage.takes c.previous = true := by
      rw [← Stage.takes_bare, hp, Stage.takes_bare, hb.previous, htakes]
    simp only [stagesRequests, hstage, htakes, Bool.true_and] at hasked
    rw [stagesRequests] at hasked'
    simp only [htakes', Bool.true_and] at hasked'
    -- What the stage needs and declares stays so for the stages after it.
    have hkept := (permits_grows π.board).composeStages hgrows s₁ id wireName wireInput σ
      (position + 1) rest b₁ fun _ _ _ => trivial
    rw [h] at hkept
    have hstocked₁ : s₁.exchange.Stocked π.board := by
      have hfirst := (permits_grows π.board).composeStage hgrows s id wireName wireInput σ b position
        p.stage trivial
      rw [hstage] at hfirst
      exact (hfirst hs.stocked).1
    have hc₁ : b₁.Covered π.reported E := fun d hd => hc d (Bound.composeStages_required h hd)
    have hagain := echoes_composeStage hn hgrows hs hp
      (hstages p List.mem_cons_self) hat.head hat' hsites hboard hb
      (fun hparams r hr => hasked (List.mem_append_left _ (by simpa [hparams] using hr)))
      (fun hparams r hr => hasked' (List.mem_append_left _ (by simpa [hparams] using hr)))
      hstage (hsettling.of_grows hstocked₁ hkept) hc₁
    rw [composeStages, eval_bind]
    dsimp only at hagain ⊢
    rcases hstage' : t.eval (composeStage nested id wireName' wireInput σ' c position p'.stage) with
      ⟨_ | c₁, t₁⟩ <;> rw [hstage'] at hagain hasked'
    · exact hagain
    obtain ⟨hb₁, hs₁⟩ := hagain
    exact ih hrest (fun q hq => hstages q (List.mem_cons_of_mem _ hq)) hs₁
      (hat.tail (hs₁.code.trans hs.code.symm)) hb₁
      (fun r hr => hasked (List.mem_append_right _ hr))
      (fun r hr => hasked' (List.mem_append_right _ hr)) h

end Stages

/-! ### Wires -/

/-- The same wires without some memos. -/
theorem Stores.forget (h : π.Stores s t) (id : Id .wire) :
    π.Stores (s.modifyWire id forget) (t.modifyWire id forget) := by
  refine ⟨(code_forget s id).trans h.code, (code_forget t id).trans h.code', h.stocked, h.settled,
    fun j hj w w' hw hw' => ?_, h.output.forget, h.output'.forget⟩
  by_cases hij : id = j
  · subst hij
    rw [get?_modifyWire_self] at hw hw'
    obtain ⟨_, -, rfl⟩ := Option.map_eq_some_iff.1 hw
    obtain ⟨_, -, rfl⟩ := Option.map_eq_some_iff.1 hw'
    exact .untouched
  · rw [get?_modifyWire_of_ne _ hij] at hw hw'
    exact h.memos j hj w w' hw hw'

/-- Memos that the same request leaves. -/
theorem Stores.remember (h : π.Stores s t) {id : Id .wire} {input input' : Ty}
    {key key' : Option UInt64} {g g' : Signature}
    (hmemos : π.Memos (some ⟨key, g⟩) (some ⟨key', g'⟩)) :
    π.Stores ((s.modifyWire id (typed input g.output)).modifyWire id (remember key g))
      ((t.modifyWire id (typed input' g'.output)).modifyWire id (remember key' g')) := by
  refine ⟨by simp [h.code], by simp [h.code'], h.stocked, h.settled, fun j hj w w' hw hw' => ?_,
    h.output.remember fun _ _ => rfl, h.output'.remember fun _ _ => rfl⟩
  rw [modifyWire_modifyWire] at hw hw'
  by_cases hij : id = j
  · subst hij
    rw [get?_modifyWire_self] at hw hw'
    obtain ⟨_, -, rfl⟩ := Option.map_eq_some_iff.1 hw
    obtain ⟨_, -, rfl⟩ := Option.map_eq_some_iff.1 hw'
    exact hmemos
  · rw [get?_modifyWire_of_ne _ hij] at hw hw'
    exact h.memos j hj w w' hw hw'

/-- A wire that takes part, twice. -/
theorem echoes_composeLocked {nested : NestedCompose H} (hn : π.Echoes nested requests)
    (hgrows : ∀ (s : Store H) j site,
      Exchange.Grows π.board s.exchange (s.eval (nested j site)).2.exchange)
    (locked : List (Id .wire)) :
    π.Echoes (composeLocked nested locked) (lockedRequests nested requests locked) := by
  intro s s' t id σ σ' E g hid hsites hboard hasked hasked' hs h hsettling hc
  obtain ⟨plans, hplans, -⟩ := π.closed.known id hid
  obtain ⟨w, hw, hcode⟩ := exists_of_code (hs.code ▸ hplans)
  obtain ⟨w', hw', hcode'⟩ := exists_of_code (hs.code' ▸ hplans)
  have hcode : π.code id = some w.code := hcode ▸ hplans
  have hcode' : π.code id = some w'.code := hcode' ▸ hplans
  have hbare : w'.stages.map (·.stage.bare) = w.stages.map (·.stage.bare) := by
    have hsame := π.closed.bare_stages hid hcode'
    rw [← Option.some.inj (hcode.symm.trans hcode'), π.closed.bare_stages hid hcode] at hsame
    exact (List.map_injective_iff.2 (Option.some_injective _) hsame).symm
  have hcontent : t.contentHash locked t.depthBound [] w' =
      s.contentHash locked s.depthBound [] w := by
    rw [depthBound, depthBound, size_of_code_eq (hs.code'.trans hs.code.symm)]
    have hcode := hs.code
    have hcode' := hs.code'
    have hclosed := π.closed
    rw [contentHash_eq_hashWithin (hcode' ▸ hclosed) (fun _ h k hk => .inl (h k hk)) locked [] _ hid hw',
      contentHash_eq_hashWithin (hcode ▸ hclosed) (fun _ h k hk => .inl (h k hk)) locked [] _ hid hw,
      hcode, hcode']
  have hown := hasked (own_mem_lockedRequests hw nested requests locked σ)
  have hown' := hasked' (own_mem_lockedRequests hw' nested requests locked σ')
  have hrecall := (hs.memos id hid w w' hw hw').recall hown hown' hsites hcontent
  rw [← recalled?_eq, ← recalled?_eq] at hrecall
  rw [eval_composeLocked] at h ⊢
  simp only [hw] at h
  simp only [hw']
  rcases hrecall with ⟨hnone, hnone'⟩ | ⟨known, known', hsome, hsome', hecho, ⟨_, hm⟩, ⟨_, hm'⟩⟩
  · simp only [hnone, eval_composeFresh] at h
    simp only [hnone', eval_composeFresh]
    unfold lockedRequests at hasked hasked'
    simp only [hw, hnone] at hasked
    simp only [hw', hnone'] at hasked'
    rw [hnone] at hown
    rw [hnone'] at hown'
    have hinput := inputAt_congr hbare hsites.input
    rcases hb : (s.modifyWire id forget).eval (composeStages nested id w.name (inputAt w σ) σ 0
      w.stages { previous := inputAt w σ }) with ⟨_ | b, s₁⟩
    · simp [hb] at h
    simp only [hb, Prod.mk.injEq, Except.ok.injEq] at h
    obtain ⟨rfl, rfl⟩ := h
    rw [hinput] at hasked' ⊢
    have hagain := echoes_composeStages hn hgrows hsites hboard hbare
      (fun p hp => staged hid hcode hp) (hs.forget id)
      (plannedFrom_zero ((congrFun (hs.forget id).code id).trans hcode))
      ⟨rfl, rfl, .nil⟩ (fun r hr => hasked (List.mem_cons_of_mem _ hr))
      (fun r hr => hasked' (List.mem_cons_of_mem _ hr)) hb hsettling hc
    dsimp only at hagain ⊢
    generalize (t.modifyWire id forget).eval (composeStages nested id w'.name (inputAt w σ) σ' 0
      w'.stages { previous := inputAt w σ }) = result at hagain ⊢
    rcases result with ⟨_ | c, t₁⟩
    · exact hagain
    obtain ⟨hecho, hs₁⟩ := hagain
    have hsignature : (signatureOf w (inputAt w σ) b).Echo π.reported E
        (signatureOf w' (inputAt w σ) c) := ⟨rfl, hecho.previous, hecho.exposed, hecho.required⟩
    have hmemos : π.Memos (some ⟨s.composeKey locked w σ, signatureOf w (inputAt w σ) b⟩)
        (some ⟨t.composeKey locked w' σ', signatureOf w' (inputAt w σ) c⟩) :=
      .made hown hown' hsites hcontent (composeKey_eq ..) (composeKey_eq ..) hsignature
    refine ⟨hsignature, hs₁.remember hmemos, ?_, ?_⟩
    · exact outputTy_remember (hs₁.code ▸ hcode) ..
    · rw [← hsignature.output]
      exact outputTy_remember (hs₁.code' ▸ hcode') ..
  · simp only [hsome, Prod.mk.injEq, Except.ok.injEq] at h
    obtain ⟨rfl, rfl⟩ := h
    rw [hsome']
    refine ⟨hecho, hs, ?_, ?_⟩
    · rw [hw]
      exact hs.output id hid w _ _ hw hm rfl
    · rw [hw', ← hecho.output]
      exact hs.output' id hid w' _ _ hw' hm' rfl

/-- A nested wire, twice. -/
theorem echoes_composeWithin (depth : Nat) (trail : Trail) :
    π.Echoes (composeWithin depth trail) (requestsWithin depth trail) := by
  induction depth generalizing trail with
  | zero =>
    intro s s' t id σ σ' E g _ _ _ _ _ _ h
    simp [composeWithin] at h
  | succ depth ih =>
    intro s s' t id σ σ' E g hid hsites hboard hasked hasked' hs h
    rw [eval_composeWithin_succ] at h ⊢
    split at h
    · simp at h
    · split at h
      · simp at h
      · rename_i hentered hlocked
        simp only [requestsWithin, hentered, hlocked, Bool.or_false, Bool.false_eq_true, if_false]
          at hasked hasked'
        rw [if_neg hentered, if_neg hlocked]
        exact echoes_composeLocked (ih _)
          (fun s j site => (permits_grows π.board).composeWithin depth _ j site s) _ s s' t id σ σ' E
          g hid hsites hboard hasked hasked' hs h

/-- Composing a wire, whether the caller holds it or others share it, twice. -/
theorem echoes_composeAs (owned : Bool) : π.Echoes (composeAs owned) (requestsAs owned) := by
  intro s s' t id σ σ' E g hid hsites hboard hasked hasked' hs h hsettling hc
  have hbound : t.depthBound = s.depthBound := by
    rw [depthBound, depthBound, size_of_code_eq (hs.code'.trans hs.code.symm)]
  cases owned with
  | true =>
    have heval' : t.eval (composeAs true id σ') =
        t.eval (composeLocked (composeWithin s.depthBound ⟨[], [id]⟩) [id] id σ') :=
      hbound ▸ eval_composeOwned t id σ'
    rw [heval']
    refine echoes_composeLocked (echoes_composeWithin s.depthBound ⟨[], [id]⟩) (fun s j site => ?_)
      [id] s s' t id σ σ' E g hid hsites hboard hasked (hbound ▸ hasked') hs ?_ hsettling hc
    · exact (permits_grows π.board).composeWithin _ _ j site s
    · exact (eval_composeOwned s id σ).symm.trans h
  | false =>
    have heval' : t.eval (composeAs false id σ') =
        t.eval (composeWithin s.depthBound {} id σ') := hbound ▸ eval_composeShared t id σ'
    rw [heval']
    exact echoes_composeWithin s.depthBound {} s s' t id σ σ' E g hid hsites hboard hasked
      (hbound ▸ hasked') hs ((eval_composeShared s id σ).symm.trans h) hsettling hc

end Rehearsal

/-! ### Sufficiency -/

namespace Store

section Forgetting

variable (s : Store H) (T : List (Id .wire))

@[simp] theorem code_forgetting : (s.forgetting T).code = s.code := by
  induction T generalizing s with
  | nil => rfl
  | cons j T ih => exact (ih _).trans (code_forget s j)

@[simp] theorem exchange_forgetting : (s.forgetting T).exchange = s.exchange := by
  induction T generalizing s with
  | nil => rfl
  | cons j T ih => exact ih _

theorem composed_forgetting {s : Store H} {T : List (Id .wire)} {j : Id .wire}
    (hw : (s.forgetting T).wires.get? j = some w) (hj : j ∈ T) : w.composed = none := by
  -- A memo that is forgotten stays forgotten.
  have hkept : ∀ (T : List (Id .wire)) {s : Store H} {w : Wire H},
      (∀ w, s.wires.get? j = some w → w.composed = none) →
        (s.forgetting T).wires.get? j = some w → w.composed = none := by
    intro T
    induction T with
    | nil => exact fun h hw => h _ hw
    | cons k T ih =>
      intro s w h hw
      refine ih (fun w hw => ?_) hw
      obtain ⟨rfl, _, -, rfl⟩ | ⟨hk, hw⟩ := get?_of_modifyWire hw
      · rfl
      · exact h w hw
  induction T generalizing s with
  | nil => cases hj
  | cons k T ih =>
    rcases List.mem_cons.1 hj with rfl | hj
    · refine hkept T (fun w hw => ?_) hw
      rw [get?_modifyWire_self] at hw
      obtain ⟨_, -, rfl⟩ := Option.map_eq_some_iff.1 hw
      rfl
    · exact ih hw hj

end Forgetting

/-- What a composition of a wire without a memo reports about the variables that it needs. -/
theorem reports_composeAs {owned : Bool} {id : Id .wire} {wire : Wire H} {site : Site}
    {r : Signature} (hw : s.wires.get? id = some wire) (hfresh : wire.composed = none)
    (h : s.eval (composeAs owned id site) = (.ok r, s')) :
    Reports r.required site.shared ∧ (r.required.map (·.name)).Nodup := by
  have hrecalled : s.recalled? [id] wire site = none := by
    rw [recalled?_eq s [id] id wire site true, hfresh]
    cases Request.key _ <;> rfl
  obtain ⟨nested, hnested⟩ := eval_composeAs s owned id site
  rw [hnested] at h
  obtain ⟨b, places, rfl, hformed, -⟩ := wellFormed_composeLocked hw hrecalled h
  refine ⟨fun x d hd => ?_, hformed.required_once⟩
  obtain ⟨hmem, rfl⟩ := VarDecl.mem_of_find? hd
  exact hformed.described d hmem

/-- Needs that arise from reports alone are the reported ones. -/
theorem eq_of_kin {reported needs' : List VarDecl} (hnodup : (reported.map (·.name)).Nodup)
    (hsub : needs ⊆ reported) (h : List.Forall₂ (Kin reported []) needs needs') :
    needs' = needs := by
  induction h with
  | nil => rfl
  | @cons e d needs needs' hkin _ ih =>
    obtain ⟨he, hneeds⟩ := List.cons_subset.1 hsub
    rw [ih hneeds]
    rcases hkin.same with rfl | ⟨-, hd⟩
    · rfl
    · obtain ⟨hmem, hname⟩ := VarDecl.mem_of_find? hd
      rw [List.inj_on_of_nodup_map hnodup hmem he hname]

/-- Composing a tree of built-in stages again, with no memos and with nothing around it but the needs
that its signature reports, gives the same types, publications and needs, unless these fall short: a
variable that a stage of the tree changes is reported as read-only, or a channel has been declared with
a type that does not take itself. -/
theorem reported_needs_suffice (owned : Bool) {s s' : Store H} {id : Id .wire} {site : Site}
    {r : Signature} {T : Set (Id .wire)} (forgotten : List (Id .wire))
    (hclosed : s.code.Closed (fun st => ∀ k ∈ st.wires, k ∈ T) T) (hid : id ∈ T)
    (hfresh : ∀ j ∈ T, s.isComposed j = false) (hstocked : s.exchange.Stocked site.board)
    (h : s.eval (composeAs owned id site) = (.ok r, s')) (hforgotten : ∀ j ∈ T, j ∈ forgotten)
    (hL : NoCollision (requestsAs owned id site s))
    (hL' : NoCollision
      (requestsAs owned id (site.showing r.required) (s'.forgetting forgotten))) :
    UpTo (Shortfall (s.code.changed T) r.required (s'.exchange.declared? site.board))
      (fun r' => r'.input = r.input ∧ r'.output = r.output ∧ r'.exposed = r.exposed ∧
        r'.required = r.required)
      ((s'.forgetting forgotten).eval (composeAs owned id (site.showing r.required))).1 := by
  have hnone : ∀ j ∈ T, ∀ w, s.wires.get? j = some w → w.composed = none := by
    intro j hj w hw
    simpa [isComposed, hw] using hfresh j hj
  obtain ⟨stages, hstages, -⟩ := hclosed.known id hid
  obtain ⟨w, hw, -⟩ := exists_of_code hstages
  obtain ⟨hreports, hnodup⟩ := reports_composeAs hw (hnone id hid w hw) h
  have hcode : s'.code = s.code := by
    have := code_composeAs s owned id site
    rwa [h] at this
  have hstocked' : s'.exchange.Stocked site.board := by
    have := (permits_grows site.board).composeAs s owned id site
    rw [h] at this
    exact (this hstocked).1
  let π : Rehearsal H :=
    { code := s.code, members := T, around := site.shared, reported := r.required, board := site.board
      final := s'.exchange.declared? site.board, asked := requestsAs owned id site s
      asked' := requestsAs owned id (site.showing r.required) (s'.forgetting forgotten)
      closed := hclosed, reports := hreports, apart := hL, apart' := hL' }
  have hstores : π.Stores s (s'.forgetting forgotten) := by
    refine ⟨rfl, by simp [π, hcode], hstocked, ?_, fun j hj w w' hw hw' => ?_, .of_fresh hfresh,
      fun j hj w m k hw hm => ?_⟩
    · rw [exchange_forgetting]
      exact ⟨hstocked', fun _ => rfl⟩
    · rw [hnone j hj w hw, composed_forgetting hw' (hforgotten j hj)]
      exact .untouched
    · rw [composed_forgetting hw (hforgotten j hj)] at hm
      cases hm
  have hagain := Rehearsal.echoes_composeAs owned s s' (s'.forgetting forgotten) id site
    (site.showing r.required) [] r hid ⟨rfl, rfl, rfl, by simp [π], by simp [π, Site.showing]⟩ rfl
    (List.Subset.refl _) (List.Subset.refl _) hstores h
    (fun name d hd => ⟨d, hd, .refl d⟩) fun d hd => .inr (List.mem_map.2 ⟨d, hd, rfl⟩)
  refine hagain.imp fun r' hr' => ?_
  obtain ⟨hecho, -⟩ := hr'
  exact ⟨hecho.input, hecho.output, hecho.exposed,
    eq_of_kin hnodup (List.Subset.refl _) hecho.required⟩

/-- A wire that reads a variable and then changes it. -/
def rereading : Store Host.none :=
  let (w, s) := ({} : Store Host.none).addWire "rereading" false
  s.modifyWire w fun x =>
    { x with stages := [{ stage := .get "x" none }, { stage := .update "x" .nothing none }] }

/-- A site with a variable that may be changed. -/
def rereadingSite : Site :=
  { input := .nothing, wireInput := .nothing, board := ⟨0⟩, shared := [.assignable "x" .int] }

/-- The variable is reported as it is first asked for, and then may not be changed. -/
theorem rereading_needs_fall_short :
    ∃ r s' e, rereading.eval (composeAs true ⟨0⟩ rereadingSite) = (.ok r, s') ∧
      r.required = [.readOnly "x" .int] ∧
      ((s'.forgetting [⟨0⟩]).eval
        (composeAs true ⟨0⟩ (rereadingSite.showing r.required))).1 = .error e ∧
      e.message = "Variable x is protected, shard Update (position 1) cannot expose it" := by
  have hrequired : ((rereading.eval (composeAs true ⟨0⟩ rereadingSite)).1.toOption.map (·.required)) =
      some [.readOnly "x" .int] := by decide +kernel
  have hdenied : ((rereading.eval (composeAs true ⟨0⟩ rereadingSite)).1.toOption.bind fun r =>
      (((((rereading.eval (composeAs true ⟨0⟩ rereadingSite)).2.forgetting [⟨0⟩]).eval
        (composeAs true ⟨0⟩ (rereadingSite.showing r.required))).1.map fun _ => "").tryCatch
          fun e => .ok e.message).toOption) =
      some "Variable x is protected, shard Update (position 1) cannot expose it" := by decide +kernel
  rcases heval : rereading.eval (composeAs true ⟨0⟩ rereadingSite) with ⟨_ | r, s'⟩ <;>
    rw [heval] at hrequired hdenied
  · cases hrequired
  · change ((((s'.forgetting [⟨0⟩]).eval (composeAs true ⟨0⟩
      (rereadingSite.showing r.required))).1.map fun _ => "").tryCatch fun e => .ok e.message).toOption = _ at hdenied
    cases hagain : ((s'.forgetting [⟨0⟩]).eval
        (composeAs true ⟨0⟩ (rereadingSite.showing r.required))).1 with
    | ok r' =>
      rw [hagain] at hdenied
      have hno : "" = "Variable x is protected, shard Update (position 1) cannot expose it" :=
        Option.some.inj hdenied
      exact absurd hno (by decide)
    | error e =>
      rw [hagain] at hdenied
      exact ⟨r, s', e, rfl, Option.some.inj hrequired, hagain, Option.some.inj hdenied⟩

/-- A wire that sends to a channel, and runs a wire that reads a variable and changes another. -/
def reporting : Store Host.none :=
  let (v, s) := ({} : Store Host.none).addWire "inner" false
  let (w, s) := s.addWire "outer" false
  let s := s.modifyWire v fun x =>
    { x with stages := [{ stage := .get "y" none }, { stage := .update "z" .nothing none }] }
  s.modifyWire w fun x => { x with stages :=
    [{ stage := .inline { wire := some v } }, { stage := .add { value := .ref "k" } },
      { stage := .produce { name := "c" } none }, { stage := .set "y" .nothing none }] }

/-- A site with one variable more than the wire needs. -/
def reportingSite : Site :=
  { input := .int, wireInput := .int, board := ⟨0⟩
    shared := [.readOnly "k" .int, .assignable "q" .string, .assignable "y" .int,
      .assignable "z" .int] }

/-- Three variables are reported, and they are enough. -/
theorem reporting_needs_suffice :
    ∃ r s' r', reporting.eval (composeAs false ⟨1⟩ reportingSite) = (.ok r, s') ∧
      r.required = [.readOnly "y" .int, .assignable "z" .int, .readOnly "k" .int] ∧
      ((s'.forgetting [⟨0⟩, ⟨1⟩]).eval
        (composeAs false ⟨1⟩ (reportingSite.showing r.required))).1 = .ok r' ∧
      r'.input = r.input ∧ r'.output = r.output ∧ r'.exposed = r.exposed ∧
      r'.required = r.required := by
  have hrequired : (reporting.eval (composeAs false ⟨1⟩ reportingSite)).1.toOption.map (·.required) =
      some [.readOnly "y" .int, .assignable "z" .int, .readOnly "k" .int] := by decide +kernel
  have hapart : NoCollision (((reporting.eval (composeAs false ⟨1⟩ reportingSite)).1.toOption.map
      fun r => requestsAs false ⟨1⟩ (reportingSite.showing r.required)
        ((reporting.eval (composeAs false ⟨1⟩ reportingSite)).2.forgetting [⟨0⟩, ⟨1⟩])).getD []) := by
    decide +kernel
  have hok : ((reporting.eval (composeAs false ⟨1⟩ reportingSite)).1.toOption.map fun r =>
      (((reporting.eval (composeAs false ⟨1⟩ reportingSite)).2.forgetting [⟨0⟩, ⟨1⟩]).eval
        (composeAs false ⟨1⟩ (reportingSite.showing r.required))).1.toBool) = some true := by
    decide +kernel
  have hempty : (reporting.exchange.board reportingSite.board).entries.isEmpty = true := by
    decide +kernel
  rcases heval : reporting.eval (composeAs false ⟨1⟩ reportingSite) with ⟨_ | r, s'⟩ <;>
    rw [heval] at hrequired hapart hok
  · cases hrequired
  · change some ((s'.forgetting [⟨0⟩, ⟨1⟩]).eval
      (composeAs false ⟨1⟩ (reportingSite.showing r.required))).1.toBool = some true at hok
    have hagain := reported_needs_suffice false (T := {i | i.row < reporting.wires.size})
      [⟨0⟩, ⟨1⟩] (closed_of_rows (by decide +kernel)) (by decide +kernel)
      (fresh_of_rows (by decide +kernel))
      ⟨by decide +kernel, fun name hne => absurd (by
        rw [Board.channel, List.isEmpty_iff.1 hempty]
        rfl) hne⟩
      heval ?_ (by decide +kernel) hapart
    · cases hresult : ((s'.forgetting [⟨0⟩, ⟨1⟩]).eval
          (composeAs false ⟨1⟩ (reportingSite.showing r.required))).1 with
      | error e =>
        rw [hresult] at hok
        cases hok
      | ok r' =>
        rw [hresult] at hagain
        exact ⟨r, s', r', rfl, Option.some.inj hrequired, hresult, hagain⟩
    · rintro ⟨j⟩ hj
      have hsize : reporting.wires.size = 2 := by decide +kernel
      change j < reporting.wires.size at hj
      simp only [List.mem_cons, Id.mk.injEq, List.not_mem_nil, or_false]
      omega

end Store

end Dataflow
