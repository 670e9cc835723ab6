import Dataflow.Proofs.Names
import Dataflow.Proofs.Readiness
/-!
# Names are found when wires are warmed up

A stage that is warmed up looks up its variable in the scope of the run: it has to be there, and it
must not be protected if the stage changes it. `Passes` says of the code of a wire that this goes
well under an outlook, in the order in which the stages are visited, and whatever wires they run.
Under a scope that shows at least as much no stage then fails on account of a variable.
-/

namespace Dataflow

variable {H : Host} {s : Store H} {stage : Stage H} (st : Stage H) {plans : List (Option (Stage H))}
  {o : Outlook}

namespace Stage

/-- The variable that has to be there for a stage. -/
def reads? : Stage H → Option String
  | add operand => operand.referent?
  | get x _ => some x
  | update x _ _ => some x
  | _ => none

/-- The variable that must not be protected for a stage. -/
def writes? : Stage H → Option String
  | set x _ _ => some x
  | update x _ _ => some x
  | _ => none

/-- The names that a stage declares. -/
def declared (st : Stage H) : Set String := {x | x ∈ st.declares}

@[simp] theorem reads?_bare : st.bare.reads? = st.reads? := by
  cases st with
  | add operand => exact operand.referent?_bare
  | _ => rfl

@[simp] theorem writes?_bare : st.bare.writes? = st.writes? := by
  cases st <;> rfl

@[simp] theorem declared_bare : st.bare.declared = st.declared := by
  simp [declared]

end Stage

/-- The stages of a wire use names as an outlook permits, and declare some. The names that a stage
lends to the wire that it runs count for that wire only. -/
inductive Passes (code : Code H) : List (Option (Stage H)) → Outlook → Set String → Prop where
  | nil {o : Outlook} : Passes code [] o ∅
  | leaf {o : Outlook} {st : Stage H} {rest : List (Option (Stage H))} {E : Set String}
      (hn : st.nested? = none) (hreads : ∀ x, st.reads? = some x → x ∈ o.shown)
      (hwrites : ∀ x, st.writes? = some x → x ∉ o.barred)
      (hrest : Passes code rest (o.declare st.declared) E) :
      Passes code (some st :: rest) o (st.declared ∪ E)
  | nest {o : Outlook} {st : Stage H} {j : Id .wire} {plans rest : List (Option (Stage H))}
      {D E : Set String} (hn : st.nested? = some j) (hj : code j = some plans)
      (hsub : Passes code plans (o.lend st.declared) D) (hrest : Passes code rest (o.declare D) E) :
      Passes code (some st :: rest) o (D ∪ E)

/-! ### One stage -/

/-- Whether an error is about a variable that is not there or is protected. -/
def ActivationError.isAboutVariable : ActivationError → Bool
  | missingVariable _ | protectedVariable _ => true
  | _ => false

/-- Whether a stage fails to warm up on account of a variable. -/
def Call.missesVariable : Call → Bool
  | warmup _ (.ok (.error e)) => e.isAboutVariable
  | _ => false

namespace Stage

/-- A stage that finds its variable fails for other reasons, if at all. -/
theorem warmup_leaf (hb : stage.isBuiltIn = true) (hn : stage.nested? = none)
    (nested : NestedWarmup H) (wire : Wire H) (s : Store H)
    (hreads : ∀ x, stage.reads? = some x → x ∈ (s.vars.outlook wire.scope).shown)
    (hwrites : ∀ x, stage.writes? = some x → x ∉ (s.vars.outlook wire.scope).barred) :
    ∀ e, ((stage.warmup nested wire).run s).1.answer = .ok (.error e) →
      e.isAboutVariable = false := by
  intro e he
  cases stage with
  | add operand =>
    simp only [warmup, Store.run_bind, Store.run_getThe] at he
    cases href : operand.referent? with
    | none =>
      simp only [resolveOperand, href] at he
      cases he
    | some x =>
      obtain ⟨slot, hslot⟩ := Option.isSome_iff_exists.1 (hreads x href)
      simp only [resolveOperand, href, hslot] at he
      cases he
  | set x ty slot =>
    have hfree : s.vars.isProtected wire.scope x = false := by
      simpa [Variables.outlook] using hwrites x rfl
    rw [run_warmup_set, hfree] at he
    cases he
  | get x slot =>
    obtain ⟨found, hfound⟩ := Option.isSome_iff_exists.1 (hreads x rfl)
    simp only [warmup, Store.run_bind, Store.run_getThe, hfound] at he
    cases he
  | update x ty slot =>
    have hfree : s.vars.isProtected wire.scope x = false := by
      simpa [Variables.outlook] using hwrites x rfl
    obtain ⟨found, hfound⟩ := Option.isSome_iff_exists.1 (hreads x rfl)
    rw [run_warmup_update, hfree, hfound] at he
    cases he
  | inline sub =>
    obtain ⟨_ | j, running⟩ := sub
    · cases he
      rfl
    · cases hn
  | bound name sub slot =>
    obtain ⟨_ | j, running⟩ := sub
    · cases he
      rfl
    · cases hn
  | produce sender queue | broadcast sender fan | consume r queue | listen r queue =>
    simp only [warmup, Store.run_bind, warmupChannel, Store.run_modifyGetThe] at he
    split at he
    · cases he
    · rename_i e' he'
      cases he
      simp only [Except.mapError] at he'
      split at he' <;> cases he'
      rfl
  | unit u => cases hb
  | _ => cases he

/-- A stage without a warm-up has neither a wire nor names. -/
theorem idle_of_lifecycle (h : stage.capabilities.lifecycle = false) :
    stage.nested? = none ∧ stage.declared = ∅ := by
  have hidle : stage.nested? = none ∧ stage.declares = [] := by
    cases stage <;> first | exact ⟨rfl, rfl⟩ | cases h
  exact ⟨hidle.1, by simp [declared, hidle.2]⟩

/-- What a stage lends to the wire that it runs is declared first. -/
theorem declares_prepared {j : Id .wire} (hj : stage.nested? = some j) {wire : Wire H}
    (hv : s.vars.Scoped wire.scope) :
    Variables.Declares wire.scope stage.declares s.vars (stage.prepared wire s).vars := by
  cases stage with
  | inline sub => exact .refl hv
  | bound name sub slot => exact (Variables.declares_declare hv name).1
  | _ => cases hj

end Stage

/-! ### A whole warm-up -/

namespace Store

section Unhindered

variable {code : Code H} {T : Set (Id .wire)} (hclosed : code.Closed (·.isBuiltIn = true) T)
  {σ : Id .scope} {depth : Nat}

/-- Warming up a wire that passes runs into no trouble about variables, and afterwards the names are
there that the wire declares. -/
def Unhindered (code : Code H) (T : Set (Id .wire)) (σ : Id .scope) (depth : Nat) : Prop :=
  ∀ (s : Store H) (j : Id .wire) (input : Value) (board : Id .board) (plans : List (Option (Stage H)))
    (o : Outlook) (D : Set String), j ∈ T → s.code = code → s.vars.Scoped σ → code j = some plans →
    Passes code plans o D → o ≤ s.vars.outlook σ →
      (∀ c ∈ warmupCalls depth j input σ board s, c.missesVariable = false) ∧
        ∀ s', s.eval (warmupWithin depth j input σ board) = (.ok (.ok ()), s') →
          o.declare D ≤ s'.vars.outlook σ

include hclosed

/-- What holds for the wire that a stage runs holds for the stage. -/
theorem unhindered_nest (ih : Unhindered code T σ depth) {j : Id .wire}
    (hn : stage.nested? = some j) (hjT : j ∈ T) (hj : code j = some plans) {D : Set String}
    (hsub : Passes code plans (o.lend stage.declared) D) {wire : Wire H} (hscope : wire.scope = σ)
    {s₁ : Store H} (hcode : s.code = code) (hv : s.vars.Scoped σ) (ho : o ≤ s.vars.outlook σ)
    {step : Step H PUnit} (h : (stage.warmup (warmupWithin depth) wire).run s = (step, s₁)) :
    (∀ e, step.answer = .ok (.error e) → e.isAboutVariable = false) ∧
      (∀ c ∈ warmupCalls depth j wire.input wire.scope wire.board (stage.prepared wire s),
        c.missesVariable = false) ∧
      (step.answer = .ok (.ok ()) → o.declare D ≤ s₁.vars.outlook σ) := by
  subst hscope
  have hdeclares : Variables.Declares wire.scope stage.declares s.vars
      (stage.prepared wire s).vars := Stage.declares_prepared hn hv
  have hprepared : (stage.prepared wire s).code = code := by
    rw [← hcode]
    funext k
    simp only [Store.code, Stage.wires_prepared]
  have houtlook := hdeclares.outlook hv
  obtain ⟨hcalls, hafter⟩ := ih (stage.prepared wire s) j wire.input wire.board plans
    (o.lend stage.declared) D hjT hprepared hdeclares.ready hj hsub
    (houtlook ▸ Outlook.lend_le_declare ho stage.declared)
  obtain ⟨-, -, hnest⟩ := Stage.warmup_spec stage (warmupWithin depth) wire s
  rw [h] at hnest
  obtain ⟨hstore, hanswer⟩ := hnest j hn
  rcases hinner : (stage.prepared wire s).eval
    (warmupWithin depth j wire.input wire.scope wire.board) with ⟨halt | e | _, s₂⟩ <;>
    rw [hinner] at hstore hanswer <;> dsimp only at hstore hanswer
  · exact ⟨by simp [hanswer], hcalls, by simp [hanswer]⟩
  · obtain ⟨name, hanswer⟩ := hanswer
    refine ⟨fun e he => ?_, hcalls, by simp [hanswer]⟩
    rw [hanswer] at he
    cases he
    rfl
  · refine ⟨by simp [hanswer], hcalls, fun _ => ?_⟩
    rw [hstore]
    have hlent := hafter s₂ hinner
    have hsettles := (settles_warmupWithin hclosed hjT hprepared hdeclares.ready hinner).2
    -- what was lent is a variable of the run, so it is not barred behind the stage either
    have hkept : s₂.vars.outlook wire.scope =
        ((s.vars.outlook wire.scope).declare stage.declared).declare
          {x | x ∈ Visit.names (code.visits depth j)} := by
      rw [hsettles.vars.outlook hdeclares.ready, houtlook]
      rfl
    refine ⟨fun x hx => hlent.1 (hx.imp_left .inl), fun x hx => ⟨?_, (hlent.2 hx).2⟩⟩
    rw [hkept] at hx
    exact ho.2 hx.1.1

/-- Warming up the stages of a wire from a position on. -/
theorem unhindered_warmupFrom (ih : Unhindered code T σ depth) {i : Id .wire} (hi : i ∈ T)
    (hplans : code i = some plans) {rest : List (Option (Stage H))} {position : Nat}
    (hrest : plans.drop position = rest) {E : Set String} (hpass : Passes code rest o E)
    (hcode : s.code = code) (hv : s.vars.Scoped σ)
    (hscope : (s.wires.get? i).map Wire.scope = some σ) (ho : o ≤ s.vars.outlook σ) :
    (∀ c ∈ warmupFromCalls (warmupWithin depth) (warmupCalls depth) i position rest.length s,
        c.missesVariable = false) ∧
      ∀ s', s.eval (warmupFrom (warmupWithin depth) i position rest.length) = (.ok (.ok ()), s') →
        o.declare E ≤ s'.vars.outlook σ := by
  induction rest generalizing s position o E with
  | nil =>
    cases hpass
    refine ⟨by simp [warmupFromCalls], fun s' h => ?_⟩
    cases h
    rw [Outlook.declare_empty]
    exact ho
  | cons plan rest ihrest =>
    have hmark := settles_mark hv i position
    have hcode' : (s.mark i position).code = code := hmark.code.trans hcode
    obtain ⟨w, hw, hwcode⟩ := exists_of_code (congrFun hcode' i ▸ hplans)
    have hat : w.code[position]? = some plan := by
      rw [hwcode, ← List.head?_drop, hrest]
      rfl
    obtain ⟨p, hp, hpmem, hplan, hstage⟩ := placedAt?_of_code hw hat
    obtain ⟨hbare, hbuilt, hsub⟩ := hclosed.stage hi (hwcode ▸ hplans) hpmem
    obtain rfl : some p.stage.bare = plan := hbare.symm.trans hplan
    rw [Stage.isBuiltIn_bare] at hbuilt
    have hwscope : w.scope = σ := by
      have := hmark.scope i hscope
      rw [hw] at this
      exact Option.some.inj this
    have hv' : (s.mark i position).vars.Scoped σ := hmark.vars.ready
    have ho' : o ≤ (s.mark i position).vars.outlook σ := ho
    have hchild : ∀ j, p.stage.nested? = some j → code.Child i j := fun j hj =>
      ⟨plans, hplans, p.stage.bare, List.mem_of_mem_drop (hrest ▸ List.mem_cons_self), by simpa⟩
    -- Behind the stage the rest of the wire finds the names that the stage has declared.
    have hlater : ∀ {D E'} {s₁ : Store H} {V : List (Visit H)}, Passes code rest (o.declare D) E' →
        Settles σ (s.mark i position) s₁ V → o.declare D ≤ s₁.vars.outlook σ →
          (∀ c ∈ warmupFromCalls (warmupWithin depth) (warmupCalls depth) i (position + 1)
            rest.length s₁, c.missesVariable = false) ∧
          ∀ s', s₁.eval (warmupFrom (warmupWithin depth) i (position + 1) rest.length) =
            (.ok (.ok ()), s') → o.declare (D ∪ E') ≤ s'.vars.outlook σ := by
      intro D E' s₁ V hpass' hsettles ho₁
      rw [← Outlook.declare_declare]
      exact ihrest (by rw [← List.tail_drop, hrest, List.tail_cons]) hpass'
        (hsettles.code.trans hcode') hsettles.vars.ready
        (hsettles.scope i (hmark.scope i hscope)) ho₁
    rw [List.length_cons, warmupFromCalls, eval_warmupFrom_succ, hw, hp]
    dsimp only
    by_cases hlife : p.stage.capabilities.lifecycle = true
    · rw [if_pos hlife, if_pos hlife]
      rcases hstep : (p.stage.warmup (warmupWithin depth) w).run (s.mark i position) with ⟨step, s₁⟩
      dsimp only
      -- One stage: what it answers, what the wire that it runs reports, and what it declares.
      have hone : ∃ D E', E = D ∪ E' ∧ Passes code rest (o.declare D) E' ∧
          (∀ e, step.answer = .ok (.error e) → e.isAboutVariable = false) ∧
          (∀ c ∈ (p.stage.nested?.map fun j => warmupCalls depth j w.input w.scope w.board
            (p.stage.prepared w (s.mark i position))).getD [], c.missesVariable = false) ∧
          (step.answer = .ok (.ok ()) → o.declare D ≤ s₁.vars.outlook σ) := by
        cases hpass with
        | leaf hn hreads hwrites hpass' =>
          rw [Stage.nested?_bare] at hn
          simp only [Stage.reads?_bare, Stage.writes?_bare, Stage.declared_bare] at hreads hwrites hpass'
          have hanswer : ∀ e, step.answer = .ok (.error e) → e.isAboutVariable = false := by
            have hleaf := Stage.warmup_leaf hbuilt hn (warmupWithin depth) w (s.mark i position)
              (fun x hx => hwscope ▸ ho'.1 (hreads x hx))
              (fun x hx hbarred => hwrites x hx (ho'.2 (hwscope ▸ hbarred)))
            rwa [hstep] at hleaf
          refine ⟨_, _, by rw [Stage.declared_bare], hpass', hanswer, by simp [hn], fun hok => ?_⟩
          obtain ⟨s₂, -, hvars, -, hleaf, -⟩ :=
            (Stage.warmup_ok hbuilt (hwscope ▸ hv') hstep hok).inner
          obtain rfl := hleaf hn
          rw [hwscope] at hvars
          rw [hvars.outlook hv']
          exact Outlook.declare_mono ho' _
        | nest hn hj hsub' hpass' =>
          rw [Stage.nested?_bare] at hn
          rw [Stage.declared_bare] at hsub'
          obtain ⟨hanswer, hcalls, hafter⟩ := unhindered_nest hclosed ih hn (hsub _ hn) hj hsub'
            hwscope hcode' hv' ho' hstep
          exact ⟨_, _, rfl, hpass', hanswer, by simpa [hn] using hcalls, hafter⟩
      obtain ⟨D, E', rfl, hpass', hanswer, hinner, hafter⟩ := hone
      have hlog : ∀ {tail : List Call}, (∀ c ∈ tail, c.missesVariable = false) →
          ∀ c ∈ .warmup ⟨i, position⟩ step.answer ::
            ((p.stage.nested?.map fun j => warmupCalls depth j w.input w.scope w.board
              (p.stage.prepared w (s.mark i position))).getD [] ++ tail),
          c.missesVariable = false := by
        intro tail htail c hc
        rcases List.mem_cons.1 hc with rfl | hc
        · rcases hans : step.answer with halt | e | _
          · rfl
          · exact hanswer e hans
          · rfl
        · rcases List.mem_append.1 hc with hc | hc
          · exact hinner c hc
          · exact htail c hc
      rcases hans : step.answer with halt | e | _ <;> rw [hans] at hlog <;> dsimp only
      · exact ⟨hlog (List.forall_mem_nil _), by simp⟩
      · exact ⟨hlog (List.forall_mem_nil _), by simp⟩
      · obtain ⟨-, hsettles⟩ := settles_stage hclosed
          (fun s s' j input board hj hc hv h => settles_warmupWithin hclosed hj hc hv h) hi hstage
          hcode' hchild hwscope (Stage.warmup_ok hbuilt (hwscope ▸ hv') hstep hans)
        obtain ⟨htail, hend⟩ := hlater hpass' hsettles (hafter hans)
        exact ⟨hlog htail, hend⟩
    · rw [if_neg hlife, if_neg hlife]
      have hidle := Stage.idle_of_lifecycle (by simpa using hlife)
      cases hpass with
      | leaf hn _ _ hpass' =>
        rw [Stage.declared_bare, hidle.2] at hpass'
        rw [Stage.declared_bare, hidle.2]
        refine hlater hpass' (.of_same hv' rfl rfl (fun _ h => h) fun _ _ => rfl) ?_
        rw [Outlook.declare_empty]
        exact ho'
      | nest hn => simp [hidle.1] at hn

/-- No stage of a wire that passes fails on account of a variable. -/
theorem unhindered_warmupWithin (σ : Id .scope) (depth : Nat) : Unhindered code T σ depth := by
  induction depth with
  | zero =>
    intro s j input board plans o D _ _ _ _ _ _
    exact ⟨by simp [warmupCalls], by simp [warmupWithin]⟩
  | succ depth ih =>
    intro s i input board plans o D hi hcode hv hplans hpass ho
    obtain ⟨w, hw, hwcode⟩ := exists_of_code (congrFun hcode i ▸ hplans)
    have hadopt := settles_adopt hv i input board
    have hlength : plans.length = w.stages.length := by
      rw [← hwcode]
      exact List.length_map _
    have hscope : ((s.adopt i input σ board).wires.get? i).map Wire.scope = some σ := by
      rw [adopt, get?_modifyWire_self, hw]
      rfl
    obtain ⟨hcalls, hafter⟩ := unhindered_warmupFrom hclosed ih hi hplans plans.drop_zero hpass
      (hadopt.code.trans hcode) hadopt.vars.ready hscope ho
    rw [hlength] at hcalls hafter
    refine ⟨fun c hc => ?_, fun s' h => hafter s' (warmupFrom_of_warmupWithin hw h)⟩
    rcases mem_warmupCalls_succ hw hc with ⟨-, rfl⟩ | ⟨x, rfl⟩ | hc
    · rfl
    · rfl
    · exact hcalls c hc

end Unhindered

end Store

end Dataflow
