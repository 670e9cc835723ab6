import Dataflow.Proofs.Calls
import Dataflow.Proofs.Requests
/-!
# Composed wires are ready to be warmed up

Warming up refuses a wire that is not composed, at any depth. A composition that succeeds has asked
for every wire that its wire runs, and has composed it, except below a wire that its memo answered.
There it relies on what an earlier composition has left. The memo of a wire does not notice that the
composition of a wire below has failed since, at another place, so it may answer for a wire that
cannot be warmed up.
-/

namespace Dataflow

variable {H : Host} {s s' : Store H} {n : Nat}

/-- Whether a wire is refused because it is not composed. -/
def Call.isRefusal : Call → Bool
  | refuse _ => true
  | _ => false

/-! ### Warming up in a new scope -/

namespace Store

/-- The store with a scope for a new run. -/
def opened (s : Store H) (parent : Option (Id .scope)) : Id .scope × Store H :=
  ((s.vars.addScope parent).1, { s with vars := (s.vars.addScope parent).2 })

/-- The log of warming up a wire in a new scope. -/
def openCalls (id : Id .wire) (input : Value) (parent : Option (Id .scope)) (board : Id .board)
    (s : Store H) : List Call :=
  warmupCalls (s.opened parent).2.depthBound id input (s.opened parent).1 board (s.opened parent).2

theorem eval_warmup (s : Store H) (id : Id .wire) (input : Value) (parent : Option (Id .scope))
    (board : Id .board) :
    s.eval (warmup id input parent board) =
      (s.opened parent).2.eval
        (warmupWithin (s.opened parent).2.depthBound id input (s.opened parent).1 board) := by
  simp only [warmup, warmupIn, eval_bind, eval_get, eval_modify]
  rfl

/-- The log of cleaning up has no refusal and no answer of a warm-up. -/
theorem cleanedUp_of_mem_cleanupBelowCalls {endNested : Id .wire → Exec H PUnit}
    {calls : Id .wire → Store H → List Call} (hcalls : ∀ j s, ∀ c ∈ calls j s, ∃ x, c = .cleanup x)
    {keep : Value} {i : Id .wire} (position : Nat) (s : Store H) :
    ∀ c ∈ cleanupBelowCalls endNested calls keep i position s, ∃ x, c = .cleanup x := by
  induction position generalizing s with
  | zero => simp [cleanupBelowCalls]
  | succ position ih =>
    intro c hc
    rw [cleanupBelowCalls] at hc
    cases hp : s.placedAt? i position with
    | none =>
      rw [hp] at hc
      exact ih _ c hc
    | some placed =>
      simp only [hp] at hc
      split at hc
      · split at hc
        · rcases List.mem_cons.1 hc with rfl | hc
          · exact ⟨_, rfl⟩
          · rcases List.mem_append.1 hc with hc | hc
            · cases hj : placed.stage.nested? with
              | none => simp [hj] at hc
              | some j =>
                rw [hj] at hc
                exact hcalls j _ c hc
            · rcases heval : (s.unmark i position).eval (placed.stage.cleanup endNested keep) with
                ⟨_ | st, s₁⟩ <;> rw [heval] at hc
              · simp at hc
              · exact ih _ c hc
        · exact ih _ c hc
      · exact ih _ c hc

theorem cleanedUp_of_mem_cleanupCalls (depth : Nat) (keep : Value) (i : Id .wire) (s : Store H) :
    ∀ c ∈ cleanupCalls depth keep i s, ∃ x, c = .cleanup x := by
  induction depth generalizing i s with
  | zero => simp [cleanupCalls]
  | succ depth ih =>
    intro c hc
    rw [cleanupCalls] at hc
    cases hw : s.wires.get? i with
    | none => simp [hw] at hc
    | some wire =>
      rw [hw] at hc
      exact cleanedUp_of_mem_cleanupBelowCalls (fun j s => ih j s) _ s c hc

/-- The log of warming up a wire: the wire is refused, or its stages are warmed up and cleaned up
after a failure. -/
theorem mem_warmupCalls_succ {depth : Nat} {i : Id .wire} {input : Value} {scope : Id .scope}
    {board : Id .board} {wire : Wire H} {c : Call} (hw : s.wires.get? i = some wire)
    (hc : c ∈ warmupCalls (depth + 1) i input scope board s) :
    (wire.composed.isNone = true ∧ c = .refuse i) ∨ (∃ x, c = .cleanup x) ∨
      c ∈ warmupFromCalls (warmupWithin depth) (warmupCalls depth) i 0 wire.stages.length
        (s.adopt i input scope board) := by
  simp only [warmupCalls, hw] at hc
  split at hc
  · rename_i hcomposed
    exact .inl ⟨hcomposed, List.mem_singleton.1 hc⟩
  · rcases List.mem_append.1 hc with hc | hc
    · exact .inr (.inr hc)
    · split at hc
      · exact .inr (.inl (cleanedUp_of_mem_cleanupCalls _ _ i _ c hc))
      · cases hc

/-! ### Wires that are ready -/

/-- What being ready depends on: whether a wire is composed, and the wires that it runs. -/
def rig (w : Wire H) : Bool × List (Option (Id .wire)) :=
  (w.composed.isSome, w.stages.map (·.stage.nested?))

/-- The wires in `T` are composed and run only each other. -/
def Ready (T : Set (Id .wire)) (s : Store H) : Prop :=
  ∀ i ∈ T, ∀ w, s.wires.get? i = some w → w.composed.isSome = true ∧
    ∀ p ∈ w.stages, ∀ j, p.stage.nested? = some j → j ∈ T

theorem Ready.of_keeps {T U : Set (Id .wire)} (h : s.Ready T) (hkeep : Keeps rig U s s') :
    s'.Ready T := by
  intro i hi w hw
  have hsame := hkeep.same i
  rw [hw, Option.map_some] at hsame
  obtain ⟨w₀, hw₀, hrig⟩ := Option.map_eq_some_iff.1 hsame.symm
  simp only [rig, Prod.mk.injEq] at hrig
  obtain ⟨hcomposed, hnested⟩ := h i hi w₀ hw₀
  refine ⟨hrig.1 ▸ hcomposed, fun p hp j hj => ?_⟩
  have hmem : some j ∈ w.stages.map (·.stage.nested?) := List.mem_map.2 ⟨p, hp, hj⟩
  rw [← hrig.2] at hmem
  obtain ⟨p₀, hp₀, hj₀⟩ := List.mem_map.1 hmem
  exact hnested p₀ hp₀ j hj₀

theorem keeps_rig_mark (s : Store H) (i : Id .wire) (n : Nat) :
    Keeps rig Set.univ s (s.mark i n) := by
  refine .modifyWire (Set.mem_univ i) fun w _ => Prod.ext rfl (List.ext_getElem? fun m => ?_)
  simp only [rig, Wire.modifyPlaced, List.getElem?_map, List.getElem?_modify]
  split
  · cases w.stages[m]? <;> rfl
  · simp

/-- A stage that runs the wire of what stood at its place may replace what stands there now. -/
theorem keeps_rig_setStage (hkeep : Keeps rig Set.univ s s') {i : Id .wire} {placed : Placed H}
    (hp : s.placedAt? i n = some placed) {st : Stage H} (hst : st.nested? = placed.stage.nested?) :
    Keeps rig Set.univ s' (s'.modifyWire i (·.setStage n st)) := by
  refine .modifyWire (Set.mem_univ i) fun w' hw' => Prod.ext rfl ?_
  refine w'.map_setStage Stage.nested? n st fun p hp' => ?_
  obtain ⟨w, hw, hat⟩ := Option.bind_eq_some_iff.1 hp
  have hsame := hkeep.same i
  rw [hw, hw', Option.map_some, Option.map_some, Option.some.injEq] at hsame
  have hnested : (w'.stages.map (·.stage.nested?))[n]? = (w.stages.map (·.stage.nested?))[n]? :=
    congrArg (fun r => r.2[n]?) hsame
  rw [List.getElem?_map, List.getElem?_map, hp', hat] at hnested
  rw [hst]
  exact (Option.some.inj hnested).symm

/-! ### Nothing is refused -/

/-- Warming up a wire in `T` refuses none and leaves wires ready. -/
def Readies (T : Set (Id .wire)) (nested : NestedWarmup H)
    (calls : Id .wire → Value → Id .scope → Id .board → Store H → List Call) : Prop :=
  ∀ (s : Store H) j input scope board, j ∈ T → s.Ready T →
    (∀ c ∈ calls j input scope board s, c.isRefusal = false) ∧
      ∀ s', s.eval (nested j input scope board) = (.ok (.ok ()), s') → Keeps rig Set.univ s s'

section Readies

variable {T : Set (Id .wire)} {nested : NestedWarmup H}
  {calls : Id .wire → Value → Id .scope → Id .board → Store H → List Call}

/-- Warming up one stage, and with it the wire that it runs. -/
theorem readies_stage (hn : Readies T nested calls) {s₁ : Store H} (hs : s.Ready T) {i : Id .wire}
    (hi : i ∈ T) {wire : Wire H} {placed : Placed H} (hw : s.wires.get? i = some wire)
    (hp : s.placedAt? i n = some placed) {step : Step H PUnit}
    (h : (placed.stage.warmup nested wire).run s = (step, s₁)) :
    (∀ c ∈ (placed.stage.nested?.map fun j => calls j wire.input wire.scope wire.board
        (placed.stage.prepared wire s)).getD [], c.isRefusal = false) ∧
      (step.answer = .ok (.ok ()) →
        Keeps rig Set.univ s (s₁.modifyWire i (·.setStage n step.stage))) := by
  obtain ⟨hharness, hleaf, hnest⟩ := Stage.warmup_spec placed.stage nested wire s
  rw [h] at hharness hleaf hnest
  have hset : Keeps rig Set.univ s s₁ →
      Keeps rig Set.univ s (s₁.modifyWire i (·.setStage n step.stage)) := fun hkeep =>
    hkeep.trans (keeps_rig_setStage hkeep hp (congrArg (·.2) hharness))
  cases hj : placed.stage.nested? with
  | none => exact ⟨by simp, fun _ => hset (.of_wires_eq (hleaf hj).1)⟩
  | some j =>
    have hprepared : Keeps rig Set.univ s (placed.stage.prepared wire s) :=
      .of_wires_eq (Stage.wires_prepared ..)
    have hat : wire.stages[n]? = some placed := by
      rw [placedAt?, hw] at hp
      exact hp
    have hjT : j ∈ T := (hs i hi wire hw).2 placed (List.mem_of_getElem? hat) j hj
    obtain ⟨hcalls, hkeep⟩ := hn _ j wire.input wire.scope wire.board hjT (hs.of_keeps hprepared)
    refine ⟨hcalls, fun hok => hset ?_⟩
    obtain ⟨hstore, hanswer⟩ := hnest j hj
    rcases hinner : (placed.stage.prepared wire s).eval
      (nested j wire.input wire.scope wire.board) with ⟨_ | _ | _, s₂⟩ <;>
      rw [hinner] at hstore hanswer <;> dsimp only at hstore hanswer
    · rw [hanswer] at hok
      cases hok
    · obtain ⟨name, hanswer⟩ := hanswer
      rw [hanswer] at hok
      cases hok
    · rw [hstore]
      exact hprepared.trans (hkeep s₂ hinner)

/-- Warming up the stages of a wire from a position on. -/
theorem readies_warmupFrom (hn : Readies T nested calls) {i : Id .wire} (hi : i ∈ T)
    (position count : Nat) (hs : s.Ready T) :
    (∀ c ∈ warmupFromCalls nested calls i position count s, c.isRefusal = false) ∧
      ∀ s', s.eval (warmupFrom nested i position count) = (.ok (.ok ()), s') →
        Keeps rig Set.univ s s' := by
  induction count generalizing s position with
  | zero =>
    refine ⟨by simp [warmupFromCalls], fun s' h => ?_⟩
    cases h
    exact .refl s
  | succ count ih =>
    have hmark := s.keeps_rig_mark i position
    rw [warmupFromCalls, eval_warmupFrom_succ]
    rcases hw : (s.mark i position).wires.get? i with _ | wire
    · refine ⟨by simp, fun s' h => ?_⟩
      cases h
      exact hmark
    rcases hp : (s.mark i position).placedAt? i position with _ | placed
    · refine ⟨by simp, fun s' h => ?_⟩
      cases h
      exact hmark
    dsimp only
    by_cases hlife : placed.stage.capabilities.lifecycle = true
    · rw [if_pos hlife, if_pos hlife]
      rcases hstep : (placed.stage.warmup nested wire).run (s.mark i position) with ⟨step, s₁⟩
      obtain ⟨hinner, hkeep⟩ := readies_stage hn (hs.of_keeps hmark) hi hw hp hstep
      dsimp only
      rcases hanswer : step.answer with halt | e | _
      · exact ⟨by simpa [Call.isRefusal] using hinner, by simp⟩
      · exact ⟨by simpa [Call.isRefusal] using hinner, by simp⟩
      · have hfirst := hmark.trans (hkeep hanswer)
        obtain ⟨hrest, hkeep'⟩ := ih (position + 1) (hs.of_keeps hfirst)
        refine ⟨?_, fun s' h => hfirst.trans (hkeep' s' h)⟩
        intro c hc
        rcases List.mem_cons.1 hc with rfl | hc
        · rfl
        · rcases List.mem_append.1 hc with hc | hc
          · exact hinner c hc
          · exact hrest c hc
    · rw [if_neg hlife, if_neg hlife]
      obtain ⟨hrest, hkeep⟩ := ih (position + 1) (hs.of_keeps hmark)
      exact ⟨hrest, fun s' h => hmark.trans (hkeep s' h)⟩

end Readies

/-- Among wires that are ready none is refused. -/
theorem readies_warmupWithin (T : Set (Id .wire)) (depth : Nat) :
    Readies (H := H) T (warmupWithin depth) (warmupCalls depth) := by
  induction depth with
  | zero =>
    intro s j input scope board _ _
    exact ⟨by simp [warmupCalls], by simp [warmupWithin]⟩
  | succ depth ih =>
    intro s i input scope board hi hs
    cases hw : s.wires.get? i with
    | none =>
      rw [warmupCalls, eval_warmupWithin_succ, hw]
      refine ⟨by simp, fun s' h => ?_⟩
      cases h
      exact .refl s
    | some wire =>
      have hadopt : Keeps rig Set.univ s (s.adopt i input scope board) :=
        .modifyWire (Set.mem_univ i) fun _ _ => rfl
      obtain ⟨hcalls, hkeep⟩ := readies_warmupFrom ih hi 0 wire.stages.length (hs.of_keeps hadopt)
      refine ⟨fun c hc => ?_, fun s' h =>
        hadopt.trans (hkeep s' (warmupFrom_of_warmupWithin hw h))⟩
      rcases mem_warmupCalls_succ hw hc with ⟨hnone, -⟩ | ⟨x, rfl⟩ | hc
      · rw [← Option.not_isSome, (hs i hi wire hw).1] at hnone
        cases hnone
      · rfl
      · exact hcalls c hc

/-- A wire that is not refused itself fails only on account of a stage, and the log has the
failure. -/
theorem mem_warmupCalls_of_error {depth : Nat} {i : Id .wire} {input : Value} {scope : Id .scope}
    {board : Id .board} {e : ActivationError}
    (h : s.eval (warmupWithin depth i input scope board) = (.ok (.error e), s')) :
    (∃ name, e = .notComposed name ∧ .refuse i ∈ warmupCalls depth i input scope board s) ∨
      ∃ x, .warmup x (.ok (.error e)) ∈ warmupCalls depth i input scope board s := by
  have hfrom : ∀ (nested : NestedWarmup H)
      (calls : Id .wire → Value → Id .scope → Id .board → Store H → List Call) (count position : Nat)
      (s s' : Store H), s.eval (warmupFrom nested i position count) = (.ok (.error e), s') →
        ∃ x, .warmup x (.ok (.error e)) ∈ warmupFromCalls nested calls i position count s := by
    intro nested calls count
    induction count with
    | zero =>
      intro position s s' h
      cases h
    | succ count ih =>
      intro position s s' h
      rw [eval_warmupFrom_succ] at h
      rw [warmupFromCalls]
      rcases hw : (s.mark i position).wires.get? i with _ | wire
      · simp [hw] at h
      rcases hp : (s.mark i position).placedAt? i position with _ | placed
      · simp [hw, hp] at h
      simp only [hw, hp] at h ⊢
      split at h
      · rename_i hlife
        rw [if_pos hlife]
        rcases hstep : (placed.stage.warmup nested wire).run (s.mark i position) with ⟨step, s₁⟩
        rw [hstep] at h
        dsimp only at h ⊢
        rcases hanswer : step.answer with halt | e' | _ <;> rw [hanswer] at h <;> dsimp only at h ⊢
        · cases h
        · cases h
          exact ⟨_, List.mem_cons_self⟩
        · obtain ⟨x, hx⟩ := ih _ _ _ h
          exact ⟨x, List.mem_cons_of_mem _ (List.mem_append_right _ hx)⟩
      · rename_i hlife
        rw [if_neg hlife]
        exact ih _ _ _ h
  cases depth with
  | zero => simp [warmupWithin] at h
  | succ depth =>
    rw [eval_warmupWithin_succ] at h
    rw [warmupCalls]
    cases hw : s.wires.get? i with
    | none => simp [hw] at h
    | some wire =>
      simp only [hw] at h ⊢
      split at h
      · rename_i hcomposed
        cases h
        exact .inl ⟨_, rfl, by simp [hcomposed]⟩
      · rename_i hcomposed
        rw [if_neg hcomposed]
        rcases heval : (s.adopt i input scope board).eval
          (warmupFrom (warmupWithin depth) i 0 wire.stages.length) with ⟨_ | e' | _, s₁⟩ <;>
          rw [heval] at h <;> dsimp only at h
        · cases h
        · rcases hclean : s₁.eval (cleanup i .nothing) with ⟨_ | _, s₂⟩ <;> rw [hclean] at h <;>
            cases h
          obtain ⟨x, hx⟩ := hfrom _ (warmupCalls depth) _ _ _ _ heval
          exact .inr ⟨x, List.mem_append_left _ hx⟩
        · cases h

/-! ### After a composition -/

theorem answered_composeOwned {id : Id .wire} {site : Site} {signature : Signature}
    (h : s.eval (composeOwned id site) = (.ok signature, s')) :
    Answered s s' (ownedRequests id site s) ∧ ∃ r ∈ ownedRequests id site s, r.wire = id := by
  rw [eval_composeOwned] at h
  exact answered_composeLocked (fun _ _ _ _ _ => answered_composeWithin) h

/-- Where every wire below a wire is composed, the wires below it are ready. -/
theorem ready_of_below {id : Id .wire}
    (h : ∀ j, s.code.Below id j → (∃ w, s.wires.get? j = some w) → s.isComposed j = true) :
    s.Ready {j | s.code.Below id j} := by
  intro i hi w hw
  refine ⟨?_, fun p hp j hj => ?_⟩
  · have hcomposed := h i hi ⟨w, hw⟩
    simpa [isComposed, hw] using hcomposed
  · have hplan : p.stage.plan? = some p.stage.bare := by
      refine Stage.plan?_eq_some_iff.2 ⟨?_, rfl⟩
      cases hst : p.stage <;> first | rfl | simp [hst, Stage.nested?] at hj
    have hchild : s.code.Child i j :=
      ⟨w.code, by simp [code, hw], p.stage.bare, List.mem_map.2 ⟨p, hp, hplan⟩, by simpa using hj⟩
    exact Relation.ReflTransGen.tail hi hchild

/-- Right after a composition that succeeds, from its memo or afresh, warming up refuses neither the
wire nor any wire below it, if the wires below each wire that was answered from its memo were
composed. -/
theorem composed_warms_up {s s' : Store H} {id : Id .wire} {site : Site} {signature : Signature}
    (h : s.eval (composeOwned id site) = (.ok signature, s'))
    (hmemo : ∀ r ∈ ownedRequests id site s, r.recalled = true →
      ∀ j, s.code.Below r.wire j → s.isComposed j = true)
    (input : Value) (parent : Option (Id .scope)) (board : Id .board) :
    (∀ c ∈ openCalls id input parent board s', c.isRefusal = false) ∧
      ∀ e, (s'.eval (warmup id input parent board)).1 = .ok (.error e) →
        ∃ x, .warmup x (.ok (.error e)) ∈ openCalls id input parent board s' := by
  obtain ⟨hanswered, hasked⟩ := answered_composeOwned h
  have hready : s'.Ready {j | s'.code.Below id j} := by
    refine ready_of_below fun j hj _ => ?_
    rw [hanswered.code] at hj
    rw [hanswered.composed]
    rcases hanswered.below hasked hj with hr | ⟨r, hr, hrecalled, hbelow⟩
    · exact .inr hr
    · exact .inl (hmemo r hr hrecalled j hbelow)
  have hopened : (s'.opened parent).2.Ready {j | s'.code.Below id j} :=
    hready.of_keeps (U := Set.univ) (.of_wires_eq rfl)
  have hcalls : ∀ c ∈ openCalls id input parent board s', c.isRefusal = false :=
    (readies_warmupWithin {j | s'.code.Below id j} (s'.opened parent).2.depthBound
      (s'.opened parent).2 id input (s'.opened parent).1 board Relation.ReflTransGen.refl
      hopened).1
  refine ⟨hcalls, fun e hanswer => ?_⟩
  rw [eval_warmup] at hanswer
  rcases mem_warmupCalls_of_error (Prod.ext hanswer rfl) with ⟨name, -, hrefused⟩ | hfailed
  · cases hcalls _ hrefused
  · exact hfailed

/-- Two wires that run the same wire, which adds one to a number. -/
def sharing : Store Host.none :=
  let (v, s) := ({} : Store Host.none).addWire "increment" false
  let (a, s) := s.addWire "a" false
  let (b, s) := s.addWire "b" false
  let one : Placed Host.none := { stage := .add { value := .int 1 } }
  let runs : Placed Host.none := { stage := .inline { wire := some v } }
  let s := s.modifyWire v fun w => { w with stages := [one] }
  let s := s.modifyWire a fun w => { w with stages := [runs] }
  s.modifyWire b fun w => { w with stages := [runs] }

/-- A site without variables. -/
def plainSite (input : Ty) : Site := { input, wireInput := input, board := ⟨0⟩ }

/-- The first composition of a wire has nothing to remember. -/
theorem sharing_warms_up :
    ∃ signature s', sharing.eval (composeOwned ⟨1⟩ (plainSite .int)) = (.ok signature, s') ∧
      ∀ c ∈ openCalls ⟨1⟩ (.int 1) none ⟨0⟩ s', c.isRefusal = false := by
  have hok : (sharing.eval (composeOwned ⟨1⟩ (plainSite .int))).1.isOk = true := by decide +kernel
  have hfresh : ∀ r ∈ ownedRequests ⟨1⟩ (plainSite .int) sharing, r.recalled = false := by
    decide +kernel
  rcases heval : sharing.eval (composeOwned ⟨1⟩ (plainSite .int)) with ⟨_ | signature, s'⟩
  · rw [heval] at hok
    cases hok
  · refine ⟨signature, s', rfl, (composed_warms_up heval (fun r hr hrecalled => ?_) _ _ _).1⟩
    rw [hfresh r hr] at hrecalled
    cases hrecalled

/-- The store after both wires were composed, the second with a string, which the inner wire does
not take. -/
def shared : Store Host.none :=
  ((sharing.eval (composeOwned ⟨1⟩ (plainSite .int))).2.eval
    (composeOwned ⟨2⟩ (plainSite .string))).2

/-- The first wire composes again from its memo, but the wire that it runs is refused. -/
theorem remembered_is_refused :
    (shared.eval (composeOwned ⟨1⟩ (plainSite .int))).1.isOk = true ∧
      (shared.eval (composeOwned ⟨1⟩ (plainSite .int))).2.isComposed ⟨0⟩ = false ∧
      ∃ c ∈ openCalls ⟨1⟩ (.int 1) none ⟨0⟩ (shared.eval (composeOwned ⟨1⟩ (plainSite .int))).2,
        c.isRefusal = true := by
  decide +kernel

end Store

end Dataflow
