import Dataflow.Proofs.Poise
/-!
# Typed wires run safely

A typed wire that has been warmed up runs without failures of types: whatever goes wrong is the
doing of a stage that is there to fail, or an overflow, or a wire in which one of these happened.

One activation takes a poised wire to a poised wire, or ends its turn in a way that its typing
allows. By induction on the stages that are left, and on the depth of nesting, so does a resumption.
-/

namespace Dataflow

variable {H : Host} {i l : Id .wire} {c : Contract} {e : Event H} {w : Wire H} {st st₀ : Stage H}

/-! ### What a resumption may come to -/

/-- What may become of a poised wire that is resumed: it is poised again, it ends with the value and
the variables that its typing says, or a stage of it fails and is excused. -/
def Upshot (own : String → Option (Id .slot)) (code : Code H) (i : Id .wire) (c : Contract)
    (log : List (Event H)) (s : Store H) : Except Halt Progress → Prop
  | .error _ => True
  | .ok (.suspended _) => ∃ position, s.cursorAt? i = some position ∧
      Poised code s (tagsOf own s.vars) i position c
  | .ok (.finished output) => Fits output c.output ∧ Holds (tagsOf own s.vars) c.after ∧
      ∀ j, code.Below i j → s.Calm j
  | .ok (.failed failure) => ∃ e ∈ log, ∃ error, e.wire = i ∧ Excused e ∧
      e.answer = .ok (.error error) ∧ failure = ⟨error.message, e.stage.name, e.position⟩

/-- A resumption with its log: it comes to what it may, and all failures on the way are excused. -/
structure Safe (own : String → Option (Id .slot)) (code : Code H) (i : Id .wire) (c : Contract)
    (log : List (Event H)) (r : Except Halt Progress × Store H) : Prop where
  upshot : Upshot own code i c log r.2 r.1
  innocent : Innocent log

/-- A log may begin with more activations, if those that fail are excused. -/
theorem Safe.cons {own : String → Option (Id .slot)} {code : Code H} {log : List (Event H)}
    {r : Except Halt Progress × Store H} (h : Safe own code i c log r)
    (he : ∀ error, e.answer = .ok (.error error) → Excused e) (hinner : Innocent e.inner) :
    Safe own code i c (e :: log) r := by
  obtain ⟨answer, s⟩ := r
  refine ⟨?_, .cons he hinner h.innocent⟩
  have hupshot := h.upshot
  rcases answer with _ | _ | _ | _
  · exact hupshot
  · exact hupshot
  · exact hupshot
  · obtain ⟨e', he', hfailed⟩ := hupshot
    exact ⟨e', List.mem_cons_of_mem _ he', hfailed⟩

/-! ### After one activation -/

namespace Store

theorem vars_suspended (s : Store H) (i : Id .wire) (position : Nat) (point : Suspension) :
    (s.suspended i position point).vars = s.vars := by
  unfold suspended
  split <;> rfl

theorem get?_suspended {s : Store H} (hw : s.wires.get? i = some w) (position : Nat)
    (point : Suspension) :
    (s.suspended i position point).wires.get? i =
      some { w with cursor := .suspendedAt position point } := by
  rw [suspended, hw]
  change (s.modifyWire i _).wires.get? i = _
  rw [get?_modifyWire_self, hw]
  rfl

theorem get?_suspended_of_ne (s : Store H) (h : i ≠ l) (position : Nat) (point : Suspension) :
    (s.suspended i position point).wires.get? l = s.wires.get? l := by
  unfold suspended
  split
  · rfl
  · exact s.get?_modifyWire_of_ne h _

theorem stageAt?_suspended (s : Store H) (i : Id .wire) (position : Nat) (point : Suspension)
    (l : Id .wire) (n : Nat) : (s.suspended i position point).stageAt? l n = s.stageAt? l n := by
  unfold suspended
  split
  · rfl
  · exact s.stageAt?_modifyWire i (by exact fun _ => rfl) l

end Store

/-- A stage of a wire was replaced after its activation led to `s₁`, and the wire has gone on by
nothing but its own value and cursor. -/
structure Replaced (s₁ s' : Store H) (i : Id .wire) (w w' : Wire H) (position : Nat)
    (st : Stage H) : Prop where
  row : s'.wires.get? i = some w'
  stages : w'.stages = (w.setStage position st).stages
  input : w'.input = w.input
  run : w'.run = w.run
  others : ∀ l, l ≠ i → s'.wires.get? l = s₁.wires.get? l
  vars : s'.vars = s₁.vars
  stops : ∀ r, (s₁.run r).stopRequested = false → (s'.run r).stopRequested = false

namespace Replaced

variable {s s₁ s' : Store H} {w' : Wire H} {position : Nat}

theorem proceed (hw : s₁.wires.get? i = some w) (position : Nat) (st : Stage H)
    (collector : Option (Id .collector)) (t : Trace) (output : Value) :
    Replaced s₁ (((s₁.modifyWire i (·.setStage position st)).record collector t).modifyWire i
      fun w => { w with current := output }) i w { w.setStage position st with current := output }
      position st where
  row := by simp [hw]
  stages := rfl
  input := rfl
  run := rfl
  others l hl := by
    rw [Store.get?_modifyWire_of_ne _ hl.symm, Store.wires_record,
      Store.get?_modifyWire_of_ne _ hl.symm]
  vars := by cases collector <;> rfl
  stops r hr := by cases collector <;> exact hr

theorem suspend (hw : s₁.wires.get? i = some w) (position : Nat) (st : Stage H)
    (collector : Option (Id .collector)) (t : Trace) (point : Suspension) :
    Replaced s₁ (((s₁.modifyWire i (·.setStage position st)).record collector t).suspended i position
      point) i w { w.setStage position st with cursor := .suspendedAt position point }
      position st := by
  have hrow : ((s₁.modifyWire i (·.setStage position st)).record collector t).wires.get? i =
      some (w.setStage position st) := by simp [hw]
  refine ⟨Store.get?_suspended hrow position point, rfl, rfl, rfl, fun l hl => ?_, ?_,
    fun r hr => (Store.steady_suspended (Set.mem_univ i) _ position point).stops r ?_⟩
  · rw [Store.get?_suspended_of_ne _ hl.symm, Store.wires_record,
      Store.get?_modifyWire_of_ne _ hl.symm]
  · rw [Store.vars_suspended]
    cases collector <;> rfl
  · cases collector <;> exact hr

variable (h : Replaced s₁ s' i w w' position st)
include h

theorem stageAt?_self (hw : s.wires.get? i = some w) (n : Nat) :
    s'.stageAt? i n = (s.modifyWire i (·.setStage position st)).stageAt? i n := by
  rw [Store.stageAt?_eq, Store.stageAt?_eq, h.row, Store.get?_modifyWire_self, hw, Option.map_some,
    Option.bind_some, Option.bind_some, h.stages]

theorem stageAt?_position (hw : s.wires.get? i = some w) (hat : s.stageAt? i position = some st₀) :
    s'.stageAt? i position = some st := by
  rw [h.stageAt?_self hw, Store.stageAt?_setStage, hat]
  rfl

theorem stageAt?_of_position_ne (hw : s.wires.get? i = some w) {n : Nat} (hn : n ≠ position) :
    s'.stageAt? i n = s.stageAt? i n := by
  rw [h.stageAt?_self hw, Store.stageAt?_setStage_of_ne _ _ hn.symm]

theorem stageAt?_of_ne (hl : l ≠ i) (n : Nat) : s'.stageAt? l n = s₁.stageAt? l n := by
  rw [Store.stageAt?_eq, Store.stageAt?_eq, h.others l hl]

/-- The wire has no wire under way if the stage that was replaced has none, and the others had
none. -/
theorem calm_self (hw : s.wires.get? i = some w) (hat : s.stageAt? i position = some st₀)
    (hst : st.underway = false)
    (hothers : ∀ n st', n ≠ position → s.stageAt? i n = some st' → st'.underway = false) :
    s'.Calm i := by
  intro n st' hst'
  by_cases hn : n = position
  · subst hn
    rw [h.stageAt?_position hw hat] at hst'
    rwa [← Option.some.inj hst']
  · rw [h.stageAt?_of_position_ne hw hn] at hst'
    exact hothers n st' hn hst'

theorem calm (hl : l ≠ i) (hcalm : s₁.Calm l) : s'.Calm l := by
  intro n st' hst'
  rw [h.stageAt?_of_ne hl] at hst'
  exact hcalm n st' hst'

/-- The wire is at work still. -/
theorem atWork {code : Code H} {tags tags' : String → UInt8} {plans : List (Option (Stage H))}
    {wireTag k k' : UInt8} {Γ Γ' : Env} (hwork : AtWork code s tags i c w plans wireTag k Γ)
    (hstops : ∀ r, (s.run r).stopRequested = false → (s₁.run r).stopRequested = false)
    (hcurrent : Fits w'.current k') (hholds : Holds tags' Γ') (hgrown : c.before.Extends Γ') :
    AtWork code s' tags' i c w' plans wireTag k' Γ' := by
  refine ⟨h.row, hwork.known, hwork.typed, ?_, h.input ▸ hwork.input, hcurrent, hholds, hgrown⟩
  rw [Store.stopping, h.run]
  exact h.stops _ (hstops _ hwork.unstopped)

end Replaced

/-! ### One activation -/

namespace Store

variable {own : String → Option (Id .slot)} {code : Code H} {i : Id .wire} {c : Contract}
  {position depth : Nat} {s : Store H}

theorem stageAt?_eq_map (s : Store H) (i : Id .wire) (n : Nat) :
    s.stageAt? i n = (s.placedAt? i n).map (·.stage) := by
  rw [stageAt?_eq, placedAt?]
  cases s.wires.get? i <;> rfl

/-- Behind its last stage, a poised wire ends or begins anew. -/
theorem upshot_completeIteration (h : Poised code s (tagsOf own s.vars) i position c)
    (hcode : s.code = code) (hend : s.placedAt? i position = none) (log : List (Event H)) :
    Upshot own code i c log (s.eval (completeIteration i)).2 (s.eval (completeIteration i)).1 := by
  cases h with
  | nested hengaged =>
    have hstage := hengaged.stage
    rw [stageAt?_eq_map, hend] at hstage
    cases hstage
  | @ready _ _ _ _ w plans wireTag k Γ hwork hcalm hrest =>
    have hplans : w.code = plans := by
      have hknown := hwork.known
      rw [← hcode, Store.code, hwork.wire] at hknown
      exact Option.some.inj hknown
    have hdone : plans.drop position = [] := by
      rw [← hplans, List.drop_eq_nil_iff, Wire.code, List.length_map]
      simpa [placedAt?, hwork.wire] using hend
    rw [hdone] at hrest
    have hends : k = c.output ∧ Γ = c.after := by
      cases hrest
      exact ⟨rfl, rfl⟩
    have hafter : Holds (tagsOf own s.vars) c.after := hends.2 ▸ hwork.holds
    rw [eval_completeIteration, hwork.wire]
    dsimp only
    rw [hwork.unstopped]
    simp only [Bool.false_eq_true, if_false]
    cases w.looped with
    | false =>
      refine ⟨hends.1 ▸ hwork.current, hafter, fun j hj n st hst => ?_⟩
      simp only [Bool.false_eq_true, if_false] at hst
      rw [stageAt?_modifyWire _ _ (by exact fun _ => rfl)] at hst
      exact hcalm j hj n st hst
    | true =>
      -- what was known before the iteration is known after it, so the wire is typed as before
      have hrow : (s.iterated i).wires.get? i = some { w with
          lastOutput := w.current, current := w.input, iteration := w.iteration + 1 } := by
        rw [iterated, get?_modifyWire_self, hwork.wire]
        rfl
      have hvars : ((s.iterated i).suspended i 0 .yield).vars = s.vars := by
        rw [vars_suspended]
        rfl
      refine ⟨0, ?_, ?_⟩
      · simp only [if_true]
        rw [cursorAt?, get?_suspended hrow]
        rfl
      simp only [if_true]
      rw [hvars]
      refine .ready ⟨get?_suspended hrow 0 .yield, hwork.known, hwork.typed, ?_, hwork.input,
        hwork.input, hafter.of_extends hwork.typed.extends, .refl _⟩ (fun j hj n st hst => ?_)
        hwork.typed
      · exact (steady_suspended (Set.mem_univ i) (s.iterated i) 0 .yield).stops _ hwork.unstopped
      · rw [stageAt?_suspended, iterated, stageAt?_modifyWire _ _ (by exact fun _ => rfl)] at hst
        exact hcalm j hj n st hst

/-- What an activation of a poised wire may come to: the wire is poised at the next position, or at
the same one if the stage is suspended, or the activation is excused. -/
def Taken (own : String → Option (Id .slot)) (code : Code H) (i : Id .wire) (c : Contract)
    (position : Nat) (e : Event H) (s : Store H) :
    Except Halt (Except ActivationError Activation) → Prop
  | .error _ => True
  | .ok (.ok (.proceed output)) =>
    let s' := s.modifyWire i fun w => { w with current := output }
    Poised code s' (tagsOf own s'.vars) i (position + 1) c
  | .ok (.ok (.suspend point)) =>
    let s' := s.suspended i position point
    Poised code s' (tagsOf own s'.vars) i position c
  | .ok (.ok (.finish _)) | .ok (.ok (.stop _)) => False
  | .ok (.error _) => Excused e

/-- Activating a stage that runs no wire. -/
theorem taken_leaf (h : Poised code s (tagsOf own s.vars) i position c) (hrig : Rigged own code i s)
    (hat : s.stageAt? i position = some st) (hn : st.nested? = none) (hw : s.wires.get? i = some w)
    (resume : Id .wire → Exec H Progress) (hstage : e.stage = st)
    (hanswer : e.answer = (s.eval (activateAt resume i w position st)).1) :
    Taken own code i c position e (s.eval (activateAt resume i w position st)).2
      (s.eval (activateAt resume i w position st)).1 := by
  cases h with
  | nested hengaged =>
    obtain rfl := Option.some.inj (hat.symm.trans hengaged.stage)
    rw [hengaged.runs] at hn
    cases hn
  | @ready _ _ _ _ w' plans wireTag k Γ hwork hcalm hrest =>
    obtain rfl := Option.some.inj (hw.symm.trans hwork.wire)
    obtain ⟨hbuilt, hwired⟩ := hrig.wired i .refl position st hat
    rw [hwork.drop hrig.same hat hbuilt] at hrest
    obtain ⟨k₁, Γ₁, htyped, hrest⟩ := hrest.leaf (by simpa using hn)
    have hfollows : st.Follows own s ((st.activate resume w w.current).run s).2 k₁ Γ₁
        ((st.activate resume w w.current).run s).1.answer :=
      Stage.activate_typed htyped hwired hrig.slots hwork.holds hwork.input hwork.current
    obtain ⟨hplan, -, hsteady⟩ : ((st.activate resume w w.current).run s).1.stage.plan? = st.plan? ∧
        _ ∧ Steady ∅ s ((st.activate resume w w.current).run s).2 :=
      Stage.steady_activate (fun j hj => by simp [hn] at hj) w w.current
    rw [eval_activateAt] at hanswer ⊢
    rcases hrun : (st.activate resume w w.current).run s with ⟨⟨st', answer⟩, s₁⟩
    rw [hrun] at hfollows hplan hsteady hanswer
    have hwires : ∀ l, s₁.wires.get? l = s.wires.get? l := fun l =>
      hsteady.keeps.outside l (Set.notMem_empty l)
    have hw₁ := (hwires i).trans hw
    have hbare : st'.bare = st.bare :=
      (Stage.plan?_eq_some_iff.1 (hplan.trans (Stage.plan?_eq_some_iff.2 ⟨hbuilt, rfl⟩))).2
    have hidle : st'.underway = false := Stage.underway_of_typed (hbare ▸ htyped)
    have hcalm' : ∀ {s' : Store H} {w' : Wire H}, Replaced s₁ s' i w w' position st' →
        ∀ j, code.Below i j → s'.Calm j := by
      intro s' w' hrep j hj
      by_cases hji : j = i
      · subst hji
        exact hrep.calm_self hw hat hidle fun n st'' _ hst'' => hcalm j .refl n st'' hst''
      · refine hrep.calm hji fun n st'' hst'' => hcalm j hj n st'' ?_
        rwa [stageAt?_eq, hwires, ← stageAt?_eq] at hst''
    rcases answer with halt | error | output | point | output | output
    · trivial
    · exact .leaf (hstage ▸ hfollows) hanswer
    · obtain ⟨hfits, hholds⟩ := hfollows
      have hrep := Replaced.proceed hw₁ position st' w.collector
        ⟨w.name, st'.name, position, w.iteration, traceEnd (.ok (.proceed output))⟩ output
      refine .ready (hrep.atWork hwork hsteady.stops hfits ?_ (hwork.grown.trans htyped.extends))
        (hcalm' hrep) hrest
      rw [hrep.vars]
      exact hholds
    · obtain rfl : s₁ = s := hfollows
      have hrep := Replaced.suspend hw₁ position st' w.collector
        ⟨w.name, st'.name, position, w.iteration, traceEnd (.ok (.suspend point))⟩ point
      refine .ready (hrep.atWork hwork hsteady.stops hwork.current ?_ hwork.grown) (hcalm' hrep)
        (hwork.drop hrig.same hat hbuilt ▸ .stage htyped hrest)
      rw [hrep.vars]
      exact hwork.holds
    · exact hfollows.elim
    · exact hfollows.elim

/-- Resuming wires nested at most so deep is safe if they are poised. -/
def SafeWithin (own : String → Option (Id .slot)) (code : Code H) (depth : Nat) : Prop :=
  ∀ (i : Id .wire) (s : Store H) (position : Nat) (c : Contract), code.Height depth i →
    Rigged own code i s → s.cursorAt? i = some position →
      Poised code s (tagsOf own s.vars) i position c →
        Safe own code i c (resumeEvents depth i s) (s.eval (resumeWithin depth i))

/-- Activating a stage that runs a wire. -/
theorem taken_nesting (hsafe : SafeWithin own code depth)
    (h : Poised code s (tagsOf own s.vars) i position c) (hheight : code.Height (depth + 1) i)
    (hrig : Rigged own code i s) (hat : s.stageAt? i position = some st) {j : Id .wire}
    (hj : st.nested? = some j) (hw : s.wires.get? i = some w) (hstage : e.stage = st)
    (hinner : e.inner = st.innerEvents (resumeEvents depth) w.current s)
    (hanswer : e.answer = (s.eval (activateAt (resumeWithin depth) i w position st)).1) :
    Taken own code i c position e (s.eval (activateAt (resumeWithin depth) i w position st)).2
      (s.eval (activateAt (resumeWithin depth) i w position st)).1 ∧ Innocent e.inner := by
  obtain ⟨w', plans, wireTag, k, Γ, k₁, Γ₁, q, hengaged, hcursor, hpoised⟩ :=
    h.engaged hheight hrig hat hj
  obtain rfl := Option.some.inj (hw.symm.trans hengaged.work.wire)
  obtain ⟨hbuilt, hwired⟩ := hrig.wired i .refl position st hat
  have hchild : code.Child i j := hrig.same ▸ child_of_stageAt? hat hj
  have hacyclic := (hheight j hchild).not_below hchild
  have hentered : Steady {l | code.Below j l} s (st.entered w.current s j) :=
    st.steady_entered .refl w.current s
  -- the wire that the stage runs is resumed
  have hresumed := hsafe j _ q _ (hheight j hchild) ((hrig.of_steady hentered).child hchild) hcursor
    hpoised
  have hsteady : Steady {l | code.Below j l} s
      ((st.entered w.current s j).eval (resumeWithin depth j)).2 := by
    refine hentered.trans ?_
    have hresume := steady_resumeWithin depth j (st.entered w.current s j)
    rwa [hentered.code, hrig.same] at hresume
  have hbinding := fun x hx => hengaged.binding (x := x) hwired hx
  have henters := Stage.enters?_of_nested? hj hbinding
  obtain ⟨hstore, -, hrelays⟩ := Stage.activate_enters henters (resumeWithin depth) w s
  rw [Stage.innerEvents_of_enters? henters] at hinner
  refine ⟨?_, hinner ▸ hresumed.innocent⟩
  rcases hr : (st.entered w.current s j).eval (resumeWithin depth j) with ⟨progress, s₀⟩
  rw [hr] at hstore hrelays hsteady hresumed
  rw [eval_activateAt] at hanswer ⊢
  rcases hrun : (st.activate (resumeWithin depth) w w.current).run s with ⟨⟨st', answer⟩, s₁⟩
  rw [hrun] at hstore hrelays hanswer
  dsimp only at hstore hrelays hanswer hsteady ⊢
  have hslots := hrig.slots.mono hsteady.slots
  have hwires : ∀ l, s₁.wires.get? l = s₀.wires.get? l := fun l => by rw [hstore, st.wires_unbind]
  have houtside : ∀ l, ¬ code.Below j l → s₁.wires.get? l = s.wires.get? l := fun l hl =>
    (hwires l).trans (hsteady.keeps.outside l hl)
  have hw₁ := (houtside i hacyclic).trans hw
  have hback : Steady {l | code.Below j l} s₀ s₁ := hstore ▸ st.steady_unbind s s₀
  have htags : tagsOf own s₁.vars = st.restore (tagsOf own s.vars) (tagsOf own s₀.vars) := by
    rw [hstore, Stage.tagsOf_unbind hwired hslots]
  have hcalm : ∀ l, code.Below i l → l ≠ i → ¬ code.Below j l → s₁.Calm l := by
    intro l hl hli hjl n st'' hst''
    rw [stageAt?_eq, houtside l hjl, ← stageAt?_eq] at hst''
    exact hengaged.calm l hl hli hjl n st'' hst''
  rcases hrelays with ⟨halt, hhalt, -⟩ | ⟨hkept, hrelays⟩
  · rw [hhalt]
    trivial
  have hbound := Stage.bound_of_not_loses hkept fun x hx => (hbinding x hx).1
  have hupshot := hresumed.upshot
  rcases progress with halt | point | output | failure
  · exact hrelays.elim
  · -- the wire is suspended, and so is the stage
    obtain ⟨rfl, rfl⟩ := Step.mk.inj hrelays
    obtain ⟨q', hcursor', hpoised'⟩ := hupshot
    have hrep := Replaced.suspend hw₁ position (st.setRunning true) w.collector
      ⟨w.name, (st.setRunning true).name, position, w.iteration, traceEnd (.ok (.suspend point))⟩ point
    have hholds : Holds (tagsOf own s₁.vars) Γ := by
      have hrestored := hengaged.work.holds.restore hpoised'.holds st
      rwa [st.restore_inwardEnv, ← htags] at hrestored
    refine .nested (q := q') ⟨hrep.atWork hengaged.work (hsteady.trans hback).stops
      hengaged.work.current (hrep.vars ▸ hholds) hengaged.work.grown,
      hrep.stageAt?_position hw hat, by simpa using hj, by simpa using hengaged.object, ?_, ?_,
      by simpa using hengaged.rest⟩ (st.underway_setRunning true hj) ?_ ?_
    · intro n st'' hn hst''
      rw [hrep.stageAt?_of_position_ne hw hn] at hst''
      exact hengaged.others n st'' hn hst''
    · exact fun l hl hli hjl => hrep.calm hli (hcalm l hl hli hjl)
    · have hji : j ≠ i := fun hji => hacyclic (hji ▸ .refl)
      rw [cursorAt?, hrep.others j hji, hwires]
      exact hcursor'
    · have hsame : (st.setRunning true).inward (tagsOf own
          ((((s₁.modifyWire i (·.setStage position (st.setRunning true))).record w.collector
            ⟨w.name, (st.setRunning true).name, position, w.iteration,
              traceEnd (.ok (.suspend point))⟩).suspended i position point).vars)) =
            tagsOf own s₀.vars := by
        rw [hrep.vars, htags, st.inward_setRunning, st.inward_restore, hbound.inward_tagsOf hwired]
      rw [hsame, st.inwardEnv_setRunning]
      refine hpoised'.of_undisturbed (hheight j hchild) (hsteady.code.trans hrig.same)
        (.of_wires_eq (fun l hl => ?_) fun r hr => hrep.stops r (hback.stops r hr))
      rw [hrep.others l fun hli => hacyclic (hli ▸ hl), hwires]
  · -- the wire is finished, and the stage passes its output on
    obtain ⟨rfl, rfl⟩ := Step.mk.inj hrelays
    obtain ⟨hfits, hholds, hquiet⟩ := hupshot
    have hrep := Replaced.proceed hw₁ position (st.setRunning false) w.collector
      ⟨w.name, (st.setRunning false).name, position, w.iteration, traceEnd (.ok (.proceed output))⟩
      output
    refine .ready (hrep.atWork hengaged.work (hsteady.trans hback).stops hfits ?_
      (hengaged.work.grown.trans (.restore st hpoised.extends))) (fun l hl => ?_) hengaged.rest
    · rw [hrep.vars, htags]
      exact hengaged.work.holds.restore hholds st
    · by_cases hli : l = i
      · subst hli
        exact hrep.calm_self hw hat (st.underway_setRunning false hj) hengaged.others
      · refine hrep.calm hli ?_
        by_cases hjl : code.Below j l
        · intro n st'' hst''
          rw [stageAt?_eq, hwires, ← stageAt?_eq] at hst''
          exact hquiet l hjl n st'' hst''
        · exact hcalm l hl hli hjl
  · -- the wire has failed, and the stage fails with it
    obtain ⟨rfl, rfl⟩ := Step.mk.inj hrelays
    obtain ⟨inner, hmem, error, hwire, hexcused, herror, rfl⟩ := hupshot
    exact .nested (hinner ▸ hmem) hexcused (by rw [hstage, hj, hwire]) herror hanswer

/-! ### Resuming -/

/-- Activating the stages that are left is safe. -/
theorem safe_advance (hsafe : SafeWithin own code depth) (hheight : code.Height (depth + 1) i)
    {remaining : Nat} (hrig : Rigged own code i s)
    (h : Poised code s (tagsOf own s.vars) i position c)
    (hlength : ∀ w, s.wires.get? i = some w → w.stages.length ≤ position + remaining) :
    Safe own code i c
      (advanceEvents (resumeWithin depth) (resumeEvents depth) i position remaining s)
      (s.eval (advance (resumeWithin depth) i position remaining)) := by
  obtain ⟨w, hw, hgo⟩ := h.exists_wire
  induction remaining generalizing position s w with
  | zero =>
    refine ⟨upshot_completeIteration h hrig.same ?_ _, .nil⟩
    have hend := hlength w hw
    simpa [placedAt?, hw] using hend
  | succ remaining ih =>
    rw [eval_advance_succ, advanceEvents]
    simp only [hw]
    rcases hp : s.placedAt? i position with _ | placed
    · exact ⟨upshot_completeIteration h hrig.same hp _, .nil⟩
    simp only [hgo, Bool.false_eq_true, if_false]
    have hat : s.stageAt? i position = some placed.stage := by rw [stageAt?_eq_map, hp, Option.map_some]
    have hsteady := steady_activateAt_resumeWithin depth hw hp
    have htaken : ∀ e : Event H, e.stage = placed.stage →
        e.inner = placed.stage.innerEvents (resumeEvents depth) w.current s →
        e.answer = (s.eval (activateAt (resumeWithin depth) i w position placed.stage)).1 →
          Taken own code i c position e
            (s.eval (activateAt (resumeWithin depth) i w position placed.stage)).2
            (s.eval (activateAt (resumeWithin depth) i w position placed.stage)).1 ∧
          Innocent e.inner := by
      intro e hstage hinner hanswer
      cases hj : placed.stage.nested? with
      | none =>
        refine ⟨taken_leaf h hrig hat hj hw _ hstage hanswer, ?_⟩
        rw [hinner, Stage.innerEvents_leaf hj]
        exact .nil
      | some j => exact taken_nesting hsafe h hheight hrig hat hj hw hstage hinner hanswer
    rcases heval : s.eval (activateAt (resumeWithin depth) i w position placed.stage) with
      ⟨answer, s'⟩
    rw [heval] at htaken hsteady
    obtain ⟨htaken, hinnocent⟩ := htaken ⟨i, position, w.iteration, placed.stage, w.current, answer,
      placed.stage.innerEvents (resumeEvents depth) w.current s⟩ rfl rfl rfl
    rcases answer with halt | error | output | point | output | output
    · exact ⟨trivial, .cons (fun _ h => by cases h) hinnocent .nil⟩
    · exact ⟨⟨_, List.mem_cons_self, error, rfl, htaken, rfl, rfl⟩,
        .cons (fun _ _ => htaken) hinnocent .nil⟩
    · have hnext : Steady {k | s.code.Below i k} s (s'.modifyWire i fun w =>
          { w with current := output }) := hsteady.trans (.modifyWire .refl (by exact fun _ _ => rfl))
      obtain ⟨w', hw', hgo'⟩ := htaken.exists_wire
      refine (ih (hrig.of_steady hnext) htaken (fun w'' hw'' => ?_) w' hw' hgo').cons
        (fun _ h => by cases h) hinnocent
      obtain ⟨w₀, hw₀, hframe⟩ := hnext.keeps.get? hw
      obtain rfl := Option.some.inj (hw₀.symm.trans hw'')
      have hcount := congrArg (fun f => f.1.length) hframe
      simp only [Wire.frame, List.length_map] at hcount
      have hall := hlength w hw
      omega
    · refine ⟨⟨position, ?_, htaken⟩, .cons (fun _ h => by cases h) hinnocent .nil⟩
      obtain ⟨w', hw', -⟩ := hsteady.keeps.get? hw
      rw [cursorAt?, get?_suspended hw']
      rfl
    · exact htaken.elim
    · exact htaken.elim

theorem undisturbed_takenUp (s : Store H) (i : Id .wire) (w : Wire H) :
    Undisturbed code i s (s.takenUp i w) := by
  have hsteady := steady_takenUp (Set.mem_univ i) s w
  unfold takenUp at hsteady ⊢
  split
  · refine ⟨?_, fun l _ hl => s.get?_modifyWire_of_ne (Ne.symm hl) _, ?_⟩
    · change ((s.modifyWire i _).wires.get? i).map _ = _
      rw [get?_modifyWire_self]
      cases s.wires.get? i <;> rfl
    · rw [‹w.cursor = _›] at hsteady
      exact hsteady.stops
  · exact ⟨rfl, fun _ _ _ => rfl, fun _ h => h⟩

/-- Resuming a poised wire is safe: it is poised again or ends as its typing says, and all failures
are excused. -/
theorem safe_resumeWithin (own : String → Option (Id .slot)) (code : Code H) (depth : Nat) :
    SafeWithin own code depth := by
  induction depth with
  | zero => exact fun _ _ _ _ hheight => hheight.elim
  | succ depth ih =>
    intro i s position c hheight hrig hcursor h
    obtain ⟨w, hw, -⟩ := h.exists_wire
    have hposition : w.cursor.position? = some position := by
      rwa [cursorAt?, hw, Option.bind_some] at hcursor
    rw [eval_resumeWithin_succ s depth hw hposition, resumeEvents_succ s depth hw hposition]
    have htaken := steady_takenUp (T := {j | s.code.Below i j}) .refl s w
    have hvars : (s.takenUp i w).vars = s.vars := by
      unfold takenUp
      split <;> rfl
    refine safe_advance ih hheight (hrig.of_steady htaken) ?_ fun w' hw' => ?_
    · rw [hvars]
      exact h.of_undisturbed hheight hrig.same (undisturbed_takenUp s i w)
    · obtain ⟨w₀, hw₀, hframe⟩ := htaken.keeps.get? hw
      obtain rfl := Option.some.inj (hw₀.symm.trans hw')
      have hcount := congrArg (fun f => f.1.length) hframe
      simp only [Wire.frame, List.length_map] at hcount
      omega

end Store

end Dataflow
