import Dataflow.Proofs.Composed
import Dataflow.Proofs.TypedStages
/-!
# Wires that can be resumed

A run can be suspended at any depth and taken up again. `Poised` says what such a state looks like:
each wire that is under way stands before stages that are typed for its current value and for the
variables as these stages will see them, and no other wire is under way. A looped wire is poised
anew after each iteration, because what is known of variables only grows.
-/

namespace Dataflow

variable {H : Host} {st st' : Stage H} {T : Set (Id .wire)} {tags : String → UInt8}
  {depth position n : Nat} {c : Contract} {l i j : Id .wire} {w : Wire H}
  {plans : List (Option (Stage H))} {k wireTag : UInt8} {Γ : Env} {e : Event H} {s s' : Store H}

/-! ### Failures that are excused -/

/-- An activation may fail: it is there to fail, a sum is too large, or the wire that it runs has
failed for such a reason. -/
inductive Excused : Event H → Prop where
  | leaf {e : Event H} {error : ActivationError} (hfail : e.stage.MayFail error)
      (hanswer : e.answer = .ok (.error error)) : Excused e
  | nested {e inner : Event H} {error : ActivationError} {name : String} (hmem : inner ∈ e.inner)
      (hinner : Excused inner) (hstage : e.stage.nested? = some inner.wire)
      (herror : inner.answer = .ok (.error error))
      (hanswer : e.answer = .ok (.error (Stage.nestedFailure name
        ⟨error.message, inner.stage.name, inner.position⟩))) : Excused e

/-- An excused stage that runs no wire is there to fail, or its sum is too large. -/
theorem Excused.mayFail (h : Excused e) {error : ActivationError}
    (herror : e.answer = .ok (.error error)) (hleaf : e.stage.nested? = none) :
    e.stage.MayFail error := by
  cases h with
  | leaf hfail hanswer =>
    rw [herror] at hanswer
    cases hanswer
    exact hfail
  | nested _ _ hstage =>
    rw [hleaf] at hstage
    cases hstage

/-- All activations in a log that fail are excused. -/
def Innocent (log : List (Event H)) : Prop :=
  ∀ path e, Occurs log path e → ∀ error, e.answer = .ok (.error error) → Excused e

namespace Innocent

theorem nil : Innocent ([] : List (Event H)) := by
  intro path e h
  cases h with
  | here h => simp at h
  | inside h => simp at h

theorem cons {log : List (Event H)} (he : ∀ error, e.answer = .ok (.error error) → Excused e)
    (hinner : Innocent e.inner) (hlog : Innocent log) : Innocent (e :: log) := by
  intro path e' h
  cases h with
  | here h =>
    rcases List.mem_cons.1 h with rfl | h
    · exact he
    · exact hlog _ _ (.here h)
  | inside h hocc =>
    rcases List.mem_cons.1 h with rfl | h
    · exact hinner _ _ hocc
    · exact hlog _ _ (.inside h hocc)

theorem append {log log' : List (Event H)} (h : Innocent log) (h' : Innocent log') :
    Innocent (log ++ log') := by
  induction log with
  | nil => exact h'
  | cons e log ih =>
    refine cons (h _ _ (.here List.mem_cons_self)) (fun path e' hocc => ?_) (ih fun path e' hocc => ?_)
    · exact h _ _ (.inside List.mem_cons_self hocc)
    · cases hocc with
      | here hmem => exact h _ _ (.here (List.mem_cons_of_mem _ hmem))
      | inside hmem hocc => exact h _ _ (.inside (List.mem_cons_of_mem _ hmem) hocc)

end Innocent

/-! ### Wires ready to run -/

/-- No stage of a wire has a wire under way. -/
def Store.Calm (s : Store H) (i : Id .wire) : Prop :=
  ∀ n st, s.stageAt? i n = some st → st.underway = false

/-- The stages below a wire are built in and linked to slots of their own variables. -/
structure Rigged (own : String → Option (Id .slot)) (code : Code H) (i : Id .wire) (s : Store H) :
    Prop where
  same : s.code = code
  slots : Allotted own s.vars
  wired : ∀ j, code.Below i j → ∀ n st, s.stageAt? j n = some st →
    st.isBuiltIn = true ∧ st.Wired own

/-- Stages with one plan and one slot are linked to the same variables. -/
theorem Stage.Wired.of_frame {own : String → Option (Id .slot)}
    (h : st.isBuiltIn = true ∧ st.Wired own) (hplan : st'.plan? = st.plan?)
    (hslot : st'.slot? = st.slot?) : st'.isBuiltIn = true ∧ st'.Wired own := by
  obtain ⟨hbuilt, hbare⟩ := plan?_eq_some_iff.1 (hplan.trans (plan?_eq_some_iff.2 ⟨h.1, rfl⟩))
  refine ⟨hbuilt, fun x hx => ?_⟩
  rw [← uses?_bare, hbare, uses?_bare] at hx
  rw [hslot]
  exact h.2 x hx

/-- A stage has had its plan and its slot all along. -/
theorem Steady.stageAt? (h : Steady T s s') (hst : s'.stageAt? j n = some st') :
    ∃ st, s.stageAt? j n = some st ∧ st'.plan? = st.plan? ∧ st'.slot? = st.slot? := by
  rw [Store.stageAt?_eq] at hst ⊢
  obtain ⟨w', hw', hst⟩ := Option.bind_eq_some_iff.1 hst
  obtain ⟨p', hp', rfl⟩ := Option.map_eq_some_iff.1 hst
  have hsame := h.keeps.same j
  rw [hw', Option.map_some] at hsame
  obtain ⟨w, hw, hframe⟩ := Option.map_eq_some_iff.1 hsame.symm
  have hat : w.frame.1[n]? = w'.frame.1[n]? := by rw [hframe]
  simp only [Wire.frame, List.getElem?_map, hp', Option.map_some] at hat
  obtain ⟨p, hp, heq⟩ := Option.map_eq_some_iff.1 hat
  simp only [Prod.mk.injEq] at heq
  exact ⟨p.stage, by simp [hw, hp], heq.1.symm, heq.2.1.symm⟩

namespace Rigged

variable {own : String → Option (Id .slot)} {code : Code H}

theorem of_steady (h : Rigged own code i s) (hs : Steady T s s') : Rigged own code i s' := by
  refine ⟨hs.code.trans h.same, h.slots.mono hs.slots, fun j hj n st' hst' => ?_⟩
  obtain ⟨st, hst, hplan, hslot⟩ := hs.stageAt? hst'
  exact Stage.Wired.of_frame (h.wired j hj n st hst) hplan hslot

theorem child (h : Rigged own code i s) (hj : code.Child i j) : Rigged own code j s :=
  ⟨h.same, h.slots, fun l hl => h.wired l (.head hj hl)⟩

end Rigged

/-! ### Wires that can be resumed -/

/-- What a typed wire comes to: what is known of variables before and after it, and the tag of its
output. -/
structure Contract where
  before : Env
  output : UInt8
  after : Env

/-- A typed wire is at work: it has not been asked to stop, and `k` and `Γ` are true of its current
value and of variables. -/
structure AtWork (code : Code H) (s : Store H) (tags : String → UInt8) (i : Id .wire) (c : Contract)
    (w : Wire H) (plans : List (Option (Stage H))) (wireTag k : UInt8) (Γ : Env) : Prop where
  wire : s.wires.get? i = some w
  known : code i = some plans
  typed : Typed code wireTag plans wireTag c.before c.output c.after
  unstopped : s.stopping w = false
  input : Fits w.input wireTag
  current : Fits w.current k
  holds : Holds tags Γ
  grown : c.before.Extends Γ

/-- The position that a started wire goes on from. -/
def Store.cursorAt? (s : Store H) (i : Id .wire) : Option Nat :=
  (s.wires.get? i).bind (·.cursor.position?)

/-- A wire at work stands before a stage that runs the wire `j`. No other stage has a wire under way,
and if `j` comes to `k₁` and `Γ₁`, the stages behind are typed for that. -/
structure Engaged (code : Code H) (s : Store H) (tags : String → UInt8) (i : Id .wire)
    (position : Nat) (c : Contract) (w : Wire H) (plans : List (Option (Stage H)))
    (wireTag k : UInt8) (Γ : Env) (st : Stage H) (j : Id .wire) (k₁ : UInt8) (Γ₁ : Env) : Prop where
  work : AtWork code s tags i c w plans wireTag k Γ
  stage : s.stageAt? i position = some st
  runs : st.nested? = some j
  object : ∀ x, st.binds? = some x → k = objectTag
  others : ∀ n st', n ≠ position → s.stageAt? i n = some st' → st'.underway = false
  calm : ∀ l, code.Below i l → l ≠ i → ¬ code.Below j l → s.Calm l
  rest : Typed code wireTag (plans.drop (position + 1)) k₁ (st.restore Γ Γ₁) c.output c.after

/-- A wire can go on from a position: no wire is under way and the rest is typed, or the stage there
has its wire under way, which can go on itself and is followed by typed stages. The tags are
those that the wire will see. -/
inductive Poised (code : Code H) (s : Store H) :
    (String → UInt8) → Id .wire → Nat → Contract → Prop where
  | ready {tags : String → UInt8} {i : Id .wire} {position : Nat} {c : Contract} {w : Wire H}
      {plans : List (Option (Stage H))} {wireTag k : UInt8} {Γ : Env}
      (hwork : AtWork code s tags i c w plans wireTag k Γ)
      (hcalm : ∀ j, code.Below i j → s.Calm j)
      (hrest : Typed code wireTag (plans.drop position) k Γ c.output c.after) :
      Poised code s tags i position c
  | nested {tags : String → UInt8} {i j : Id .wire} {position q : Nat} {c : Contract} {w : Wire H}
      {plans : List (Option (Stage H))} {wireTag k k₁ : UInt8} {Γ Γ₁ : Env} {st : Stage H}
      (hengaged : Engaged code s tags i position c w plans wireTag k Γ st j k₁ Γ₁)
      (hrunning : st.underway = true) (hcursor : s.cursorAt? j = some q)
      (hinner : Poised code s (st.inward tags) j q ⟨st.inwardEnv Γ, k₁, Γ₁⟩) :
      Poised code s tags i position c

/-- What was known before a wire stays true while it is under way. -/
theorem Poised.holds {code : Code H} (h : Poised code s tags i position c) :
    Holds tags c.before := by
  cases h with
  | ready hwork => exact hwork.holds.of_extends hwork.grown
  | nested hengaged => exact hengaged.work.holds.of_extends hengaged.work.grown

/-- A poised wire is there and has not been asked to stop. -/
theorem Poised.exists_wire {code : Code H} (h : Poised code s tags i position c) :
    ∃ w, s.wires.get? i = some w ∧ s.stopping w = false := by
  cases h with
  | ready hwork => exact ⟨_, hwork.wire, hwork.unstopped⟩
  | nested hengaged => exact ⟨_, hengaged.work.wire, hengaged.work.unstopped⟩

/-- What is known before a wire that is under way will be known after it. -/
theorem Poised.extends {code : Code H} (h : Poised code s tags i position c) :
    c.before.Extends c.after := by
  cases h with
  | ready hwork => exact hwork.typed.extends
  | nested hengaged => exact hengaged.work.typed.extends

/-- What matters of a wire for going on from a position. -/
def Wire.posture (w : Wire H) : List (Stage H) × Value × Value × Id .run :=
  (w.stages.map (·.stage), w.input, w.current, w.run)

/-- Between two stores, nothing happens to a wire and to what is below it, except for the wire's own
cursor. -/
structure Undisturbed (code : Code H) (i : Id .wire) (s s' : Store H) : Prop where
  self : (s'.wires.get? i).map Wire.posture = (s.wires.get? i).map Wire.posture
  below : ∀ l, code.Below i l → l ≠ i → s'.wires.get? l = s.wires.get? l
  stops : ∀ r, (s.run r).stopRequested = false → (s'.run r).stopRequested = false

namespace Undisturbed

variable {code : Code H}

theorem of_wires_eq (h : ∀ l, code.Below i l → s'.wires.get? l = s.wires.get? l)
    (hstops : ∀ r, (s.run r).stopRequested = false → (s'.run r).stopRequested = false) :
    Undisturbed code i s s' :=
  ⟨by rw [h i .refl], fun l hl _ => h l hl, hstops⟩

theorem stageAt? (h : Undisturbed code i s s') (hl : code.Below i l) (n : Nat) :
    s'.stageAt? l n = s.stageAt? l n := by
  rw [Store.stageAt?_eq, Store.stageAt?_eq]
  by_cases hli : l = i
  · subst hli
    have hstages := congrArg (Option.map (·.1[n]?)) h.self
    simp only [Option.map_map, Function.comp_def, Wire.posture, List.getElem?_map] at hstages
    cases hw : s.wires.get? l <;> cases hw' : s'.wires.get? l <;> simp_all
  · rw [h.below l hl hli]

theorem calm (h : Undisturbed code i s s') (hl : code.Below i l) (hcalm : s.Calm l) :
    s'.Calm l := by
  intro n st hst
  rw [h.stageAt? hl] at hst
  exact hcalm n st hst

theorem atWork (h : Undisturbed code i s s') (hwork : AtWork code s tags i c w plans wireTag k Γ) :
    ∃ w', AtWork code s' tags i c w' plans wireTag k Γ := by
  have hself := h.self
  rw [hwork.wire, Option.map_some] at hself
  obtain ⟨w', hw', hposture⟩ := Option.map_eq_some_iff.1 hself
  simp only [Wire.posture, Prod.mk.injEq] at hposture
  obtain ⟨-, hinput, hcurrent, hrun⟩ := hposture
  refine ⟨w', hw', hwork.known, hwork.typed, ?_, hinput ▸ hwork.input, hcurrent ▸ hwork.current,
    hwork.holds, hwork.grown⟩
  rw [Store.stopping, hrun]
  exact h.stops _ hwork.unstopped

/-- A child of the wire is not disturbed either. -/
theorem child (h : Undisturbed code i s s') (hj : code.Child i j) (hheight : code.Height depth j) :
    ∀ l, code.Below j l → s'.wires.get? l = s.wires.get? l := by
  intro l hl
  refine h.below l (.head hj hl) ?_
  rintro rfl
  exact hheight.not_below hj hl

end Undisturbed

/-- A stage of a wire runs a child of it. -/
theorem Store.child_of_stageAt? (hst : s.stageAt? i n = some st) (hj : st.nested? = some j) :
    s.code.Child i j := by
  rw [stageAt?_eq] at hst
  obtain ⟨w, hw, hst⟩ := Option.bind_eq_some_iff.1 hst
  obtain ⟨p, hp, rfl⟩ := Option.map_eq_some_iff.1 hst
  have hplaced : s.placedAt? i n = some p := by simp [placedAt?, hw, hp]
  exact child_of_placedAt? hplaced hj

/-- A wire that is not disturbed stays poised. -/
theorem Poised.of_undisturbed {code : Code H} (h : Poised code s tags i position c)
    (hheight : code.Height depth i) (hcode : s.code = code) (hs : Undisturbed code i s s') :
    Poised code s' tags i position c := by
  induction h generalizing depth with
  | ready hwork hcalm hrest =>
    obtain ⟨w', hwork'⟩ := hs.atWork hwork
    exact .ready hwork' (fun j hj => hs.calm hj (hcalm j hj)) hrest
  | nested hengaged hrunning hcursor hinner ih =>
    obtain ⟨w', hwork'⟩ := hs.atWork hengaged.work
    cases depth with
    | zero => exact hheight.elim
    | succ depth =>
      have hchild := hcode ▸ Store.child_of_stageAt? hengaged.stage hengaged.runs
      have hsub := hs.child hchild (hheight _ hchild)
      refine .nested ⟨hwork', ?_, hengaged.runs, hengaged.object, ?_, ?_, hengaged.rest⟩ hrunning ?_
        (ih (hheight _ hchild) (.of_wires_eq hsub hs.stops))
      · rw [hs.stageAt? .refl, hengaged.stage]
      · intro n st' hn hst'
        rw [hs.stageAt? .refl] at hst'
        exact hengaged.others n st' hn hst'
      · exact fun l hl hli hjl => hs.calm hl (hengaged.calm l hl hli hjl)
      · rw [Store.cursorAt?, hsub _ .refl]
        exact hcursor

/-! ### Entering a wire -/

namespace Store

theorem vars_start (s : Store H) (j : Id .wire) (input : Value) : (s.start j input).vars = s.vars := by
  unfold start
  split <;> rfl

theorem get?_start (hw : s.wires.get? j = some w) (input : Value) :
    (s.start j input).wires.get? j = some { w with current := input, input, lastOutput := .nothing, iteration := 0, cursor := .running 0 } := by
  rw [start, hw]
  change (s.modifyWire j _).wires.get? j = _
  rw [get?_modifyWire_self, hw]
  rfl

theorem stageAt?_start (s : Store H) (j : Id .wire) (input : Value) (l : Id .wire) (n : Nat) :
    (s.start j input).stageAt? l n = s.stageAt? l n := by
  unfold start
  split
  · rfl
  · exact s.stageAt?_modifyWire j (by exact fun _ => rfl) l

/-- A run that is started is not asked to stop. -/
theorem stopping_start (hw : s.wires.get? j = some w) (input : Value) {w' : Wire H}
    (hrun : w'.run = w.run) : (s.start j input).stopping w' = false := by
  rw [stopping, hrun, start, hw]
  dsimp only
  rw [run, modifyRun, Table.get?_modify_self]
  cases (s.modifyWire j _).runs.get? w.run <;> rfl

end Store

namespace Stage

theorem vars_entered (st : Stage H) (input : Value) (s : Store H) (j : Id .wire) :
    (st.entered input s j).vars = (st.bindIn input s).vars := by
  unfold entered enter
  split
  · rfl
  · exact Store.vars_start ..

end Stage

/-- The plans from the position of a stage on. -/
theorem AtWork.drop {code : Code H} (h : AtWork code s tags i c w plans wireTag k Γ)
    (hcode : s.code = code) (hat : s.stageAt? i position = some st) (hbuilt : st.isBuiltIn = true) :
    plans.drop position = some st.bare :: plans.drop (position + 1) := by
  have hplans : w.code = plans := by
    have hknown := h.known
    rw [← hcode, Store.code, h.wire] at hknown
    exact Option.some.inj hknown
  rw [Store.stageAt?_eq, h.wire, Option.bind_some] at hat
  obtain ⟨p, hp, rfl⟩ := Option.map_eq_some_iff.1 hat
  have hget : plans[position]? = some (some p.stage.bare) := by
    rw [← hplans, Wire.code, List.getElem?_map, hp, Option.map_some,
      Stage.plan?_eq_some_iff.2 ⟨hbuilt, rfl⟩]
  obtain ⟨hlt, hget⟩ := List.getElem?_eq_some_iff.1 hget
  rw [List.drop_eq_getElem_cons hlt, hget]

/-- The object that a stage is about to bind, and the slot for it. -/
theorem Engaged.binding {code : Code H} {k₁ : UInt8} {Γ₁ : Env}
    (h : Engaged code s tags i position c w plans wireTag k Γ st j k₁ Γ₁)
    {own : String → Option (Id .slot)} (hwired : st.Wired own) {x : String}
    (hx : st.binds? = some x) :
    (∃ object, w.current = .object object) ∧ ∃ slot, st.slot? = some slot := by
  refine ⟨(h.object x hx ▸ h.work.current).object, ?_⟩
  have huses : st.uses? = some x := by
    cases st <;> first | exact hx | cases hx
  obtain ⟨slot, -, hslot⟩ := hwired x huses
  exact ⟨slot, hslot⟩

/-- When a poised wire stands before a stage that runs a wire, that wire is poised once the stage has
entered it: it is started, or was under way. -/
theorem Poised.engaged {code : Code H} {own : String → Option (Id .slot)}
    (h : Poised code s (tagsOf own s.vars) i position c) (hheight : code.Height (depth + 1) i)
    (hrig : Rigged own code i s) (hat : s.stageAt? i position = some st) (hj : st.nested? = some j)
    :
    ∃ w plans wireTag k Γ k₁ Γ₁ q,
      Engaged code s (tagsOf own s.vars) i position c w plans wireTag k Γ st j k₁ Γ₁ ∧
      (st.entered w.current s j).cursorAt? j = some q ∧
      Poised code (st.entered w.current s j) (tagsOf own (st.entered w.current s j).vars) j q
        ⟨st.inwardEnv Γ, k₁, Γ₁⟩ := by
  obtain ⟨hbuilt, hwired⟩ := hrig.wired i .refl position st hat
  have hchild : code.Child i j := hrig.same ▸ Store.child_of_stageAt? hat hj
  have hvars : ∀ {w plans wireTag k Γ k₁ Γ₁},
      Engaged code s (tagsOf own s.vars) i position c w plans wireTag k Γ st j k₁ Γ₁ →
      tagsOf own (st.entered w.current s j).vars = st.inward (tagsOf own s.vars) := by
    intro w plans wireTag k Γ k₁ Γ₁ hengaged
    rw [st.vars_entered, Stage.tagsOf_bindIn hwired hrig.slots]
    intro x hx
    obtain ⟨⟨object, hobject⟩, -⟩ := hengaged.binding hwired hx
    rw [hobject]
    rfl
  cases h with
  | @ready _ _ _ _ w plans wireTag k Γ hwork hcalm hrest =>
    rw [hwork.drop hrig.same hat hbuilt] at hrest
    obtain ⟨hobject, plans', k₁, Γ₁, hplans', hsub, hrest⟩ := hrest.nesting (by simpa using hj)
    simp only [Stage.binds?_bare, Stage.inwardEnv_bare, Stage.restore_bare] at hobject hsub hrest
    have hengaged : Engaged code s (tagsOf own s.vars) i position c w plans wireTag k Γ st j k₁ Γ₁ :=
      ⟨hwork, hat, hj, hobject, fun n st' _ hst' => hcalm i .refl n st' hst',
        fun l hl _ _ => hcalm l hl, hrest⟩
    -- the wire is not under way, so it is started
    have hidle : st.underway = false := hcalm i .refl position st hat
    have hentered : st.entered w.current s j = (st.bindIn w.current s).start j w.current := by
      rw [Stage.entered, Stage.enter, hidle]
      rfl
    obtain ⟨w', hw', -⟩ := Store.exists_of_code (s := s) (hrig.same ▸ hplans')
    have hbind : (st.bindIn w.current s).wires.get? j = some w' := by rw [st.wires_bindIn, hw']
    have hstart := Store.get?_start hbind w.current
    refine ⟨w, plans, wireTag, k, Γ, k₁, Γ₁, 0, hengaged, ?_, ?_⟩
    · rw [hentered, Store.cursorAt?, hstart]
      rfl
    · rw [hvars hengaged, hentered]
      refine .ready ⟨hstart, hplans', hsub, Store.stopping_start hbind w.current rfl,
        hwork.current.inputTag plans', hwork.current.inputTag plans', hwork.holds.inward st,
        .refl _⟩ (fun l hl n st' hst' => ?_) hsub
      rw [Store.stageAt?_start, Store.stageAt?_eq, st.wires_bindIn, ← Store.stageAt?_eq] at hst'
      exact hcalm l (.head hchild hl) n st' hst'
  | @nested _ _ j' _ q _ w plans wireTag k k₁ Γ Γ₁ st' hengaged hrunning hcursor hinner =>
    obtain rfl : st = st' := Option.some.inj (hat.symm.trans hengaged.stage)
    obtain rfl : j = j' := Option.some.inj (hj.symm.trans hengaged.runs)
    have hentered : st.entered w.current s j = st.bindIn w.current s := by
      rw [Stage.entered, Stage.enter, hrunning]
      rfl
    refine ⟨w, plans, wireTag, k, Γ, k₁, Γ₁, q, hengaged, ?_, ?_⟩
    · rw [hentered, Store.cursorAt?, st.wires_bindIn]
      exact hcursor
    · rw [hvars hengaged, hentered]
      refine hinner.of_undisturbed (hheight j hchild) hrig.same (.of_wires_eq (fun l _ => ?_) ?_)
      · rw [st.wires_bindIn]
      · exact (st.steady_bindIn (T := ∅) w.current s).stops

end Dataflow
