import Dataflow.Mesh.Basic
import Dataflow.Proofs.Cleanup
/-!
# Records of runs

Each run has a record, which is what those who watch the run see of it. The record of a wire changes
together with the place where the wire stands, in four ways: the wire is started, suspended, taken
up again or brought to its end. Nothing else that compositions, warm-ups, activations and clean-ups
do changes a record or the standing of a wire.

That is said once, for all properties of stores. `Upkeep P A T` says that `P` is kept by whatever
leaves records and standings alone, and by moves of wires with records in `A`, which are those of
all wires that are under way and of all wires in `T`. Then `P` is kept by whole resumptions of wires
that run only wires in `T`, by clean-ups and by warm-ups.
-/

namespace Dataflow

variable {H : Host} {w : Wire H} {n position : Nat} {st : Stage H} {f : Wire H → Wire H}
  {s s' s₁ s₂ : Store H} {i j : Id .wire} {p : Placed H} {T : Set (Id .wire)} {P : Store H → Prop}
  {A : Id .run → Prop} {input : Value}

/-- What ties a wire to its record and to other wires: the record, where the wire stands, and the
wires that its stages run. -/
def Wire.stance (w : Wire H) : Id .run × Cursor × List (Option (Id .wire)) :=
  (w.run, w.cursor, w.stages.map (·.stage.nested?))

theorem Wire.stance_setStage (h : ∀ p, w.stages[position]? = some p → st.nested? = p.stage.nested?)
    :
    (w.setStage position st).stance = w.stance := by
  have hstages := w.map_setStage Stage.nested? position st h
  unfold stance
  rw [hstages]
  rfl

theorem Wire.map_modifyPlaced {γ : Type} (φ : Stage H → γ) (w : Wire H) (position : Nat)
    {f : Placed H → Placed H} (hf : ∀ p, (f p).stage = p.stage) :
    (w.modifyPlaced position f).stages.map (fun p => φ p.stage) =
      w.stages.map fun p => φ p.stage := by
  refine List.ext_getElem? fun n => ?_
  simp only [modifyPlaced, List.getElem?_map, List.getElem?_modify]
  split
  · cases w.stages[n]? <;> simp [hf]
  · simp

theorem Wire.stance_modifyPlaced (w : Wire H) (position : Nat) {f : Placed H → Placed H}
    (hf : ∀ p, (f p).stage = p.stage) : (w.modifyPlaced position f).stance = w.stance := by
  have hstages := w.map_modifyPlaced Stage.nested? position hf
  unfold stance
  rw [hstages]
  rfl

/-- The plan of a stage tells which wire it runs. -/
theorem Stage.nested?_eq (st : Stage H) : st.nested? = st.plan?.bind nested? := by
  cases st <;> rfl

namespace Store

/-- A wire has a stage that runs another one. -/
def Nests (s : Store H) (i j : Id .wire) : Prop :=
  ∃ w, s.wires.get? i = some w ∧ some j ∈ w.stages.map (·.stage.nested?)

theorem nests_of_placedAt? (hp : s.placedAt? i n = some p) (hj : p.stage.nested? = some j) :
    s.Nests i j := by
  rw [placedAt?_eq] at hp
  obtain ⟨w, hw, hat⟩ := Option.bind_eq_some_iff.1 hp
  exact ⟨w, hw, List.mem_map.2 ⟨p, List.mem_of_getElem? hat, hj⟩⟩

/-! ### Computations that leave records alone -/

/-- Neither a record nor the stance of a wire changes. -/
structure Quiet (s s' : Store H) : Prop where
  runs : s'.runs = s.runs
  same : ∀ j, (s'.wires.get? j).map Wire.stance = (s.wires.get? j).map Wire.stance

namespace Quiet

theorem of_same (hwires : s₁.wires = s.wires) (hruns : s₁.runs = s.runs) : Quiet s s₁ :=
  ⟨hruns, fun _ => by rw [hwires]⟩

theorem modifyWire (hf : ∀ w, s.wires.get? i = some w → (f w).stance = w.stance) :
    Quiet s (s.modifyWire i f) :=
  ⟨rfl, (Keeps.modifyWire (T := Set.univ) (Set.mem_univ i) hf).same⟩

/-- A wire that is there afterwards was there before, with the same stance. -/
theorem get? (h : Quiet s s₁) (hw : s₁.wires.get? j = some w) :
    ∃ w₀, s.wires.get? j = some w₀ ∧ w₀.stance = w.stance := by
  have hsame := h.same j
  rw [hw, Option.map_some] at hsame
  exact Option.map_eq_some_iff.1 hsame.symm

end Quiet

theorem quiet_mark (s : Store H) (i : Id .wire) (n : Nat) : Quiet s (s.mark i n) :=
  .modifyWire fun w _ => w.stance_modifyPlaced n fun _ => rfl

theorem quiet_unmark (s : Store H) (i : Id .wire) (n : Nat) : Quiet s (s.unmark i n) :=
  .modifyWire fun w _ => w.stance_modifyPlaced n fun _ => rfl

theorem runs_record (s : Store H) (collector : Option (Id .collector)) (t : Trace) :
    (s.record collector t).runs = s.runs := by
  cases collector <;> rfl

/-! ### Composing wires -/

/-- What composing a wire leaves alone besides the gear of its stages: where it stands and its
record. -/
def standing (w : Wire H) : Id .run × Cursor := (w.run, w.cursor)

/-- Neither a record nor a variable nor the standing of a wire changes. -/
structure Still (s s' : Store H) : Prop where
  runs : s'.runs = s.runs
  vars : s'.vars = s.vars
  keeps : Keeps standing Set.univ s s'

namespace Still

theorem refl (s : Store H) : Still s s := ⟨rfl, rfl, .refl s⟩

theorem trans (h : Still s s₁) (h' : Still s₁ s₂) : Still s s₂ :=
  ⟨h'.runs.trans h.runs, h'.vars.trans h.vars, h.keeps.trans h'.keeps⟩

end Still

theorem still_hook (stage : Stage H) (here : Site) (s : Store H) :
    Still s ((stage.compose here).run s).2 := by
  have hrest : ((stage.compose here).run s).2.runs = s.runs ∧
      ((stage.compose here).run s).2.vars = s.vars := by
    rcases stage.effect_compose here s with h | ⟨_, h⟩ | ⟨_, _, h⟩ <;>
      exact ⟨(congrArg Store.runs h :), (congrArg Store.vars h :)⟩
  exact ⟨hrest.1, hrest.2, .of_wires_eq (stage.compose_keeps here s).2⟩

/-- Composing wires is still. -/
theorem permits_still : Permits (fun _ _ _ _ => True) (Still (H := H)) := by
  refine .of_husk .refl .trans still_hook fun s i f hf => ?_
  refine ⟨rfl, rfl, .modifyWire (Set.mem_univ i) fun w _ => ?_⟩
  change standing (husk (f w)) = standing (husk w)
  rw [hf]

/-- What is still and keeps the gear of all stages is quiet. -/
theorem Still.quiet (h : Still s s') (hgear : Keeps Wire.gear T s s') : Quiet s s' := by
  have hlist : ∀ w : Wire H, w.stages.map (·.stage.nested?) =
      w.gear.map fun e => e.1.1.bind Stage.nested? := by
    intro w
    rw [Wire.gear, List.map_map]
    refine List.map_congr_left fun p _ => ?_
    exact p.stage.nested?_eq
  refine ⟨h.runs, fun j => ?_⟩
  have hstanding := h.keeps.same j
  have hstages := hgear.same j
  cases hw' : s'.wires.get? j <;> cases hw : s.wires.get? j <;> simp [hw, hw'] at hstanding hstages ⊢
  rename_i w' w
  simp only [standing, Prod.mk.injEq] at hstanding
  simp only [Wire.stance, hlist, hstages, hstanding]

theorem still_composeAs (s : Store H) (owned : Bool) (id : Id .wire) (site : Site) :
    Still s (s.eval (composeAs owned id site)).2 :=
  permits_still.composeAs s owned id site

theorem quiet_composeShared (s : Store H) (id : Id .wire) (site : Site) :
    Quiet s (s.eval (composeShared id site)).2 :=
  (still_composeAs s false id site).quiet (permits_gear.composeAs s false id site)

theorem quiet_composeOwned (s : Store H) (id : Id .wire) (site : Site) :
    Quiet s (s.eval (composeOwned id site)).2 :=
  (still_composeAs s true id site).quiet (permits_gear.composeAs s true id site)

/-! ### Properties that moves keep -/

/-- `P` is kept by whatever is quiet, and by moves of wires with records in `A`. These are the
records of all wires that are under way and of all wires in `T`, which run only each other. -/
structure Upkeep (P : Store H → Prop) (A : Id .run → Prop) (T : Set (Id .wire)) : Prop where
  quiet : ∀ {s s' : Store H}, P s → Quiet s s' → P s'
  awake : ∀ {s : Store H} {j : Id .wire} {w : Wire H}, P s → s.wires.get? j = some w →
    w.midRun = true → A w.run
  nested : ∀ {s : Store H} {j : Id .wire} {w : Wire H}, P s → j ∈ T → s.wires.get? j = some w →
    A w.run
  closed : ∀ {s : Store H} {j k : Id .wire}, P s → j ∈ T → s.Nests j k → k ∈ T
  move : ∀ {s : Store H} {j : Id .wire} {w : Wire H} {f : Wire H → Wire H}
    {g : RunRecord → RunRecord} {cursor : Cursor} (state : RunState), P s →
    s.wires.get? j = some w → A w.run →
    (∀ w, (f w).stance = (w.run, cursor, w.stages.map (·.stage.nested?))) →
    (∀ r, (g r).state = state) → (state.isTerminal = true → cursor = .idle) →
    P ((s.modifyWire j f).modifyRun w.run g)

/-- No record is lost. -/
theorem upkeep_size (n : Nat) :
    Upkeep (fun s : Store H => n ≤ s.runs.size) (fun _ => True) Set.univ :=
  ⟨fun h hq => by rwa [hq.runs], fun _ _ _ => trivial, fun _ _ _ => trivial, fun _ _ _ => trivial,
    fun _ h _ _ _ _ _ => h.trans_eq (Table.size_modify ..).symm⟩

/-- The record of a wire and the wires that its stages run. -/
def bonds (w : Wire H) : Id .run × List (Option (Id .wire)) :=
  (w.run, w.stages.map (·.stage.nested?))

/-- Wires have the records that they have in another store, and run the same wires. -/
def Tied (s₀ s : Store H) : Prop :=
  ∀ j, (s.wires.get? j).map bonds = (s₀.wires.get? j).map bonds

namespace Tied

variable {s₀ : Store H}

theorem of_quiet (h : Tied s₀ s) (hq : Quiet s s') : Tied s₀ s' := by
  intro j
  rw [← h j]
  have hsame := congrArg (Option.map fun stance => (stance.1, stance.2.2)) (hq.same j)
  rwa [Option.map_map, Option.map_map] at hsame

theorem modifyWire (h : Tied s₀ s) (i : Id .wire) (hf : ∀ w, bonds (f w) = bonds w) :
    Tied s₀ (s.modifyWire i f) := fun j =>
  ((Keeps.modifyWire (T := Set.univ) (Set.mem_univ i) fun w _ => hf w).same j).trans (h j)

theorem get? (h : Tied s₀ s) (hw : s.wires.get? j = some w) :
    ∃ w₀, s₀.wires.get? j = some w₀ ∧ bonds w₀ = bonds w := by
  have hsame := h j
  rw [hw, Option.map_some] at hsame
  exact Option.map_eq_some_iff.1 hsame.symm

theorem nests (h : Tied s₀ s) (hij : s.Nests i j) : s₀.Nests i j := by
  obtain ⟨w, hw, hmem⟩ := hij
  obtain ⟨w₀, hw₀, hbonds⟩ := h.get? hw
  exact ⟨w₀, hw₀, by rwa [show w₀.stages.map _ = _ from congrArg (·.2) hbonds]⟩

/-- A stage may be replaced by one that runs the wire of the stage that was there. -/
theorem quiet_setStage (h : Tied s₀ s) (hp : s₀.placedAt? i n = some p)
    (hst : st.nested? = p.stage.nested?) :
    Quiet s (s.modifyWire i (·.setStage n st)) := by
  refine .modifyWire fun w hw => Wire.stance_setStage fun p' hp' => ?_
  obtain ⟨w₀, hw₀, hbonds⟩ := h.get? hw
  rw [placedAt?_eq, hw₀, Option.bind_some] at hp
  have hlist := congrArg (·[n]?) (congrArg (·.2) hbonds)
  simp only [bonds, List.getElem?_map, hp, hp', Option.map_some, Option.some.injEq] at hlist
  rw [hst, hlist]

end Tied

namespace Upkeep

/-- Moves also leave the records of wires in place. -/
theorem tied (hu : Upkeep P A T) (s₀ : Store H) : Upkeep (fun s => P s ∧ Tied s₀ s) A T where
  quiet h hq := ⟨hu.quiet h.1 hq, h.2.of_quiet hq⟩
  awake h := hu.awake h.1
  nested h := hu.nested h.1
  closed h := hu.closed h.1
  move := by
    intro s j w f g cursor state h hw hA hf hg hidle
    exact ⟨hu.move state h.1 hw hA hf hg hidle, h.2.modifyWire j fun w => congrArg (fun stance => (stance.1, stance.2.2)) (hf w)⟩

variable (hu : Upkeep P A T)

include hu

theorem start (hs : P s) (hA : ∀ w, s.wires.get? i = some w → A w.run) (input : Value) :
    P (s.start i input) := by
  unfold Store.start
  split
  · exact hs
  · exact hu.move .running hs ‹_› (hA _ ‹_›) (fun _ => rfl) (fun _ => rfl)
      (fun h => by cases h)

theorem suspended (hs : P s) (hA : ∀ w, s.wires.get? i = some w → A w.run) (position : Nat)
    (point : Suspension) : P (s.suspended i position point) := by
  unfold Store.suspended
  split
  · exact hs
  · exact hu.move .suspended hs ‹_› (hA _ ‹_›) (fun _ => rfl) (fun _ => rfl)
      (fun h => by cases h)

theorem takenUp (hs : P s) (hw : s.wires.get? i = some w) : P (s.takenUp i w) := by
  unfold Store.takenUp
  split
  · rename_i hcursor
    exact hu.move .running hs hw (hu.awake hs hw (by simp [Wire.midRun, hcursor]))
      (fun _ => rfl) (fun _ => rfl) (fun h => by cases h)
  · exact hs

theorem conclude (hs : P s) (hA : ∀ w, s.wires.get? i = some w → A w.run) (outcome : Outcome) :
    P (s.conclude i outcome) := by
  unfold Store.conclude
  split
  · exact hs
  · exact hu.move outcome.state hs ‹_› (hA _ ‹_›) (fun _ => rfl) (fun _ => rfl)
      (fun _ => rfl)

theorem modifyWire (hs : P s) (hf : ∀ w, (f w).stance = w.stance) : P (s.modifyWire i f) :=
  hu.quiet hs (.modifyWire fun w _ => hf w)

end Upkeep

end Store

/-! ### One stage -/

namespace Stage

/-- `Q` looks at wires and records only. -/
def Watches (Q : Store H → Prop) : Prop :=
  ∀ {s s' : Store H}, Q s → s'.wires = s.wires → s'.runs = s.runs → Q s'

variable {Q : Store H → Prop} (hq : Watches Q)

include hq

/-- What cleaning up a stage does to wires and records is what ending its wire does. -/
theorem kept_cleanup (stage : Stage H) {endNested : Id .wire → Exec H PUnit}
    (hn : ∀ j, stage.nested? = some j → ∀ s, Q s → Q (s.eval (endNested j)).2) (keep : Value)
    (hs : Q s) : Q (s.eval (stage.cleanup endNested keep)).2 := by
  obtain ⟨-, hleaf, hnest⟩ := stage.cleanup_spec endNested keep s
  cases hj : stage.nested? with
  | none => exact hq hs (hleaf hj).1 (hleaf hj).2
  | some j =>
    have hend := hn j hj s hs
    rwa [hnest j hj] at hend

/-- What warming up a stage does to wires and records is what warming up its wire does. -/
theorem kept_warmup (stage : Stage H) {nested : NestedWarmup H}
    (hn : ∀ j, stage.nested? = some j → ∀ input scope board s, Q s →
      Q (s.eval (nested j input scope board)).2) (wire : Wire H) (hs : Q s) :
    Q ((stage.warmup nested wire).run s).2 := by
  obtain ⟨-, hleaf, hnest⟩ := stage.warmup_spec nested wire s
  cases hj : stage.nested? with
  | none => exact hq hs (hleaf hj).1 (hleaf hj).2
  | some j =>
    rw [(hnest j hj).1]
    refine hn j hj _ _ _ _ (hq hs ?_ ?_) <;> cases stage <;> rfl

/-- What activating a stage does to wires and records is what entering and resuming its wire does. -/
theorem kept_activate (stage : Stage H) {resume : Id .wire → Exec H Progress}
    (hn : ∀ j, stage.nested? = some j → ∀ running s, Q s →
      Q ((enter running s j input).eval (resume j)).2) (wire : Wire H) (hs : Q s) :
    Q ((stage.activate resume wire input).run s).2 := by
  cases hnest : stage.isNesting with
  | false =>
    rcases (acts_activate hnest resume wire input s).store with
      ⟨heap, exchange, hstore⟩ | ⟨x, ty, slot, -, hstore⟩ | ⟨u, -, hstore⟩ <;> rw [hstore] <;>
      exact hq hs rfl rfl
  | true =>
    have hbound : Q (stage.bindIn input s) := by
      unfold bindIn
      split
      · exact hq hs rfl rfl
      · exact hs
    have hunbind : ∀ {s' : Store H}, Q s' → Q (stage.unbind s s') := fun hs' => by
      unfold unbind
      split
      · exact hq hs' rfl rfl
      · exact hs'
    cases henters : stage.enters? input with
    | none =>
      obtain ⟨-, hstore, -⟩ := activate_blocked hnest henters resume wire s
      rcases hstore with hstore | hstore <;> rw [hstore]
      · exact hs
      · exact hunbind hbound
    | some j =>
      obtain ⟨hstore, -⟩ := activate_enters henters resume wire s
      rw [hstore]
      exact hunbind (hn j (nested?_of_enters? henters) stage.underway _ hbound)

end Stage

/-! ### Whole wires -/

namespace Store

namespace Upkeep

theorem watches (hu : Upkeep P A T) : Stage.Watches P := fun hs hwires hruns =>
  hu.quiet hs (.of_same hwires hruns)

section Cleanup

variable {endNested : Id .wire → Exec H PUnit}
  (hn : ∀ {P : Store H → Prop}, Upkeep P A T → ∀ j s, P s → P (s.eval (endNested j)).2)

include hn

theorem cleanupBelow (hu : Upkeep P A T) (keep : Value) (i : Id .wire) (position : Nat) (hs : P s) :
    P (s.eval (Store.cleanupBelow endNested keep i position)).2 := by
  induction position generalizing s with
  | zero => exact hs
  | succ position ih =>
    rw [eval_cleanupBelow_succ]
    cases hp : s.placedAt? i position with
    | none => exact ih hs
    | some placed =>
      have hunmark := s.quiet_unmark i position
      dsimp only
      split
      · split
        · have hcleaned := Stage.kept_cleanup (hu.tied s).watches placed.stage
            (fun j _ s hs => hn (hu.tied _) j s hs) keep
            ⟨hu.quiet hs hunmark, Tied.of_quiet (fun _ => rfl) hunmark⟩
          rcases hr : (s.unmark i position).eval (placed.stage.cleanup endNested keep) with
            ⟨_ | stage, s₁⟩ <;> rw [hr] at hcleaned
          · exact hcleaned.1
          · have hharness := (placed.stage.cleanup_spec endNested keep (s.unmark i position)).1 stage
            have hstage := congrArg Prod.snd (hharness (by rw [hr]))
            exact ih (hu.quiet hcleaned.1 (hcleaned.2.quiet_setStage hp hstage))
        · exact ih (hu.quiet hs hunmark)
      · exact ih hs

end Cleanup

theorem cleanupWithin (hu : Upkeep P A T) (depth : Nat) (keep : Value) (i : Id .wire) (hs : P s) :
    P (s.eval (Store.cleanupWithin depth keep i)).2 := by
  induction depth generalizing P i s with
  | zero => exact hs
  | succ depth ih =>
    rw [eval_cleanupWithin_succ]
    cases hw : s.wires.get? i with
    | none => exact hs
    | some wire =>
      refine cleanupBelow (fun hu j s hs => ?_) hu keep i _ hs
      rw [eval_endNested]
      have hclean := ih (hu.tied s) j ⟨hs, fun _ => rfl⟩
      rcases hr : s.eval (Store.cleanupWithin depth keep j) with ⟨_ | _, s₁⟩ <;> rw [hr] at hclean
      · exact hclean.1
      · dsimp only
        split
        · rename_i hrunning
          -- The wire was under way before it was cleaned up, and has the same record afterwards.
          refine hu.conclude hclean.1 (fun w hw => ?_) _
          obtain ⟨w₀, hw₀, hbonds⟩ := hclean.2.get? hw
          rw [hw₀, Option.map_some, Option.getD_some] at hrunning
          have hA := hu.awake hs hw₀ hrunning
          rwa [show w₀.run = w.run from congrArg (·.1) hbonds] at hA
        · exact hclean.1

/-! ### Warming up -/

theorem warmupFrom {nested : NestedWarmup H}
    (hn : ∀ {P : Store H → Prop}, Upkeep P A T → ∀ j input scope board s, P s →
      P (s.eval (nested j input scope board)).2) (hu : Upkeep P A T) (i : Id .wire)
    (position count : Nat) (hs : P s) :
    P (s.eval (Store.warmupFrom nested i position count)).2 := by
  induction count generalizing position s with
  | zero => exact hs
  | succ count ih =>
    rw [eval_warmupFrom_succ]
    have hmarked := hu.quiet hs (s.quiet_mark i position)
    rcases hw : (s.mark i position).wires.get? i with _ | wire
    · exact hmarked
    rcases hp : (s.mark i position).placedAt? i position with _ | placed
    · exact hmarked
    dsimp only
    split
    · have hwarmed := Stage.kept_warmup (hu.tied (s.mark i position)).watches placed.stage
        (fun j _ input scope board s hs => hn (hu.tied _) j input scope board s hs) wire ⟨hmarked, fun _ => rfl⟩
      have hharness := (placed.stage.warmup_spec nested wire (s.mark i position)).1
      rcases hr : (placed.stage.warmup nested wire).run (s.mark i position) with ⟨step, s₁⟩
      rw [hr] at hwarmed hharness
      have hset := hu.quiet hwarmed.1
        (hwarmed.2.quiet_setStage hp (congrArg Prod.snd hharness))
      dsimp only
      split
      · exact hset
      · exact hset
      · exact ih (position + 1) hset
    · exact ih (position + 1) hmarked

theorem warmupWithin (hu : Upkeep P A T) (depth : Nat) (i : Id .wire) (input : Value)
    (scope : Id .scope) (board : Id .board) (hs : P s) :
    P (s.eval (Store.warmupWithin depth i input scope board)).2 := by
  induction depth generalizing P i input scope board s with
  | zero => exact hs
  | succ depth ih =>
    rw [eval_warmupWithin_succ]
    cases hw : s.wires.get? i with
    | none => exact hs
    | some wire =>
      dsimp only
      split
      · exact hs
      · have hadopted : P (s.adopt i input scope board) := hu.modifyWire hs fun _ => rfl
        have hwarmed := warmupFrom (fun hu j input scope board s hs => ih hu j input scope board hs)
          hu i 0 wire.stages.length hadopted
        rcases hr : (s.adopt i input scope board).eval
          (Store.warmupFrom (Store.warmupWithin depth) i 0 wire.stages.length) with ⟨_ | _ | _, s₁⟩ <;>
          rw [hr] at hwarmed
        · exact hwarmed
        · have hclean := hu.cleanupWithin s₁.depthBound .nothing i hwarmed
          dsimp only
          rw [eval_cleanup]
          rcases hc : s₁.eval (Store.cleanupWithin s₁.depthBound .nothing i) with ⟨_ | _, s₂⟩ <;>
            rw [hc] at hclean <;> exact hclean
        · exact hwarmed

/-! ### Resuming -/

theorem activateAt (hu : Upkeep P A T) {depth : Nat}
    (hn : ∀ {P : Store H → Prop}, Upkeep P A T → ∀ j ∈ T, ∀ s, P s →
      P (s.eval (Store.resumeWithin depth j)).2) (hs : P s) {placed : Placed H}
    (hp : s.placedAt? i position = some placed) (hT : ∀ j, placed.stage.nested? = some j → j ∈ T)
    (wire : Wire H) :
    P (s.eval (Store.activateAt (Store.resumeWithin depth) i wire position placed.stage)).2 := by
  rw [eval_activateAt]
  have hnested : ∀ j, placed.stage.nested? = some j → ∀ running s', P s' ∧ Tied s s' →
      P ((Stage.enter running s' j wire.current).eval (Store.resumeWithin depth j)).2 ∧
        Tied s ((Stage.enter running s' j wire.current).eval (Store.resumeWithin depth j)).2 := by
    intro j hj running s' hs'
    refine hn (hu.tied s) j (hT j hj) _ ?_
    unfold Stage.enter
    split
    · exact hs'
    · exact (hu.tied s).start hs' (fun w hw => hu.nested hs'.1 (hT j hj) hw) _
  have hactive := Stage.kept_activate (hu.tied s).watches placed.stage hnested wire
    ⟨hs, fun _ => rfl⟩
  have hplan : ((placed.stage.activate (Store.resumeWithin depth) wire wire.current).run
      s).1.stage.plan? = placed.stage.plan? :=
    (Stage.steady_activate (T := Set.univ) (fun j _ => ⟨trivial, fun s' _ =>
      (steady_resumeWithin depth j s').mono (Set.subset_univ _)⟩) wire wire.current).1
  rcases hr : (placed.stage.activate (Store.resumeWithin depth) wire wire.current).run s with
    ⟨step, s₁⟩
  rw [hr] at hactive hplan
  have hstage : step.stage.nested? = placed.stage.nested? := by
    rw [Stage.nested?_eq, hplan, ← Stage.nested?_eq]
  have hset := hu.quiet hactive.1 (hactive.2.quiet_setStage hp hstage)
  dsimp only
  split
  · exact hset
  · exact hu.quiet hset (.of_same (wires_record ..) (runs_record ..))

theorem rides (hu : Upkeep P A T) (hA : ∀ s, P s → ∀ w, s.wires.get? i = some w → A w.run) :
    Rides P i where
  note hs hf := hu.modifyWire hs fun w => (congrArg Wire.stance (hf w) :)
  suspend position point hs := hu.suspended hs (hA _ hs) position point

theorem resumeWithin (hu : Upkeep P A T) (depth : Nat) (hT : ∀ s, P s → ∀ j, s.Nests i j → j ∈ T)
    (hs : P s) :
    P (s.eval (Store.resumeWithin depth i)).2 := by
  induction depth generalizing P i s with
  | zero => exact hs
  | succ depth ih =>
    refine resumeWithin_induction hs fun wire position hw hp => ?_
    have hA : A wire.run := by
      refine hu.awake hs hw ?_
      cases hcursor : wire.cursor <;> simp [hcursor, Cursor.position?, Wire.midRun] at hp ⊢
    -- While the wire is resumed it has the record that it had when it was found under way.
    have htied := hu.tied s
    have hadvance := (htied.rides fun s' hs' w hw' => ?_).advance (fun hs' _ hp' =>
      htied.activateAt (fun hu j hj s hs => ih hu (fun s hs k hk => hu.closed hs hj hk) hs) hs' hp'
        (fun j hj => hT _ hs'.1 j (nests_of_placedAt? hp' hj)) _) position
      (wire.stages.length - position) (htied.takenUp ⟨hs, fun _ => rfl⟩ hw)
    · exact hadvance.1
    · obtain ⟨w₀, hw₀, hbonds⟩ := hs'.2.get? hw'
      obtain rfl := Option.some.inj (hw.symm.trans hw₀)
      rwa [show wire.run = w.run from congrArg (·.1) hbonds] at hA

end Upkeep

end Store

end Dataflow
