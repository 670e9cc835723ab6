import Dataflow.Proofs.Buffers
import Dataflow.Proofs.Records
/-!
# Stopped runs

The output of an iteration moves from where the wire works to where it keeps its last output, and from
there into the answer. While a run is under way, what is kept is the output of the last iteration
that was completed, so a stop between two resumptions reports it, and so does giving up the run.

Giving up cleans up first, which must come to its end: wires that were warmed up are not nested in
themselves, and buffers that are accounted for can always be taken back.
-/

namespace Dataflow

variable {H : Host} {s s' : Store H} {i id : Id .wire} {f : Wire H → Wire H} {st : Stage H}
  {depth n position : Nat} {p : Placed H} {input : Value} {w : Wire H}

/-! ### Sound stages -/

namespace Stage

/-- The buffers of a stage, if it hands out any, are accounted for. -/
def Sound : Stage H → Prop
  | buffer source => source.Sound
  | _ => True

theorem sound_activate {stage : Stage H} (h : stage.Sound) (resume : Id .wire → Exec H Progress)
    (wire : Wire H) (input : Value) (s : Store H) :
    ((stage.activate resume wire input).run s).1.stage.Sound := by
  cases stage with
  | set x ty slot | update x ty slot | get x slot => cases slot <;> trivial
  | pause time paused =>
    cases paused with
    | true => trivial
    | false =>
      simp only [activate, Bool.false_eq_true, if_false]
      split <;> trivial
  | buffer source =>
    obtain ⟨_, _, _, -, -, hsource, hnext⟩ := BufferSource.next_hands h s.holds s.heap
    simp only [activate, Store.run_bind, Store.run_getThe, hnext]
    exact hsource
  | bound x sub slot => cases input <;> cases slot <;> trivial
  | produce sender queue =>
    cases queue with
    | none => trivial
    | some q =>
      simp only [activate, Store.run_bind]
      split <;> trivial
  | broadcast sender fan => cases fan <;> trivial
  | consume r queue | listen r queue => cases queue <;> trivial
  | _ => trivial

theorem sound_warmup {stage : Stage H} (h : stage.Sound) (nested : NestedWarmup H) (wire : Wire H)
    (s : Store H) : ((stage.warmup nested wire).run s).1.stage.Sound := by
  cases stage with
  | buffer source => exact h
  | set name ty slot =>
    rw [run_warmup_set]
    split <;> trivial
  | update name ty slot =>
    rw [run_warmup_update]
    split
    · trivial
    · split <;> trivial
  | add operand | get name slot =>
    simp only [warmup, Store.run_bind, Store.run_getThe]
    split <;> trivial
  | produce sender queue | broadcast sender fan | consume r queue | listen r queue =>
    simp only [warmup, Store.run_bind, warmupChannel, Store.run_modifyGetThe]
    split <;> trivial
  | _ => trivial

/-- A stage that is sound can be cleaned up if its wire can be ended, and is sound then. -/
theorem cleanup_ok {Q : Store H → Prop} (hq : Watches Q) {stage : Stage H} (h : stage.Sound)
    {endNested : Id .wire → Exec H PUnit} (hn : ∀ j, stage.nested? = some j → ∀ s, Q s →
      ∃ s', s.eval (endNested j) = (.ok (), s') ∧ Q s') (keep : Value) (hs : Q s) :
    ∃ st s', s.eval (stage.cleanup endNested keep) = (.ok st, s') ∧ st.Sound ∧ Q s' := by
  cases stage with
  | buffer source =>
    obtain ⟨source', hreclaim, hreclaims⟩ := BufferSource.reclaim_reclaims h
      fun id => s.holds id || keep.anyObject (·.id == id)
    simp only [cleanup, Store.eval_bind, Store.eval_getThe, hreclaim]
    exact ⟨_, s, rfl, hreclaims.sound, hs⟩
  | inline sub | bound name sub slot =>
    obtain ⟨_ | j, running⟩ := sub
    · exact ⟨_, s, rfl, trivial, hs⟩
    · obtain ⟨s', hend, hs'⟩ := hn j rfl s hs
      simp only [cleanup, Store.eval_bind, hend]
      exact ⟨_, s', rfl, trivial, hs'⟩
  | consume r queue | listen r queue =>
    simp only [cleanup, Store.eval_modifyGetThe]
    split <;> exact ⟨_, _, rfl, trivial, hq hs rfl rfl⟩
  | unit u => exact ⟨_, _, rfl, trivial, hq hs rfl rfl⟩
  | _ => exact ⟨_, s, rfl, trivial, hs⟩

end Stage

/-! ### Sound stores -/

namespace Store

/-- The buffers of all stages are accounted for. -/
def Sourced (s : Store H) : Prop :=
  ∀ j w, s.wires.get? j = some w → ∀ p ∈ w.stages, p.stage.Sound

section Sourced

theorem Sourced.of_wires_eq (h : s.Sourced) (hwires : s'.wires = s.wires) : s'.Sourced := by
  unfold Sourced
  rwa [hwires]

theorem Sourced.modifyWire (h : s.Sourced) (i : Id .wire)
    (hf : ∀ w, (∀ p ∈ w.stages, p.stage.Sound) → ∀ p ∈ (f w).stages, p.stage.Sound) :
    (s.modifyWire i f).Sourced := by
  intro j w hw
  obtain ⟨rfl, w₀, hw₀, rfl⟩ | ⟨hij, hw⟩ := get?_of_modifyWire hw
  · exact hf w₀ (h i w₀ hw₀)
  · exact h j w hw

theorem Sourced.modifyPlaced (h : s.Sourced) (i : Id .wire) (n : Nat) {f : Placed H → Placed H}
    (hf : ∀ p : Placed H, p.stage.Sound → (f p).stage.Sound) :
    (s.modifyWire i (·.modifyPlaced n f)).Sourced := by
  refine h.modifyWire i fun w hw p hp => ?_
  obtain ⟨m, hm⟩ := List.mem_iff_getElem?.1 hp
  rw [Wire.modifyPlaced, List.getElem?_modify] at hm
  obtain ⟨p₀, hp₀, rfl⟩ := Option.map_eq_some_iff.1 hm
  have hsound := hw p₀ (List.mem_of_getElem? hp₀)
  split
  · exact hf p₀ hsound
  · exact hsound

theorem Sourced.setStage (h : s.Sourced) (i : Id .wire) (n : Nat) (hst : st.Sound) :
    (s.modifyWire i (·.setStage n st)).Sourced :=
  h.modifyPlaced i n fun _ _ => hst

theorem Sourced.placedAt? (h : s.Sourced) (hp : s.placedAt? i n = some p) : p.stage.Sound := by
  rw [placedAt?_eq] at hp
  obtain ⟨w, hw, hat⟩ := Option.bind_eq_some_iff.1 hp
  exact h i w hw p (List.mem_of_getElem? hat)

theorem watches_sourced : Stage.Watches (Sourced (H := H)) := fun h hwires _ => h.of_wires_eq hwires

/-- What is done to the record of a wire and to where it stands leaves its stages alone. -/
theorem Sourced.move (h : s.Sourced) (i : Id .wire) (hf : ∀ w, (f w).stages = w.stages)
    (run : Id .run) (g : RunRecord → RunRecord) : ((s.modifyWire i f).modifyRun run g).Sourced :=
  (h.modifyWire i fun w hw => by rwa [hf]).of_wires_eq rfl

theorem Sourced.start (h : s.Sourced) (i : Id .wire) (input : Value) : (s.start i input).Sourced := by
  unfold Store.start
  split
  · exact h
  · exact h.move i (by exact fun _ => rfl) _ _

theorem Sourced.suspended (h : s.Sourced) (i : Id .wire) (position : Nat) (point : Suspension) :
    (s.suspended i position point).Sourced := by
  unfold Store.suspended
  split
  · exact h
  · exact h.move i (by exact fun _ => rfl) _ _

theorem rides_sourced (i : Id .wire) : Rides (Sourced (H := H)) i where
  note hs hf := hs.modifyWire i fun w hw => (congrArg Wire.stages (hf w) :) ▸ hw
  suspend position point hs := hs.suspended i position point

theorem Sourced.activateAt {resume : Id .wire → Exec H Progress}
    (hn : ∀ (j : Id .wire) (s : Store H), s.Sourced → (s.eval (resume j)).2.Sourced)
    {placed : Placed H} (h : s.Sourced) (wire : Wire H) (hp : s.placedAt? i position = some placed)
    :
    (s.eval (activateAt resume i wire position placed.stage)).2.Sourced := by
  have hstage := Stage.sound_activate (h.placedAt? hp) resume wire wire.current s
  have hstore := Stage.kept_activate watches_sourced placed.stage (fun j _ running s hs => hn j _ (by
    unfold Stage.enter
    split
    · exact hs
    · exact hs.start j wire.current)) wire h
  have hset := hstore.setStage i position hstage
  rw [eval_activateAt]
  generalize (placed.stage.activate resume wire wire.current).run s = active at hset ⊢
  rcases active with ⟨⟨stage, _ | answer⟩, s₁⟩
  · exact hset
  · exact hset.of_wires_eq (wires_record ..)

theorem Sourced.resumeWithin (depth : Nat) (i : Id .wire) (h : s.Sourced) :
    (s.eval (resumeWithin depth i)).2.Sourced := by
  induction depth generalizing i s with
  | zero => exact h
  | succ depth ih =>
    refine resumeWithin_induction h fun wire position _ _ => (rides_sourced i).advance
      (fun hs _ hp => hs.activateAt (fun j s hs => ih j hs) _ hp) position _ ?_
    unfold takenUp
    split
    · exact h.move i (by exact fun _ => rfl) _ _
    · exact h

theorem Sourced.conclude (h : s.Sourced) (i : Id .wire) (outcome : Outcome) :
    (s.conclude i outcome).Sourced := by
  unfold Store.conclude
  split
  · exact h
  · exact h.move i (by exact fun _ => rfl) _ _

end Sourced

/-! ### Ending a run -/

section Ending

variable {s₀ s : Store H}

/-- Whatever is done with wires, no record is lost and no wire gets other ties. -/
theorem upkeep_tied (n : Nat) (s₀ : Store H) :
    Upkeep (fun s => n < s.runs.size ∧ Tied s₀ s) (fun _ => True) Set.univ :=
  (upkeep_size (n + 1)).tied s₀

theorem Tied.symm (h : Tied s₀ s) : Tied s s₀ := fun j => (h j).symm

theorem Tied.size (h : Tied s₀ s) : s.wires.size = s₀.wires.size := by
  have hle : ∀ {s s' : Store H}, Tied s s' → s'.wires.size ≤ s.wires.size := by
    intro s s' h
    by_contra hlt
    obtain ⟨w, hw, -⟩ := h.get? (j := ⟨s.wires.size⟩) (Array.getElem?_eq_getElem (Nat.lt_of_not_le hlt))
    exact lt_irrefl _ (Array.getElem?_eq_some_iff.1 hw).1
  exact le_antisymm (hle h) (hle h.symm)

theorem Tied.conclude (h : Tied s₀ s) (i : Id .wire) (outcome : Outcome) :
    Tied s₀ (s.conclude i outcome) := by
  unfold Store.conclude
  split
  · exact h
  · exact h.modifyWire i fun _ => rfl

/-- A stage that runs a wire has run it all the time. -/
theorem Tied.placedAt? (h : Tied s₀ s) (hp : s.placedAt? i n = some p) :
    ∃ p₀, s₀.placedAt? i n = some p₀ ∧ p₀.stage.nested? = p.stage.nested? := by
  rw [placedAt?_eq] at hp
  obtain ⟨w, hw, hat⟩ := Option.bind_eq_some_iff.1 hp
  obtain ⟨w₀, hw₀, hbonds⟩ := h.get? hw
  have hlist := congrArg (·[n]?) (congrArg (·.2) hbonds)
  simp only [bonds, List.getElem?_map, hat, Option.map_some] at hlist
  obtain ⟨p₀, hp₀, hnested⟩ := Option.map_eq_some_iff.1 hlist
  exact ⟨p₀, by rw [placedAt?_eq, hw₀]; exact hp₀, hnested⟩

/-- Wires are tied as they were, and all buffers are accounted for. -/
def InOrder (s₀ s : Store H) : Prop := Tied s₀ s ∧ s.Sourced

theorem InOrder.of_wires_eq (h : InOrder s₀ s) (hwires : s'.wires = s.wires) : InOrder s₀ s' :=
  ⟨fun j => by rw [hwires, h.1 j], h.2.of_wires_eq hwires⟩

theorem InOrder.setStage (h : InOrder s₀ s) (hp : s₀.placedAt? i n = some p)
    (hst : st.nested? = p.stage.nested?) (hsound : st.Sound) :
    InOrder s₀ (s.modifyWire i (·.setStage n st)) :=
  ⟨h.1.of_quiet (h.1.quiet_setStage hp hst), h.2.setStage i n hsound⟩

theorem cleanupBelow_ok {endNested : Id .wire → Exec H PUnit}
    (hn : ∀ j, s₀.code.Child i j → ∀ s, InOrder s₀ s →
      ∃ s', s.eval (endNested j) = (.ok (), s') ∧ InOrder s₀ s') (keep : Value) (position : Nat)
    (h : InOrder s₀ s) :
    ∃ s', s.eval (cleanupBelow endNested keep i position) = (.ok (), s') ∧ InOrder s₀ s' := by
  induction position generalizing s with
  | zero => exact ⟨s, rfl, h⟩
  | succ position ih =>
    rw [eval_cleanupBelow_succ]
    cases hp : s.placedAt? i position with
    | none => exact ih h
    | some placed =>
      have hunmark : InOrder s₀ (s.unmark i position) :=
        ⟨h.1.of_quiet (s.quiet_unmark i position), h.2.modifyPlaced i position fun _ hp => hp⟩
      obtain ⟨p₀, hp₀, hnested⟩ := h.1.placedAt? hp
      dsimp only
      split
      · split
        · obtain ⟨st, s₁, hclean, hsound, hs₁⟩ := Stage.cleanup_ok (fun h hwires _ => h.of_wires_eq hwires)
            (h.2.placedAt? hp) (fun j hj => hn j (child_of_placedAt? hp₀ (hnested.trans hj))) keep
            hunmark
          have hst : st.nested? = placed.stage.nested? :=
            congrArg Prod.snd
              ((Stage.cleanup_spec placed.stage endNested keep _).1 st (by rw [hclean]))
          rw [hclean]
          exact ih (hs₁.setStage hp₀ (hst.trans hnested.symm) hsound)
        · exact ih hunmark
      · exact ih h

/-- Cleaning up a wire comes to its end, if wires are not nested too deep. -/
theorem cleanupWithin_ok (hheight : s₀.code.Height depth i) (keep : Value) (h : InOrder s₀ s) :
    ∃ s', s.eval (cleanupWithin depth keep i) = (.ok (), s') ∧ InOrder s₀ s' := by
  induction depth generalizing i s with
  | zero => exact hheight.elim
  | succ depth ih =>
    rw [eval_cleanupWithin_succ]
    cases hw : s.wires.get? i with
    | none => exact ⟨s, rfl, h⟩
    | some wire =>
      refine cleanupBelow_ok (fun j hj s hs => ?_) keep _ h
      obtain ⟨s₁, hclean, hs₁⟩ := ih (hheight j hj) hs
      rw [eval_endNested, hclean]
      refine ⟨_, rfl, ?_⟩
      split
      · exact ⟨hs₁.1.conclude j _, hs₁.2.conclude j _⟩
      · exact hs₁

/-! ### Beginning a run -/

/-- Stages that were warmed up run wires that were warmed up. -/
theorem warmupFrom_ok {nested : NestedWarmup H}
    (hn : ∀ j input scope board (s s' : Store H), InOrder s₀ s →
      s.eval (nested j input scope board) = (.ok (.ok ()), s') →
        s₀.code.Height depth j ∧ InOrder s₀ s') (rest : List (Placed H))
    (hrest : ∀ n, s₀.placedAt? i (position + n) = rest[n]?) (hs : InOrder s₀ s)
    (h : s.eval (warmupFrom nested i position rest.length) = (.ok (.ok ()), s')) :
    (∀ p ∈ rest, ∀ j, p.stage.nested? = some j → s₀.code.Height depth j) ∧ InOrder s₀ s' := by
  induction rest generalizing position s with
  | nil =>
    obtain rfl : s = s' := congrArg Prod.snd h
    exact ⟨by simp, hs⟩
  | cons p₀ rest ih =>
    have hmark : InOrder s₀ (s.mark i position) :=
      ⟨hs.1.of_quiet (s.quiet_mark i position), hs.2.modifyPlaced i position fun _ hp => hp⟩
    have hp₀ : s₀.placedAt? i position = some p₀ := hrest 0
    have hrest' : ∀ n, s₀.placedAt? i (position + 1 + n) = rest[n]? := fun n => by
      rw [Nat.add_assoc, Nat.add_comm 1, hrest, List.getElem?_cons_succ]
    obtain ⟨p, hp, hnested⟩ := hmark.1.symm.placedAt? hp₀
    obtain ⟨w, hw, -⟩ := Option.bind_eq_some_iff.1 hp
    rw [List.length_cons, eval_warmupFrom_succ, hw, hp] at h
    dsimp only at h
    -- the stage is warmed up first, and with it the wire that it runs
    have hvisit : ∃ s₁, s₁.eval (warmupFrom nested i (position + 1) rest.length) = (.ok (.ok ()), s') ∧
        (∀ j, p.stage.nested? = some j → s₀.code.Height depth j) ∧ InOrder s₀ s₁ := by
      split at h
      · have hsound := Stage.sound_warmup (hmark.2.placedAt? hp) nested w (s.mark i position)
        obtain ⟨hharness, hleaf, hnest⟩ := p.stage.warmup_spec nested w (s.mark i position)
        generalize (p.stage.warmup nested w).run (s.mark i position) = r at h hsound hharness hleaf hnest
        obtain ⟨⟨st, _ | _ | _⟩, s₁⟩ := r
        · cases h
        · cases h
        refine ⟨_, h, ?_⟩
        have hset : InOrder s₀ s₁ → InOrder s₀ (s₁.modifyWire i (·.setStage position st)) := fun hs₁ =>
          hs₁.setStage hp₀ ((congrArg Prod.snd hharness).trans hnested) hsound
        cases hj : p.stage.nested? with
        | none => exact ⟨by simp, hset (hmark.of_wires_eq (hleaf hj).1)⟩
        | some j =>
          obtain ⟨hstore, hanswer⟩ := hnest j hj
          have hready : InOrder s₀ (p.stage.prepared w (s.mark i position)) :=
            hmark.of_wires_eq (p.stage.wires_prepared ..)
          have hwarm := hn j w.input w.scope w.board _ s₁ hready
          rcases hr : (p.stage.prepared w (s.mark i position)).eval (nested j w.input w.scope w.board)
            with ⟨_ | _ | _, s₂⟩ <;> rw [hr] at hstore hanswer hwarm
          · cases hanswer
          · obtain ⟨_, hanswer⟩ := hanswer
            cases hanswer
          · obtain rfl : s₁ = s₂ := hstore
            exact ⟨fun k hk => Option.some.inj hk ▸ (hwarm rfl).1, hset (hwarm rfl).2⟩
      · rename_i hcall
        refine ⟨_, h, fun j hj => absurd (Stage.lifecycle_of_nested? hj) hcall, hmark⟩
    obtain ⟨s₁, h, hheight, hs₁⟩ := hvisit
    obtain ⟨hheights, hs'⟩ := ih hrest' hs₁ h
    refine ⟨fun q hq j hj => ?_, hs'⟩
    rcases List.mem_cons.1 hq with rfl | hq
    · exact hheight j (hnested.trans hj)
    · exact hheights q hq j hj

/-- A wire that was warmed up is not nested in itself. -/
theorem warmupWithin_ok {scope : Id .scope} {board : Id .board} (hs : InOrder s₀ s)
    (h : s.eval (warmupWithin depth i input scope board) = (.ok (.ok ()), s')) :
    s₀.code.Height depth i ∧ InOrder s₀ s' := by
  induction depth generalizing i s s' input scope board with
  | zero => cases h
  | succ depth ih =>
    have hchildless : s₀.wires.get? i = none → s₀.code.Height (depth + 1) i := by
      rintro hw₀ j ⟨plans, hplans, -⟩
      simp [code, hw₀] at hplans
    cases hw : s.wires.get? i with
    | none =>
      rw [eval_warmupWithin_succ, hw] at h
      obtain rfl : s = s' := congrArg Prod.snd h
      exact ⟨hchildless (Option.map_eq_none_iff.1 ((hs.1 i).symm.trans (by rw [hw]; rfl))), hs⟩
    | some wire =>
      obtain ⟨w₀, hw₀, hbonds⟩ := hs.1.get? hw
      have hlength : wire.stages.length = w₀.stages.length := by
        have := congrArg (·.2.length) hbonds
        simpa [bonds] using this.symm
      have hadopt : InOrder s₀ (s.adopt i input scope board) :=
        ⟨hs.1.modifyWire i fun _ => rfl, hs.2.modifyWire i fun _ hw => hw⟩
      obtain ⟨hheights, hs'⟩ := warmupFrom_ok (fun j input scope board s s' hs h => ih hs h)
        w₀.stages (fun n => by rw [placedAt?_eq, hw₀, Nat.zero_add]; rfl) hadopt
        (hlength ▸ warmupFrom_of_warmupWithin hw h)
      refine ⟨fun j hj => ?_, hs'⟩
      have hmem := mem_children hj
      simp only [children, hw₀] at hmem
      obtain ⟨p, hp, hnested⟩ := List.mem_filterMap.1 hmem
      exact hheights p hp j hnested

end Ending

end Store

/-! ### Completed iterations -/

/-- What a wire without stages outputs in a turn. -/
def Turn.output? (input : Value) : Turn → Option Value
  | resume => some input
  | requestStop _ => none

/-- The outputs of the iterations that were completed, by the log of a run. A wire without stages
has no log, and completes an iteration whenever it is resumed. -/
def Course.outputs (c : Course) (turns : List Turn) (log : List (Event H)) : List Value :=
  if c.length = 0 then turns.filterMap (Turn.output? c.input) else log.filterMap c.output?

theorem Course.getLastD_outputs (c : Course) (turns turns' : List Turn) (log log' : List (Event H))
    (before : Value) : (c.outputs (turns ++ turns') (log ++ log')).getLastD before =
      (c.outputs turns' log').getLastD ((c.outputs turns log).getLastD before) := by
  have happend : c.outputs (turns ++ turns') (log ++ log') = c.outputs turns log ++ c.outputs turns' log' := by
    unfold outputs
    split <;> exact List.filterMap_append ..
  rw [happend]
  simp [List.getLastD_eq_getLast?, List.getLast?_append, Option.getD_or]

/-- A wire follows a course, and is under way. -/
structure Course.Guides (c : Course) (w : Wire H) : Prop where
  course : w.course = c
  due : ∃ q, w.due? = some q ∧ (q.position < c.length ∨ c.length = 0 ∧ q.input = c.input)

namespace Store

section Stopping

variable {c : Course}

/-- A resumption that suspends leaves the wire under way, with the output of the iteration that it
has completed, if any. -/
theorem guides_resume (hw : s.wires.get? id = some w) (h : c.Guides w) (hloop : s.Unnested id)
    {point : Suspension} (hr : s.eval (resume id) = (.ok (.suspended point), s')) :
    ∃ w', s'.wires.get? id = some w' ∧ c.Guides w' ∧ w'.lastOutput =
      (c.outputs [.resume] (resumeEvents s.depthBound id s)).getLastD w.lastOutput := by
  obtain ⟨hc, q, hq, hpos | ⟨hempty, hinput⟩⟩ := h
  · obtain ⟨⟨w', hw', hc', hlaw⟩, -⟩ := part_resume hw hc hq hpos hloop
    rw [hr] at hw' hlaw
    obtain ⟨q', hq', hpos', -⟩ := hlaw.due point rfl
    refine ⟨w', hw', ⟨hc', q', hq', .inl hpos'⟩, ?_⟩
    rw [hlaw.last point rfl, Course.outputs, if_neg (by omega), Course.lastOutput]
  · obtain ⟨position, hposition, rfl⟩ := Option.map_eq_some_iff.1 hq
    obtain ⟨w₁, hw₁, hcourse, -, hcurrent, -⟩ := takenUp_spec hw
    obtain ⟨w', hw', hcourse', hdue, -⟩ := completeIteration_spec hw₁
    have hnone : w.stages.length - position = 0 := by
      rw [show w.stages.length = 0 from (congrArg Course.length hc).trans hempty, Nat.zero_sub]
    rw [eval_resume, eval_resumeWithin_succ s _ hw hposition, hnone, advance] at hr
    rw [hr] at hw' hdue
    obtain ⟨hdue', hlast, -⟩ := hdue point rfl
    have hc₁ : w₁.course = c := hcourse.trans hc
    refine ⟨w', hw', ⟨hcourse'.trans hc₁, _, hdue', .inr ⟨hempty, congrArg Course.input hc₁⟩⟩, ?_⟩
    rw [hlast, hcurrent, Course.outputs, if_pos hempty]
    exact hinput

/-- While a run has not ended the wire keeps the output of its last completed iteration. -/
theorem guides_take {turns : List Turn} (hw : s.wires.get? id = some w) (h : c.Guides w)
    (hloop : s.Unnested id) (hopen : s.take id turns = (none, s')) :
    ∃ w', s'.wires.get? id = some w' ∧ c.Guides w' ∧ w'.lastOutput =
      (c.outputs turns (s.turnsLog id turns)).getLastD w.lastOutput := by
  induction turns generalizing s w with
  | nil =>
    cases hopen
    exact ⟨w, hw, h, by simp [Course.outputs, turnsLog]⟩
  | cons turn rest ih =>
    cases turn with
    | requestStop j =>
      obtain ⟨w', hw', hguides, hlast⟩ := ih (by rw [wires_requestStop, hw]) h (hloop.requestStop j) hopen
      exact ⟨w', hw', hguides, hlast⟩
    | resume =>
      have hsteady := s.steady_resume id
      rw [take] at hopen
      rcases hr : s.eval (resume id) with ⟨_ | point | _ | _, s₁⟩ <;> rw [hr] at hopen hsteady <;>
        dsimp only at hopen
      · cases hopen
      · obtain ⟨w₁, hw₁, hguides₁, hlast₁⟩ := guides_resume hw h hloop hr
        obtain ⟨w', hw', hguides, hlast⟩ := ih hw₁ hguides₁ (hloop.of_steady hsteady) hopen
        refine ⟨w', hw', hguides, ?_⟩
        rw [hlast, hlast₁, turnsLog, hr]
        exact (c.getLastD_outputs [.resume] rest _ _ _).symm
      · cases hopen
      · cases hopen

/-- What resumptions and stop requests keep holds until the run ends. -/
theorem take_kept {P : Store H → Prop} (hresume : ∀ s, P s → P (s.eval (resume id)).2)
    (hstop : ∀ s j, P s → P (s.requestStop j)) (turns : List Turn) (h : P s) :
    P (s.take id turns).2 := by
  induction turns generalizing s with
  | nil => exact h
  | cons turn rest ih =>
    cases turn with
    | requestStop j => exact ih (hstop s j h)
    | resume =>
      have hkept := hresume s h
      rw [take]
      rcases hr : s.eval (resume id) with ⟨_ | _ | _ | _, s₁⟩ <;> rw [hr] at hkept
      · exact hkept
      · exact ih hkept
      · exact hkept
      · exact hkept

end Stopping

/-- A run that has begun is under way at the first stage of a wire that is not nested in itself, and
has a record. -/
theorem begun_spec {s₁ : Store H} (hsourced : s.Sourced) {parent : Option (Id .scope)}
    {board : Id .board} (hbegun : s.eval (beginRun id input parent board) = (.ok (.ok ()), s₁))
    (hw : s₁.wires.get? id = some w) :
    s₁.Sourced ∧ s₁.code.Height s₁.depthBound id ∧ w.run.row < s₁.runs.size ∧
      w.lastOutput = .nothing ∧ Course.Guides ⟨w.stages.length, w.looped, input⟩ w := by
  rw [eval_beginRun] at hbegun
  generalize hready : s.readied id parent = ready at hbegun
  rcases hwarm : ready.2.eval (warmupWithin ready.2.depthBound id input ready.1 board) with
    ⟨_ | _ | _, s'⟩ <;> rw [hwarm] at hbegun <;> dsimp only at hbegun
  · cases hbegun
  · cases hbegun
  obtain rfl : s'.start id input = s₁ := congrArg Prod.snd hbegun
  -- the run got a new record, which stays the one of the wire
  have hkept := upkeep_tied s.runs.size ready.2
  have hfirst : s.runs.size < ready.2.runs.size ∧ Tied ready.2 ready.2 := by
    refine ⟨?_, fun _ => rfl⟩
    rw [← hready]
    exact Nat.lt_of_lt_of_eq (Nat.lt_succ_self _) (Table.size_push ..).symm
  have hwarmed := hkept.warmupWithin ready.2.depthBound id input ready.1 board hfirst
  rw [hwarm] at hwarmed
  have hstarted := hkept.start (i := id) hwarmed (fun _ _ => trivial) input
  have hsound : ready.2.Sourced := by
    rw [← hready]
    exact (hsourced.modifyWire id (f := fun w => { w with run := s.runs.next })
      (by exact fun _ hw => hw)).of_wires_eq rfl
  obtain ⟨hheight, -, hsound'⟩ := warmupWithin_ok ⟨hstarted.2.symm, hsound⟩ hwarm
  have hdepth : (s'.start id input).depthBound = ready.2.depthBound :=
    congrArg (· + 1) hstarted.2.size
  obtain ⟨w₀, hw₀, hbonds⟩ := hstarted.2.get? hw
  have hrun : w.run.row = s.runs.size := by
    rw [← show w₀.run = w.run from congrArg (·.1) hbonds]
    rw [← hready] at hw₀
    obtain ⟨w₁, -, rfl⟩ := Option.map_eq_some_iff.1 ((get?_modifyWire_self ..).symm.trans hw₀)
    rfl
  obtain ⟨w₁, hw₁⟩ : ∃ w₁, s'.wires.get? id = some w₁ := by
    cases hnone : s'.wires.get? id with
    | none => simp [Store.start, hnone] at hw
    | some w₁ => exact ⟨w₁, rfl⟩
  simp only [Store.start, hw₁, modifyRun, get?_modifyWire_self, Option.map_some,
    Option.some.injEq] at hw
  refine ⟨hsound'.start id input, hdepth ▸ hheight, hrun ▸ hstarted.1, ?_⟩
  subst hw
  exact ⟨rfl, rfl, _, rfl, (Nat.eq_zero_or_pos _).symm.imp_right fun h => ⟨h, rfl⟩⟩

/-- A run that was begun and has not ended reports its last completed iteration when it is stopped.
However it was resumed up to now, once a stop is asked for the next resumption activates nothing and
answers the output of the last iteration that ran to its end or was finished early, and nothing if
there is none. Giving up the run instead would report the same output. -/
theorem stop_reports_last_iteration {s s₁ s₂ : Store H} (hsourced : s.Sourced) {id : Id .wire}
    {input : Value} {parent : Option (Id .scope)} {board : Id .board}
    (hbegun : s.eval (beginRun id input parent board) = (.ok (.ok ()), s₁)) {w : Wire H}
    (hw : s₁.wires.get? id = some w) (turns : List Turn)
    (hopen : s₁.take id turns = (none, s₂)) :
    let course : Course := ⟨w.stages.length, w.looped, input⟩
    let output := (course.outputs turns (s₁.turnsLog id turns)).getLastD .nothing
    let stopped := s₂.requestStop id
    resumeEvents stopped.depthBound id stopped = [] ∧
      (stopped.eval (resume id)).1 = .ok (.finished output) ∧
      (stopped.eval (abandon id)).1 = .ok (.stopped output) := by
  intro course output stopped
  obtain ⟨hsourced₁, hheight, hrun, hlast, hguides⟩ := begun_spec hsourced hbegun hw
  have hloop : s₁.Unnested id := fun j hj =>
    (show s₁.code.Height (s₁.wires.size + 1) id from hheight) j hj |>.not_below hj
  obtain ⟨w', hw', ⟨-, q, hdue, -⟩, hlast'⟩ := guides_take hw hguides hloop hopen
  rw [hlast] at hlast'
  obtain ⟨⟨hrun', htied⟩, hsourced₂⟩ := take_kept
    (P := fun s => (w.run.row < s.runs.size ∧ Tied s₁ s) ∧ s.Sourced)
    (fun s hs => by
      rw [eval_resume]
      exact ⟨(upkeep_tied _ s₁).resumeWithin _ (fun _ _ _ _ => trivial) hs.1, hs.2.resumeWithin _ id⟩)
    (fun s j hs => ⟨⟨by rw [size_requestStop]; exact hs.1.1, fun k => by rw [wires_requestStop, hs.1.2 k]⟩,
      hs.2.of_wires_eq (wires_requestStop s j)⟩) turns ⟨⟨hrun, fun _ => rfl⟩, hsourced₁⟩
  rw [hopen] at hrun' htied hsourced₂
  have hwires : stopped.wires = s₂.wires := wires_requestStop s₂ id
  have hw'' : stopped.wires.get? id = some w' := by rw [hwires, hw']
  obtain ⟨w₀, hw₀, hbonds⟩ := htied.get? hw'
  obtain rfl := Option.some.inj (hw.symm.trans hw₀)
  have hstopping : stopped.stopping w' = true :=
    stopping_requestStop_self hw' (by rwa [← show w.run = w'.run from congrArg (·.1) hbonds])
  obtain ⟨hquiet, hanswer⟩ := resume_of_stopping hw'' (by simp [hdue]) hstopping
  refine ⟨hquiet, by rw [hanswer, hlast'], ?_⟩
  -- what is given up is cleaned up first, which comes to its end
  set cleared := stopped.modifyWire id fun w => { w with lastOutput := .nothing } with hcleared
  have horder : InOrder s₁ cleared :=
    ⟨Tied.modifyWire (fun k => by rw [hwires, htied k]) id fun _ => rfl,
      (hsourced₂.of_wires_eq hwires).modifyWire id fun _ hw => hw⟩
  have hdepth : cleared.depthBound = s₁.depthBound := congrArg (· + 1) horder.1.size
  obtain ⟨s₃, hclean, -⟩ := cleanupWithin_ok hheight w'.lastOutput horder
  rw [abandon]
  simp only [eval_bind, eval_get, eval_modify, hw'', Option.map_some, Option.getD_some, endRun,
    eval_cleanup, ← hcleared, Outcome.output]
  rw [hdepth, hclean, hlast']
  rfl

/-- A looped wire that makes a buffer and pauses, and then adds one to its input. -/
def ticking : Store Host.none :=
  let (v, s) := ({} : Store Host.none).addWire "tick" true
  s.modifyWire v fun w => { w with
    composed := some ⟨none, default⟩
    stages := [.buffer { size := 4 }, .pause .nothing false, .input, .add { value := .int 1 },
      .finish, .pass].map fun stage => { stage } }

theorem sourced_ticking : ticking.Sourced := by
  intro j w hw p hp
  obtain ⟨_ | n⟩ := j
  · obtain rfl := Option.some.inj hw
    obtain ⟨stage, hstage, rfl⟩ := List.mem_map.1 hp
    simp only [List.mem_cons, List.not_mem_nil, or_false] at hstage
    rcases hstage with rfl | rfl | rfl | rfl | rfl | rfl
    · exact BufferSource.sound_new 4
    all_goals trivial
  · cases hw

/-- The run is stopped in the pause of its second iteration. -/
theorem ticking_reports_last_iteration :
    ∃ s₁ s₂ output, ticking.eval (beginRun ⟨0⟩ (.int 5) none ⟨0⟩) = (.ok (.ok ()), s₁) ∧
      s₁.take ⟨0⟩ [.resume, .resume, .resume] = (none, s₂) ∧
      ((s₂.requestStop ⟨0⟩).eval (resume ⟨0⟩)).1 = .ok (.finished output) ∧
      ((s₂.requestStop ⟨0⟩).eval (abandon ⟨0⟩)).1 = .ok (.stopped output) ∧
      output.outline = "Int(6)" := by
  let check (r : Except Halt (Except ActivationError PUnit) × Store Host.none) : Bool :=
    (r.1.toOption.bind Except.toOption).isSome && (r.2.wires.get? ⟨0⟩).any fun w =>
      (r.2.take ⟨0⟩ [.resume, .resume, .resume]).1.isNone &&
        (((⟨w.stages.length, w.looped, .int 5⟩ : Course).outputs [.resume, .resume, .resume]
          (r.2.turnsLog ⟨0⟩ [.resume, .resume, .resume])).getLastD .nothing).outline == "Int(6)"
  have hcheck : check (ticking.eval (beginRun ⟨0⟩ (.int 5) none ⟨0⟩)) = true := by decide +kernel
  rcases hbegun : ticking.eval (beginRun ⟨0⟩ (.int 5) none ⟨0⟩) with ⟨_ | _ | _, s₁⟩
  · simp [check, hbegun, Except.toOption] at hcheck
  · simp [check, hbegun, Except.toOption] at hcheck
  rcases hw : s₁.wires.get? ⟨0⟩ with _ | w
  · simp [check, hbegun, hw] at hcheck
  rcases hopen : s₁.take ⟨0⟩ [.resume, .resume, .resume] with ⟨_ | _, s₂⟩
  · simp only [check, hbegun, hw, hopen, Option.any_some, Bool.and_eq_true, beq_iff_eq] at hcheck
    obtain ⟨-, hresume, habandon⟩ := stop_reports_last_iteration sourced_ticking hbegun hw _ hopen
    exact ⟨s₁, s₂, _, rfl, hopen, hresume, habandon, hcheck.2.2⟩
  · simp [check, hbegun, hw, hopen] at hcheck

end Store

end Dataflow
