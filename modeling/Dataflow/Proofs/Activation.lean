import Dataflow.Proofs.Warmup
/-!
# How a run proceeds

The equations of resuming a wire, one per function, and the log of a run: every activation with its
answer, and inside it the activations of the wire that the stage runs. The log follows the
functions that resume, on the same stores; nothing of it is used when a wire runs.
-/

namespace Dataflow

variable {H : Host} {w wire : Wire H} {i j id : Id .wire} {position : Nat} {stage st : Stage H}
  (depth : Nat) (r : Receiver) {P : Store H → Prop} {s : Store H} {T : Set (Id .wire)}
  {p : Placed H}

/-! ### The log of a run -/

/-- An activation: the stage as it was, its input and its answer, and the activations inside it. -/
structure Event (H : Host) where
  wire : Id .wire
  position : Nat
  iteration : Nat
  stage : Stage H
  input : Value
  answer : Except Halt (Except ActivationError Activation)
  inner : List (Event H)

/-- An activation occurs in a log, at a path of positions. -/
inductive Occurs : List (Event H) → List Nat → Event H → Prop where
  | here {log : List (Event H)} {e : Event H} (h : e ∈ log) : Occurs log [e.position] e
  | inside {log : List (Event H)} {outer e : Event H} {path : List Nat} (h : outer ∈ log)
      (hinner : Occurs outer.inner path e) : Occurs log (outer.position :: path) e

namespace Stage

/-- The store in which a stage resumes the wire that it runs: the wire is started unless it is under
way. -/
def enter (running : Bool) (s : Store H) (j : Id .wire) (input : Value) : Store H :=
  if running then s else s.start j input

/-- The log of the wire that a stage runs. -/
def innerEvents (events : Id .wire → Store H → List (Event H)) (stage : Stage H) (input : Value)
    (s : Store H) : List (Event H) :=
  match stage with
  | inline ⟨some j, running⟩ => events j (enter running s j input)
  | bound _ ⟨some j, running⟩ (some slot) =>
    match input with
    | .object object =>
      events j (enter running { s with vars := s.vars.write slot (.object object) } j input)
    | _ => []
  | _ => []

end Stage

namespace Store

/-- The log of the last `remaining` stages of a wire, from a position on. -/
def advanceEvents (resume : Id .wire → Exec H Progress)
    (events : Id .wire → Store H → List (Event H)) (id : Id .wire) :
    (position remaining : Nat) → Store H → List (Event H)
  | _, 0, _ => []
  | position, remaining + 1, s =>
    match s.wires.get? id, s.placedAt? id position with
    | some wire, some placed =>
      if s.stopping wire then []
      else
        let (answer, s') := s.eval (activateAt resume id wire position placed.stage)
        ⟨id, position, wire.iteration, placed.stage, wire.current, answer,
          placed.stage.innerEvents events wire.current s⟩ ::
          match answer with
          | .ok (.ok (.proceed output)) =>
            advanceEvents resume events id (position + 1) remaining
              (s'.modifyWire id fun w => { w with current := output })
          | _ => []
    | _, _ => []

/-- The log of resuming a wire, nested at most so deep. -/
def resumeEvents : Nat → Id .wire → Store H → List (Event H)
  | 0, _, _ => []
  | depth + 1, id, s =>
    match s.wires.get? id with
    | none => []
    | some wire =>
      match s.eval (takeUp id wire) with
      | (.ok position, s') =>
        advanceEvents (resumeWithin depth) (resumeEvents depth) id position
          (wire.stages.length - position) s'
      | (.error _, _) => []

/-- The log of resuming a wire until its run ends, at most so many times. -/
def driveEvents (id : Id .wire) : Nat → Store H → List (Event H)
  | 0, _ => []
  | limit + 1, s =>
    resumeEvents s.depthBound id s ++
      match s.eval (resume id) with
      | (.ok (.suspended _), s') => driveEvents id limit s'
      | _ => []

/-- The log of running a wire once. A wire that does not compose or warm up has none. -/
def runOnceEvents (limit : Nat) (id : Id .wire) (input : Value) (s : Store H) : List (Event H) :=
  match s.wires.get? id with
  | none => []
  | some wire =>
    match s.eval (composeOwned id (ownSite wire input)) with
    | (.ok _, s₁) =>
      match s₁.eval (beginRun id input none wire.board) with
      | (.ok (.ok _), s₂) =>
        driveEvents id limit (s₂.modifyWire id fun w => { w with looped := false })
      | _ => []
    | _ => []

end Store

/-! ### Activating nested wires -/

namespace Stage

theorem run_activateNested (s : Store H) (resume : Id .wire → Exec H Progress) (sub : Nested)
    (input : Value) :
    (activateNested resume sub input).run s =
      match sub.wire with
      | none => ((sub, .ok (.error (.failed "Do requires a Wire"))), s)
      | some j =>
        match (enter sub.running s j input).eval (resume j) with
        | (.error halt, s') => ((sub, .error halt), s')
        | (.ok (.suspended point), s') =>
          (({ sub with running := true }, .ok (.ok (.suspend point))), s')
        | (.ok (.finished output), s') =>
          (({ sub with running := false }, .ok (.ok (.proceed output))), s')
        | (.ok (.failed failure), s') =>
          (({ sub with running := false }, .ok (.error (nestedFailure (s'.wireName j) failure))),
            s') := by
  unfold activateNested
  cases sub.wire with
  | none => rfl
  | some j =>
    cases hrun : sub.running with
    | true =>
      simp only [Bool.not_true, Bool.false_eq_true, if_false, Store.run_bind, Store.run_run,
        enter, if_true]
      rcases s.eval (resume j) with ⟨_ | _ | _ | _, s'⟩ <;> rfl
    | false =>
      simp only [Bool.not_false, if_true, Store.run_bind, Store.run_run, Store.run_modify, enter,
        Bool.false_eq_true, if_false]
      rcases (s.start j input).eval (resume j) with ⟨_ | _ | _ | _, s'⟩ <;> rfl

theorem run_activateBound (s : Store H) (resume : Id .wire → Exec H Progress) (sub : Nested)
    (slot : Id .slot) (object : ObjectRef) (input : Value) :
    (activateBound resume sub slot object input).run s =
      let entered : Store H := { s with vars := s.vars.write slot (.object object) }
      let ((sub', answer), s') := (activateNested resume sub input).run entered
      let found := s'.vars.read slot
      ((sub',
        match answer with
        | .error halt => .error halt
        | .ok a =>
          if found.isObject object then .ok a else .error (.violation (bindingViolation found))),
        { s' with vars := s'.vars.write slot (s.vars.read slot) }) := by
  unfold activateBound withObject
  simp only [StateT.run]
  rcases activateNested resume sub input _ with ⟨⟨sub', _ | a⟩, s'⟩
  · rfl
  · by_cases hfound : (s'.vars.read slot).isObject object
    · simp only [hfound, if_true]
    · simp only [hfound, Bool.false_eq_true, if_false]

end Stage

/-! ### Resuming a wire -/

/-- The position that a started wire goes on from. -/
def Cursor.position? : Cursor → Option Nat
  | .idle => none
  | .running position => some position
  | .suspendedAt position _ => some position

namespace Store

theorem eval_activateAt (s : Store H) (resume : Id .wire → Exec H Progress) (id : Id .wire)
    (wire : Wire H) (position : Nat) (stage : Stage H) :
    s.eval (activateAt resume id wire position stage) =
      let (step, s₁) := (stage.activate resume wire wire.current).run s
      let s₂ := s₁.modifyWire id (·.setStage position step.stage)
      match step.answer with
      | .error halt => (.error halt, s₂)
      | .ok answer =>
        (.ok answer, s₂.record wire.collector
          ⟨wire.name, step.stage.name, position, wire.iteration, traceEnd answer⟩) := by
  unfold activateAt
  simp only [eval_bind, eval_lift, eval_modify]
  rcases (stage.activate resume wire wire.current).run s with ⟨step, s₁⟩
  dsimp only
  rcases step.answer with _ | _ <;> rfl

/-- The store in which a wire is suspended. -/
def suspended (s : Store H) (id : Id .wire) (position : Nat) (point : Suspension) : Store H :=
  match s.wires.get? id with
  | none => s
  | some wire =>
    (s.modifyWire id fun w => { w with cursor := .suspendedAt position point }).modifyRun wire.run
      fun r => { r with state := .suspended }

/-- The store in which a looped wire is about to begin the next iteration. -/
def iterated (s : Store H) (id : Id .wire) : Store H :=
  s.modifyWire id fun w =>
    { w with lastOutput := w.current, current := w.input, iteration := w.iteration + 1 }

theorem eval_suspend (s : Store H) (id : Id .wire) (position : Nat) (point : Suspension) :
    s.eval (suspend id position point) = (.ok (.suspended point), s.suspended id position point) :=
  rfl

theorem eval_completeIteration (s : Store H) (id : Id .wire) :
    s.eval (completeIteration id) =
      match s.wires.get? id with
      | none => (.ok (.finished .nothing), s)
      | some wire =>
        if s.stopping wire then
          (.ok (.finished wire.lastOutput),
            s.modifyWire id fun w => { w with lastOutput := .nothing })
        else if wire.looped then
          (.ok (.suspended .yield), (s.iterated id).suspended id 0 .yield)
        else
          (.ok (.finished wire.current),
            s.modifyWire id fun w => { w with lastOutput := .nothing, current := .nothing }) := by
  unfold completeIteration
  simp only [eval_bind, eval_get]
  cases hw : s.wires.get? id with
  | none => rfl
  | some wire =>
    dsimp only
    simp only [eval_bind, eval_get]
    by_cases hs : s.stopping wire
    · simp only [hs, if_true, takeLastOutput, eval_bind, eval_get, eval_modify, eval_pure, hw]
      rfl
    · simp only [hs, Bool.false_eq_true, if_false]
      by_cases hl : wire.looped
      · simp only [hl, if_true, eval_bind, eval_modify, eval_suspend]
        rfl
      · simp only [hl, Bool.false_eq_true, if_false, eval_bind, eval_modify, eval_pure]

theorem eval_advance_succ (s : Store H) (resume : Id .wire → Exec H Progress) (id : Id .wire)
    (position remaining : Nat) :
    s.eval (advance resume id position (remaining + 1)) =
      match s.wires.get? id, s.placedAt? id position with
      | some wire, some placed =>
        if s.stopping wire then
          (.ok (.finished wire.lastOutput),
            s.modifyWire id fun w => { w with lastOutput := .nothing })
        else
          match s.eval (activateAt resume id wire position placed.stage) with
          | (.error halt, s') => (.error halt, s')
          | (.ok (.ok (.proceed output)), s') =>
            (s'.modifyWire id fun w => { w with current := output }).eval
              (advance resume id (position + 1) remaining)
          | (.ok (.ok (.suspend point)), s') =>
            (.ok (.suspended point), s'.suspended id position point)
          | (.ok (.ok (.finish output)), s') =>
            (s'.modifyWire id fun w => { w with current := output }).eval (completeIteration id)
          | (.ok (.ok (.stop output)), s') => (.ok (.finished output), s')
          | (.ok (.error e), s') =>
            (.ok (.failed ⟨e.message, placed.stage.name, position⟩), s')
      | _, _ => s.eval (completeIteration id) := by
  rw [advance]
  simp only [eval_bind, eval_get]
  rcases hw : s.wires.get? id with _ | wire
  · rfl
  rcases hp : s.placedAt? id position with _ | placed
  · rfl
  dsimp only
  by_cases hs : s.stopping wire
  · simp only [hs, if_true, takeLastOutput, eval_bind, eval_get, eval_modify, eval_pure, hw]
    rfl
  · simp only [hs, Bool.false_eq_true, if_false, eval_bind]
    rcases s.eval (activateAt resume id wire position placed.stage) with ⟨_ | _ | activation, s'⟩
    · rfl
    · rfl
    · cases activation with
      | proceed output => simp only [eval_bind, eval_modify]
      | finish output => simp only [eval_bind, eval_modify]
      | _ => rfl

/-- The store in which a suspended wire runs again. -/
def takenUp (s : Store H) (id : Id .wire) (wire : Wire H) : Store H :=
  match wire.cursor with
  | .suspendedAt position _ =>
    (s.modifyWire id fun w => { w with cursor := .running position }).modifyRun wire.run
      fun r => { r with state := .running }
  | _ => s

theorem eval_takeUp (s : Store H) (id : Id .wire) (wire : Wire H) :
    s.eval (takeUp id wire) =
      match wire.cursor.position? with
      | none =>
        (.error (.violation ⟨.wireState, "resumed a wire that was not started", some wire.name⟩), s)
      | some position => (.ok position, s.takenUp id wire) := by
  unfold takeUp takenUp
  cases wire.cursor <;> rfl

theorem eval_resumeWithin_succ (s : Store H) (depth : Nat) (hw : s.wires.get? id = some wire)
    (hp : wire.cursor.position? = some position) :
    s.eval (resumeWithin (depth + 1) id) =
      (s.takenUp id wire).eval
        (advance (resumeWithin depth) id position (wire.stages.length - position)) := by
  rw [resumeWithin]
  simp only [eval_bind, eval_get, hw, eval_takeUp, hp]

theorem resumeEvents_succ (s : Store H) (depth : Nat) (hw : s.wires.get? id = some wire)
    (hp : wire.cursor.position? = some position) :
    resumeEvents (depth + 1) id s =
      advanceEvents (resumeWithin depth) (resumeEvents depth) id position
        (wire.stages.length - position) (s.takenUp id wire) := by
  simp only [resumeEvents, hw, eval_takeUp, hp]

/-- A wire that is not there, or was not started, is not resumed. -/
theorem resumeWithin_induction (hs : P s) {depth : Nat}
    (h : ∀ wire position, s.wires.get? id = some wire →
      wire.cursor.position? = some position → P ((s.takenUp id wire).eval
        (advance (resumeWithin depth) id position (wire.stages.length - position))).2) :
    P (s.eval (resumeWithin (depth + 1) id)).2 := by
  rcases hw : s.wires.get? id with _ | wire
  · rw [resumeWithin]
    simp only [eval_bind, eval_get, hw, eval_pure]
    exact hs
  rcases hp : wire.cursor.position? with _ | position
  · rw [resumeWithin]
    simp only [eval_bind, eval_get, hw, eval_takeUp, hp]
    exact hs
  rw [eval_resumeWithin_succ s depth hw hp]
  exact h wire position hw hp

end Store

/-- A wire without what is noted of its course as it runs. -/
def Wire.unnoted (w : Wire H) : Wire H :=
  { w with lastOutput := .nothing, current := .nothing, iteration := 0 }

/-- What is noted of the course of a wire keeps `P`, and so does suspending the wire. -/
structure Store.Rides (P : Store H → Prop) (id : Id .wire) : Prop where
  note : ∀ {s : Store H} {f : Wire H → Wire H}, P s → (∀ w, (f w).unnoted = w.unnoted) →
    P (s.modifyWire id f)
  suspend : ∀ {s : Store H} (position : Nat) (point : Suspension), P s →
    P (s.suspended id position point)

namespace Store.Rides

variable (h : Rides P id)

include h

theorem completeIteration (hs : P s) : P (s.eval (completeIteration id)).2 := by
  rw [eval_completeIteration]
  split
  · exact hs
  · split
    · exact h.note hs fun _ => rfl
    · split
      · exact h.suspend 0 .yield (h.note hs (by exact fun _ => rfl))
      · exact h.note hs fun _ => rfl

/-- What the activations of its stages keep as well is kept by a whole wire. -/
theorem advance {resume : Id .wire → Exec H Progress}
    (hact : ∀ {s : Store H} {wire : Wire H} {position : Nat} {placed : Placed H}, P s →
      s.wires.get? id = some wire → s.placedAt? id position = some placed →
      P (s.eval (activateAt resume id wire position placed.stage)).2) (position remaining : Nat)
    (hs : P s) :
    P (s.eval (advance resume id position remaining)).2 := by
  induction remaining generalizing position s with
  | zero => exact h.completeIteration hs
  | succ remaining ih =>
    rw [eval_advance_succ]
    rcases hw : s.wires.get? id with _ | wire
    · exact h.completeIteration hs
    rcases hp : s.placedAt? id position with _ | placed
    · exact h.completeIteration hs
    dsimp only
    split
    · exact h.note hs fun _ => rfl
    · have hs' := hact hs hw hp
      rcases hr : s.eval (activateAt resume id wire position placed.stage) with
        ⟨_ | _ | activation, s'⟩ <;> rw [hr] at hs'
      · exact hs'
      · exact hs'
      · have hnext : ∀ output : Value, P (s'.modifyWire id fun w => { w with current := output }) :=
          fun _ => h.note hs' fun _ => rfl
        cases activation with
        | proceed output => exact ih (position + 1) (hnext output)
        | suspend point => exact h.suspend position point hs'
        | finish output => exact h.completeIteration (hnext output)
        | stop output => exact hs'

end Store.Rides

/-! ### What a run leaves alone -/

/-- What no run changes about a wire: the plans, slots and hooks of its stages, which of them are
warmed up, its record, and where it is traced. -/
def Wire.frame (w : Wire H) : List (Option (Stage H) × Option (Id .slot) × Capabilities) ×
    List Bool × Id .run × Option (Id .collector) :=
  (w.stages.map fun p => (p.stage.plan?, p.stage.slot?, p.stage.capabilities),
    w.stages.map (·.warmedUp), w.run, w.collector)

theorem Wire.code_of_frame (w : Wire H) : w.code = w.frame.1.map (·.1) := by
  simp [code, frame]

theorem Wire.warmedUp_setStage (w : Wire H) (position : Nat) (st : Stage H) :
    (w.setStage position st).stages.map (·.warmedUp) = w.stages.map (·.warmedUp) := by
  refine List.ext_getElem? fun n => ?_
  simp only [setStage, modifyPlaced, List.getElem?_map, List.getElem?_modify]
  cases w.stages[n]? <;> simp only [Option.map_eq_map, Option.map_none, Option.map_some]
  split <;> rfl

theorem Wire.frame_setStage
    (h : ∀ p, w.stages[position]? = some p → st.plan? = p.stage.plan? ∧ st.slot? = p.stage.slot? ∧
      st.capabilities = p.stage.capabilities) : (w.setStage position st).frame = w.frame := by
  have hmap := w.map_setStage (fun st => (st.plan?, st.slot?, st.capabilities)) position st
    fun p hp => by rw [(h p hp).1, (h p hp).2.1, (h p hp).2.2]
  simp only [frame, Prod.mk.injEq]
  exact ⟨hmap, w.warmedUp_setStage position st, rfl, rfl⟩

/-- How far a run reaches: it keeps the frames of all wires, changes only wires in `T`, gives up no
slot, asks no run to stop, and traces only wires in `T`. -/
structure Steady (T : Set (Id .wire)) (s s' : Store H) : Prop where
  keeps : Keeps Wire.frame T s s'
  slots : s.vars.slots.size ≤ s'.vars.slots.size
  stops : ∀ r, (s.run r).stopRequested = false → (s'.run r).stopRequested = false
  runs : s'.runs.size = s.runs.size
  traces : ∀ c, (∀ j ∈ T, ∀ w, s.wires.get? j = some w → w.collector ≠ some c) →
    s'.collectors.get? c = s.collectors.get? c

namespace Steady

variable {U : Set (Id .wire)} {s₁ s₂ : Store H}

theorem of_same (hwires : s₁.wires = s.wires) (hslots : s.vars.slots.size ≤ s₁.vars.slots.size)
    (hruns : s₁.runs = s.runs) (htraces : s₁.collectors = s.collectors := by rfl) :
    Steady T s s₁ :=
  ⟨.of_wires_eq hwires, hslots, fun r hr => by rwa [Store.run, hruns], by rw [hruns],
    fun _ _ => by rw [htraces]⟩

theorem refl (s : Store H) : Steady T s s := of_same rfl le_rfl rfl

/-- Nobody is traced elsewhere during a run. -/
theorem collector (h : Steady T s s₁) (hw : s₁.wires.get? j = some w) :
    ∃ w', s.wires.get? j = some w' ∧ w'.collector = w.collector := by
  have hsame := h.keeps.same j
  rw [hw] at hsame
  obtain ⟨w', hw', hframe⟩ := Option.map_eq_some_iff.1 hsame.symm
  exact ⟨w', hw', congrArg (·.2.2.2) hframe⟩

theorem trans (h : Steady T s s₁) (h' : Steady T s₁ s₂) : Steady T s s₂ := by
  refine ⟨h.keeps.trans h'.keeps, h.slots.trans h'.slots, fun r hr => h'.stops r (h.stops r hr),
    h'.runs.trans h.runs, fun c hc => (h'.traces c fun j hj w hw => ?_).trans (h.traces c hc)⟩
  obtain ⟨w', hw', hcollector⟩ := h.collector hw
  exact hcollector ▸ hc j hj w' hw'

theorem mono (h : Steady T s s₁) (hT : T ⊆ U) : Steady U s s₁ :=
  ⟨h.keeps.mono hT, h.slots, h.stops, h.runs, fun c hc => h.traces c fun j hj => hc j (hT hj)⟩

theorem code (h : Steady T s s₁) : s₁.code = s.code :=
  (h.keeps.map (ρ := Wire.code) (fun f => f.1.map (·.1)) Wire.code_of_frame).code_eq

theorem modifyWire (hi : i ∈ T) {f : Wire H → Wire H}
    (hf : ∀ w, s.wires.get? i = some w → (f w).frame = w.frame) : Steady T s (s.modifyWire i f) :=
  ⟨.modifyWire hi hf, le_rfl, fun _ h => h, rfl, fun _ _ => rfl⟩

theorem modifyRun (h : Steady T s s₁) (run : Id .run) {f : RunRecord → RunRecord}
    (hf : ∀ r, r.stopRequested = false → (f r).stopRequested = false) :
    Steady T s (s₁.modifyRun run f) := by
  refine ⟨⟨h.keeps.size, h.keeps.same, h.keeps.outside⟩, h.slots, fun r hr => ?_,
    (Table.size_modify ..).trans h.runs, h.traces⟩
  have hr₁ := h.stops r hr
  unfold Store.run Store.modifyRun at *
  by_cases hrun : run = r
  · subst hrun
    rw [Table.get?_modify_self]
    cases hget : s₁.runs.get? run with
    | none => rfl
    | some record =>
      rw [hget] at hr₁
      exact hf record hr₁
  · rwa [Table.get?_modify_of_ne _ hrun]

end Steady

namespace Store

theorem steady_start (hj : j ∈ T) (s : Store H) (input : Value) : Steady T s (s.start j input) := by
  unfold start
  split
  · exact .refl s
  · exact .modifyRun (.modifyWire hj (by exact fun _ _ => rfl)) _ (by simp)

theorem steady_suspended (hi : i ∈ T) (s : Store H) (position : Nat) (point : Suspension) :
    Steady T s (s.suspended i position point) := by
  unfold suspended
  split
  · exact .refl s
  · exact .modifyRun (.modifyWire hi (by exact fun _ _ => rfl)) _ (by simp)

theorem steady_takenUp (hi : i ∈ T) (s : Store H) (wire : Wire H) :
    Steady T s (s.takenUp i wire) := by
  unfold takenUp
  split
  · exact .modifyRun (.modifyWire hi (by exact fun _ _ => rfl)) _ (by simp)
  · exact .refl s

end Store

/-- The settings of a receiver, without what it has collected. -/
def Receiver.settings (r : Receiver) : Receiver := { r with pending := [], last := none }

theorem Receiver.settings_collect (closed noCopy : Bool) (r : Receiver) (items : List Value) :
    (collect closed noCopy r items).1.2.settings = r.settings := by
  induction items generalizing r with
  | nil =>
    unfold collect
    split
    · rfl
    · split
      · rfl
      · unfold outputBatch output
        split <;> rfl
  | cons v rest ih =>
    unfold collect
    split
    · unfold output
      split <;> rfl
    · dsimp only
      split
      · unfold outputBatch output
        split <;> rfl
      · exact ih _

theorem Receiver.settings_receive (q : Queue) :
    (r.receive q).2.1.settings = r.settings :=
  settings_collect _ _ (r.recycleLast q).1 _

namespace BufferSource

theorem size_releaseUnheld {held : ObjectId → Bool} {leased : List PoolHandle}
    {s s' : BufferSource} (h : releaseUnheld held leased s = .ok s') : s'.size = s.size := by
  induction leased generalizing s s' with
  | nil =>
    cases h
    rfl
  | cons handle rest ih =>
    unfold releaseUnheld at h
    split at h
    · cases hrest : releaseUnheld held rest s with
      | error v => simp [hrest, bind, Except.bind] at h
      | ok s₁ =>
        simp only [hrest, bind, Except.bind] at h
        cases h
        have hsize := ih hrest
        exact hsize
    · cases hpool : s.pool.release handle with
      | error v => simp [hpool, bind, Except.bind] at h
      | ok pool =>
        simp only [hpool, bind, Except.bind] at h
        have hsize := ih h
        exact hsize

theorem size_next {source source' : BufferSource} {held : ObjectId → Bool} {heap heap' : Heap}
    {object : ObjectRef} (h : source.next held heap = .ok (object, source', heap')) :
    source'.size = source.size := by
  unfold next reclaim at h
  cases hrelease : releaseUnheld held source.leased source with
  | error v => simp [hrelease, bind, Except.bind] at h
  | ok s =>
    simp only [hrelease, bind, Except.bind, pure, Except.pure] at h
    split at h
    · simp at h
    · cases h
      have hsize := size_releaseUnheld hrelease
      exact hsize

end BufferSource

namespace Stage

section Activate

variable {resume : Id .wire → Exec H Progress} {input : Value} {s' : Store H}

/-! ### Activating a stage that runs no wire -/

/-- What activating a stage that runs no wire does. Its plan and its slot are kept. Buffers and
channels change, or the variable of the stage, unless a unit of the host reacts. The activation breaks
off only if no buffer can be had. -/
structure Acts (stage : Stage H) (wire : Wire H) (input : Value) (s : Store H)
    (step : Step H Activation) (s' : Store H) : Prop where
  plan : step.stage.plan? = stage.plan?
  slot : step.stage.slot? = stage.slot?
  store : (∃ heap exchange, s' = { s with heap, exchange }) ∨
    (∃ x ty slot, (stage = set x ty (some slot) ∨ stage = update x ty (some slot)) ∧
      s' = { s with vars := s.vars.assign slot input }) ∨
    ∃ u, stage = unit u ∧ s' = s.absorb wire.scope (H.activate u (s.view wire wire.iteration) input)
  halts : ∀ halt, step.answer = .error halt → ∃ source v, stage = buffer source ∧
    source.next s.holds s.heap = .error v ∧ halt = .violation v

theorem Acts.of {answer : Except ActivationError Activation} (hplan : st.plan? = stage.plan?)
    (hslot : st.slot? = stage.slot?) (hstore : ∃ heap exchange, s' = { s with heap, exchange }) :
    Acts stage wire input s (.of st answer) s' :=
  ⟨hplan, hslot, .inl hstore, fun _ h => by cases h⟩

theorem acts_activate (hleaf : stage.isNesting = false) (resume : Id .wire → Exec H Progress)
    (wire : Wire H) (input : Value) (s : Store H) :
    Acts stage wire input s ((stage.activate resume wire input).run s).1
      ((stage.activate resume wire input).run s).2 := by
  cases stage with
  | set x ty slot | update x ty slot =>
    cases slot with
    | none => exact .of rfl rfl ⟨_, _, rfl⟩
    | some slot =>
      exact ⟨rfl, rfl, .inr (.inl ⟨x, ty, slot, by simp, rfl⟩), fun _ h => by cases h⟩
  | get x slot => cases slot <;> exact .of rfl rfl ⟨_, _, rfl⟩
  | pause time paused =>
    cases paused with
    | true => exact .of rfl rfl ⟨_, _, rfl⟩
    | false =>
      simp only [activate, Bool.false_eq_true, if_false]
      split <;> exact .of rfl rfl ⟨_, _, rfl⟩
  | buffer source =>
    simp only [activate, Store.run_bind, Store.run_getThe]
    rcases hnext : source.next s.holds s.heap with v | ⟨object, source', heap⟩
    · exact ⟨rfl, rfl, .inl ⟨_, _, rfl⟩, fun _ h => ⟨source, v, rfl, hnext, by cases h; rfl⟩⟩
    · refine .of ?_ rfl ⟨heap, _, rfl⟩
      exact plan?_congr (by rw [bare, bare, BufferSource.size_next hnext])
  | produce sender queue =>
    cases queue with
    | none => exact .of rfl rfl ⟨_, _, rfl⟩
    | some q =>
      have hsent : ∃ heap exchange, ((sendTo q input).run s).2 = { s with heap, exchange } := by
        rw [sendTo, Store.run_modifyGetThe]
        split <;> exact ⟨_, _, rfl⟩
      simp only [activate, Store.run_bind]
      rcases hsend : (sendTo q input).run s with ⟨_ | _ | _, s'⟩ <;> rw [hsend] at hsent <;>
        exact .of rfl rfl hsent
  | broadcast sender fan => cases fan <;> exact .of rfl rfl ⟨_, _, rfl⟩
  | consume r queue | listen r queue =>
    cases queue with
    | none => exact .of rfl rfl ⟨_, _, rfl⟩
    | some q =>
      have hreceived : ((receiveFrom q r).run s).1.2.settings = r.settings ∧
          ∃ heap exchange, ((receiveFrom q r).run s).2 = { s with heap, exchange } := by
        rw [receiveFrom, Store.run_modifyGetThe]
        split
        · exact ⟨rfl, _, _, rfl⟩
        · exact ⟨r.settings_receive _, _, _, rfl⟩
      refine .of (plan?_congr ?_) rfl hreceived.2
      first
        | exact congrArg (consume · none) hreceived.1
        | exact congrArg (listen · none) hreceived.1
  | unit u => exact ⟨rfl, rfl, .inr (.inr ⟨u, rfl, rfl⟩), fun _ h => by cases h⟩
  | inline sub | bound x sub slot => cases hleaf
  | _ => exact .of rfl rfl ⟨_, _, rfl⟩

theorem steady_absorb {α : Type} (scope : Id .scope) (r : Reaction H.Unit H.Note α) :
    Steady T s (s.absorb scope r) := by
  refine .of_same rfl ?_ rfl
  change s.vars.slots.size ≤ (r.writes.foldl (Store.applyWrite scope) s.vars).slots.size
  generalize s.vars = v
  induction r.writes generalizing v with
  | nil => exact le_rfl
  | cons write rest ih =>
    refine le_trans ?_ (ih (Store.applyWrite scope v write))
    cases write with
    | set name value =>
      simp only [Store.applyWrite]
      split
      · exact (Variables.size_write ..).ge
      · exact le_rfl
    | declare name value =>
      exact (v.size_le_declare scope name).trans_eq (Variables.size_write ..).symm

theorem Acts.steady {step : Step H Activation} (h : Acts stage wire input s step s') :
    Steady T s s' := by
  rcases h.store with ⟨heap, exchange, rfl⟩ | ⟨x, ty, slot, -, rfl⟩ | ⟨u, -, rfl⟩
  · exact .of_same rfl le_rfl rfl
  · exact .of_same rfl (Variables.size_assign ..).ge rfl
  · exact steady_absorb wire.scope _

/-! ### Activating a stage that runs a wire -/

/-- The stage with its wire under way or not. -/
def setRunning (running : Bool) : Stage H → Stage H
  | inline sub => inline { sub with running }
  | bound x sub slot => bound x { sub with running } slot
  | other => other

@[simp] theorem bare_setRunning (st : Stage H) (running : Bool) :
    (st.setRunning running).bare = st.bare := by
  cases st <;> rfl

/-- The store in which the object of a stage is bound. -/
def bindIn (st : Stage H) (input : Value) (s : Store H) : Store H :=
  match st with
  | bound _ _ (some slot) => { s with vars := s.vars.write slot input }
  | _ => s

/-- The store in which a variable is given back to what it was in `s₀`. -/
def unbind (st : Stage H) (s₀ s : Store H) : Store H :=
  match st with
  | bound _ _ (some slot) => { s with vars := s.vars.write slot (s₀.vars.read slot) }
  | _ => s

/-- The store in which the wire that a stage runs is resumed. -/
def entered (st : Stage H) (input : Value) (s : Store H) (j : Id .wire) : Store H :=
  enter st.underway (st.bindIn input s) j input

/-- The wire that a stage enters with an input. -/
def enters? (stage : Stage H) (input : Value) : Option (Id .wire) :=
  match stage, input with
  | inline sub, _ => sub.wire
  | bound _ sub (some _), .object _ => sub.wire
  | _, _ => none

theorem nested?_of_enters? (h : stage.enters? input = some j) : stage.nested? = some j := by
  unfold enters? at h
  split at h
  · exact h
  · exact h
  · cases h

/-- What a stage makes of the wire that it runs, if the binding of its object is not broken. -/
def Relays (st : Stage H) (s : Store H) (j : Id .wire) :
    Except Halt Progress → Step H Activation → Prop
  | .error _, _ => False
  | .ok (.suspended point), step =>
    step = ⟨st.setRunning true, .ok (.ok (.suspend point))⟩
  | .ok (.finished output), step =>
    step = ⟨st.setRunning false, .ok (.ok (.proceed output))⟩
  | .ok (.failed failure), step =>
    step = ⟨st.setRunning false, .ok (.error (nestedFailure (s.wireName j) failure))⟩

theorem Relays.answer_ne_error {progress : Except Halt Progress} {step : Step H Activation}
    (h : st.Relays s j progress step) (halt : Halt) : step.answer ≠ .error halt := by
  rcases progress with _ | _ | _ | _ <;> cases h <;> simp

/-- The variable that a stage binds its object to holds something else. -/
def Loses (st : Stage H) (input : Value) (s : Store H) : Prop :=
  ∃ x sub slot object, st = bound x sub (some slot) ∧ input = .object object ∧
    (s.vars.read slot).isObject object = false

/-- Activating a wire passes on what became of it, or breaks off as the wire does. -/
theorem relays_activateNested (resume : Id .wire → Exec H Progress) (s : Store H) (input : Value)
    (running : Bool) (st : Stage H) (wrap : Nested → Stage H)
    (hst : ∀ b, st.setRunning b = wrap ⟨some j, b⟩) :
    let r := (enter running s j input).eval (resume j)
    let a := (activateNested resume ⟨some j, running⟩ input).run s
    a.2 = r.2 ∧ (∃ b, wrap a.1.1 = st.setRunning b) ∧
      ((∃ halt, a.1.2 = .error halt ∧ r.1 = .error halt) ∨
        st.Relays r.2 j r.1 ⟨wrap a.1.1, a.1.2⟩) := by
  rw [run_activateNested]
  dsimp only
  rcases (enter running s j input).eval (resume j) with ⟨halt | _ | _ | _, s'⟩
  · exact ⟨rfl, ⟨running, (hst _).symm⟩, .inl ⟨halt, rfl, rfl⟩⟩
  all_goals exact ⟨rfl, ⟨_, (hst _).symm⟩, .inr (by simp [Relays, hst])⟩

/-- A stage that enters a wire binds its object, resumes the wire and gives the variable back. It
passes on what became of the wire, unless the wire breaks off or the object is lost. -/
theorem activate_enters (h : stage.enters? input = some j) (resume : Id .wire → Exec H Progress)
    (wire : Wire H) (s : Store H) :
    let r := (stage.entered input s j).eval (resume j)
    let a := (stage.activate resume wire input).run s
    a.2 = stage.unbind s r.2 ∧ (∃ b, a.1.stage = stage.setRunning b) ∧
      ((∃ halt, a.1.answer = .error halt ∧ (r.1 = .error halt ∨ stage.Loses input r.2)) ∨
        ¬ stage.Loses input r.2 ∧ stage.Relays r.2 j r.1 a.1) := by
  unfold enters? at h
  split at h
  · rename_i sub
    obtain ⟨wire', running⟩ := sub
    obtain rfl : wire' = some j := h
    obtain ⟨hstore, hstage, hrelays⟩ := relays_activateNested resume s input running
      (.inline ⟨some j, running⟩) .inline fun _ => rfl
    refine ⟨hstore, hstage, hrelays.imp ?_ fun hrelays => ⟨?_, hrelays⟩⟩
    · exact fun ⟨halt, hanswer, hhalt⟩ => ⟨halt, hanswer, .inl hhalt⟩
    · rintro ⟨_, _, _, _, hst, -⟩
      cases hst
  · rename_i x sub slot object
    obtain ⟨wire', running⟩ := sub
    obtain rfl : wire' = some j := h
    obtain ⟨hstore, ⟨b, hstage⟩, hrelays⟩ := relays_activateNested resume
      { s with vars := s.vars.write slot (.object object) } (.object object) running
      (.bound x ⟨some j, running⟩ (some slot)) (.bound x · (some slot)) fun _ => rfl
    simp only [activate, Store.run_bind, run_activateBound]
    rcases hrun : (activateNested resume ⟨some j, running⟩ (.object object)).run
      { s with vars := s.vars.write slot (.object object) } with ⟨⟨sub', answer⟩, s'⟩
    rw [hrun] at hstore hstage hrelays
    obtain rfl : s' = _ := hstore
    refine ⟨rfl, ⟨b, hstage⟩, ?_⟩
    rcases hrelays with ⟨halt, hanswer, hhalt⟩ | hrelays
    · obtain rfl : answer = .error halt := hanswer
      exact .inl ⟨halt, rfl, .inl hhalt⟩
    cases answer with
    | error halt => exact absurd rfl (hrelays.answer_ne_error halt)
    | ok answer =>
      dsimp only at hrelays ⊢
      split
      · rename_i hfound
        refine .inr ⟨?_, hrelays⟩
        rintro ⟨_, _, _, _, hst, hinput, hlost⟩
        cases hst
        cases hinput
        exact Bool.false_ne_true (hlost.symm.trans hfound)
      · rename_i hlost
        exact .inl ⟨_, rfl, .inr ⟨x, _, slot, object, rfl, rfl, Bool.not_eq_true _ ▸ hlost⟩⟩
  · cases h

/-- A stage that would run a wire and enters none fails, and gives its variable back. -/
theorem activate_blocked (hnest : stage.isNesting = true) (h : stage.enters? input = none)
    (resume : Id .wire → Exec H Progress) (wire : Wire H) (s : Store H) :
    let a := (stage.activate resume wire input).run s
    a.1.stage = stage ∧ (a.2 = s ∨ a.2 = stage.unbind s (stage.bindIn input s)) ∧
      ((∃ e, a.1.answer = .ok (.error e)) ∨ stage.Loses input (stage.bindIn input s)) := by
  cases stage with
  | inline sub =>
    obtain ⟨wire', running⟩ := sub
    obtain rfl : wire' = none := h
    exact ⟨rfl, .inl rfl, .inl ⟨_, rfl⟩⟩
  | bound x sub slot =>
    cases input with
    | object object =>
      cases slot with
      | none => exact ⟨rfl, .inl rfl, .inl ⟨_, rfl⟩⟩
      | some slot =>
        obtain ⟨wire', running⟩ := sub
        obtain rfl : wire' = none := h
        simp only [activate, Store.run_bind, run_activateBound, run_activateNested]
        refine ⟨rfl, .inr rfl, ?_⟩
        cases hfound : ((s.vars.write slot (.object object)).read slot).isObject object with
        | true =>
          simp only [if_true]
          exact .inl ⟨_, rfl⟩
        | false => exact .inr ⟨x, _, slot, object, rfl, rfl, hfound⟩
    | _ => exact ⟨rfl, .inl rfl, .inl ⟨_, rfl⟩⟩
  | _ => cases hnest

theorem steady_bindIn (st : Stage H) (input : Value) (s : Store H) :
    Steady T s (st.bindIn input s) := by
  unfold bindIn
  split
  · exact .of_same rfl (Variables.size_write ..).ge rfl
  · exact .refl s

theorem steady_unbind (st : Stage H) (s₀ s : Store H) : Steady T s (st.unbind s₀ s) := by
  unfold unbind
  split
  · exact .of_same rfl (Variables.size_write ..).ge rfl
  · exact .refl s

theorem steady_entered (hj : j ∈ T) (st : Stage H) (input : Value) (s : Store H) :
    Steady T s (st.entered input s j) := by
  refine (st.steady_bindIn input s).trans ?_
  unfold entered enter
  split
  · exact .refl _
  · exact Store.steady_start hj _ input

/-- An activation leaves the plan and the slot of the stage alone, and all wires that it does not
reach. -/
theorem steady_activate
    (hn : ∀ j, stage.nested? = some j → j ∈ T ∧ ∀ s' : Store H, s'.code = s.code →
      Steady T s' (s'.eval (resume j)).2) (wire : Wire H) (input : Value) :
    ((stage.activate resume wire input).run s).1.stage.plan? = stage.plan? ∧
      ((stage.activate resume wire input).run s).1.stage.slot? = stage.slot? ∧
      Steady T s ((stage.activate resume wire input).run s).2 := by
  cases hnest : stage.isNesting with
  | false =>
    have h := acts_activate hnest resume wire input s
    exact ⟨h.plan, h.slot, h.steady⟩
  | true =>
    cases henters : stage.enters? input with
    | none =>
      obtain ⟨hstage, hstore, -⟩ := activate_blocked hnest henters resume wire s
      rw [hstage]
      refine ⟨rfl, rfl, ?_⟩
      rcases hstore with hstore | hstore <;> rw [hstore]
      · exact .refl s
      · exact (steady_bindIn ..).trans (steady_unbind ..)
    | some j =>
      obtain ⟨hstore, ⟨b, hstage⟩, -⟩ := activate_enters henters resume wire s
      obtain ⟨hj, hresume⟩ := hn j (nested?_of_enters? henters)
      have henter := stage.steady_entered hj input s
      rw [hstage, hstore]
      refine ⟨plan?_congr (stage.bare_setRunning b), by cases stage <;> rfl, ?_⟩
      exact (henter.trans (hresume _ henter.code)).trans (steady_unbind ..)

end Activate

theorem capabilities_activate (stage : Stage H) (resume : Id .wire → Exec H Progress)
    (wire : Wire H) (input : Value) (s : Store H)
    (h : ((stage.activate resume wire input).run s).1.stage.plan? = stage.plan?) :
    ((stage.activate resume wire input).run s).1.stage.capabilities = stage.capabilities := by
  cases hb : stage.isBuiltIn with
  | true => exact capabilities_of_plan? h hb
  | false =>
    cases stage with
    | unit u => exact H.capabilities_activate u _ input
    | _ => simp [isBuiltIn] at hb

end Stage

namespace Store

/-- A stage with its plan, its slot and its hooks stands at a position. -/
def FramedAt (s : Store H) (id : Id .wire) (position : Nat) (stage : Stage H) : Prop :=
  ∃ w, s.wires.get? id = some w ∧
    w.frame.1[position]? = some (stage.plan?, stage.slot?, stage.capabilities)

theorem FramedAt.of_steady {s' : Store H} (h : s.FramedAt id position stage) (hk : Steady T s s') :
    s'.FramedAt id position stage := by
  obtain ⟨w, hw, hat⟩ := h
  obtain ⟨w', hw', hframe⟩ := hk.keeps.get? hw
  exact ⟨w', hw', by rw [hframe, hat]⟩

/-- A stage with the plan, the slot and the hooks of what stands at its position may replace it. -/
theorem FramedAt.steady_setStage (h : s.FramedAt id position stage) (hplan : st.plan? = stage.plan?)
    (hslot : st.slot? = stage.slot?) (hhooks : st.capabilities = stage.capabilities) (hid : id ∈ T)
    :
    Steady T s (s.modifyWire id (·.setStage position st)) := by
  refine Steady.modifyWire hid fun w hw => Wire.frame_setStage fun p hp => ?_
  obtain ⟨w', hw', hat⟩ := h
  obtain rfl := Option.some.inj (hw.symm.trans hw')
  simp only [Wire.frame, List.getElem?_map, hp, Option.map_some, Option.some.injEq,
    Prod.mk.injEq] at hat
  exact ⟨hplan.trans hat.1.symm, hslot.trans hat.2.1.symm, hhooks.trans hat.2.2.symm⟩

theorem framedAt_of_placedAt? (h : s.placedAt? id position = some p) :
    s.FramedAt id position p.stage := by
  unfold placedAt? at h
  cases hw : s.wires.get? id with
  | none => simp [hw] at h
  | some w =>
    simp only [hw, Option.bind_eq_bind, Option.bind_some] at h
    exact ⟨w, hw, by simp [Wire.frame, h]⟩

theorem child_of_placedAt? (h : s.placedAt? id position = some p) (hj : p.stage.nested? = some j) :
    s.code.Child id j := by
  obtain ⟨w, hw, hat⟩ := framedAt_of_placedAt? h
  have hplan : p.stage.plan? = some p.stage.bare := by
    refine Stage.plan?_eq_some_iff.2 ⟨?_, rfl⟩
    cases hst : p.stage <;> first | rfl | simp [hst, Stage.nested?] at hj
  refine ⟨w.code, by simp [code, hw], p.stage.bare, ?_, by simpa using hj⟩
  rw [← hplan, Wire.code_of_frame]
  exact List.mem_map.2 ⟨_, List.mem_of_getElem? hat, rfl⟩

@[simp] theorem wires_record (s : Store H) (collector : Option (Id .collector)) (t : Trace) :
    (s.record collector t).wires = s.wires := by
  cases collector <;> rfl

theorem steady_record (hid : id ∈ T) (hw : s.wires.get? id = some w)
    {collector : Option (Id .collector)} (hcollector : w.collector = collector) (t : Trace) :
    Steady T s (s.record collector t) := by
  unfold record
  split
  · rename_i c
    refine ⟨.of_wires_eq rfl, le_rfl, fun _ h => h, rfl, fun c' hc' => ?_⟩
    refine Table.get?_modify_of_ne _ ?_ _
    rintro rfl
    exact hc' id hid w hw hcollector
  · exact .refl s

section Steady

variable {resume : Id .wire → Exec H Progress} (hid : id ∈ T)

include hid

theorem steady_activateAt
    (hn : ∀ j, stage.nested? = some j → j ∈ T ∧ ∀ s' : Store H, s'.code = s.code →
      Steady T s' (s'.eval (resume j)).2) (hat : s.FramedAt id position stage)
    (hw : s.wires.get? id = some wire) :
    Steady T s (s.eval (activateAt resume id wire position stage)).2 := by
  obtain ⟨hplan, hslot, hkeep⟩ := Stage.steady_activate hn wire wire.current
  rw [eval_activateAt]
  rcases hrun : (stage.activate resume wire wire.current).run s with ⟨step, s₁⟩
  have hhooks := stage.capabilities_activate resume wire wire.current s hplan
  rw [hrun] at hplan hslot hkeep hhooks
  have hset := hkeep.trans ((hat.of_steady hkeep).steady_setStage hplan hslot hhooks hid)
  dsimp only
  split
  · exact hset
  · obtain ⟨w', hw', hframe⟩ := hset.keeps.get? hw
    exact hset.trans (steady_record hid hw' (congrArg (·.2.2.2) hframe) _)

theorem rides_steady (s : Store H) : Rides (Steady T s) id where
  note hs hf := hs.trans (.modifyWire hid fun w _ => (congrArg Wire.frame (hf w) :))
  suspend position point hs := hs.trans (steady_suspended hid _ position point)

theorem steady_advance {code : Code H}
    (hn : ∀ j, code.Child id j → j ∈ T ∧ ∀ s : Store H, s.code = code →
      Steady T s (s.eval (resume j)).2) (position remaining : Nat) (hcode : s.code = code) :
    Steady T s (s.eval (advance resume id position remaining)).2 := by
  refine (rides_steady hid s).advance (fun {s'} _ _ _ hs hw hp => ?_) position remaining (.refl s)
  have hcode' : s'.code = code := hs.code.trans hcode
  refine hs.trans (steady_activateAt hid (fun j hj => ?_) (framedAt_of_placedAt? hp) hw)
  exact hcode' ▸ hn j (hcode' ▸ child_of_placedAt? hp hj)

end Steady

/-- Resuming a wire leaves the plans and slots of all stages alone, and all wires that are not below
it altogether. -/
theorem steady_resumeWithin (i : Id .wire) (s : Store H) :
    Steady {j | s.code.Below i j} s (s.eval (resumeWithin depth i)).2 := by
  induction depth generalizing i s with
  | zero => exact .refl s
  | succ depth ih =>
    refine resumeWithin_induction (.refl s) fun wire position _ _ => ?_
    have hi : i ∈ {j | s.code.Below i j} := Relation.ReflTransGen.refl
    have htaken := steady_takenUp hi s wire
    refine htaken.trans (steady_advance hi (fun j hj => ⟨.single hj, ?_⟩) position _
      htaken.code)
    intro s' hcode
    have := ih j s'
    rw [hcode] at this
    exact this.mono fun k hk => .head hj hk

/-- Activating a stage of a wire reaches no further than the wire. -/
theorem steady_activateAt_resumeWithin {placed : Placed H} (hw : s.wires.get? id = some wire)
    (hp : s.placedAt? id position = some placed) :
    Steady {k | s.code.Below id k} s
      (s.eval (activateAt (resumeWithin depth) id wire position placed.stage)).2 := by
  refine steady_activateAt .refl (fun j hj => ⟨.single (child_of_placedAt? hp hj), ?_⟩)
    (framedAt_of_placedAt? hp) hw
  intro s' hcode
  have hresume := steady_resumeWithin depth j s'
  rw [hcode] at hresume
  exact hresume.mono fun k hk => .head (child_of_placedAt? hp hj) hk

end Store

end Dataflow
