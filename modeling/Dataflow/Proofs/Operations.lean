import Dataflow.Proofs.Records
/-!
# Operations on a mesh

What can be done with a mesh and its wires is one of a few operations, and whatever happens to a
mesh is a sequence of them. A property that moves of wires keep, that a run may begin with and that
a request to stop does not touch, is kept by every operation, also by one that is broken off.
-/

namespace Dataflow

variable {H : Host} {P : Store H → Prop} {A : Id .run → Prop} {R T : Set (Id .wire)} {i : Id .wire}
  {s s' : Store H} {m : Mesh}

namespace Store

/-! ### What operations are made of -/

/-- Whether it is broken off or not, a computation keeps `P`; and if it answers, then with a value
for which `Q` holds. -/
def Ensures {α : Type} (P : Store H → Prop) (x : Exec H α) (Q : α → Prop) : Prop :=
  ∀ s, P s → P (s.eval x).2 ∧ ∀ a, (s.eval x).1 = .ok a → Q a

namespace Ensures

variable {α β : Type} {Q : α → Prop} {R : β → Prop} {x : Exec H α} {f : α → Exec H β}

theorem of_kept (h : ∀ s, P s → P (s.eval x).2) : Ensures P x fun _ => True :=
  fun s hs => ⟨h s hs, fun _ _ => trivial⟩

theorem pure {a : α} (h : Q a) : Ensures P (Pure.pure a) Q := fun s hs => by
  refine ⟨hs, fun b hb => ?_⟩
  obtain rfl := Except.ok.inj hb
  exact h

theorem throw (halt : Halt) : Ensures P (MonadExcept.throw halt) Q :=
  fun s hs => ⟨hs, fun _ h => by cases h⟩

theorem bind (hx : Ensures P x Q) (hf : ∀ a, Q a → Ensures P (f a) R) : Ensures P (x >>= f) R := by
  intro s hs
  obtain ⟨hkeep, hanswer⟩ := hx s hs
  rw [eval_bind]
  rcases hr : s.eval x with ⟨halt | a, s₁⟩ <;> rw [hr] at hkeep hanswer
  · exact ⟨hkeep, fun _ h => by cases h⟩
  · exact hf a (hanswer a rfl) s₁ hkeep

theorem get_bind {f : Store H → Exec H β}
    (hf : ∀ s, P s → P (s.eval (f s)).2 ∧ ∀ b, (s.eval (f s)).1 = .ok b → R b) :
    Ensures P (get >>= f) R := fun s hs => by
  rw [eval_bind]
  exact hf s hs

theorem modify_bind {g : Store H → Store H} {f : PUnit → Exec H β} (hg : ∀ s, P s → P (g s))
    (hf : Ensures P (f ()) R) : Ensures P (modify g >>= f) R := fun s hs => by
  rw [eval_bind]
  exact hf (g s) (hg s hs)

theorem ite {c : Prop} [Decidable c] {x y : Exec H α} (hx : c → Ensures P x Q)
    (hy : ¬ c → Ensures P y Q) : Ensures P (if c then x else y) Q := by
  split
  · exact hx ‹_›
  · exact hy ‹_›

end Ensures

theorem Upkeep.endRun (hu : Upkeep P A T) (hs : P s) (hA : ∀ w, s.wires.get? i = some w → A w.run)
    (outcome : Outcome) :
    P (s.eval (Store.endRun i outcome)).2 := by
  have hclean := (hu.tied s).cleanupWithin s.depthBound outcome.output i ⟨hs, fun _ => rfl⟩
  simp only [Store.endRun, eval_bind, eval_cleanup]
  rcases hr : s.eval (Store.cleanupWithin s.depthBound outcome.output i) with ⟨_ | _, s₁⟩ <;>
    rw [hr] at hclean
  · exact hclean.1
  · refine hu.conclude hclean.1 (fun w hw => ?_) outcome
    obtain ⟨w₀, hw₀, hbonds⟩ := hclean.2.get? hw
    have hrun := hA w₀ hw₀
    rwa [show w₀.run = w.run from congrArg (·.1) hbonds] at hrun

theorem Upkeep.resume (hu : Upkeep P A T) (hT : ∀ s, P s → ∀ j, s.Nests i j → j ∈ T) (hs : P s) :
    P (s.eval (Store.resume i)).2 := by
  simp only [Store.resume, eval_bind, eval_get]
  exact hu.resumeWithin _ hT hs

/-- A wire that is there and was resumed was under way. -/
theorem midRun_of_resume {w : Wire H} {progress : Progress} (hw : s.wires.get? i = some w)
    (h : s.eval (Store.resume i) = (.ok progress, s')) :
    w.midRun = true := by
  simp only [Store.resume, eval_bind, eval_get, depthBound, resumeWithin, hw, eval_takeUp] at h
  cases hcursor : w.cursor <;> simp [hcursor, Cursor.position?, Wire.midRun] at h ⊢

theorem Upkeep.driveToEnd (hu : Upkeep P A T) (hT : ∀ s, P s → ∀ j, s.Nests i j → j ∈ T)
    (limit : Nat) (hs : P s) : P (s.eval (Store.driveToEnd i limit)).2 := by
  induction limit generalizing s with
  | zero => exact hs
  | succ limit ih =>
    have hresume := hu.resume hT hs
    simp only [Store.driveToEnd, eval_bind]
    rcases hr : s.eval (Store.resume i) with ⟨_ | progress, s₁⟩ <;> rw [hr] at hresume
    · exact hresume
    · cases hout : progress.outcome? with
      | none => simpa [hout] using ih hresume
      | some outcome => simpa [hout] using hresume

/-- A wire that begins a run keeps the record that it was given. -/
theorem Upkeep.beginRun (hu : Upkeep P A T) (i : Id .wire) (input : Value)
    (parent : Option (Id .scope)) (board : Id .board) (hready : P (s.readied i parent).2)
    (hA : ∀ s', Tied (s.readied i parent).2 s' → ∀ w, s'.wires.get? i = some w → A w.run) :
    P (s.eval (Store.beginRun i input parent board)).2 ∧
      Tied (s.readied i parent).2 (s.eval (Store.beginRun i input parent board)).2 := by
  have htied := hu.tied (s.readied i parent).2
  have hwarm := htied.warmupWithin (s.readied i parent).2.depthBound i input
    (s.readied i parent).1 board ⟨hready, fun _ => rfl⟩
  rw [eval_beginRun]
  rcases hr : (s.readied i parent).2.eval (Store.warmupWithin (s.readied i parent).2.depthBound i
    input (s.readied i parent).1 board) with ⟨_ | _ | _, s₁⟩ <;> rw [hr] at hwarm
  · exact hwarm
  · exact htied.conclude hwarm (hA s₁ hwarm.2) _
  · exact htied.start hwarm (hA s₁ hwarm.2) input

/-- `P` is kept by moves, and also when a run begins with a record of its own and when a run is asked
to stop. Wires in `R` run wires in `T` only. -/
structure Custody (P : Store H → Prop) (A : Id .run → Prop) (T R : Set (Id .wire)) : Prop extends
    Upkeep P A T where
  renew : ∀ {s : Store H} (i : Id .wire) (parent : Option (Id .scope)), P s →
    P (s.readied i parent).2
  fresh : ∀ {s : Store H}, P s → A s.runs.next
  stop : ∀ {s : Store H} (run : Id .run), P s →
    P (s.modifyRun run fun r => { r with stopRequested := true })
  roots : ∀ {s : Store H} {i j : Id .wire}, P s → i ∈ R → s.Nests i j → j ∈ T

namespace Custody

variable (hc : Custody P A T R)

include hc

/-- A wire whose run began has the record of that run. -/
theorem record_of_tied (hs : P s) (i : Id .wire) (parent : Option (Id .scope))
    (h : Tied (s.readied i parent).2 s') : ∀ w, s'.wires.get? i = some w → A w.run := by
  intro w hw
  obtain ⟨w₀, hw₀, hbonds⟩ := h.get? hw
  have hnext : w₀.run = s.runs.next := by
    simp only [readied] at hw₀
    rw [show _ = (s.wires.get? i).map _ from get?_modifyWire_self ..] at hw₀
    obtain ⟨w₁, -, rfl⟩ := Option.map_eq_some_iff.1 hw₀
    rfl
  rw [show w.run = w₀.run from congrArg (·.1) hbonds.symm, hnext]
  exact hc.fresh hs

/-- A run begins on a record of its own, which the wire has from then on. -/
theorem beginRun (i : Id .wire) (input : Value) (parent : Option (Id .scope)) (board : Id .board)
    (hs : P s) :
    P (s.eval (Store.beginRun i input parent board)).2 ∧
      Tied (s.readied i parent).2 (s.eval (Store.beginRun i input parent board)).2 :=
  hc.toUpkeep.beginRun i input parent board (hc.renew i parent hs) fun _ h =>
    hc.record_of_tied hs i parent h

theorem runOnce (hi : i ∈ R) (limit : Nat) (input : Value) (hs : P s) :
    P (s.eval (Store.runOnce limit i input)).2 := by
  rcases hw : s.wires.get? i with _ | wire
  · simpa [Store.runOnce, eval_bind, hw] using hs
  rw [eval_runOnce hw]
  have hcomposed := hc.quiet hs (s.quiet_composeOwned i (ownSite wire input))
  rcases hr : s.eval (composeOwned i (ownSite wire input)) with ⟨e | signature, s₁⟩ <;>
    rw [hr] at hcomposed
  · exact hcomposed
  dsimp only
  obtain ⟨hbegun, htied⟩ := hc.beginRun i input none wire.board hcomposed
  have hA := fun s' (h : Tied (s₁.readied i none).2 s') => hc.record_of_tied hcomposed i none h
  rcases hb : s₁.eval (Store.beginRun i input none wire.board) with ⟨halt | e | _, s₂⟩ <;>
    rw [hb] at hbegun htied
  · exact hbegun
  · exact hbegun
  -- The wire is driven and ended on the record that its run began with.
  have hu := hc.toUpkeep.tied (s₁.readied i none).2
  have hdriven := hu.driveToEnd (fun s' hs' j hj => hc.roots hs'.1 hi hj) limit
    (hu.modifyWire (i := i) (f := fun w => { w with looped := false }) ⟨hbegun, htied⟩ fun _ => rfl)
  simp only [eval_bind, eval_modify]
  rcases hd : (s₂.modifyWire i fun w => { w with looped := false }).eval (Store.driveToEnd i limit)
    with ⟨halt | outcome, s₃⟩ <;> rw [hd] at hdriven
  · exact hdriven.1
  have hready := hu.modifyWire (i := i) (f := fun w => { w with looped := wire.looped }) hdriven
    fun _ => rfl
  have hended := hu.endRun (i := i) hready (hA _ hready.2) outcome
  dsimp only
  rcases he : (s₃.modifyWire i fun w => { w with looped := wire.looped }).eval
    (Store.endRun i outcome) with ⟨halt | outcome', s₄⟩ <;> rw [he] at hended <;> exact hended.1

end Custody

end Store

/-! ### Operations -/

namespace Mesh

open Store

/-- What can be done with a mesh and its wires. -/
inductive Operation where
  | compose (wire : Id .wire) (input : Ty)
  | schedule (wire : Id .wire) (input : Value)
  | runOnce (limit : Nat) (wire : Id .wire) (input : Value)
  | round
  | wait (limit : Nat) (handle : Handle)
  | waitAll (limit : Nat)
  | stop (handle : Handle)
  | stopAll
  | terminate (limit : Nat)
  | shutDown

namespace Operation

/-- Does it. Answers the mesh as it is afterwards. -/
def perform (m : Mesh) : Operation → Exec H Mesh
  | compose wire input => do
    let _ ← (m.compose wire input : StateM (Store H) (Except MeshError Signature))
    return m
  | schedule wire input => return (← m.schedule wire input).2
  | runOnce limit wire input => do
    let _ ← Store.runOnce limit wire input
    return m
  | round => m.round
  | wait limit handle => return (← m.wait limit handle).2
  | waitAll limit => return (← m.waitAll limit).2
  | stop handle => do
    modify handle.stop
    return m
  | stopAll => do
    modify m.stopAll
    return m
  | terminate limit => m.terminate limit
  | shutDown => m.shutDown

/-- The wires that it drives. -/
def drives (m : Mesh) : Operation → Set (Id .wire)
  | runOnce _ wire _ => {wire}
  | round | wait _ _ | waitAll _ | terminate _ => {i | ∃ t ∈ m.tasks, t.handle.wire = i}
  | _ => ∅

end Operation

/-- The mesh and the store after an operation. One that is broken off leaves the mesh as it is. -/
def step (m : Mesh) (s : Store H) (op : Operation) : Mesh × Store H :=
  match s.eval (op.perform m) with
  | (.ok m', s') => (m', s')
  | (.error _, s') => (m, s')

/-- The mesh and the store after operations. -/
def after (m : Mesh) (s : Store H) : List Operation → Mesh × Store H
  | [] => (m, s)
  | op :: rest => (m.step s op).1.after (m.step s op).2 rest

theorem after_append (m : Mesh) (s : Store H) (before later : List Operation) :
    m.after s (before ++ later) = (m.after s before).1.after (m.after s before).2 later := by
  induction before generalizing m s with
  | nil => rfl
  | cons op rest ih => exact ih _ _

section Custody

variable (hc : Custody P A T R)

include hc

/-- A turn of a task drives its wire, and ends its run if that is over. -/
theorem ensures_turn {t : Task} (ht : t.handle.wire ∈ R) (clock : Nat) :
    Ensures P (t.turn clock) fun t' => ∀ t₁ ∈ t', t₁.handle = t.handle := by
  refine .get_bind fun s hs => ?_
  split
  · exact Ensures.pure (Q := fun t' : Option Task => ∀ t₁ ∈ t', t₁.handle = t.handle) (by simp) s hs
  have hresumed := (hc.toUpkeep.tied s).resume (i := t.handle.wire)
    (fun s' hs' j hj => hc.roots hs'.1 ht hj) ⟨hs, fun _ => rfl⟩
  rw [eval_bind]
  rcases hr : s.eval (Store.resume t.handle.wire) with ⟨halt | progress, s₁⟩ <;> rw [hr] at hresumed
  · exact ⟨hresumed.1, fun _ h => by cases h⟩
  -- Only a wire that was under way has made progress.
  have hA : ∀ w, s₁.wires.get? t.handle.wire = some w → A w.run := by
    intro w hw
    obtain ⟨w₀, hw₀, hbonds⟩ := hresumed.2.get? hw
    rw [show w.run = w₀.run from congrArg (·.1) hbonds.symm]
    exact hc.awake hs hw₀ (midRun_of_resume hw₀ hr)
  have hended : ∀ outcome, P (s₁.eval (Store.endRun t.handle.wire outcome >>= fun _ =>
      return (none : Option Task))).2 := by
    intro outcome
    have hkept := hc.toUpkeep.endRun hresumed.1 hA outcome
    rw [eval_bind]
    rcases he : s₁.eval (Store.endRun t.handle.wire outcome) with ⟨_ | _, s₂⟩ <;>
      rw [he] at hkept <;> exact hkept
  cases progress with
  | suspended point => cases point <;> exact ⟨hresumed.1, fun _ h => by cases h; simp⟩
  | finished output =>
    refine ⟨hended (.stopped output), fun t' h => ?_⟩
    obtain ⟨_, _, _, h⟩ := eval_bind_ok (Prod.ext h rfl)
    cases h
    simp
  | failed failure =>
    refine ⟨hended (.failed failure), fun t' h => ?_⟩
    obtain ⟨_, _, _, h⟩ := eval_bind_ok (Prod.ext h rfl)
    cases h
    simp

theorem ensures_turns {tasks : List Task} (ht : ∀ t ∈ tasks, t.handle.wire ∈ R) (clock : Nat) :
    Ensures P (turns clock tasks) fun tasks' => ∀ t ∈ tasks', t.handle.wire ∈ R := by
  induction tasks with
  | nil => exact .pure (by simp)
  | cons t rest ih =>
    have hrest := ih fun t ht' => ht t (List.mem_cons_of_mem _ ht')
    have htask : t.handle.wire ∈ R := ht t List.mem_cons_self
    refine .bind (ensures_turn hc htask clock) fun t' ht' => ?_
    cases t' with
    | none => exact hrest
    | some t' =>
      refine .bind hrest fun tasks' htasks' => .pure fun t₁ ht₁ => ?_
      rcases List.mem_cons.1 ht₁ with rfl | hmem
      · rwa [ht' t₁ rfl]
      · exact htasks' t₁ hmem

theorem ensures_round (hm : ∀ t ∈ m.tasks, t.handle.wire ∈ R) :
    Ensures P (m.round (H := H)) fun m' => ∀ t ∈ m'.tasks, t.handle.wire ∈ R :=
  .bind (ensures_turns hc hm m.clock) fun _ htasks => .pure htasks

theorem ensures_runUntil (done : Store H → Bool) (limit : Nat)
    (hm : ∀ t ∈ m.tasks, t.handle.wire ∈ R) :
    Ensures P (runUntil done limit m) fun m' => ∀ t ∈ m'.tasks, t.handle.wire ∈ R := by
  induction limit generalizing m with
  | zero =>
    refine .get_bind fun s hs => ?_
    split
    · exact Ensures.pure (Q := fun m' : Mesh => ∀ t ∈ m'.tasks, t.handle.wire ∈ R) hm s hs
    · exact Ensures.throw .exhausted s hs
  | succ limit ih =>
    refine .get_bind fun s hs => ?_
    split
    · exact Ensures.pure (Q := fun m' : Mesh => ∀ t ∈ m'.tasks, t.handle.wire ∈ R) hm s hs
    · exact Ensures.bind (ensures_round hc hm) (fun m' hm' => ih hm') s hs

theorem ensures_waitAll (limit : Nat) (hm : ∀ t ∈ m.tasks, t.handle.wire ∈ R) :
    Ensures P (m.waitAll (H := H) limit) fun r => ∀ t ∈ r.2.tasks, t.handle.wire ∈ R := by
  refine .ite (fun _ => .pure hm) fun _ => ?_
  exact .bind (ensures_runUntil hc _ limit (m := { m with scheduled := [] }) hm) fun m' hm' =>
    .get_bind fun s hs => Ensures.pure
      (Q := fun r : List Outcome × Mesh => ∀ t ∈ r.2.tasks, t.handle.wire ∈ R) hm' s hs

theorem ensures_abandon (t : Task) : Ensures P (t.abandon (H := H)) fun _ => True := by
  refine .of_kept fun s hs => ?_
  simp only [Task.abandon, eval_bind, eval_get]
  rcases hw : s.wires.get? t.handle.wire with _ | wire
  · exact hs
  dsimp only
  split
  · rename_i hmid
    have hA := hc.awake hs hw (Bool.and_eq_true _ _ ▸ hmid).1
    have hcleared := hc.toUpkeep.modifyWire (i := t.handle.wire)
      (f := fun w => { w with lastOutput := .nothing }) hs fun _ => rfl
    have hended := hc.toUpkeep.endRun (i := t.handle.wire) hcleared (fun w hw' => by
      rw [get?_modifyWire_self, hw, Option.map_some, Option.some.injEq] at hw'
      subst hw'
      exact hA) (.stopped wire.lastOutput)
    simp only [Store.abandon, eval_bind, eval_get, eval_modify, hw, Option.map_some,
      Option.getD_some]
    generalize Store.eval _ (Store.endRun t.handle.wire (.stopped wire.lastOutput)) = ended at *
    obtain ⟨_ | _, s₁⟩ := ended <;> exact hended
  · exact hs

theorem ensures_abandonAll (m : Mesh) : Ensures P (m.abandonAll (H := H)) fun _ => True := by
  have hall : ∀ tasks : List Task,
      Ensures P (tasks.forM Task.abandon : Exec H PUnit) fun _ => True := by
    intro tasks
    induction tasks with
    | nil => exact .pure trivial
    | cons t rest ih => exact .bind (ensures_abandon hc t) fun _ _ => ih
  exact .bind (hall m.tasks) fun _ _ => .pure trivial

theorem kept_stopAll (m : Mesh) (hs : P s) : P (m.stopAll s) := by
  unfold stopAll
  induction m.scheduled generalizing s with
  | nil => exact hs
  | cons h rest ih => exact ih (hc.stop h.run hs)

theorem ensures_closeChannels (m : Mesh) : Ensures P (m.closeChannels (H := H)) fun _ => True :=
  .of_kept fun _ hs => hc.quiet hs (.of_same rfl rfl)

/-- Ending a mesh behind its waits. -/
theorem ensures_ending (m : Mesh) :
    Ensures P (do let m ← abandonAll { m with terminated := true }
                  m.closeChannels
                  return m : Exec H Mesh) fun _ => True :=
  .bind (ensures_abandonAll hc _) fun m' _ =>
    .bind (ensures_closeChannels hc m') fun _ _ => .pure trivial

theorem kept_compose (m : Mesh) (wire : Id .wire) (input : Ty) (hs : P s) :
    P ((m.compose wire input).run s).2 := by
  have hcomposed := hc.quiet hs (s.quiet_composeShared wire (m.site s wire input))
  have hget : (get : StateM (Store H) (Store H)).run s = (s, s) := rfl
  simp only [compose, run_bind, hget, run_run]
  rcases hr : s.eval (composeShared wire (m.site s wire input)) with ⟨_ | _, s₁⟩ <;>
    rw [hr] at hcomposed <;> exact hcomposed

theorem ensures_schedule (m : Mesh) (wire : Id .wire) (input : Value) :
    Ensures P (m.schedule (H := H) wire input) fun _ => True := by
  refine .ite (fun _ => .pure trivial) fun _ => .get_bind fun s hs => ?_
  refine Ensures.ite (fun _ => .pure trivial) (fun _ => ?_) s hs
  refine .bind (.of_kept fun s hs => kept_compose hc m wire input.ty hs) fun composed _ => ?_
  cases composed with
  | error e => exact .pure trivial
  | ok signature =>
    refine .modify_bind (fun s hs => hc.toUpkeep.modifyWire hs fun _ => rfl) ?_
    refine .bind (.of_kept fun s hs => (hc.beginRun wire input _ m.board hs).1) fun begun _ => ?_
    cases begun with
    | error e => exact .pure trivial
    | ok _ => exact .get_bind fun s hs => Ensures.pure trivial s hs

/-- An operation that drives wires in `R` keeps `P`. -/
theorem kept_step {op : Operation} (hop : op.drives m ⊆ R) (hs : P s) : P (m.step s op).2 := by
  have hperform : Ensures P (op.perform m) fun _ => True := by
    have htasks : (∃ limit handle, op = .round ∨ op = .wait limit handle ∨ op = .waitAll limit ∨
        op = .terminate limit) → ∀ t ∈ m.tasks, t.handle.wire ∈ R := by
      rintro ⟨limit, handle, rfl | rfl | rfl | rfl⟩ t ht <;> exact hop ⟨t, ht, rfl⟩
    cases op with
    | compose wire input =>
      exact .bind (.of_kept fun s hs => kept_compose hc m wire input hs) fun _ _ => .pure trivial
    | schedule wire input => exact .bind (ensures_schedule hc m wire input) fun _ _ => .pure trivial
    | runOnce limit wire input =>
      exact .bind (.of_kept fun s hs => hc.runOnce (hop rfl) limit input hs) fun _ _ => .pure trivial
    | round =>
      exact fun s hs => ⟨(ensures_round hc (htasks ⟨0, default, .inl rfl⟩) s hs).1, fun _ _ => trivial⟩
    | wait limit handle =>
      refine .bind (.ite (fun _ => .pure trivial) fun _ => ?_) fun _ (_ : True) => .pure trivial
      exact .bind (ensures_runUntil hc _ limit (htasks ⟨limit, handle, .inr (.inl rfl)⟩)) fun _ _ =>
        .get_bind fun s hs => Ensures.pure trivial s hs
    | waitAll limit =>
      exact .bind (ensures_waitAll hc limit (htasks ⟨limit, default, .inr (.inr (.inl rfl))⟩))
        fun _ _ => .pure trivial
    | stop handle => exact .modify_bind (fun s hs => hc.stop handle.run hs) (.pure trivial)
    | stopAll => exact .modify_bind (fun s hs => kept_stopAll hc m hs) (.pure trivial)
    | terminate limit =>
      refine .ite (fun _ => .pure trivial) fun _ => .modify_bind (fun s hs => kept_stopAll hc m hs) ?_
      exact .bind (ensures_waitAll hc limit (htasks ⟨limit, default, .inr (.inr (.inr rfl))⟩))
        fun r _ => ensures_ending hc r.2
    | shutDown =>
      exact .ite (fun _ => .pure trivial) fun _ =>
        .modify_bind (fun s hs => kept_stopAll hc m hs) (ensures_ending hc m)
  have hkept := (hperform s hs).1
  unfold step
  rcases hr : s.eval (op.perform m) with ⟨_ | _, s₁⟩ <;> rw [hr] at hkept <;> exact hkept

end Custody

end Mesh

end Dataflow
