import Dataflow.Proofs.Warmup
/-!
# Calls to the lifecycle of stages

The log of warming up and cleaning up: each call to the lifecycle of a stage, at every depth, in the
order in which they are made. As the log of a run does for activations, it follows the functions
that warm up and clean up, on the same stores. A stage that runs a wire reports what went wrong in
it as a text; the log still has the failure itself, at the place where it arose.
-/

namespace Dataflow

variable {H : Host} {st : Stage H}

/-- A place in a wire. -/
structure Spot where
  wire : Id .wire
  position : Nat
  deriving DecidableEq

/-- What is noted while wires are warmed up and cleaned up. -/
inductive Call where
  /-- A wire is not warmed up because it is not composed. -/
  | refuse (wire : Id .wire)
  /-- A stage is warmed up, with this answer. -/
  | warmup (spot : Spot) (answer : Except Halt (Except ActivationError PUnit))
  /-- A stage is cleaned up. -/
  | cleanup (spot : Spot)

namespace Call

/-- The wire that a call is about. -/
def wire : Call → Id .wire
  | refuse i => i
  | warmup spot _ => spot.wire
  | cleanup spot => spot.wire

/-- The stage that is warmed up. -/
def warmedUp? : Call → Option Spot
  | warmup spot _ => some spot
  | _ => none

/-- The stage that is cleaned up. -/
def cleanedUp? : Call → Option Spot
  | cleanup spot => some spot
  | _ => none

end Call

/-! ### Cleaning up -/

namespace Store

/-- The store in which a stage no longer counts as warmed up. -/
def unmark (s : Store H) (id : Id .wire) (position : Nat) : Store H :=
  s.modifyWire id (·.modifyPlaced position fun p => { p with warmedUp := false })

/-- Ends a nested wire: cleans it up, and ends its run if it is under way. -/
def endNested (depth : Nat) (keep : Value) (sub : Id .wire) : Exec H PUnit := do
  let running := (((← get).wires.get? sub).map (·.midRun)).getD false
  cleanupWithin depth keep sub
  if running then modify (·.conclude sub (.stopped .nothing))

/-- The log of cleaning up the stages below a position. -/
def cleanupBelowCalls (endNested : Id .wire → Exec H PUnit) (calls : Id .wire → Store H → List Call)
    (keep : Value) (id : Id .wire) : Nat → Store H → List Call
  | 0, _ => []
  | position + 1, s =>
    match s.placedAt? id position with
    | none => cleanupBelowCalls endNested calls keep id position s
    | some placed =>
      if placed.warmedUp then
        if placed.stage.capabilities.lifecycle then
          .cleanup ⟨id, position⟩ ::
            ((placed.stage.nested?.map fun j => calls j (s.unmark id position)).getD [] ++
              match (s.unmark id position).eval (placed.stage.cleanup endNested keep) with
              | (.ok stage, s') =>
                cleanupBelowCalls endNested calls keep id position
                  (s'.modifyWire id (·.setStage position stage))
              | (.error _, _) => [])
        else cleanupBelowCalls endNested calls keep id position (s.unmark id position)
      else cleanupBelowCalls endNested calls keep id position s

/-- The log of cleaning up a wire, with nested wires at most so deep. -/
def cleanupCalls : Nat → Value → Id .wire → Store H → List Call
  | 0, _, _, _ => []
  | depth + 1, keep, id, s =>
    match s.wires.get? id with
    | none => []
    | some wire =>
      cleanupBelowCalls (endNested depth keep) (cleanupCalls depth keep) keep id wire.stages.length s

theorem eval_cleanupBelow_succ (s : Store H) (endNested : Id .wire → Exec H PUnit) (keep : Value)
    (id : Id .wire) (position : Nat) :
    s.eval (cleanupBelow endNested keep id (position + 1)) =
      match s.placedAt? id position with
      | none => s.eval (cleanupBelow endNested keep id position)
      | some placed =>
        if placed.warmedUp then
          if placed.stage.capabilities.lifecycle then
            match (s.unmark id position).eval (placed.stage.cleanup endNested keep) with
            | (.ok stage, s') =>
              (s'.modifyWire id (·.setStage position stage)).eval
                (cleanupBelow endNested keep id position)
            | (.error halt, s') => (.error halt, s')
          else (s.unmark id position).eval (cleanupBelow endNested keep id position)
        else s.eval (cleanupBelow endNested keep id position) := by
  rw [cleanupBelow]
  have hunmark : s.modifyWire id (·.modifyPlaced position fun p => { p with warmedUp := false }) =
      s.unmark id position := rfl
  simp only [eval_bind, eval_get]
  rcases s.placedAt? id position with _ | placed
  · rfl
  dsimp only
  by_cases hwarm : placed.warmedUp
  · simp only [hwarm, if_true, eval_bind, eval_modify, hunmark]
    by_cases hl : placed.stage.capabilities.lifecycle
    · simp only [hl, if_true, eval_bind]
      rcases (s.unmark id position).eval (placed.stage.cleanup endNested keep) with ⟨_ | _, s'⟩ <;>
        rfl
    · simp only [hl, Bool.false_eq_true, if_false]
  · simp only [hwarm, Bool.false_eq_true, if_false]

theorem eval_cleanupWithin_succ (s : Store H) (depth : Nat) (keep : Value) (id : Id .wire) :
    s.eval (cleanupWithin (depth + 1) keep id) =
      match s.wires.get? id with
      | none => (.ok (), s)
      | some wire => s.eval (cleanupBelow (endNested depth keep) keep id wire.stages.length) := by
  rw [cleanupWithin]
  simp only [eval_bind, eval_get]
  rcases s.wires.get? id with _ | wire <;> rfl

theorem eval_endNested (s : Store H) (depth : Nat) (keep : Value) (sub : Id .wire) :
    s.eval (endNested depth keep sub) =
      match s.eval (cleanupWithin depth keep sub) with
      | (.error halt, s') => (.error halt, s')
      | (.ok _, s') =>
        (.ok (), if ((s.wires.get? sub).map (·.midRun)).getD false then
          s'.conclude sub (.stopped .nothing) else s') := by
  unfold endNested
  simp only [eval_bind, eval_get]
  rcases s.eval (cleanupWithin depth keep sub) with ⟨_ | _, s'⟩
  · rfl
  · dsimp only
    split <;> rfl

theorem eval_cleanup (s : Store H) (id : Id .wire) (keep : Value) :
    s.eval (cleanup id keep) = s.eval (cleanupWithin s.depthBound keep id) := by
  simp only [cleanup, eval_bind, eval_get]

end Store

/-! ### Warming up -/

namespace Stage

/-- The store in which a stage warms up the wire that it runs. -/
def prepared (wire : Wire H) (s : Store H) : Stage H → Store H
  | bound name _ _ => { s with vars := (s.vars.declare wire.scope name).2 }
  | _ => s

end Stage

namespace Store

/-- The log of warming up so many stages from a position on. -/
def warmupFromCalls (nested : NestedWarmup H)
    (calls : Id .wire → Value → Id .scope → Id .board → Store H → List Call) (id : Id .wire) :
    (position count : Nat) → Store H → List Call
  | _, 0, _ => []
  | position, count + 1, s =>
    match (s.mark id position).wires.get? id, (s.mark id position).placedAt? id position with
    | some wire, some placed =>
      if placed.stage.capabilities.lifecycle then
        let (step, s₁) := (placed.stage.warmup nested wire).run (s.mark id position)
        .warmup ⟨id, position⟩ step.answer ::
          ((placed.stage.nested?.map fun j => calls j wire.input wire.scope wire.board
            (placed.stage.prepared wire (s.mark id position))).getD [] ++
          match step.answer with
          | .ok (.ok _) =>
            warmupFromCalls nested calls id (position + 1) count
              (s₁.modifyWire id (·.setStage position step.stage))
          | _ => [])
      else warmupFromCalls nested calls id (position + 1) count (s.mark id position)
    | _, _ => []

/-- The log of warming up a wire, with nested wires at most so deep. -/
def warmupCalls : Nat → Id .wire → Value → Id .scope → Id .board → Store H → List Call
  | 0, _, _, _, _, _ => []
  | depth + 1, id, input, scope, board, s =>
    match s.wires.get? id with
    | none => []
    | some wire =>
      if wire.composed.isNone then [.refuse id]
      else
        warmupFromCalls (warmupWithin depth) (warmupCalls depth) id 0 wire.stages.length
            (s.adopt id input scope board) ++
          match (s.adopt id input scope board).eval
            (warmupFrom (warmupWithin depth) id 0 wire.stages.length) with
          | (.ok (.error _), s') => cleanupCalls s'.depthBound .nothing id s'
          | _ => []

end Store

/-! ### One stage -/

namespace Stage

/-- What wires have to do with a stage: whether it is called when the run begins and ends, and the
wire that it runs. -/
def harness (st : Stage H) : Bool × Option (Id .wire) := (st.capabilities.lifecycle, st.nested?)

/-- Only the lifecycle of a stage reaches the wire that it runs. -/
theorem lifecycle_of_nested? {j : Id .wire} (h : st.nested? = some j) :
    st.capabilities.lifecycle = true := by
  cases st <;> first | rfl | simp [nested?] at h

theorem wires_prepared (wire : Wire H) (s : Store H) (st : Stage H) :
    (st.prepared wire s).wires = s.wires := by
  cases st <;> rfl

theorem run_warmup_set (name : String) (ty : Ty) (slot : Option (Id .slot))
    (nested : NestedWarmup H) (wire : Wire H) (s : Store H) :
    ((set name ty slot).warmup nested wire).run s =
      if s.vars.isProtected wire.scope name then
        (.of (set name ty slot) (.error (.protectedVariable name)), s)
      else
        (.of (set name ty (some (s.vars.declare wire.scope name).1)) (.ok ()),
          { s with vars := (s.vars.declare wire.scope name).2 }) := by
  change StateT.run (if s.vars.isProtected wire.scope name then _ else _) s = _
  split <;> rfl

theorem run_warmup_update (name : String) (ty : Ty) (slot : Option (Id .slot))
    (nested : NestedWarmup H) (wire : Wire H) (s : Store H) :
    ((update name ty slot).warmup nested wire).run s =
      if s.vars.isProtected wire.scope name then
        (.of (update name ty slot) (.error (.protectedVariable name)), s)
      else
        (match s.vars.find? wire.scope name with
          | some found => .of (update name ty (some found)) (.ok ())
          | none => .of (update name ty slot) (.error (.missingVariable name)), s) := by
  change StateT.run (if s.vars.isProtected wire.scope name then _ else _) s = _
  split
  · rfl
  · cases s.vars.find? wire.scope name <;> rfl

/-- Nothing is to be said about the wire of a stage that runs none. -/
theorem leaf {P : Id .wire → Prop} (h : st.nested? = none) : ∀ j, st.nested? = some j → P j := by
  intro j hj
  rw [h] at hj
  cases hj

/-- Warming a stage up leaves its harness alone and all wires and records too, apart from what warming
up the nested wire does. The stage is warmed up if the nested wire is. -/
theorem warmup_spec (stage : Stage H) (nested : NestedWarmup H) (wire : Wire H) (s : Store H) :
    let r := (stage.warmup nested wire).run s
    r.1.stage.harness = stage.harness ∧
      (stage.nested? = none → r.2.wires = s.wires ∧ r.2.runs = s.runs) ∧
      ∀ j, stage.nested? = some j →
        let inner := (stage.prepared wire s).eval (nested j wire.input wire.scope wire.board)
        r.2 = inner.2 ∧
          match inner.1 with
          | .error halt => r.1.answer = .error halt
          | .ok (.error e) => ∃ name, r.1.answer = .ok (.error (.nestedWire name e.message))
          | .ok (.ok _) => r.1.answer = .ok (.ok ()) := by
  cases stage with
  | add operand | get name slot =>
    simp only [warmup, Store.run_bind, Store.run_getThe]
    split <;> exact ⟨rfl, fun _ => ⟨rfl, rfl⟩, leaf rfl⟩
  | set name ty slot =>
    rw [run_warmup_set]
    split <;> exact ⟨rfl, fun _ => ⟨rfl, rfl⟩, leaf rfl⟩
  | update name ty slot =>
    rw [run_warmup_update]
    split
    · exact ⟨rfl, fun _ => ⟨rfl, rfl⟩, leaf rfl⟩
    · split <;> exact ⟨rfl, fun _ => ⟨rfl, rfl⟩, leaf rfl⟩
  | inline sub =>
    obtain ⟨_ | j, running⟩ := sub
    · exact ⟨rfl, fun _ => ⟨rfl, rfl⟩, leaf rfl⟩
    · simp only [warmup, Store.run_bind, run_warmupNested]
      refine ⟨rfl, (fun h => by cases h), fun j' hj' => ?_⟩
      obtain rfl : j = j' := Option.some.inj hj'
      simp only [prepared]
      rcases s.eval (nested j wire.input wire.scope wire.board) with ⟨_ | _ | _, s'⟩
      · exact ⟨rfl, rfl⟩
      · exact ⟨rfl, _, rfl⟩
      · exact ⟨rfl, rfl⟩
  | bound name sub slot =>
    obtain ⟨_ | j, running⟩ := sub
    · exact ⟨rfl, fun _ => ⟨rfl, rfl⟩, leaf rfl⟩
    · simp only [warmup, Store.run_bind, Store.run_getThe, Store.run_modify, run_warmupNested]
      refine ⟨rfl, (fun h => by cases h), fun j' hj' => ?_⟩
      obtain rfl : j = j' := Option.some.inj hj'
      simp only [prepared]
      rcases Store.eval _ (nested j wire.input wire.scope wire.board) with ⟨_ | _ | _, s'⟩
      · exact ⟨rfl, rfl⟩
      · exact ⟨rfl, _, rfl⟩
      · exact ⟨rfl, rfl⟩
  | produce sender queue | broadcast sender fan | consume r queue | listen r queue =>
    simp only [warmup, Store.run_bind, warmupChannel, Store.run_modifyGetThe]
    split <;> exact ⟨rfl, fun _ => ⟨rfl, rfl⟩, leaf rfl⟩
  | unit u =>
    refine ⟨?_, fun _ => ⟨rfl, rfl⟩, leaf rfl⟩
    change ((H.capabilities (H.warmup u (s.view wire 0)).unit).lifecycle, none) = _
    rw [H.capabilities_warmup]
    rfl
  | _ => exact ⟨rfl, fun _ => ⟨rfl, rfl⟩, leaf rfl⟩

/-- Cleaning a stage up leaves its harness alone and all wires and records too, apart from what ending
the nested wire does. It fails if that does. -/
theorem cleanup_spec (stage : Stage H) (endNested : Id .wire → Exec H PUnit) (keep : Value)
    (s : Store H) :
    let r := s.eval (stage.cleanup endNested keep)
    (∀ st, r.1 = .ok st → st.harness = stage.harness) ∧
      (stage.nested? = none → r.2.wires = s.wires ∧ r.2.runs = s.runs) ∧
      ∀ j, stage.nested? = some j → s.eval (endNested j) = (r.1.map fun _ => (), r.2) := by
  cases stage with
  | buffer source =>
    simp only [cleanup, Store.eval_bind, Store.eval_getThe]
    split
    · exact ⟨fun _ h => by cases h; rfl, fun _ => ⟨rfl, rfl⟩, leaf rfl⟩
    · exact ⟨(fun _ h => by cases h), fun _ => ⟨rfl, rfl⟩, leaf rfl⟩
  | inline sub | bound name sub slot =>
    obtain ⟨_ | j, running⟩ := sub
    · exact ⟨fun _ h => by cases h; rfl, fun _ => ⟨rfl, rfl⟩, leaf rfl⟩
    · simp only [cleanup, Store.eval_bind]
      refine ⟨fun st h => ?_, (fun h => by cases h), fun j' hj' => ?_⟩
      · rcases hend : s.eval (endNested j) with ⟨_ | _, s₁⟩ <;> rw [hend] at h <;> cases h
        rfl
      · obtain rfl : j = j' := Option.some.inj hj'
        rcases s.eval (endNested j) with ⟨_ | _, s₁⟩ <;> rfl
  | consume r queue | listen r queue =>
    simp only [cleanup, Store.eval_modifyGetThe]
    split <;> exact ⟨fun _ h => by cases h; rfl, fun _ => ⟨rfl, rfl⟩, leaf rfl⟩
  | unit u =>
    refine ⟨fun st h => ?_, fun _ => ⟨rfl, rfl⟩, leaf rfl⟩
    cases h
    change ((H.capabilities (H.cleanup u s.heap).unit).lifecycle, none) = _
    rw [H.capabilities_cleanup]
    rfl
  | _ => exact ⟨fun _ h => by cases h; rfl, fun _ => ⟨rfl, rfl⟩, leaf rfl⟩

end Stage

end Dataflow
