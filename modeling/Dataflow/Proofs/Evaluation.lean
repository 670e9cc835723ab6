import Dataflow.Run.Once
/-!
# Evaluating computations on the store

Composing, warming up and running are written with `do` blocks over a state with errors. A proof
about them wants an equation per function: what is answered, and the store afterwards. This file
gives the evaluation of a computation and its equations, first for the combinators and then for
the functions that compose a wire. Later proofs cite these and unfold no `do` block.
-/

namespace Dataflow

variable {H : Host} {ε α β : Type}

theorem exists_of_bind_ok {x : Except ε α} {f : α → Except ε β} {b : β} (h : x >>= f = .ok b) :
    ∃ a, x = .ok a ∧ f a = .ok b := by
  cases x with
  | error e => cases h
  | ok a => exact ⟨a, rfl, h⟩

theorem of_mapError_ok {x : Except ε α} {f : ε → β} {a : α} (h : x.mapError f = .ok a) :
    x = .ok a := by
  cases x with
  | error e => cases h
  | ok a => rw [Except.ok.inj h]

/-- What a computation answers on a store, and the store afterwards. -/
def Store.eval (s : Store H) (x : ExceptT ε (StateM (Store H)) α) : Except ε α × Store H :=
  x.run.run s

namespace Store

/-! ### Combinators -/

@[simp] theorem eval_pure (s : Store H) (a : α) :
    s.eval (pure a : ExceptT ε (StateM (Store H)) α) = (.ok a, s) := rfl

@[simp] theorem eval_throw (s : Store H) (e : ε) :
    s.eval (throw e : ExceptT ε (StateM (Store H)) α) = (.error e, s) := rfl

@[simp] theorem eval_get (s : Store H) :
    s.eval (get : ExceptT ε (StateM (Store H)) (Store H)) = (.ok s, s) := rfl

@[simp] theorem eval_getThe (s : Store H) :
    s.eval (getThe (Store H) : ExceptT ε (StateM (Store H)) (Store H)) = (.ok s, s) := rfl

@[simp] theorem eval_modifyGetThe (s : Store H) (f : Store H → α × Store H) :
    s.eval (modifyGetThe (Store H) f : ExceptT ε (StateM (Store H)) α) = (.ok (f s).1, (f s).2) := rfl

@[simp] theorem eval_modify (s : Store H) (f : Store H → Store H) :
    s.eval (modify f : ExceptT ε (StateM (Store H)) PUnit) = (.ok (), f s) := rfl

@[simp] theorem eval_lift (s : Store H) (x : StateM (Store H) α) :
    s.eval (liftM x : ExceptT ε (StateM (Store H)) α) = (.ok (x.run s).1, (x.run s).2) := rfl

@[simp] theorem eval_except (s : Store H) (x : Except ε α) :
    s.eval (liftM x : ExceptT ε (StateM (Store H)) α) = (x, s) := by
  cases x <;> rfl

theorem eval_bind (s : Store H) (x : ExceptT ε (StateM (Store H)) α)
    (f : α → ExceptT ε (StateM (Store H)) β) :
    s.eval (x >>= f) =
      match s.eval x with
      | (.ok a, s') => s'.eval (f a)
      | (.error e, s') => (.error e, s') := by
  change ExceptT.bindCont f (x s).1 (x s).2 = _
  unfold eval
  simp only [ExceptT.run, StateT.run]
  rcases x s with ⟨_ | _, s'⟩ <;> rfl

/-- A computation after another one succeeds only if both do. -/
theorem eval_bind_ok {s s' : Store H} {x : ExceptT ε (StateM (Store H)) α}
    {f : α → ExceptT ε (StateM (Store H)) β} {b : β} (h : s.eval (x >>= f) = (.ok b, s')) :
    ∃ a s₁, s.eval x = (.ok a, s₁) ∧ s₁.eval (f a) = (.ok b, s') := by
  rw [eval_bind] at h
  rcases hx : s.eval x with ⟨_ | a, s₁⟩
  · rw [hx] at h
    simp at h
  · rw [hx] at h
    exact ⟨a, s₁, rfl, h⟩

theorem eval_ite (s : Store H) (c : Prop) [Decidable c] (x y : ExceptT ε (StateM (Store H)) α) :
    s.eval (if c then x else y) = if c then s.eval x else s.eval y := by
  split <;> rfl

theorem eval_tryCatch (s : Store H) (x : ExceptT ε (StateM (Store H)) α)
    (f : ε → ExceptT ε (StateM (Store H)) α) :
    s.eval (tryCatch x f) =
      match s.eval x with
      | (.ok a, s') => (.ok a, s')
      | (.error e, s') => s'.eval (f e) := by
  change (ExceptT.tryCatch x f).run.run s = _
  unfold eval ExceptT.tryCatch
  simp only [ExceptT.run, ExceptT.mk, StateT.run, bind, StateT.bind]
  rcases x s with ⟨_ | _, s'⟩ <;> rfl

/-- A computation whose answer says nothing is known by the store that it leaves. -/
theorem eval_of_isOk {s : Store H} {x : ExceptT ε (StateM (Store H)) PUnit}
    (h : (s.eval x).1.isOk = true) : s.eval x = (.ok (), (s.eval x).2) := by
  rcases hx : s.eval x with ⟨_ | _, s'⟩
  · rw [hx] at h
    cases h
  · rfl

/-! ### Without errors -/

theorem run_bind (s : Store H) (x : StateM (Store H) α) (f : α → StateM (Store H) β) :
    (x >>= f).run s = (f (x.run s).1).run (x.run s).2 := rfl

theorem run_pure (s : Store H) (a : α) : (pure a : StateM (Store H) α).run s = (a, s) := rfl

theorem run_getThe (s : Store H) : (getThe (Store H) : StateM (Store H) (Store H)).run s = (s, s) :=
  rfl

theorem run_modify (s : Store H) (f : Store H → Store H) :
    (modify f : StateM (Store H) PUnit).run s = ((), f s) := rfl

theorem run_modifyGetThe (s : Store H) (f : Store H → α × Store H) :
    (modifyGetThe (Store H) f : StateM (Store H) α).run s = f s := rfl

theorem run_run (s : Store H) (x : ExceptT ε (StateM (Store H)) α) :
    StateT.run x.run s = s.eval x := rfl

/-- Running a wire once: it is composed, its run begins, and is driven to its end. -/
theorem eval_runOnce {s : Store H} {id : Id .wire} {wire : Wire H}
    (hw : s.wires.get? id = some wire) (limit : Nat) (input : Value) :
    s.eval (runOnce limit id input) =
      match s.eval (composeOwned id (ownSite wire input)) with
      | (.error e, s₁) => (.ok (.error e), s₁)
      | (.ok _, s₁) =>
        match s₁.eval (beginRun id input none wire.board) with
        | (.error halt, s₂) => (.error halt, s₂)
        | (.ok (.error e), s₂) => (.ok (.ok (.failed ⟨e.message, "", 0⟩)), s₂)
        | (.ok (.ok _), s₂) => (s₂.modifyWire id fun w => { w with looped := false }).eval (do
          let outcome ← driveToEnd id limit
          modify fun s => s.modifyWire id fun w => { w with looped := wire.looped }
          return .ok (← endRun id outcome)) := by
  rw [runOnce, eval_bind, eval_get]
  simp only [hw]
  rw [eval_bind, eval_lift, run_run]
  rcases s.eval (composeOwned id (ownSite wire input)) with ⟨_ | _, s₁⟩
  · rfl
  · dsimp only
    rw [eval_bind]
    rcases s₁.eval (beginRun id input none wire.board) with ⟨_ | _ | _, s₂⟩
    · rfl
    · rfl
    · dsimp only
      rw [eval_bind, eval_modify]

end Store

end Dataflow
