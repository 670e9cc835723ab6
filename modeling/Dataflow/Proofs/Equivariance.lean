import Dataflow.Proofs.Renaming
/-!
# Evaluation does not look at identities

Evaluating renamed calls in a renamed environment makes renamed stages. The new wires of the two
evaluations need not be in the same rows: the renaming has to take those of the first to those of the
second. So one evaluation follows the other on any store, as long as the renaming fits the rows that
are free there (`Environment.Tracks`).

Two things come from this. With a renaming that moves the new wires, it says what the same calls make
on another store. With one that leaves the new wires alone, it says that evaluation mentions nothing
but what it was given and what it has made.
-/

namespace Dataflow

variable {H : Host} [H.Naming] {α : Type} {f : Renaming} {s t : Store H}

namespace Environment

/-- The second computation does what the first one does, on a store where the new wires get the
identities that the renaming gives them. -/
def Tracks {α : Type} (f : Renaming) (g : α → α) (x y : Build H α) : Prop :=
  ∀ s : Store H, ∃ r drafts, s.eval x = (r, s.installAll drafts) ∧
    ∀ t : Store H, (∀ k < drafts.length, f ⟨s.wires.size + k⟩ = ⟨t.wires.size + k⟩) →
      t.eval y = (r.map g, t.installAll (drafts.map (Draft.rename f)))

section Tracks

variable {β : Type}

theorem tracks_pure (f : Renaming) (g : α → α) (a : α) :
    Tracks f g (pure a : Build H α) (pure (g a)) := fun _ => ⟨.ok a, [], rfl, fun _ _ => rfl⟩

theorem tracks_throw (f : Renaming) (g : α → α) (e : EvalError) :
    Tracks f g (throw e : Build H α) (throw e) := fun _ => ⟨.error e, [], rfl, fun _ _ => rfl⟩

theorem tracks_throw_bind (f : Renaming) (g : β → β) (e : EvalError) (k l : α → Build H β) :
    Tracks f g ((throw e : Build H α) >>= k) (throw e >>= l) := fun _ =>
  ⟨.error e, [], rfl, fun _ _ => rfl⟩

theorem tracks_except (f : Renaming) (g : α → α) (x : Except EvalError α) :
    Tracks f g (liftM x : Build H α) (liftM (x.map g)) := fun s =>
  ⟨x, [], s.eval_except x, fun t _ => t.eval_except (x.map g)⟩

/-- An answer without wires. -/
theorem tracks_except_same (f : Renaming) (x : Except EvalError α) :
    Tracks f id (liftM x : Build H α) (liftM x) := by
  have hmap : x.map id = x := by cases x <;> rfl
  have htracks := tracks_except (H := H) f id x
  rwa [hmap] at htracks

theorem Tracks.bind {g : α → α} {h : β → β} {x y : Build H α} {k l : α → Build H β}
    (hxy : Tracks f g x y) (hkl : ∀ a, Tracks f h (k a) (l (g a))) :
    Tracks f h (x >>= k) (y >>= l) := by
  intro s
  obtain ⟨r, drafts, hx, hy⟩ := hxy s
  cases r with
  | error e =>
    refine ⟨.error e, drafts, by rw [Store.eval_bind, hx], fun t ht => ?_⟩
    rw [Store.eval_bind, hy t ht]
    rfl
  | ok a =>
    obtain ⟨r, more, hk, hl⟩ := hkl a (s.installAll drafts)
    -- the renaming fits the new wires of both parts, those of the second behind those of the first
    refine ⟨r, drafts ++ more, ?_, fun t ht => ?_⟩
    · simp only [Store.eval_bind, hx, hk, Store.installAll_append]
    · have hdrafts := hy t fun k hk => ht k (by rw [List.length_append]; omega)
      have hmore := hl (t.installAll (drafts.map (Draft.rename f))) fun k hk => by
        have hrow := ht (drafts.length + k) (by rw [List.length_append]; omega)
        rw [Store.size_installAll, Store.size_installAll, List.length_map, Nat.add_assoc,
          Nat.add_assoc, hrow]
      rw [List.map_append, Store.installAll_append, ← hmore, Store.eval_bind, hdrafts]
      rfl

/-- A pipeline becomes a new wire, and its own pipelines become those behind it. -/
theorem tracks_pipeline {name : String} {x y : Build H (List (Placed H))}
    (hxy : Tracks f (List.map (Placed.rename f)) x y) :
    Tracks f (Value.rename f)
      (do
        let id ← modifyGet (·.addWire name false)
        let placed ← x
        modify fun s => s.modifyWire id fun w => placed.foldl Wire.push w
        return .wire id)
      (do
        let id ← modifyGet (·.addWire name false)
        let placed ← y
        modify fun s => s.modifyWire id fun w => placed.foldl Wire.push w
        return .wire id) := by
  intro s
  -- the stages are made while the wire is there and still empty
  obtain ⟨r, drafts, hx, hy⟩ := hxy (s.installAll [⟨name, false, []⟩])
  have hy' (t : Store H)
      (ht : ∀ k < drafts.length + 1, f ⟨s.wires.size + k⟩ = ⟨t.wires.size + k⟩) :
      (t.installAll [⟨name, false, []⟩]).eval y = (r.map (List.map (Placed.rename f)),
        t.installAll (⟨name, false, []⟩ :: drafts.map (Draft.rename f))) := by
    refine hy _ fun k hk => ?_
    have hrow := ht (k + 1) (by omega)
    rw [Store.size_installAll, Store.size_installAll, List.length_singleton, Nat.add_assoc,
      Nat.add_assoc, Nat.add_comm 1 k, hrow]
  rw [← Store.installAll_append, List.singleton_append] at hx
  cases r with
  | error e =>
    refine ⟨.error e, ⟨name, false, []⟩ :: drafts, ?_, fun t ht => ?_⟩
    · simp only [Store.eval_bind, Store.eval_addWire, hx]
    · simp only [Store.eval_bind, Store.eval_addWire, hy' t ht]
      rfl
  | ok placed =>
    refine ⟨.ok (.wire s.wires.next), ⟨name, false, placed⟩ :: drafts, ?_, fun t ht => ?_⟩
    · simp only [Store.eval_bind, Store.eval_addWire, hx, Store.eval_fill, Store.eval_pure,
        Store.fill_installAll]
      rfl
    · have hnext : f s.wires.next = t.wires.next := ht 0 (Nat.zero_lt_succ _)
      simp only [Store.eval_bind, Store.eval_addWire, hy' t ht, Except.map, Store.eval_fill,
        Store.eval_pure, Store.fill_installAll, Value.rename, hnext]
      rfl

/-- What the second computation does, if it is known what the first one does. -/
theorem Tracks.eval {g : α → α} {x y : Build H α} (hxy : Tracks f g x y) {r : Except EvalError α}
    {drafts : List (Draft H)} (hx : s.eval x = (r, s.installAll drafts))
    (hmove : ∀ k < drafts.length, f ⟨s.wires.size + k⟩ = ⟨t.wires.size + k⟩) :
    t.eval y = (r.map g, t.installAll (drafts.map (Draft.rename f))) := by
  obtain ⟨r', drafts', hx', hy⟩ := hxy s
  rw [hx] at hx'
  obtain rfl := congrArg Prod.fst hx'
  obtain rfl := Store.installAll_inj (congrArg Prod.snd hx')
  exact hy t hmove

end Tracks

theorem found_map (g : α → α) (span : Program.Span) (message : String) (o : Option α) :
    found span message (o.map g) = (found span message o).map g := by
  cases o <;> rfl

theorem argIndex_rename (f : Renaming) (stage : Stage H) (call : String) (span : Program.Span)
    (position : Nat) (name : Option String) :
    argIndex (stage.rename f) call span position name = argIndex stage call span position name := by
  cases name with
  | none => rfl
  | some name => rw [argIndex, argIndex, Stage.params_rename]

mutual

/-- Evaluation commutes with renaming. -/
theorem tracks_resolve (f : Renaming) (env : Environment H) (owner : String) (span : Program.Span)
    (e : Program.Expr) :
    Tracks f (Value.rename f) (resolve env owner span e)
      (resolve (env.rename f) owner span (e.rename f)) := by
  cases e with
  | literal v =>
    rw [Program.Expr.rename, resolve, resolve]
    exact tracks_pure f _ v
  | reference name =>
    rw [Program.Expr.rename, resolve, resolve]
    exact tracks_pure f _ (Value.ref name)
  | type ty =>
    rw [Program.Expr.rename, resolve, resolve]
    exact tracks_pure f _ (Value.type ty)
  | constant name =>
    rw [Program.Expr.rename, resolve, resolve, findDefine?_rename, found_map]
    exact tracks_except f _ _
  | wire name =>
    rw [Program.Expr.rename, resolve, resolve, findWire?_rename, found_map]
    exact (tracks_except f f _).bind fun id => tracks_pure f _ (Value.wire id)
  | pipeline calls =>
    rw [Program.Expr.rename, resolve, resolve]
    exact tracks_pipeline (tracks_placeAll f env calls)

theorem tracks_placeAll (f : Renaming) (env : Environment H) (calls : List Program.Call) :
    Tracks f (List.map (Placed.rename f)) (placeAll env calls)
      (placeAll (env.rename f) (Program.Call.renameAll f calls)) := by
  cases calls with
  | nil =>
    rw [Program.Call.renameAll, placeAll, placeAll]
    exact tracks_pure f _ []
  | cons c calls =>
    rw [Program.Call.renameAll, placeAll, placeAll]
    exact (tracks_place f env c).bind fun p =>
      (tracks_placeAll f env calls).bind fun placed => tracks_pure f _ (p :: placed)

theorem tracks_place (f : Renaming) (env : Environment H) (c : Program.Call) :
    Tracks f (Placed.rename f) (place env c) (place (env.rename f) (c.rename f)) := by
  cases c with
  | mk name args span =>
    have hempty : (Program.Arg.renameAll f args).isEmpty = args.isEmpty := by
      rcases args with _ | ⟨⟨_, _⟩, _⟩ <;> rfl
    rw [Program.Call.rename, place, place, rename, Registry.create?_rename, found_map]
    refine (tracks_except f (Stage.rename f) _).bind fun fresh => ?_
    simp only [hempty, Stage.capabilities_rename]
    split
    · exact tracks_throw_bind f _ _ _ _
    · exact (tracks_assign f env name span args 0 fresh).bind fun stage => tracks_pure f _ _

theorem tracks_assign (f : Renaming) (env : Environment H) (call : String) (span : Program.Span)
    (args : List Program.Arg) (position : Nat) (stage : Stage H) :
    Tracks f (Stage.rename f) (assign env call span position stage args)
      (assign (env.rename f) call span position (stage.rename f) (Program.Arg.renameAll f args)) := by
  cases args with
  | nil =>
    rw [Program.Arg.renameAll, assign, assign]
    exact tracks_pure f _ stage
  | cons arg args =>
    obtain ⟨name, value⟩ := arg
    rw [Program.Arg.renameAll, assign, assign, argIndex_rename]
    refine (tracks_except_same f _).bind fun index => ?_
    refine (tracks_resolve f env call span value).bind fun v => ?_
    simp only [id, Stage.setParam_rename]
    cases stage.setParam index v with
    | error e => exact tracks_throw f _ _
    | ok stage => exact tracks_assign f env call span args (position + 1) stage

end

theorem tracks_evalDefines (f : Renaming) (items : List Program.Item) (env : Environment H) :
    Tracks f (rename f) (evalDefines items env)
      (evalDefines (items.map (Program.Item.rename f)) (env.rename f)) := by
  induction items generalizing env with
  | nil =>
    rw [List.map_nil, evalDefines, evalDefines]
    exact tracks_pure f _ env
  | cons item items ih =>
    rw [List.map_cons]
    cases item with
    | wire decl =>
      rw [Program.Item.rename, evalDefines, evalDefines]
      exact ih env
    | define name value span =>
      rw [Program.Item.rename, evalDefines, evalDefines]
      refine (tracks_resolve f env name span value).bind fun v => ?_
      rw [← rename_define]
      exact ih (env.define name v)

/-! ### What evaluation mentions -/

section Settled

variable {n : Nat}

/-- A computation that tracks itself mentions only what it was given and what it has made. -/
theorem settled_of_tracks {rename : Renaming → α → α} {x : Build H α}
    (hx : ∀ f : Renaming, f.FixesBelow n → Tracks f (rename f) x x) (hn : n ≤ s.wires.size) {a : α}
    (h : s.eval x = (.ok a, t)) :
    ∃ drafts, t = s.installAll drafts ∧ Settled rename t.wires.size a ∧
      ∀ d ∈ drafts, Settled Draft.rename t.wires.size d := by
  obtain ⟨r, drafts, hr, -⟩ := hx 1 (Renaming.fixesBelow_one n) s
  obtain ⟨rfl, rfl⟩ := Prod.mk.inj (h.symm.trans hr)
  have hsize := s.size_installAll drafts
  -- two evaluations on the same store, one of them renamed, so that nothing can have changed
  have hfixed (f : Renaming) (hf : f.FixesBelow (s.installAll drafts).wires.size) :
      rename f a = a ∧ drafts.map (Draft.rename f) = drafts := by
    have hsame := (hx f (hf.mono (by omega))).eval h fun k hk => hf _ (by simp only; omega)
    rw [h] at hsame
    exact ⟨(Except.ok.inj (congrArg Prod.fst hsame)).symm,
      (Store.installAll_inj (congrArg Prod.snd hsame)).symm⟩
  exact ⟨drafts, rfl, fun f hf => (hfixed f hf).1,
    fun d hd f hf => map_eq_self_iff.1 (hfixed f hf).2 d hd⟩

end Settled

end Environment

end Dataflow
