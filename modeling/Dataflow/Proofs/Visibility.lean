import Dataflow.Proofs.Names
/-!
# Scopes show what lookups find

A scope is asked in three ways: which slot a name means, whether the variable is protected, and, for
composition, which variables there are. The first two walk up the parents and stop at the first scope
that binds the name. The third starts from what the parent shows and puts the bindings of each scope
over it. They agree for every pattern of shadowing, whatever was done with the scopes.
-/

namespace Dataflow

namespace Variables

variable {v : Variables}

/-- What can be done with scopes and slots. -/
inductive Op where
  /-- A new scope. A parent that is not there counts as none. -/
  | enter (parent : Option (Id .scope))
  | declare (σ : Id .scope) (name : String)
  | insert (σ : Id .scope) (name : String) (value : Value) (isProtected : Bool)
  | clear (σ : Id .scope)
  | write (slot : Id .slot) (value : Value)
  | assign (slot : Id .slot) (value : Value)

/-- Does it. -/
def step (v : Variables) : Op → Variables
  | .enter parent => (v.addScope (parent.filter fun P => P.row < v.scopes.size)).2
  | .declare σ name => (v.declare σ name).2
  | .insert σ name value isProtected => (v.insert σ name value isProtected).2
  | .clear σ => v.clear σ
  | .write slot value => v.write slot value
  | .assign slot value => v.assign slot value

/-- Clearing a scope empties slots and leaves the scopes alone. -/
theorem scopes_clear (v : Variables) (σ : Id .scope) : (v.clear σ).scopes = v.scopes := by
  rw [clear]
  generalize (v.scope σ).entries = entries
  induction entries generalizing v with
  | nil => rfl
  | cons e rest ih => exact ih (v.write e.2.slot .nothing)

namespace WellFormed

theorem step (h : v.WellFormed) (op : Op) : (v.step op).WellFormed := by
  cases op with
  | enter parent =>
    refine h.addScope fun P hP => ?_
    simpa using (Option.filter_eq_some_iff.1 hP).2
  | declare σ name => exact h.declare σ name
  | insert σ name value isProtected => exact h.insert σ name value isProtected
  | clear σ => exact h.of_scope_eq fun id => by rw [Variables.step, scope, scopes_clear, scope]
  | write slot value => exact h.of_scope_eq fun _ => rfl
  | assign slot value => exact h.of_scope_eq fun _ => rfl

theorem after (h : v.WellFormed) (ops : List Op) : (ops.foldl Variables.step v).WellFormed := by
  induction ops generalizing v with
  | nil => exact h
  | cons op ops ih => exact ih (h.step op)

/-- The scope itself comes first, and then its parent. -/
theorem binding?_eq_or (h : v.WellFormed) (σ : Id .scope) (x : String) :
    v.binding? σ x =
      (lookup? x (v.scope σ).entries).or ((v.scope σ).parent.bind (v.binding? · x)) := by
  rw [binding?_eq, around]
  cases hp : (v.scope σ).parent with
  | none => rfl
  | some P =>
    have hchain := h.ancestry_eq_chain (h.parents σ P hp)
    simp only [hchain]
    rfl

/-- Descriptors come in ascending order of their names, so no name comes twice. -/
theorem pairwise_visible (h : v.WellFormed) (σ : Id .scope) :
    ((v.visible σ).map (·.name)).Pairwise (· < ·) := by
  have hscopes := h.ascending_of_mem_ancestry (σ.row + 1) σ
  have hnames : (v.visible σ).map (·.name) = (v.visibleIn (v.chain σ)).map (·.1) := by
    rw [visible, List.map_map]
    refine List.map_congr_left fun e he => ?_
    obtain ⟨b, -, hd⟩ := (v.mem_visibleIn hscopes e).1 he
    rw [Function.comp_apply, hd, name_describe]
  rw [hnames]
  exact v.ascending_visibleIn hscopes

end WellFormed

/-- What a scope shows to composition is what it finds. After anything that was done with scopes and
slots, the descriptors are in ascending order of their names, each name once. A name is shown if and
only if it means a slot; the type is that of the value in the slot, and the descriptor is sealed if
and only if the variable is protected. What a name means, and whether it is protected, is said by the
scope itself if it binds the name, and else by its parent. -/
theorem shown_as_found (ops : List Op) (σ : Id .scope) :
    let v := ops.foldl step {}
    let parent := (v.scope σ).parent
    ((v.visible σ).map (·.name)).Pairwise (· < ·) ∧
      (∀ x, x ∈ (v.visible σ).map (·.name) ↔ (v.find? σ x).isSome = true) ∧
      (∀ d ∈ v.visible σ, ∃ slot, v.find? σ d.name = some slot ∧
        d = if v.isProtected σ d.name then .sealed d.name (v.read slot).ty
          else .assignable d.name (v.read slot).ty) ∧
      (∀ x, v.find? σ x = (v.own σ x).or (parent.bind (v.find? · x))) ∧
      ∀ x, v.isProtected σ x = if v.bindsLocally σ x then
          (lookup? x (v.scope σ).entries).any (·.isProtected) else parent.any (v.isProtected · x) := by
  intro v parent
  have hv : v.WellFormed := wellFormed_empty.after ops
  refine ⟨hv.pairwise_visible σ, fun x => ?_, fun d hd => ?_, fun x => ?_, fun x => ?_⟩
  · rw [List.mem_map, find?, Option.isSome_map, Option.isSome_iff_exists]
    constructor
    · rintro ⟨d, hd, rfl⟩
      obtain ⟨b, hb, -⟩ := hv.mem_visible.1 hd
      exact ⟨b, hb⟩
    · rintro ⟨b, hb⟩
      have hname := v.name_describe x b
      exact ⟨v.describe x b, hv.mem_visible.2 ⟨b, by rwa [hname], by rw [hname]⟩, hname⟩
  · obtain ⟨b, hb, hdescribe⟩ := hv.mem_visible.1 hd
    refine ⟨b.slot, by rw [find?, hb, Option.map_some], ?_⟩
    rw [isProtected, hb]
    exact hdescribe
  · rw [find?, hv.binding?_eq_or, own]
    cases lookup? x (v.scope σ).entries <;> cases hp : parent <;> simp [parent, hp, find?]
  · rw [isProtected, hv.binding?_eq_or, bindsLocally]
    cases lookup? x (v.scope σ).entries <;> cases hp : parent <;> simp [parent, hp, isProtected]

/-- A protected variable is hidden by a free one of an inner scope. -/
example : (([.enter none, .enter (some ⟨0⟩), .insert ⟨0⟩ "limit" (.int 10) true,
      .insert ⟨0⟩ "x" .nothing true, .declare ⟨1⟩ "x"] : List Op).foldl step {}).visible ⟨1⟩ =
    [.sealed "limit" .int, .assignable "x" .nothing] := by
  decide +kernel

end Variables

end Dataflow
