import Dataflow.Proofs.Evaluation
import Mathlib.Data.Set.Basic
import Mathlib.Logic.Relation
/-!
# The code of wires

A stage carries two things: what it was built with, and what composing it and running it have
left in it. The first is its *bare* form, and the bare stages of a wire are the wire's *code*.
Composition, warm-up and activation rewrite stages all the time, but never their bare form, so
whatever is proved about the code of a tree of wires holds at every moment of its life.

How far a computation reaches is said in the same breath. `Keeps π T s s'` says that `π` of every
wire is the same in both stores, and that wires outside `T` are the same altogether. With `T` all
wires below one wire this frames a nested run.
-/

namespace Dataflow

variable {H : Host} {st st' : Stage H} {T : Set (Id .wire)} {i j : Id .wire} {w : Wire H}
  {s : Store H} {f : Wire H → Wire H}

/-! ### Bare stages -/

/-- The operand without what a run has resolved. A literal has nothing to resolve. -/
def Operand.bare (o : Operand) : Operand := if o.referent?.isSome then o.release else o

namespace Operand

@[simp] theorem value_bare (o : Operand) : o.bare.value = o.value := by
  unfold bare release
  split <;> rfl

@[simp] theorem referent?_bare (o : Operand) : o.bare.referent? = o.referent? := by
  simp [referent?]

theorem bare_slot (o : Operand) (name : String) (h : o.referent? = some name)
    (slot : Option (Id .slot)) : Operand.bare { o with slot } = o.bare := by
  have h' : Operand.referent? { o with slot } = some name := h
  simp [bare, h, h', release]

end Operand

namespace Stage

/-- The stage as it was built, without what a composition or a run has left in it. -/
def bare : Stage H → Stage H
  | add operand => add operand.bare
  | set name _ _ => set name .nothing none
  | get name _ => get name none
  | update name _ _ => update name .nothing none
  | pause time _ => pause time false
  | buffer source => buffer { size := source.size }
  | inline sub => inline { sub with running := false }
  | bound name sub _ => bound name { sub with running := false } none
  | produce sender _ => produce { sender with ty := .nothing } none
  | broadcast sender _ => broadcast { sender with ty := .nothing } none
  | consume r _ => consume { r with pending := [], last := none } none
  | listen r _ => listen { r with pending := [], last := none } none
  | other => other

/-- The wire that a stage runs. -/
def nested? : Stage H → Option (Id .wire)
  | inline sub => sub.wire
  | bound _ sub _ => sub.wire
  | _ => none

/-- Whether a stage runs a wire, if it is given one. -/
def isNesting : Stage H → Bool
  | inline _ | bound .. => true
  | _ => false

/-- Whether the stage is none of the host's units. -/
def isBuiltIn : Stage H → Bool
  | unit _ => false
  | _ => true

/-- What a stage was built with; what the host's units are made of is the host's business. -/
def plan? (st : Stage H) : Option (Stage H) := if st.isBuiltIn then some st.bare else none

/-- The slot that a stage has been given for the run. -/
def slot? : Stage H → Option (Id .slot)
  | add operand => operand.slot
  | set _ _ slot => slot
  | get _ slot => slot
  | update _ _ slot => slot
  | bound _ _ slot => slot
  | _ => none

@[simp] theorem nested?_bare (st : Stage H) : st.bare.nested? = st.nested? := by
  cases st <;> rfl

@[simp] theorem isBuiltIn_bare (st : Stage H) : st.bare.isBuiltIn = st.isBuiltIn := by
  cases st <;> rfl

@[simp] theorem name_bare (st : Stage H) : st.bare.name = st.name := by
  cases st <;> rfl

@[simp] theorem capabilities_bare (st : Stage H) : st.bare.capabilities = st.capabilities := by
  cases st <;> rfl

@[simp] theorem params_bare (st : Stage H) : st.bare.params = st.params := by
  cases st <;> rfl

@[simp] theorem inputs_bare (st : Stage H) : st.bare.inputs = st.inputs := by
  cases st <;> rfl

@[simp] theorem ignoresInput_bare (st : Stage H) : st.bare.ignoresInput = st.ignoresInput := by
  simp [ignoresInput]

@[simp] theorem lent_bare (st : Stage H) (input : Ty) : st.bare.lent input = st.lent input := by
  cases st <;> rfl

@[simp] theorem getParam_bare (st : Stage H) (index : Nat) :
    st.bare.getParam index = st.getParam index := by
  cases st with
  | add operand => cases index <;> simp [bare, getParam]
  | _ => rcases index with _ | _ | _ | _ | _ <;> rfl

theorem plan?_eq_some_iff {plan : Stage H} :
    st.plan? = some plan ↔ st.isBuiltIn ∧ st.bare = plan := by
  unfold plan?
  split <;> simp_all

theorem plan?_congr (h : st.bare = st'.bare) : st.plan? = st'.plan? := by
  rw [plan?, plan?, ← isBuiltIn_bare, h, isBuiltIn_bare]

/-- Stages with one plan have the same hooks. -/
theorem capabilities_of_plan? (h : st.plan? = st'.plan?) (hb : st'.isBuiltIn = true) :
    st.capabilities = st'.capabilities := by
  have hplan : st'.plan? = some st'.bare := plan?_eq_some_iff.2 ⟨hb, rfl⟩
  obtain ⟨-, hbare⟩ := plan?_eq_some_iff.1 (h.trans hplan)
  rw [← capabilities_bare, hbare, capabilities_bare]

/-- What nothing that happens to a stage changes: its plan and its hooks. -/
def gear (st : Stage H) : Option (Stage H) × Capabilities := (st.plan?, st.capabilities)

end Stage

/-! ### Code -/

/-- What wires are built of: the plans of their stages. -/
abbrev Code (H : Host) := Id .wire → Option (List (Option (Stage H)))

/-- The plans of the stages of a wire. -/
def Wire.code (w : Wire H) : List (Option (Stage H)) := w.stages.map (·.stage.plan?)

/-- The gear of the stages of a wire, and which of them are warmed up. -/
def Wire.gear (w : Wire H) : List ((Option (Stage H) × Capabilities) × Bool) :=
  w.stages.map fun p => (p.stage.gear, p.warmedUp)

/-- The code of all wires of a store. -/
def Store.code (s : Store H) : Code H := fun i => (s.wires.get? i).map Wire.code

namespace Code

/-- A wire runs another one directly. -/
def Child (code : Code H) (i j : Id .wire) : Prop :=
  ∃ stages, code i = some stages ∧ ∃ st, some st ∈ stages ∧ st.nested? = some j

/-- A wire is another one, or is run by it at some depth. -/
def Below (code : Code H) : Id .wire → Id .wire → Prop := Relation.ReflTransGen code.Child

/-- Wires that are there, are made of built-in stages of some sort, and run only each other. -/
structure Closed (code : Code H) (sort : Stage H → Prop) (T : Set (Id .wire)) : Prop where
  known : ∀ i ∈ T, ∃ stages : List (Stage H), code i = some (stages.map some) ∧ ∀ st ∈ stages, sort st
  child : ∀ i ∈ T, ∀ j, code.Child i j → j ∈ T

variable {code : Code H} {sort : Stage H → Prop}

theorem Closed.below (h : code.Closed sort T) (hi : i ∈ T) (hij : code.Below i j) : j ∈ T := by
  induction hij with
  | refl => exact hi
  | tail _ hstep ih => exact h.child _ ih _ hstep

/-- The stages of a wire in a closed set. -/
theorem Closed.stage (h : code.Closed sort T) (hi : i ∈ T) (hw : code i = some w.code)
    {p : Placed H} (hp : p ∈ w.stages) :
    p.stage.plan? = some p.stage.bare ∧ sort p.stage.bare ∧
      ∀ j, p.stage.nested? = some j → j ∈ T := by
  obtain ⟨stages, hstages, hsort⟩ := h.known i hi
  have hmem : p.stage.plan? ∈ w.code := List.mem_map.2 ⟨p, hp, rfl⟩
  rw [Option.some.inj (hw.symm.trans hstages)] at hmem
  obtain ⟨st, hst, hplan⟩ := List.mem_map.1 hmem
  obtain ⟨-, rfl⟩ := Stage.plan?_eq_some_iff.1 hplan.symm
  refine ⟨hplan.symm, hsort _ hst, fun j hj => h.child i hi j ⟨_, hstages, p.stage.bare, ?_, ?_⟩⟩
  · exact List.mem_map.2 ⟨_, hst, rfl⟩
  · rwa [Stage.nested?_bare]

theorem Closed.imp {sort' : Stage H → Prop} (h : code.Closed sort T)
    (himp : ∀ st, sort st → sort' st) : code.Closed sort' T where
  known i hi := by
    obtain ⟨stages, hstages, hsort⟩ := h.known i hi
    exact ⟨stages, hstages, fun st hst => himp st (hsort st hst)⟩
  child := h.child

/-- Everything below a wire of a closed set is closed. -/
theorem Closed.of_below (h : code.Closed sort T) (hi : i ∈ T) :
    code.Closed sort {j | code.Below i j} where
  known _ hj := h.known _ (h.below hi hj)
  child _ hj _ hjk := Relation.ReflTransGen.tail hj hjk

end Code

/-! ### What is left alone -/

@[simp] theorem Store.get?_modifyWire_self (s : Store H) (i : Id .wire) (f : Wire H → Wire H) :
    (s.modifyWire i f).wires.get? i = (s.wires.get? i).map f :=
  Table.get?_modify_self ..

theorem Store.get?_modifyWire_of_ne (s : Store H) (h : i ≠ j) (f : Wire H → Wire H) :
    (s.modifyWire i f).wires.get? j = s.wires.get? j :=
  Table.get?_modify_of_ne _ h f

/-- A wire after a change of one wire: the changed one, or another one as it was. -/
theorem Store.get?_of_modifyWire (h : (s.modifyWire i f).wires.get? j = some w) :
    (i = j ∧ ∃ w₀, s.wires.get? j = some w₀ ∧ w = f w₀) ∨ i ≠ j ∧ s.wires.get? j = some w := by
  by_cases hij : i = j
  · subst hij
    rw [get?_modifyWire_self] at h
    obtain ⟨w₀, hw₀, rfl⟩ := Option.map_eq_some_iff.1 h
    exact .inl ⟨rfl, w₀, hw₀, rfl⟩
  · rw [get?_modifyWire_of_ne _ hij] at h
    exact .inr ⟨hij, h⟩

theorem Store.modifyWire_modifyWire (s : Store H) (i : Id .wire) (f g : Wire H → Wire H) :
    (s.modifyWire i f).modifyWire i g = s.modifyWire i (g ∘ f) := by
  have hrows : (s.wires.rows.modify i.row f).modify i.row g = s.wires.rows.modify i.row (g ∘ f) := by
    apply Array.ext
    · simp
    · intro n _ _
      simp only [Array.getElem_modify]
      split <;> rfl
  simp only [modifyWire, Table.modify, hrows]

@[simp] theorem Store.size_modifyWire (s : Store H) (i : Id .wire) (f : Wire H → Wire H) :
    (s.modifyWire i f).wires.size = s.wires.size :=
  Table.size_modify ..

@[simp] theorem Store.vars_modifyWire (s : Store H) (i : Id .wire) (f : Wire H → Wire H) :
    (s.modifyWire i f).vars = s.vars := rfl

/-- No wire is added, `π` of every wire stays, and wires outside `T` stay altogether. -/
structure Keeps {β : Type} (π : Wire H → β) (T : Set (Id .wire)) (s s' : Store H) : Prop where
  size : s'.wires.size = s.wires.size
  same : ∀ j, (s'.wires.get? j).map π = (s.wires.get? j).map π
  outside : ∀ j, j ∉ T → s'.wires.get? j = s.wires.get? j

namespace Keeps

variable {β γ : Type} {π : Wire H → β} {ρ : Wire H → γ} {U : Set (Id .wire)} {s₁ s₂ : Store H}

theorem of_wires_eq (h : s₁.wires = s.wires) : Keeps π T s s₁ :=
  ⟨by rw [h], fun _ => by rw [h], fun _ _ => by rw [h]⟩

theorem refl (s : Store H) : Keeps π T s s := of_wires_eq rfl

theorem trans (h : Keeps π T s s₁) (h' : Keeps π T s₁ s₂) : Keeps π T s s₂ :=
  ⟨h'.size.trans h.size, fun j => (h'.same j).trans (h.same j),
    fun j hj => (h'.outside j hj).trans (h.outside j hj)⟩

theorem mono (h : Keeps π T s s₁) (hT : T ⊆ U) : Keeps π U s s₁ :=
  ⟨h.size, h.same, fun j hj => h.outside j fun hT' => hj (hT hT')⟩

/-- What is read off `π` stays too. -/
theorem map (h : Keeps π T s s₁) (g : β → γ) (hg : ∀ w, ρ w = g (π w)) : Keeps ρ T s s₁ := by
  refine ⟨h.size, fun j => ?_, h.outside⟩
  have hρ : ρ = g ∘ π := funext hg
  rw [hρ, ← Option.map_map, ← Option.map_map, h.same]

theorem modifyWire (hi : i ∈ T) (hf : ∀ w, s.wires.get? i = some w → π (f w) = π w) :
    Keeps π T s (s.modifyWire i f) := by
  refine ⟨Store.size_modifyWire .., fun j => ?_, fun j hj => ?_⟩
  · by_cases hij : i = j
    · subst hij
      rw [Store.get?_modifyWire_self]
      cases hw : s.wires.get? i with
      | none => rfl
      | some w => simp [hf w hw]
    · rw [Store.get?_modifyWire_of_ne _ hij]
  · refine Store.get?_modifyWire_of_ne _ ?_ f
    rintro rfl
    exact hj hi

/-- A wire that is there before is there afterwards, with the same `π`. -/
theorem get? (h : Keeps π T s s₁) (hw : s.wires.get? i = some w) :
    ∃ w', s₁.wires.get? i = some w' ∧ π w' = π w := by
  have := h.same i
  rw [hw, Option.map_some] at this
  exact Option.map_eq_some_iff.1 this

theorem code_eq (h : Keeps Wire.code T s s₁) : s₁.code = s.code := funext h.same

theorem code_of_gear (h : Keeps Wire.gear T s s₁) : Keeps Wire.code T s s₁ :=
  h.map (fun gear => gear.map (·.1.1)) fun w => by simp [Wire.code, Wire.gear, Stage.gear]

end Keeps

theorem Store.code_modifyWire (s : Store H) (i : Id .wire) (hf : ∀ w, (f w).code = w.code) :
    (s.modifyWire i f).code = s.code :=
  (Keeps.modifyWire (T := Set.univ) (Set.mem_univ i) fun w _ => hf w).code_eq

/-- Replacing a stage by one that looks the same leaves the view of the stages the same. -/
theorem Wire.map_setStage {γ : Type} (φ : Stage H → γ) (w : Wire H) (position : Nat)
    (st : Stage H) (h : ∀ p, w.stages[position]? = some p → φ st = φ p.stage) :
    (w.setStage position st).stages.map (fun p => φ p.stage) = w.stages.map fun p => φ p.stage := by
  refine List.ext_getElem? fun n => ?_
  simp only [setStage, modifyPlaced, List.getElem?_map, List.getElem?_modify]
  by_cases hn : position = n
  · subst hn
    cases hp : w.stages[position]? with
    | none => rfl
    | some p => simp [h p hp]
  · simp [hn]

theorem Wire.code_setStage {position : Nat}
    (h : ∀ p, w.stages[position]? = some p → st.plan? = p.stage.plan?) :
    (w.setStage position st).code = w.code :=
  w.map_setStage Stage.plan? position st h

/-- Stores with one code have the same number of wires. -/
theorem Store.size_of_code_eq {s' : Store H} (h : s'.code = s.code) :
    s'.wires.size = s.wires.size := by
  have hle : ∀ {s s' : Store H}, s'.code = s.code → s'.wires.size ≤ s.wires.size := by
    intro s s' h
    refine not_lt.1 fun hlt => ?_
    have hrow : s'.wires.get? ⟨s.wires.size⟩ = some s'.wires.rows[s.wires.size] :=
      Array.getElem?_eq_getElem hlt
    have hnone : s.wires.get? ⟨s.wires.size⟩ = none := Array.getElem?_eq_none (Nat.le_refl _)
    have hsame := congrFun h ⟨s.wires.size⟩
    rw [code, code, hrow, hnone] at hsame
    cases hsame
  exact Nat.le_antisymm (hle h) (hle h.symm)

end Dataflow
