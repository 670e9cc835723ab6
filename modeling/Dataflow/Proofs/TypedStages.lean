import Dataflow.Proofs.Activation
import Dataflow.Proofs.Typing
/-!
# Activating typed stages

All variables of a run live in slots of one scope, one slot per name. As far as types are concerned,
a store comes down to the tags of the values in these slots. This module says what one
activation of a typed stage does to them: a stage that runs no wire follows its typing, and a stage
that runs a wire passes on what became of that wire.

A stage that binds its input object gives its variable back whenever it returns, also when the wire
that it runs is merely suspended. `Stage.inward` and `Stage.restore` are the two sides of this, on
tags as well as on environments.
-/

namespace Dataflow

variable {H : Host} {input v : Value} {v' : Variables} {tags : String → UInt8} {Γ Γ' Γ₁ : Env}
  {k k' k₁ wireTag : UInt8} {s : Store H} {plan st : Stage H} {α : Type}
  {rest : List (Option (Stage H))}

/-! ### Tags of variables -/

/-- The slots of names are there, each for one name only. -/
structure Allotted (own : String → Option (Id .slot)) (v : Variables) : Prop where
  valid : ∀ x slot, own x = some slot → slot.row < v.slots.size
  inj : ∀ x y slot, own x = some slot → own y = some slot → x = y

theorem Allotted.mono {own : String → Option (Id .slot)} {v : Variables} (h : Allotted own v)
    (hsize : v.slots.size ≤ v'.slots.size) : Allotted own v' :=
  ⟨fun x slot hx => (h.valid x slot hx).trans_le hsize, h.inj⟩

/-- The tags of the values of variables. -/
def tagsOf (own : String → Option (Id .slot)) (v : Variables) (x : String) : UInt8 :=
  match own x with
  | some slot => (v.read slot).ty.tag
  | none => Ty.nothing.tag

/-- An environment is true of the tags of variables. -/
def Holds (tags : String → UInt8) (Γ : Env) : Prop :=
  ∀ x k b, Γ x = some (k, b) → k = Ty.nothing.tag ∨ tags x = k

theorem Holds.of_extends (h : Holds tags Γ') (hΓ : Γ.Extends Γ') :
    Holds tags Γ := fun x k b hx => h x k b (hΓ x _ hx)

theorem Holds.update (h : Holds tags Γ) (x : String) {tag : UInt8}
    (htag : k = Ty.nothing.tag ∨ tag = k) (b : Bool) :
    Holds (Function.update tags x tag) (Function.update Γ x (some (k, b))) := by
  intro y k' b' hy
  by_cases hxy : y = x
  · subst hxy
    rw [Function.update_self] at hy ⊢
    obtain ⟨rfl, rfl⟩ := Prod.mk.inj (Option.some.inj hy)
    exact htag
  · rw [Function.update_of_ne hxy] at hy ⊢
    exact h y k' b' hy

section Slots

variable {own : String → Option (Id .slot)} {v : Variables} {x : String} {slot : Id .slot}

theorem tagsOf_of_own (hx : own x = some slot) (v : Variables) :
    tagsOf own v x = (v.read slot).ty.tag := by simp [tagsOf, hx]

/-- A change of one slot changes the tag of its variable only. -/
theorem tagsOf_eq_update (h : Allotted own v) (hx : own x = some slot)
    (hothers : ∀ slot', slot ≠ slot' → v'.read slot' = v.read slot') :
    tagsOf own v' = Function.update (tagsOf own v) x (v'.read slot).ty.tag := by
  funext y
  by_cases hxy : y = x
  · subst hxy
    rw [Function.update_self, tagsOf_of_own hx]
  · rw [Function.update_of_ne hxy]
    unfold tagsOf
    cases hy : own y with
    | none => rfl
    | some slot' =>
      dsimp only
      rw [hothers slot' ?_]
      rintro rfl
      exact hxy (h.inj y x _ hy hx)

theorem tagsOf_write (h : Allotted own v) (hx : own x = some slot) (value : Value) :
    tagsOf own (v.write slot value) = Function.update (tagsOf own v) x value.ty.tag := by
  rw [tagsOf_eq_update h hx fun slot' hne => v.read_write_of_ne hne value,
    v.read_write_self (h.valid x slot hx)]

theorem tagsOf_assign (h : Allotted own v) (hx : own x = some slot) (value : Value) :
    tagsOf own (v.assign slot value) = Function.update (tagsOf own v) x value.ty.tag := by
  rw [tagsOf_eq_update h hx fun slot' hne => v.read_assign_of_ne hne value,
    v.read_assign_self (h.valid x slot hx), Value.tag_overwrite]

end Slots

/-- A wire starts with the tag of its input, or with none if it ignores it. -/
theorem Fits.inputTag (h : Fits v k) (plans : List (Option (Stage H))) :
    Fits v (inputTag plans k) := by
  unfold Dataflow.inputTag
  split
  · split
    · exact .inl rfl
    · exact h
  · exact h

/-! Values with the tags of numbers and of objects are such. -/

theorem Fits.int (h : Fits v Ty.int.tag) : ∃ n, v = .int n := by
  have h := h.resolve_left (by decide)
  cases v <;> simp [Value.ty, Value.tyBy, ObjectRef.ty, Ty.tag, objectTag] at h ⊢

theorem Fits.float (h : Fits v Ty.float.tag) : ∃ x, v = .float x := by
  have h := h.resolve_left (by decide)
  cases v <;> simp [Value.ty, Value.tyBy, ObjectRef.ty, Ty.tag, objectTag] at h ⊢

theorem Fits.object (h : Fits v objectTag) : ∃ object, v = .object object := by
  have h := h.resolve_left (by decide)
  cases v <;> simp [Value.ty, Value.tyBy, Ty.tag, objectTag] at h ⊢

/-! ### Stages that run no wire -/

namespace Stage

/-- A stage is linked to the slot of its variable. -/
def Wired (own : String → Option (Id .slot)) (st : Stage H) : Prop :=
  ∀ x, st.uses? = some x → ∃ slot, own x = some slot ∧ st.slot? = some slot

/-- How a stage that runs no wire may fail. -/
def MayFail (st : Stage H) (error : ActivationError) : Prop :=
  (∃ message, st = .fail message ∧
    error = .failed (if message.isEmpty then "Fail" else message)) ∨
  (∃ operand, st = .add operand ∧ error = .overflow)

/-- What a stage that runs no wire may answer. -/
def Follows (own : String → Option (Id .slot)) (st : Stage H) (s s' : Store H) (k : UInt8)
    (Γ : Env) : Except Halt (Except ActivationError Activation) → Prop
  | .error _ => True
  | .ok (.ok (.proceed v)) => Fits v k ∧ Holds (tagsOf own s'.vars) Γ
  | .ok (.ok (.suspend _)) => s' = s
  | .ok (.ok (.finish _)) | .ok (.ok (.stop _)) => False
  | .ok (.error error) => st.MayFail error

/-- Two numbers of one kind have a sum, unless it is too large. -/
theorem sum_cases {a b : Value} (hk : k = Ty.int.tag ∨ k = Ty.float.tag) (ha : Fits a k)
    (hb : Fits b k) :
    (∃ v, sum a b = .ok v ∧ Fits v k) ∨ sum a b = .error .overflow := by
  rcases hk with rfl | rfl
  · obtain ⟨m, rfl⟩ := ha.int
    obtain ⟨n, rfl⟩ := hb.int
    unfold sum
    dsimp only
    split
    · exact .inl ⟨_, rfl, .self _⟩
    · exact .inr rfl
  · obtain ⟨x, rfl⟩ := ha.float
    obtain ⟨y, rfl⟩ := hb.float
    exact .inl ⟨_, rfl, .self _⟩

section Leaf

variable {resume : Id .wire → Exec H Progress} {own : String → Option (Id .slot)} {wire : Wire H}

/-- An operand that is typed has a value of its tag. -/
theorem fits_operand {operand : Operand} (hwired : (add (H := H) operand).Wired own)
    (hΓ : Holds (tagsOf own s.vars) Γ)
    (h : StageTyped (H := H) wireTag (.add operand.bare) k Γ k₁ Γ₁) :
    k₁ = k ∧ Γ₁ = Γ ∧ (k = Ty.int.tag ∨ k = Ty.float.tag) ∧
      Fits (operand.current s.vars.read) k := by
  cases h with
  | addLiteral hnumber hslot hliteral htag =>
    rw [Operand.referent?_bare] at hliteral
    have hbare : operand.bare = operand := by simp [Operand.bare, hliteral]
    rw [hbare] at hslot htag
    refine ⟨rfl, rfl, hnumber, .inr ?_⟩
    rw [Operand.current, hslot]
    exact htag
  | addVariable hnumber href hx =>
    rw [Operand.referent?_bare] at href
    obtain ⟨slot, hown, hslot⟩ := hwired _ href
    refine ⟨rfl, rfl, hnumber, ?_⟩
    have hslot : operand.slot = some slot := hslot
    rw [Operand.current, hslot]
    have htag := hΓ _ _ _ hx
    rwa [tagsOf_of_own hown] at htag

/-- A typed stage that runs no wire follows its typing. -/
theorem activate_typed {stage : Stage H} (h : StageTyped wireTag stage.bare k Γ k₁ Γ₁)
    (hwired : stage.Wired own) (hslots : Allotted own s.vars)
    (hΓ : Holds (tagsOf own s.vars) Γ) (hwire : Fits wire.input wireTag) (hinput : Fits input k) :
    stage.Follows own s ((stage.activate resume wire input).run s).2 k₁ Γ₁
      ((stage.activate resume wire input).run s).1.answer := by
  cases stage with
  | const v =>
    cases h
    exact ⟨.self v, hΓ⟩
  | pass =>
    cases h
    exact ⟨hinput, hΓ⟩
  | input =>
    cases h
    exact ⟨hwire, hΓ⟩
  | add operand =>
    obtain ⟨rfl, rfl, hnumber, hoperand⟩ := fits_operand hwired hΓ h
    change Follows own _ s s k₁ Γ₁ (.ok ((sum input (operand.current s.vars.read)).map .proceed))
    rcases sum_cases hnumber hinput hoperand with ⟨v, hv, hfits⟩ | hover
    · rw [hv]
      exact ⟨hfits, hΓ⟩
    · rw [hover]
      exact .inr ⟨operand, rfl, rfl⟩
  | set x ty slot =>
    cases h with
    | set hx =>
      obtain ⟨slot, hown, hslot⟩ := hwired x rfl
      obtain rfl : _ = some slot := hslot
      refine ⟨hinput, ?_⟩
      change Holds (tagsOf own (s.vars.assign slot input)) _
      rw [tagsOf_assign hslots hown]
      exact hΓ.update x hinput false
  | get x slot =>
    cases h with
    | get hx =>
      obtain ⟨slot, hown, hslot⟩ := hwired x rfl
      obtain rfl : _ = some slot := hslot
      refine ⟨?_, hΓ⟩
      have htag := hΓ _ _ _ hx
      rwa [tagsOf_of_own hown] at htag
  | update x ty slot =>
    cases h with
    | update hx =>
      obtain ⟨slot, hown, hslot⟩ := hwired x rfl
      obtain rfl : _ = some slot := hslot
      refine ⟨hinput, ?_⟩
      change Holds (tagsOf own (s.vars.assign slot input)) _
      rw [tagsOf_assign hslots hown]
      have hsame : Function.update Γ x (some (k, false)) = Γ := by
        rw [← hx, Function.update_eq_self]
      rw [← hsame]
      exact hΓ.update x hinput false
  | pause time paused =>
    cases h with
    | pause hdelay =>
      cases paused with
      | true => exact ⟨hinput, hΓ⟩
      | false =>
        simp only [activate, Bool.false_eq_true, if_false, hdelay]
        split
        · exact rfl
        · exact rfl
        · exact absurd ‹_› (by simp)
  | buffer source =>
    cases h
    simp only [activate, Store.run_bind, Store.run_getThe]
    rcases source.next s.holds s.heap with v | ⟨object, source', heap⟩
    · exact trivial
    · exact ⟨.self _, hΓ⟩
  | fail message =>
    cases h
    exact .inl ⟨message, rfl, rfl⟩
  | _ => cases h

end Leaf

/-- A typed stage that runs no wire has none under way. -/
theorem underway_of_typed (h : StageTyped wireTag st.bare k Γ k₁ Γ₁) : st.underway = false := by
  cases st <;> first | rfl | cases h

/-! ### Stages that run a wire -/

/-- The variable that a stage binds its input object to. -/
def binds? : Stage H → Option String
  | bound x _ _ => some x
  | _ => none

/-- The tags of variables as the wire of a stage sees them. -/
def inward (st : Stage H) (tags : String → UInt8) : String → UInt8 :=
  match st.binds? with
  | some x => Function.update tags x objectTag
  | none => tags

/-- The environment that the wire of a stage starts with. -/
def inwardEnv (st : Stage H) (Γ : Env) : Env :=
  match st.binds? with
  | some x => Function.update Γ x (some (objectTag, true))
  | none => Γ

/-- What is known after a stage, from what was known before it and what is known at the end of its
wire. -/
def restore {α : Type} (st : Stage H) (before inner : String → α) : String → α :=
  match st.binds? with
  | some x => Function.update inner x (before x)
  | none => inner

@[simp] theorem binds?_bare (st : Stage H) : st.bare.binds? = st.binds? := by
  cases st <;> rfl

@[simp] theorem inwardEnv_bare (st : Stage H) (Γ : Env) : st.bare.inwardEnv Γ = st.inwardEnv Γ := by
  simp [inwardEnv]

@[simp] theorem restore_bare (st : Stage H) (before inner : String → α) :
    st.bare.restore before inner = st.restore before inner := by
  simp [restore]

theorem inward_restore (st : Stage H) (f f₁ : String → UInt8) :
    st.inward (st.restore f f₁) = st.inward f₁ := by
  unfold inward restore
  cases st.binds? <;> simp

section SetRunning

variable (st : Stage H) (running : Bool)

@[simp] theorem binds?_setRunning : (st.setRunning running).binds? = st.binds? := by
  rw [← binds?_bare, bare_setRunning, binds?_bare]

@[simp] theorem nested?_setRunning : (st.setRunning running).nested? = st.nested? := by
  rw [← nested?_bare, bare_setRunning, nested?_bare]

@[simp] theorem inward_setRunning (tags : String → UInt8) :
    (st.setRunning running).inward tags = st.inward tags := by
  simp [inward]

@[simp] theorem inwardEnv_setRunning (Γ : Env) :
    (st.setRunning running).inwardEnv Γ = st.inwardEnv Γ := by
  simp [inwardEnv]

@[simp] theorem restore_setRunning (before inner : String → α) :
    (st.setRunning running).restore before inner = st.restore before inner := by
  simp [restore]

theorem underway_setRunning {j : Id .wire} (h : st.nested? = some j) :
    (st.setRunning running).underway = running := by
  cases st <;> first | rfl | simp [nested?] at h

end SetRunning

end Stage

theorem Holds.inward (h : Holds tags Γ) (st : Stage H) :
    Holds (st.inward tags) (st.inwardEnv Γ) := by
  unfold Stage.inward Stage.inwardEnv
  cases st.binds? with
  | none => exact h
  | some x => exact h.update x (.inr rfl) true

theorem Holds.restore {tags₁ : String → UInt8} (h : Holds tags Γ) (h₁ : Holds tags₁ Γ₁)
    (st : Stage H) : Holds (st.restore tags tags₁) (st.restore Γ Γ₁) := by
  unfold Stage.restore
  cases st.binds? with
  | none => exact h₁
  | some x =>
    intro y k b hy
    dsimp only at hy ⊢
    by_cases hxy : y = x
    · subst hxy
      rw [Function.update_self] at hy ⊢
      exact h y k b hy
    · rw [Function.update_of_ne hxy] at hy ⊢
      exact h₁ y k b hy

/-- What is known before a stage is known after it, if its wire forgets nothing. -/
theorem Env.Extends.restore (st : Stage H) (h : (st.inwardEnv Γ).Extends Γ₁) :
    Γ.Extends (st.restore Γ Γ₁) := by
  unfold Stage.restore Stage.inwardEnv at *
  cases hx : st.binds? with
  | none => rwa [hx] at h
  | some x =>
    rw [hx] at h
    intro y e hy
    dsimp only at h ⊢
    by_cases hxy : y = x
    · subst hxy
      rwa [Function.update_self]
    · rw [Function.update_of_ne hxy]
      exact h y e (by rwa [Function.update_of_ne hxy])

/-- The typing of a stage that runs a wire. -/
theorem Typed.nesting {code : Code H} {j : Id .wire}
    (h : Typed code wireTag (some plan :: rest) k Γ k' Γ') (hj : plan.nested? = some j) :
    (∀ x, plan.binds? = some x → k = objectTag) ∧ ∃ plans k₁ Γ₁, code j = some plans ∧
      Typed code (inputTag plans k) plans (inputTag plans k) (plan.inwardEnv Γ) k₁ Γ₁ ∧
      Typed code wireTag rest k₁ (plan.restore Γ Γ₁) k' Γ' := by
  cases h with
  | stage hstage => cases hstage <;> simp [Stage.nested?] at hj
  | inline hcode hsub hrest =>
    obtain rfl := Option.some.inj hj
    exact ⟨by simp [Stage.binds?], _, _, _, hcode, hsub, hrest⟩
  | bound hcode hsub hrest =>
    obtain rfl := Option.some.inj hj
    exact ⟨fun _ _ => rfl, _, _, _, hcode, hsub, hrest⟩

/-- The typing of a stage that runs no wire. -/
theorem Typed.leaf {code : Code H} (h : Typed code wireTag (some plan :: rest) k Γ k' Γ')
    (hn : plan.nested? = none) :
    ∃ k₁ Γ₁, StageTyped wireTag plan k Γ k₁ Γ₁ ∧ Typed code wireTag rest k₁ Γ₁ k' Γ' := by
  cases h with
  | stage hstage hrest => exact ⟨_, _, hstage, hrest⟩
  | inline => simp [Stage.nested?] at hn
  | bound => simp [Stage.nested?] at hn

namespace Stage

/-- Whether the variable of a stage that binds its object holds an object. -/
def Bound (st : Stage H) (s : Store H) : Prop :=
  ∀ x sub slot, st = .bound x sub (some slot) → (s.vars.read slot).ty.tag = objectTag

theorem tag_of_isObject {object : ObjectRef} (h : v.isObject object = true) :
    v.ty.tag = objectTag := by
  cases v <;> simp [Value.isObject] at h
  rfl

section Nesting

variable {stage : Stage H} {j : Id .wire}

/-- While the object of a stage is not lost, its variable holds an object. -/
theorem bound_of_not_loses (h : ¬ st.Loses input s)
    (hinput : ∀ x, st.binds? = some x → ∃ object, input = .object object) : st.Bound s := by
  intro x sub slot hst
  obtain ⟨object, hinput⟩ := hinput x (by rw [hst]; rfl)
  cases hfound : (s.vars.read slot).isObject object with
  | true => exact tag_of_isObject hfound
  | false => exact absurd ⟨x, sub, slot, object, hst, hinput, hfound⟩ h

theorem enters?_of_nested? (hj : stage.nested? = some j)
    (hbound : ∀ x, stage.binds? = some x →
      (∃ object, input = .object object) ∧ ∃ slot, stage.slot? = some slot) :
    stage.enters? input = some j := by
  cases stage with
  | inline sub => exact hj
  | bound x sub slot =>
    obtain ⟨⟨object, rfl⟩, slot', hslot⟩ := hbound x rfl
    obtain rfl : slot = some slot' := hslot
    exact hj
  | _ => simp [nested?] at hj

end Nesting

/-! ### Bindings and tags -/

theorem restore_inwardEnv (st : Stage H) (Γ : Env) : st.restore Γ (st.inwardEnv Γ) = Γ := by
  unfold restore inwardEnv
  cases st.binds? <;> simp

theorem wires_bindIn (st : Stage H) (input : Value) (s : Store H) :
    (st.bindIn input s).wires = s.wires := by
  unfold bindIn
  split <;> rfl

theorem wires_unbind (st : Stage H) (s₀ s : Store H) : (st.unbind s₀ s).wires = s.wires := by
  unfold unbind
  split <;> rfl

theorem innerEvents_leaf {stage : Stage H} (h : stage.nested? = none)
    (events : Id .wire → Store H → List (Event H)) (input : Value) (s : Store H) :
    stage.innerEvents events input s = [] := by
  unfold innerEvents
  split <;> first | rfl | simp [nested?] at h

theorem innerEvents_of_enters? {stage : Stage H} {j : Id .wire}
    (h : stage.enters? input = some j) (events : Id .wire → Store H → List (Event H))
    (s : Store H) : stage.innerEvents events input s = events j (stage.entered input s j) := by
  unfold enters? at h
  split at h
  · rename_i sub
    obtain ⟨wire, running⟩ := sub
    obtain rfl : wire = some j := h
    rfl
  · rename_i sub _ _
    obtain ⟨wire, running⟩ := sub
    obtain rfl : wire = some j := h
    rfl
  · cases h

section Tags

variable {own : String → Option (Id .slot)}

theorem tagsOf_bindIn (hwired : st.Wired own) (hslots : Allotted own s.vars)
    (hinput : ∀ x, st.binds? = some x → input.ty.tag = objectTag) :
    tagsOf own (st.bindIn input s).vars = st.inward (tagsOf own s.vars) := by
  cases st with
  | bound x sub slot =>
    obtain ⟨slot', hown, hslot⟩ := hwired x rfl
    obtain rfl : slot = some slot' := hslot
    change tagsOf own (s.vars.write slot' input) = Function.update _ x objectTag
    rw [tagsOf_write hslots hown, hinput x rfl]
  | _ => rfl

theorem tagsOf_unbind (hwired : st.Wired own) (hslots : Allotted own s.vars) (s₀ : Store H) :
    tagsOf own (st.unbind s₀ s).vars = st.restore (tagsOf own s₀.vars) (tagsOf own s.vars) := by
  cases st with
  | bound x sub slot =>
    obtain ⟨slot', hown, hslot⟩ := hwired x rfl
    obtain rfl : slot = some slot' := hslot
    change tagsOf own (s.vars.write slot' _) = Function.update _ x (tagsOf own s₀.vars x)
    rw [tagsOf_write hslots hown, tagsOf_of_own hown]
  | _ => rfl

/-- While an object is bound, binding it again changes no tag. -/
theorem Bound.inward_tagsOf (h : st.Bound s) (hwired : st.Wired own) :
    st.inward (tagsOf own s.vars) = tagsOf own s.vars := by
  cases st with
  | bound x sub slot =>
    obtain ⟨slot', hown, hslot⟩ := hwired x rfl
    obtain rfl : slot = some slot' := hslot
    change Function.update (tagsOf own s.vars) x objectTag = _
    rw [← h x sub slot' rfl, ← tagsOf_of_own hown, Function.update_eq_self]
  | _ => rfl

end Tags

end Stage

end Dataflow
