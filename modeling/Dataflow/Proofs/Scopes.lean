import Dataflow.Variables
import Mathlib.Order.Nat
/-!
# The slots of a scope

A run keeps its variables in one scope. Warming up declares names there, one after the other, and
never takes one back, so a name that the scope binds keeps its slot for the rest of the run. A
name that it does not bind means what the scopes around it say.
-/

namespace Dataflow

variable {x : String} {σ : Id .scope} {v w : Variables}

section Entries

variable {α : Type}

@[simp] theorem lookup?_upsert_self (key : String) (value : α) (entries : List (String × α)) :
    lookup? key (upsert key value entries) = some value := by
  induction entries with
  | nil => simp [upsert, lookup?]
  | cons e rest ih =>
    obtain ⟨k, v⟩ := e
    unfold upsert
    split
    · rename_i h
      simp [lookup?, h]
    · rename_i h
      split
      · simp [lookup?]
      · simp [lookup?, Ne.symm h, ih]

theorem lookup?_upsert_of_ne {key key' : String} (h : key ≠ key') (value : α)
    (entries : List (String × α)) : lookup? key' (upsert key value entries) = lookup? key' entries := by
  induction entries with
  | nil => simp [upsert, lookup?, h]
  | cons e rest ih =>
    unfold upsert
    split
    · simp_all [lookup?]
    · split
      · simp [lookup?, h]
      · simp_all [lookup?]

end Entries

/-- A row changes by what is done with the value that it has. -/
theorem Table.modify_congr {kind : Kind} {α : Type} {t : Table kind α} {id : Id kind} {f g : α → α}
    (h : ∀ a, t.get? id = some a → f a = g a) : t.modify id f = t.modify id g := by
  refine congrArg mk (Array.ext_getElem? fun n => ?_)
  rw [Array.getElem?_modify, Array.getElem?_modify]
  split
  · rename_i hn
    subst hn
    cases hget : t.rows[id.row]? with
    | none => rfl
    | some a => exact congrArg some (h a hget)
  · rfl

theorem Table.modify_modify {kind : Kind} {α : Type} (t : Table kind α) (id : Id kind)
    (f g : α → α) : (t.modify id f).modify id g = t.modify id fun a => g (f a) := by
  refine congrArg mk (Array.ext_getElem? fun n => ?_)
  simp only [modify, Array.getElem?_modify]
  split <;> simp [Function.comp_def]

theorem Table.modify_self {kind : Kind} {α : Type} (t : Table kind α) (id : Id kind) :
    t.modify id (fun a => a) = t := by
  refine congrArg mk (Array.ext_getElem? fun n => ?_)
  rw [Array.getElem?_modify]
  split <;> simp

namespace Variables

/-! ### What a name means -/

/-- The slot that the scope itself binds to a name. -/
def own (v : Variables) (σ : Id .scope) (x : String) : Option (Id .slot) :=
  (lookup? x (v.scope σ).entries).map (·.slot)

/-- What the scopes around a scope bind a name to. -/
def around (v : Variables) (σ : Id .scope) (x : String) : Option Binding :=
  match (v.scope σ).parent with
  | some parent => (v.ancestry σ.row parent).findSome? fun s => lookup? x s.entries
  | none => none

/-- The slot that the scopes around a scope bind to a name. -/
def outer (v : Variables) (σ : Id .scope) (x : String) : Option (Id .slot) :=
  (v.around σ x).map (·.slot)

theorem binding?_eq (v : Variables) (σ : Id .scope) (x : String) :
    v.binding? σ x = (lookup? x (v.scope σ).entries).or (v.around σ x) := by
  unfold binding? chain around
  rw [ancestry, List.findSome?_cons]
  cases lookup? x (v.scope σ).entries with
  | some b => rfl
  | none => cases (v.scope σ).parent <;> rfl

theorem find?_eq (v : Variables) (σ : Id .scope) (x : String) :
    v.find? σ x = (v.own σ x).or (v.outer σ x) := by
  unfold find? own outer
  rw [binding?_eq]
  cases lookup? x (v.scope σ).entries <;> rfl

/-- What the scopes around a scope say does not depend on the scope. -/
def Above (v : Variables) (σ : Id .scope) : Prop :=
  ∀ parent, (v.scope σ).parent = some parent → ∀ w : Variables,
    (∀ τ, τ ≠ σ → w.scope τ = v.scope τ) →
      ∀ n, w.ancestry n parent = v.ancestry n parent

/-- A scope that is there and whose names have slots of their own, none of them protected. -/
structure Scoped (v : Variables) (σ : Id .scope) : Prop where
  exist : σ.row < v.scopes.size
  above : v.Above σ
  free : ∀ x b, lookup? x (v.scope σ).entries = some b → b.isProtected = false
  valid : ∀ x slot, v.own σ x = some slot → slot.row < v.slots.size
  inj : ∀ x y slot, v.own σ x = some slot → v.own σ y = some slot → x = y

/-! ### Declaring names -/

/-- Some names are declared in a scope: those that it binds keep their slots, others get slots that
were not there, and what the scopes around it say stays. -/
structure Declares (σ : Id .scope) (names : List String) (v v' : Variables) : Prop where
  ready : v'.Scoped σ
  kept : ∀ x slot, v.own σ x = some slot → v'.own σ x = some slot
  bound : ∀ x, (v'.own σ x).isSome ↔ (v.own σ x).isSome ∨ x ∈ names
  fresh : ∀ x slot, v'.own σ x = some slot → v.own σ x = some slot ∨ v.slots.size ≤ slot.row
  grown : v.slots.size ≤ v'.slots.size
  around : v'.around σ = v.around σ

namespace Declares

variable {names names' : List String} {v₁ v₂ : Variables}

theorem refl (h : v.Scoped σ) : Declares σ [] v v :=
  ⟨h, fun _ _ h => h, by simp, fun _ _ => .inl, le_rfl, rfl⟩

theorem trans (h : Declares σ names v v₁) (h' : Declares σ names' v₁ v₂) :
    Declares σ (names ++ names') v v₂ where
  ready := h'.ready
  kept x slot hx := h'.kept x slot (h.kept x slot hx)
  bound x := by rw [h'.bound, h.bound, List.mem_append, or_assoc]
  fresh x slot hx := (h'.fresh x slot hx).elim (h.fresh x slot) fun hle => .inr (h.grown.trans hle)
  grown := h.grown.trans h'.grown
  around := h'.around.trans h.around

theorem outer (h : Declares σ names v v₁) : v₁.outer σ = v.outer σ := by
  funext x
  unfold Variables.outer
  rw [h.around]

end Declares

theorem scope_bind (v : Variables) (hσ : σ.row < v.scopes.size) (x : String) (b : Binding) :
    (v.bind σ x b).scope σ = { v.scope σ with entries := upsert x b (v.scope σ).entries } := by
  have hsome : ∃ s, v.scopes.get? σ = some s := ⟨_, Array.getElem?_eq_getElem hσ⟩
  obtain ⟨s, hs⟩ := hsome
  simp [bind, scope, hs]

theorem scope_bind_of_ne (v : Variables) {τ : Id .scope} (h : τ ≠ σ) (x : String) (b : Binding) :
    (v.bind σ x b).scope τ = v.scope τ := by
  simp only [bind, scope]
  rw [Table.get?_modify_of_ne _ h.symm]

@[simp] theorem scope_addSlot (v : Variables) (value : Value) (τ : Id .scope) :
    (v.addSlot value).2.scope τ = v.scope τ := rfl

/-- Declaring a name that the scope does not bind gives it a slot of its own. -/
theorem own_bind_addSlot (h : v.Scoped σ) (y : String) :
    ((v.addSlot .nothing).2.bind σ x ⟨v.slots.next, false⟩).own σ y =
      if x = y then some v.slots.next else v.own σ y := by
  have hscope := scope_bind (v.addSlot .nothing).2 (σ := σ) h.exist x ⟨v.slots.next, false⟩
  unfold own
  rw [hscope]
  split
  · rename_i hxy
    subst hxy
    simp
  · rename_i hxy
    rw [lookup?_upsert_of_ne hxy]
    rfl

theorem around_eq_of_scope_eq (h : v.Above σ) (hparent : (w.scope σ).parent = (v.scope σ).parent)
    (hother : ∀ τ, τ ≠ σ → w.scope τ = v.scope τ) : w.around σ = v.around σ := by
  funext x
  unfold around
  rw [hparent]
  cases hp : (v.scope σ).parent with
  | none => rfl
  | some parent => simp only [h parent hp w hother]

theorem Above.of_scope_eq (h : v.Above σ) (hparent : (w.scope σ).parent = (v.scope σ).parent)
    (hother : ∀ τ, τ ≠ σ → w.scope τ = v.scope τ) : w.Above σ := by
  intro parent hp u hu n
  rw [hparent] at hp
  rw [h parent hp u (fun τ hτ => (hu τ hτ).trans (hother τ hτ)), h parent hp w hother]

theorem declare_of_some {slot : Id .slot} (h : v.own σ x = some slot) :
    v.declare σ x = (slot, v) := by
  obtain ⟨b, hb, rfl⟩ := Option.map_eq_some_iff.1 h
  simp [declare, hb]

theorem declare_of_none (h : v.own σ x = none) :
    v.declare σ x =
      (v.slots.next, (v.addSlot .nothing).2.bind σ x ⟨v.slots.next, false⟩) := by
  have hx := Option.map_eq_none_iff.1 h
  simp [declare, hx, addSlot]

/-- Declaring a name in a scope: the slot is the scope's own from then on. -/
theorem declares_declare (h : v.Scoped σ) (x : String) :
    Declares σ [x] v (v.declare σ x).2 ∧
      (v.declare σ x).2.own σ x = some (v.declare σ x).1 := by
  cases hown : v.own σ x with
  | some slot =>
    rw [declare_of_some hown]
    refine ⟨⟨h, fun _ _ h => h, fun y => ?_, fun _ _ => .inl, le_rfl, rfl⟩, hown⟩
    simp only [List.mem_singleton]
    refine ⟨.inl, ?_⟩
    rintro (hy | rfl)
    · exact hy
    · simp [hown]
  | none =>
    rw [declare_of_none hown]
    have hnew := fun y => own_bind_addSlot h (x := x) y
    have hscope := scope_bind (v.addSlot .nothing).2 (σ := σ) h.exist x ⟨v.slots.next, false⟩
    have hparent : (((v.addSlot .nothing).2.bind σ x ⟨v.slots.next, false⟩).scope σ).parent =
        (v.scope σ).parent := by
      rw [hscope]
      rfl
    have hentries : (((v.addSlot .nothing).2.bind σ x ⟨v.slots.next, false⟩).scope σ).entries =
        upsert x ⟨v.slots.next, false⟩ (v.scope σ).entries := by
      rw [hscope]
      rfl
    clear hscope
    have hother : ∀ τ, τ ≠ σ → ((v.addSlot .nothing).2.bind σ x ⟨v.slots.next, false⟩).scope τ =
        v.scope τ := fun τ hτ => by rw [scope_bind_of_ne _ hτ, scope_addSlot]
    have hslots : ((v.addSlot .nothing).2.bind σ x ⟨v.slots.next, false⟩).slots.size =
        v.slots.size + 1 := Table.size_push ..
    have hscopes : ((v.addSlot .nothing).2.bind σ x ⟨v.slots.next, false⟩).scopes.size =
        v.scopes.size := Table.size_modify ..
    generalize (v.addSlot .nothing).2.bind σ x ⟨v.slots.next, false⟩ = v' at *
    have hfresh : ∀ u, v.own σ u ≠ some v.slots.next := fun u hu =>
      absurd (h.valid u _ hu) (Nat.lt_irrefl _)
    refine ⟨⟨⟨hscopes ▸ h.exist, h.above.of_scope_eq hparent hother, fun y b hy => ?_,
      fun y slot hy => ?_, fun y z slot hy hz => ?_⟩, fun y slot hy => ?_, fun y => ?_,
      fun y slot hy => ?_, hslots ▸ Nat.le_succ _, around_eq_of_scope_eq h.above hparent hother⟩,
      by simp [hnew]⟩
    · rw [hentries] at hy
      by_cases hxy : x = y
      · subst hxy
        rw [lookup?_upsert_self] at hy
        exact Option.some.inj hy ▸ rfl
      · rw [lookup?_upsert_of_ne hxy] at hy
        exact h.free y b hy
    · rw [hnew] at hy
      rw [hslots]
      split at hy
      · obtain rfl := Option.some.inj hy
        exact Nat.lt_succ_self _
      · exact Nat.lt_succ_of_lt (h.valid y slot hy)
    · rw [hnew] at hy hz
      grind [h.inj y z slot]
    · rw [hnew, if_neg, hy]
      rintro rfl
      rw [hown] at hy
      cases hy
    · rw [hnew]
      by_cases hxy : x = y
      · simp [hxy]
      · simp [hxy, Ne.symm hxy]
    · rw [hnew] at hy
      split at hy
      · obtain rfl := Option.some.inj hy
        exact .inr le_rfl
      · exact .inl hy

/-! ### Slots -/

@[simp] theorem size_write (v : Variables) (slot : Id .slot) (value : Value) :
    (v.write slot value).slots.size = v.slots.size := Table.size_modify ..

@[simp] theorem size_assign (v : Variables) (slot : Id .slot) (value : Value) :
    (v.assign slot value).slots.size = v.slots.size := Table.size_modify ..

theorem size_le_declare (v : Variables) (σ : Id .scope) (x : String) :
    v.slots.size ≤ (v.declare σ x).2.slots.size := by
  unfold declare
  split
  · exact Nat.le_refl _
  · exact (Nat.le_succ _).trans_eq (Table.size_push ..).symm

theorem read_write_self (v : Variables) {slot : Id .slot} (h : slot.row < v.slots.size)
    (value : Value) : (v.write slot value).read slot = value := by
  have hsome : v.slots.get? slot = some (v.slots.rows[slot.row]) := Array.getElem?_eq_getElem h
  simp [read, write, Table.set, hsome]

theorem read_write_of_ne (v : Variables) {slot slot' : Id .slot} (h : slot ≠ slot')
    (value : Value) : (v.write slot value).read slot' = v.read slot' := by
  simp only [read, write, Table.set]
  rw [Table.get?_modify_of_ne _ h]

theorem read_assign_self (v : Variables) {slot : Id .slot} (h : slot.row < v.slots.size)
    (value : Value) : (v.assign slot value).read slot = (v.read slot).overwrite value := by
  have hsome : v.slots.get? slot = some (v.slots.rows[slot.row]) := Array.getElem?_eq_getElem h
  simp [read, assign, hsome]

theorem read_assign_of_ne (v : Variables) {slot slot' : Id .slot} (h : slot ≠ slot')
    (value : Value) : (v.assign slot value).read slot' = v.read slot' := by
  simp only [read, assign]
  rw [Table.get?_modify_of_ne _ h]

/-- What was in a slot before is gone. -/
theorem write_write (v : Variables) (slot : Id .slot) (a b : Value) :
    (v.write slot a).write slot b = v.write slot b :=
  congrArg (Variables.mk · v.scopes) (Table.modify_modify ..)

/-- Putting back what a slot holds changes nothing. -/
theorem write_read (v : Variables) (slot : Id .slot) : v.write slot (v.read slot) = v := by
  refine congrArg (Variables.mk · v.scopes) (Eq.trans ?_ (v.slots.modify_self slot))
  exact Table.modify_congr fun a ha => by rw [read, ha, Option.getD_some]

/-- Copying a value into a slot puts there what the copy comes to. -/
theorem assign_eq_write (v : Variables) (slot : Id .slot) (value : Value) :
    v.assign slot value = v.write slot ((v.read slot).overwrite value) :=
  congrArg (Variables.mk · v.scopes) <| Table.modify_congr fun a ha => by
    rw [read, ha, Option.getD_some]

end Variables

end Dataflow
