import Dataflow.Proofs.Sealing
import Dataflow.Proofs.TypeSafety
/-!
# Bindings hold while they last

A stage that binds its input object puts it into a slot of the run's scope, runs its wire and gives
the slot back, whether the wire has finished, is suspended or has failed. In between, stages of any
depth run in the same scope, and some bind the same name again. If the wire is airtight, none of
them writes the name, so the slot holds the object whenever one of them is activated, except inside
a stage that binds the name again, and the check at the end always finds the object in place.
-/

namespace Dataflow

variable {H : Host} {v : Variables} {s s' : Store H} {depth position : Nat} {input : Value}
  {α : Type} {source : BufferSource}

/-! ### Variables that stay -/

/-- The variables of some names hold the same values. -/
def Untouched (own : String → Option (Id .slot)) (names : Set String) (v v' : Variables) : Prop :=
  ∀ x ∈ names, ∀ slot, own x = some slot → v'.read slot = v.read slot

namespace Untouched

variable {own : String → Option (Id .slot)} {names : Set String} {v₁ v₂ : Variables}

theorem refl (v : Variables) : Untouched own names v v := fun _ _ _ _ => rfl

theorem of_eq (h : v₁ = v) : Untouched own names v v₁ := fun _ _ _ _ => by rw [h]

theorem trans (h : Untouched own names v v₁) (h' : Untouched own names v₁ v₂) : Untouched own names v v₂ :=
  fun x hx slot hslot => (h' x hx slot hslot).trans (h x hx slot hslot)

/-- A slot of another variable is assigned to. -/
theorem assign {slot : Id .slot} (h : ∀ x ∈ names, own x ≠ some slot) (v : Variables)
    (value : Value) : Untouched own names v (v.assign slot value) := by
  intro x hx slot' hslot'
  refine v.read_assign_of_ne ?_ value
  rintro rfl
  exact h x hx hslot'

end Untouched

/-- The slot of a stage belongs to no other variable of the run, and to its own variable if the
stage binds it. -/
def Stage.Seated (own : String → Option (Id .slot)) (plan : Stage H) (slot? : Option (Id .slot)) :
    Prop :=
  ∀ x, plan.uses? = some x → ∃ slot, slot? = some slot ∧ (∀ y, own y = some slot → y = x) ∧
    (plan.binds? = some x → own x = some slot)

/-- The stages below a wire are built in and linked to slots of their own. -/
structure Fitted (own : String → Option (Id .slot)) (code : Code H) (i : Id .wire) (s : Store H) :
    Prop where
  same : s.code = code
  slots : Allotted own s.vars
  seated : ∀ j, code.Below i j → ∀ n st, s.stageAt? j n = some st →
    ∃ plan, st.plan? = some plan ∧ plan.Seated own st.slot?

namespace Fitted

variable {own : String → Option (Id .slot)} {code : Code H} {i j : Id .wire}

theorem of_steady (h : Fitted own code i s) {T : Set (Id .wire)} (hs : Steady T s s') :
    Fitted own code i s' := by
  refine ⟨hs.code.trans h.same, h.slots.mono hs.slots, fun j hj n st' hst' => ?_⟩
  obtain ⟨st, hst, hplan, hslot⟩ := hs.stageAt? hst'
  rw [hplan, hslot]
  exact h.seated j hj n st hst

theorem of_same (h : Fitted own code i s) (hwires : s'.wires = s.wires)
    (hvars : s'.vars = s.vars) : Fitted own code i s' := by
  refine ⟨?_, hvars ▸ h.slots, fun j hj n st hst => h.seated j hj n st ?_⟩
  · rw [← h.same]
    funext j
    rw [Store.code, Store.code, hwires]
  · rw [Store.stageAt?_eq, ← hwires, ← Store.stageAt?_eq, hst]

theorem child (h : Fitted own code i s) (hj : code.Child i j) : Fitted own code j s :=
  ⟨h.same, h.slots, fun l hl => h.seated l (.head hj hl)⟩

/-- What is known of the stage at a position. -/
theorem placed (h : Fitted own code i s) {p : Placed H} (hp : s.placedAt? i position = some p) :
    p.stage.isBuiltIn = true ∧ p.stage.Seated own p.stage.slot? ∧
      ∃ plans, code i = some plans ∧ some p.stage.bare ∈ plans := by
  have hst : s.stageAt? i position = some p.stage := by
    rw [Store.stageAt?_eq]
    unfold Store.placedAt? at hp
    cases hw : s.wires.get? i with
    | none => simp [hw] at hp
    | some w =>
      simp only [hw, Option.bind_eq_bind, Option.bind_some] at hp ⊢
      rw [hp, Option.map_some]
  obtain ⟨plan, hplan, hseated⟩ := h.seated i .refl position p.stage hst
  obtain ⟨hbuilt, rfl⟩ := Stage.plan?_eq_some_iff.1 hplan
  obtain ⟨plans, hplans, hget⟩ := Store.plannedAt_of_stageAt? hst
  refine ⟨hbuilt, fun x hx => ?_, plans, h.same ▸ hplans, ?_⟩
  · simpa using hseated x (by simpa using hx)
  · rw [← hplan]
    exact List.mem_of_getElem? hget

end Fitted

/-! ### What an activation does to variables -/

/-- The object that a stage holds in the slot of its variable while its wire runs. -/
structure Hold where
  name : String
  slot : Id .slot
  object : ObjectRef

namespace Stage

/-- What a stage holds with an input. -/
def hold? (stage : Stage H) (input : Value) : Option Hold :=
  match stage, input with
  | bound x _ (some slot), .object object => some ⟨x, slot, object⟩
  | _, _ => none

theorem isObject_self (object : ObjectRef) : (Value.object object).isObject object = true := by
  simp [Value.isObject, ObjectRef.is]

/-- What the wire of a stage leaves alone, the stage leaves alone. -/
theorem untouched_unbind {own : String → Option (Id .slot)} {names : Set String} {stage : Stage H}
    (h : Untouched own names (stage.bindIn input s).vars s'.vars)
    (hvalid : ∀ slot, stage.slot? = some slot → slot.row < s'.vars.slots.size) :
    Untouched own names s.vars (stage.unbind s s').vars := by
  intro y hy slot' hslot'
  have hy := h y hy slot' hslot'
  cases stage with
  | bound x sub slot =>
    cases slot with
    | none => exact hy
    | some slot =>
      change (s'.vars.write slot (s.vars.read slot)).read slot' = s.vars.read slot'
      by_cases hslot : slot = slot'
      · subst hslot
        rw [Variables.read_write_self _ (hvalid slot rfl)]
      · rw [Variables.read_write_of_ne _ hslot, hy]
        exact Variables.read_write_of_ne _ hslot input
  | _ => exact hy

/-- A stage that binds a variable gives its slot back. -/
theorem read_unbind (x : String) (sub : Nested) (s : Store H) {slot : Id .slot}
    (hvalid : slot.row < s'.vars.slots.size) :
    ((bound x sub (some slot) : Stage H).unbind s s').vars.read slot = s.vars.read slot :=
  s'.vars.read_write_self hvalid _

/-- The slot of a stage that runs a wire is there. -/
theorem Seated.valid {own : String → Option (Id .slot)} {stage : Stage H}
    (h : stage.Seated own stage.slot?) (hnest : stage.isNesting = true) (hslots : Allotted own v)
    {slot : Id .slot} (hslot : stage.slot? = some slot) :
    slot.row < v.slots.size := by
  cases stage with
  | bound x sub slot' =>
    obtain ⟨slot'', hslot'', -, hown⟩ := h x rfl
    obtain rfl := Option.some.inj (hslot''.symm.trans hslot)
    exact hslots.valid x slot'' (hown rfl)
  | inline sub => cases hslot
  | _ => cases hnest

end Stage

namespace Store

@[simp] theorem vars_record (s : Store H) (collector : Option (Id .collector)) (t : Trace) :
    (s.record collector t).vars = s.vars := by
  cases collector <;> rfl

theorem vars_activateAt (s : Store H) (resume : Id .wire → Exec H Progress) (id : Id .wire)
    (wire : Wire H) (position : Nat) (stage : Stage H) :
    (s.eval (activateAt resume id wire position stage)).2.vars =
      ((stage.activate resume wire wire.current).run s).2.vars := by
  rw [eval_activateAt]
  rcases (stage.activate resume wire wire.current).run s with ⟨step, s₁⟩
  dsimp only
  split
  · rfl
  · exact vars_record ..

theorem vars_takenUp (s : Store H) (id : Id .wire) (wire : Wire H) :
    (s.takenUp id wire).vars = s.vars := by
  unfold takenUp
  split <;> rfl

theorem vars_requestStop (s : Store H) (id : Id .wire) : (s.requestStop id).vars = s.vars := by
  unfold requestStop
  split <;> rfl

/-! ### Wires that spare names -/

section Untouched

variable {own : String → Option (Id .slot)} {code : Code H} {names : Set String} {i : Id .wire}
  (hn : ∀ j, code.Child i j → ∀ s : Store H, Fitted own code j s →
    Untouched own names s.vars (s.eval (resumeWithin depth j)).2.vars)

include hn

/-- A stage of a wire leaves the variables alone that the wire spares. -/
theorem untouched_activateAt (hspares : code.Spares i names) (hfit : Fitted own code i s)
    (wire : Wire H) {placed : Placed H} (hp : s.placedAt? i position = some placed) :
    Untouched own names s.vars
      (s.eval (activateAt (resumeWithin depth) i wire position placed.stage)).2.vars := by
  obtain ⟨hbuilt, hseated, plans, hplans, hmem⟩ := hfit.placed hp
  rw [vars_activateAt]
  cases hnest : placed.stage.isNesting with
  | false =>
    rcases (Stage.acts_activate hnest (resumeWithin depth) wire wire.current s).store with
      ⟨heap, exchange, hstore⟩ | ⟨x, ty, slot, hst, hstore⟩ | ⟨u, hst, -⟩
    · exact .of_eq (by rw [hstore])
    · have hwrites : placed.stage.writes? = some x := by rcases hst with hst | hst <;> rw [hst] <;> rfl
      obtain ⟨slot', hslot', hown, -⟩ := hseated x (by rcases hst with hst | hst <;> rw [hst] <;> rfl)
      obtain rfl : slot' = slot := by rcases hst with hst | hst <;> rw [hst] at hslot' <;> cases hslot' <;> rfl
      rw [hstore]
      refine .assign (fun y hy hy' => ?_) _ _
      refine hspares i .refl plans hplans _ hmem x (by simpa using hwrites) ?_
      exact hown y hy' ▸ hy
    · rw [hst] at hbuilt
      cases hbuilt
  | true =>
    cases henters : placed.stage.enters? wire.current with
    | none =>
      obtain ⟨-, hstore, -⟩ := Stage.activate_blocked hnest henters (resumeWithin depth) wire s
      rcases hstore with hstore | hstore <;> rw [hstore]
      · exact .refl _
      · refine Stage.untouched_unbind (.refl _) fun slot hslot => ?_
        exact hseated.valid hnest (hfit.of_steady (T := ∅) (Stage.steady_bindIn ..)).slots hslot
    | some j =>
      obtain ⟨hstore, -, -⟩ := Stage.activate_enters henters (resumeWithin depth) wire s
      have hchild : code.Child i j :=
        hfit.same ▸ child_of_placedAt? hp (Stage.nested?_of_enters? henters)
      have henter : Steady Set.univ s (placed.stage.entered wire.current s j) :=
        Stage.steady_entered (Set.mem_univ j) placed.stage wire.current s
      have hfit' := (hfit.of_steady henter).child hchild
      have hinner := hn j hchild _ hfit'
      rw [Stage.vars_entered] at hinner
      rw [hstore]
      refine Stage.untouched_unbind hinner fun slot hslot => ?_
      have hsteady := steady_resumeWithin depth j (placed.stage.entered wire.current s j)
      exact hseated.valid hnest ((hfit.of_steady henter).of_steady hsteady).slots hslot

theorem untouched_advance (hspares : code.Spares i names) (position remaining : Nat)
    (hfit : Fitted own code i s) :
    Untouched own names s.vars
      (s.eval (advance (resumeWithin depth) i position remaining)).2.vars := by
  have hrides : Rides (fun s' => Fitted own code i s' ∧ Untouched own names s.vars s'.vars) i := by
    refine ⟨fun hs hf => ⟨hs.1.of_steady (T := Set.univ) ?_, hs.2⟩, fun position point hs =>
      ⟨hs.1.of_steady (steady_suspended (Set.mem_univ i) _ position point), ?_⟩⟩
    · exact .modifyWire (Set.mem_univ i) fun w _ => (congrArg Wire.frame (hf w) :)
    · rw [vars_suspended]
      exact hs.2
  refine (hrides.advance (fun hs hw hp => ?_) position remaining ⟨hfit, .refl _⟩).2
  exact ⟨hs.1.of_steady (steady_activateAt_resumeWithin depth hw hp),
    hs.2.trans (untouched_activateAt hn hspares hs.1 _ hp)⟩

end Untouched

/-- Resuming a wire leaves the variables alone that it spares. -/
theorem untouched_resumeWithin {own : String → Option (Id .slot)} {code : Code H}
    {names : Set String} (depth : Nat) {i : Id .wire} (hspares : code.Spares i names)
    (hfit : Fitted own code i s) :
    Untouched own names s.vars (s.eval (resumeWithin depth i)).2.vars := by
  induction depth generalizing i s with
  | zero => exact .refl _
  | succ depth ih =>
    refine resumeWithin_induction (P := fun s' => Untouched own names s.vars s'.vars) (.refl _)
      fun wire position _ _ => ?_
    rw [← vars_takenUp s i wire]
    refine untouched_advance (fun j hj s' hfit' => ih (hspares.below (.single hj)) hfit') hspares
      position _ (hfit.of_steady (steady_takenUp (Set.mem_univ i) s wire))

end Store

/-! ### What is held around activations -/

/-- An activation with the objects that are held around it, innermost first, and the variables before
and after it. -/
structure Sighting (H : Host) where
  held : List Hold
  stage : Stage H
  input : Value
  before : Variables
  after : Variables

/-- The object that is held for a name: the innermost one counts. -/
def Hold.find? (held : List Hold) (x : String) : Option Hold := held.find? (·.name == x)

/-- All objects that are held around an activation are there when it begins, and a stage that binds a
variable leaves what it found. -/
structure Sighting.Faithful (e : Sighting H) : Prop where
  holds : ∀ x h, Hold.find? e.held x = some h → e.before.read h.slot = .object h.object
  restores : ∀ x sub slot, e.stage = .bound x sub (some slot) →
    e.after.read slot = e.before.read slot

/-- A resumption did not find a binding broken. -/
def Unbroken {α : Type} (r : Except Halt α) : Prop :=
  ∀ v, r = .error (.violation v) → v.invariant ≠ .scopedBinding

instance {α : Type} (r : Except Halt α) : Decidable (Unbroken r) :=
  match r with
  | .error (.violation v) => decidable_of_iff (v.invariant ≠ .scopedBinding)
      ⟨fun h v' hv' => by cases hv'; exact h, fun h => h v rfl⟩
  | .error .stuck | .error .exhausted | .ok _ => .isTrue fun v hv => by cases hv

/-- The activations of the wire that a stage enters. -/
def Stage.innerSightings (nested : List Hold → Id .wire → Store H → List (Sighting H))
    (held : List Hold) (stage : Stage H) (input : Value) (s : Store H) : List (Sighting H) :=
  match stage.enters? input with
  | some j => nested ((stage.hold? input).toList ++ held) j (stage.entered input s j)
  | none => []

namespace Store

/-- The activations of the last `remaining` stages of a wire, from a position on. -/
def advanceSightings (resume : Id .wire → Exec H Progress)
    (nested : List Hold → Id .wire → Store H → List (Sighting H)) (held : List Hold)
    (id : Id .wire) : (position remaining : Nat) → Store H → List (Sighting H)
  | _, 0, _ => []
  | position, remaining + 1, s =>
    match s.wires.get? id, s.placedAt? id position with
    | some wire, some placed =>
      if s.stopping wire then []
      else
        let (answer, s') := s.eval (activateAt resume id wire position placed.stage)
        ⟨held, placed.stage, wire.current, s.vars, s'.vars⟩ ::
          placed.stage.innerSightings nested held wire.current s ++
          match answer with
          | .ok (.ok (.proceed output)) =>
            advanceSightings resume nested held id (position + 1) remaining
              (s'.modifyWire id fun w => { w with current := output })
          | _ => []
    | _, _ => []

/-- The activations of resuming a wire, nested at most so deep. -/
def resumeSightings : Nat → List Hold → Id .wire → Store H → List (Sighting H)
  | 0, _, _, _ => []
  | depth + 1, held, id, s =>
    match s.wires.get? id with
    | none => []
    | some wire =>
      match wire.cursor.position? with
      | none => []
      | some position =>
        advanceSightings (resumeWithin depth) (resumeSightings depth) held id position
          (wire.stages.length - position) (s.takenUp id wire)

/-- The activations of a started wire that is taken through turns. -/
def turnsSightings (id : Id .wire) : List Turn → Store H → List (Sighting H)
  | [], _ => []
  | .requestStop j :: rest, s => turnsSightings id rest (s.requestStop j)
  | .resume :: rest, s =>
    resumeSightings s.depthBound [] id s ++ turnsSightings id rest (s.eval (resume id)).2

end Store

/-! ### Airtight wires -/

theorem Unbroken.ok (a : α) : Unbroken (.ok a : Except Halt α) := by
  intro v h
  cases h

theorem Pool.unbroken_lease {pool pool' : Pool α} {index : Nat} {v : Violation}
    (h : pool.lease index = (.error v, pool')) : v.invariant ≠ .scopedBinding := by
  unfold lease at h
  split at h
  · split at h <;> cases h
    simp
  · cases h
    simp

namespace BufferSource

theorem unbroken_releaseUnheld {held : ObjectId → Bool} {leased : List PoolHandle} {v : Violation}
    (h : releaseUnheld held leased source = .error v) :
    v.invariant ≠ .scopedBinding := by
  induction leased generalizing source with
  | nil => cases h
  | cons handle rest ih =>
    unfold releaseUnheld at h
    split at h
    · cases hrest : releaseUnheld held rest source with
      | error v' =>
        simp only [hrest, bind, Except.bind, Except.error.injEq] at h
        subst h
        exact ih hrest
      | ok source' => simp [hrest, bind, Except.bind, pure, Except.pure] at h
    · cases hpool : source.pool.release handle with
      | error v' =>
        simp only [hpool, bind, Except.bind, Except.error.injEq] at h
        subst h
        unfold Pool.release at hpool
        split at hpool
        · split at hpool <;> cases hpool
          simp
        · cases hpool
          simp
      | ok pool =>
        simp only [hpool, bind, Except.bind] at h
        exact ih h

theorem unbroken_reclaim {held : ObjectId → Bool} {v : Violation}
    (h : source.reclaim held = .error v) : v.invariant ≠ .scopedBinding := by
  unfold reclaim at h
  cases hrelease : releaseUnheld held source.leased source with
  | error v' =>
    simp only [hrelease, bind, Except.bind, Except.error.injEq] at h
    exact h ▸ unbroken_releaseUnheld hrelease
  | ok source' => simp [hrelease, bind, Except.bind, pure, Except.pure] at h

theorem unbroken_next {held : ObjectId → Bool} {heap : Heap} {v : Violation}
    (h : source.next held heap = .error v) : v.invariant ≠ .scopedBinding := by
  unfold next at h
  cases hreclaim : source.reclaim held with
  | error v' =>
    simp only [hreclaim, bind, Except.bind, Except.error.injEq] at h
    exact h ▸ unbroken_reclaim hreclaim
  | ok source' =>
    simp only [hreclaim, bind, Except.bind] at h
    split at h
    · rename_i v' pool hacquire
      cases h
      unfold Pool.acquire at hacquire
      split at hacquire <;> exact Pool.unbroken_lease hacquire
    · cases h

end BufferSource

/-- The objects that are held stand in the slots of their variables, and the wire spares these. -/
def Borne (own : String → Option (Id .slot)) (code : Code H) (i : Id .wire) (held : List Hold)
    (v : Variables) : Prop :=
  ∀ x h, Hold.find? held x = some h →
    own x = some h.slot ∧ v.read h.slot = .object h.object ∧ code.Spares i {x}

namespace Borne

variable {own : String → Option (Id .slot)} {code : Code H} {i j : Id .wire} {held : List Hold}
  {v' : Variables}

theorem of_untouched (h : Borne own code i held v)
    (hsame : ∀ x, code.Spares i {x} → Untouched own {x} v v') : Borne own code i held v' := by
  intro x hold hhold
  obtain ⟨hown, hread, hspares⟩ := h x hold hhold
  exact ⟨hown, (hsame x hspares x rfl _ hown).trans hread, hspares⟩

/-- A wire that a stage enters is entered with what the stage holds. -/
theorem enter (h : Borne own code i held s.vars) (hairtight : code.Airtight i)
    (hchild : code.Child i j) {stage : Stage H} (henters : stage.enters? input = some j)
    (hseated : stage.Seated own stage.slot?)
    (hmem : ∃ plans, code i = some plans ∧ some stage.bare ∈ plans) (hslots : Allotted own s.vars) :
    Borne own code j ((stage.hold? input).toList ++ held) (stage.bindIn input s).vars := by
  have hbelow : ∀ x, code.Spares i {x} → code.Spares j {x} := fun x hx => hx.below (.single hchild)
  cases stage with
  | inline sub =>
    intro x hold hhold
    obtain ⟨hown, hread, hspares⟩ := h x hold hhold
    exact ⟨hown, hread, hbelow x hspares⟩
  | bound x sub slot =>
    cases slot with
    | none => cases henters
    | some slot =>
      cases input with
      | object object =>
        obtain ⟨slot', hslot', -, hown⟩ := hseated x rfl
        obtain rfl : slot = slot' := Option.some.inj hslot'
        obtain ⟨plans, hplans, hst⟩ := hmem
        intro y hold hhold
        change List.find? _ (⟨x, slot, object⟩ :: held) = some hold at hhold
        change _ ∧ (s.vars.write slot (.object object)).read hold.slot = _ ∧ _
        by_cases hxy : x = y
        · subst hxy
          rw [List.find?_cons_of_pos (by simp)] at hhold
          cases hhold
          refine ⟨hown rfl, s.vars.read_write_self (hslots.valid x slot (hown rfl)) _, ?_⟩
          exact hairtight i .refl plans hplans x _ _ hst j henters
        · rw [List.find?_cons_of_neg (by simpa using hxy)] at hhold
          obtain ⟨hown', hread, hspares⟩ := h y hold hhold
          refine ⟨hown', ?_, hbelow y hspares⟩
          rw [s.vars.read_write_of_ne _ _, hread]
          rintro rfl
          exact hxy (hslots.inj x y _ (hown rfl) hown')
      | _ => cases henters
  | _ => cases henters

end Borne

namespace Store

theorem unbroken_activateAt {resume : Id .wire → Exec H Progress} {id : Id .wire} {wire : Wire H}
    {stage : Stage H} (h : Unbroken ((stage.activate resume wire wire.current).run s).1.answer) :
    Unbroken (s.eval (activateAt resume id wire position stage)).1 := by
  rw [eval_activateAt]
  rcases hrun : (stage.activate resume wire wire.current).run s with ⟨⟨stage', halt | answer⟩, s₁⟩
  · rw [hrun] at h
    exact fun v hv => h v (by cases hv; rfl)
  · exact .ok _

section Faithful

variable {own : String → Option (Id .slot)} {code : Code H} {i : Id .wire} {held : List Hold}

/-- What one activation keeps: a binding is given back, and found unbroken unless one inside it is
broken. -/
theorem faithful_activateAt (hairtight : code.Airtight i) (hfit : Fitted own code i s)
    (hborne : Borne own code i held s.vars) (wire : Wire H) {placed : Placed H}
    (hp : s.placedAt? i position = some placed)
    (hinner : ∀ j, placed.stage.enters? wire.current = some j →
      Unbroken ((placed.stage.entered wire.current s j).eval (resumeWithin depth j)).1) :
    let r := s.eval (activateAt (resumeWithin depth) i wire position placed.stage)
    Sighting.Faithful ⟨held, placed.stage, wire.current, s.vars, r.2.vars⟩ ∧ Unbroken r.1 := by
  obtain ⟨hbuilt, hseated, hmem⟩ := hfit.placed hp
  have hholds : ∀ x h, Hold.find? held x = some h → s.vars.read h.slot = .object h.object :=
    fun x h hx => (hborne x h hx).2.1
  suffices h : (∀ x sub slot, placed.stage = .bound x sub (some slot) →
      ((placed.stage.activate (resumeWithin depth) wire wire.current).run s).2.vars.read slot =
        s.vars.read slot) ∧
      Unbroken ((placed.stage.activate (resumeWithin depth) wire wire.current).run s).1.answer by
    refine ⟨⟨hholds, fun x sub slot hst => ?_⟩, unbroken_activateAt h.2⟩
    rw [vars_activateAt]
    exact h.1 x sub slot hst
  cases hnest : placed.stage.isNesting with
  | false =>
    refine ⟨fun x sub slot hst => ?_, fun v hv => ?_⟩
    · rw [hst] at hnest
      cases hnest
    · obtain ⟨source, v', -, hnext, hv'⟩ := (Stage.acts_activate hnest _ _ _ _).halts _ hv
      cases hv'
      exact BufferSource.unbroken_next hnext
  | true =>
    cases henters : placed.stage.enters? wire.current with
    | none =>
      obtain ⟨-, hstore, hanswer⟩ := Stage.activate_blocked hnest henters (resumeWithin depth) wire s
      have hvalid : ∀ slot, placed.stage.slot? = some slot → slot.row < s.vars.slots.size :=
        fun slot hslot => hseated.valid hnest hfit.slots hslot
      refine ⟨fun x sub slot hst => ?_, ?_⟩
      · rcases hstore with hstore | hstore <;> rw [hstore]
        rw [hst] at hvalid ⊢
        exact Stage.read_unbind x sub s (by simpa [Stage.bindIn] using hvalid slot rfl)
      · rcases hanswer with ⟨e, hanswer⟩ | ⟨x, sub, slot, object, hst, hinput, hlost⟩
        · rw [hanswer]
          exact .ok _
        · rw [hst, hinput] at hlost
          rw [hst] at hvalid
          change ((s.vars.write slot (.object object)).read slot).isObject object = false at hlost
          rw [s.vars.read_write_self (hvalid slot rfl), Stage.isObject_self] at hlost
          cases hlost
    | some j =>
      obtain ⟨hstore, -, hanswer⟩ := Stage.activate_enters henters (resumeWithin depth) wire s
      have hchild : code.Child i j :=
        hfit.same ▸ child_of_placedAt? hp (Stage.nested?_of_enters? henters)
      have henter := hfit.of_steady
        (Stage.steady_entered (Set.mem_univ j) placed.stage wire.current s)
      have hafter := henter.of_steady
        (steady_resumeWithin depth j (placed.stage.entered wire.current s j))
      refine ⟨fun x sub slot hst => ?_, fun v hv => ?_⟩
      · have hslot : placed.stage.slot? = some slot := by rw [hst]; rfl
        have hvalid := hseated.valid hnest hafter.slots hslot
        rw [hstore]
        generalize ((placed.stage.entered wire.current s j).eval (resumeWithin depth j)).2 = s' at *
        rw [hst]
        exact Stage.read_unbind x sub s hvalid
      · rcases hanswer with ⟨halt, hhalt, hbroken | ⟨x, sub, slot, object, hst, hinput, hlost⟩⟩ | h
        · cases hv.symm.trans hhalt
          exact hinner j henters v hbroken
        -- The object cannot be lost, because the wire spares its variable.
        · have hborne' := hborne.enter hairtight hchild henters hseated hmem hfit.slots
          rw [show placed.stage.hold? wire.current = some ⟨x, slot, object⟩ by rw [hst, hinput]; rfl]
            at hborne'
          obtain ⟨hown, hread, hspares⟩ := hborne' x _ (List.find?_cons_of_pos (by simp))
          have huntouched := untouched_resumeWithin depth hspares (henter.child hchild)
          rw [Stage.vars_entered] at huntouched
          rw [huntouched x rfl slot hown, hread, Stage.isObject_self] at hlost
          cases hlost
        · exact absurd hv (h.2.answer_ne_error _)

/-- What the stages of an airtight wire keep, from a position on. -/
theorem faithful_advance
    (hn : ∀ j, code.Child i j → ∀ (held : List Hold) (s : Store H), code.Airtight j →
      Fitted own code j s → Borne own code j held s.vars →
        (∀ e ∈ resumeSightings depth held j s, e.Faithful) ∧
          Unbroken (s.eval (resumeWithin depth j)).1)
    (hairtight : code.Airtight i) (position remaining : Nat) (hfit : Fitted own code i s)
    (hborne : Borne own code i held s.vars) :
    (∀ e ∈ advanceSightings (resumeWithin depth) (resumeSightings depth) held i position remaining s,
      e.Faithful) ∧ Unbroken (s.eval (advance (resumeWithin depth) i position remaining)).1 := by
  have hcomplete : ∀ s : Store H, Unbroken (s.eval (completeIteration i)).1 := by
    intro s
    rw [eval_completeIteration]
    repeat' split
    all_goals exact .ok _
  induction remaining generalizing position s with
  | zero => exact ⟨by simp [advanceSightings], hcomplete s⟩
  | succ remaining ih =>
    rw [eval_advance_succ, advanceSightings]
    rcases hw : s.wires.get? i with _ | wire
    · exact ⟨by simp, hcomplete s⟩
    rcases hp : s.placedAt? i position with _ | placed
    · exact ⟨by simp, hcomplete s⟩
    dsimp only
    split
    · exact ⟨by simp, .ok _⟩
    -- The wire that the stage enters.
    have hinner : ∀ j, placed.stage.enters? wire.current = some j →
        (∀ e ∈ resumeSightings depth ((placed.stage.hold? wire.current).toList ++ held) j
          (placed.stage.entered wire.current s j), e.Faithful) ∧
        Unbroken ((placed.stage.entered wire.current s j).eval (resumeWithin depth j)).1 := by
      intro j henters
      obtain ⟨hbuilt, hseated, hmem⟩ := hfit.placed hp
      have hchild : code.Child i j :=
        hfit.same ▸ child_of_placedAt? hp (Stage.nested?_of_enters? henters)
      have henter := hfit.of_steady
        (Stage.steady_entered (Set.mem_univ j) placed.stage wire.current s)
      refine hn j hchild _ _ (hairtight.below (.single hchild)) (henter.child hchild) ?_
      rw [Stage.vars_entered]
      exact hborne.enter hairtight hchild henters hseated hmem hfit.slots
    obtain ⟨hhere, hunbroken⟩ := faithful_activateAt hairtight hfit hborne wire hp
      fun j hj => (hinner j hj).2
    have hsteady := steady_activateAt_resumeWithin depth hw hp
    have huntouched : ∀ x, code.Spares i {x} → Untouched own {x} s.vars
        (s.eval (activateAt (resumeWithin depth) i wire position placed.stage)).2.vars :=
      fun x hx => untouched_activateAt (fun j hj s' hfit' =>
        untouched_resumeWithin depth (hx.below (.single hj)) hfit') hx hfit wire hp
    have hentered : ∀ e ∈ placed.stage.innerSightings (resumeSightings depth) held wire.current s,
        e.Faithful := by
      unfold Stage.innerSightings
      split
      · exact (hinner _ ‹_›).1
      · simp
    rcases hrun : s.eval (activateAt (resumeWithin depth) i wire position placed.stage) with
      ⟨halt | e | activation, s'⟩ <;> rw [hrun] at hhere hunbroken hsteady huntouched
    · refine ⟨List.forall_mem_cons.2 ⟨hhere, by simpa using hentered⟩, fun v hv => ?_⟩
      exact hunbroken v (by cases hv; rfl)
    · exact ⟨List.forall_mem_cons.2 ⟨hhere, by simpa using hentered⟩, .ok _⟩
    · cases activation with
      | proceed output =>
        have hnext : Steady Set.univ s' (s'.modifyWire i fun w => { w with current := output }) :=
          .modifyWire (Set.mem_univ i) (by exact fun _ _ => rfl)
        obtain ⟨hrest, hunbroken'⟩ := ih (position + 1) ((hfit.of_steady hsteady).of_steady hnext)
          (hborne.of_untouched huntouched)
        refine ⟨List.forall_mem_cons.2 ⟨hhere, fun e he => ?_⟩, hunbroken'⟩
        exact (List.mem_append.1 he).elim (hentered e) (hrest e)
      | suspend point => exact ⟨List.forall_mem_cons.2 ⟨hhere, by simpa using hentered⟩, .ok _⟩
      | finish output =>
        exact ⟨List.forall_mem_cons.2 ⟨hhere, by simpa using hentered⟩, hcomplete _⟩
      | stop output => exact ⟨List.forall_mem_cons.2 ⟨hhere, by simpa using hentered⟩, .ok _⟩

/-- What one resumption of an airtight wire keeps. -/
theorem faithful_resumeWithin (depth : Nat) (hairtight : code.Airtight i)
    (hfit : Fitted own code i s) (hborne : Borne own code i held s.vars) :
    (∀ e ∈ resumeSightings depth held i s, e.Faithful) ∧
      Unbroken (s.eval (resumeWithin depth i)).1 := by
  induction depth generalizing i held s with
  | zero =>
    refine ⟨by simp [resumeSightings], fun v hv => ?_⟩
    cases hv
  | succ depth ih =>
    rw [resumeSightings]
    rcases hw : s.wires.get? i with _ | wire
    · refine ⟨by simp, ?_⟩
      rw [resumeWithin]
      simp only [eval_bind, eval_get, hw, eval_pure]
      exact .ok _
    rcases hp : wire.cursor.position? with _ | position
    · refine ⟨by simp [hp], ?_⟩
      rw [resumeWithin]
      simp only [eval_bind, eval_get, hw, eval_takeUp, hp]
      intro v hv
      cases hv
      simp
    rw [eval_resumeWithin_succ s depth hw hp]
    simp only [hp]
    refine faithful_advance (fun j hj held' s' hairtight' hfit' hborne' =>
      ih hairtight' hfit' hborne') hairtight position _
      (hfit.of_steady (steady_takenUp (Set.mem_univ i) s wire)) ?_
    rw [vars_takenUp]
    exact hborne

/-- What any turns of an airtight wire keep. -/
theorem faithful_turns (hairtight : code.Airtight i) (hfit : Fitted own code i s)
    (turns : List Turn) :
    (∀ e ∈ turnsSightings i turns s, e.Faithful) ∧
      Unbroken ((turns.foldl (attend i) s).eval (resume i)).1 := by
  have hnone : ∀ s : Store H, Borne own code i [] s.vars := by
    intro s x h hx
    cases hx
  induction turns generalizing s with
  | nil =>
    refine ⟨by simp [turnsSightings], ?_⟩
    rw [List.foldl_nil, eval_resume]
    exact (faithful_resumeWithin _ hairtight hfit (hnone s)).2
  | cons turn rest ih =>
    rw [List.foldl_cons]
    cases turn with
    | resume =>
      obtain ⟨hhere, -⟩ := faithful_resumeWithin s.depthBound hairtight hfit (hnone s)
      obtain ⟨hrest, hunbroken⟩ := ih (hfit.of_steady (s.steady_resume i))
      refine ⟨fun e he => ?_, hunbroken⟩
      rw [turnsSightings] at he
      exact (List.mem_append.1 he).elim (hhere e) (hrest e)
    | requestStop j => exact ih (hfit.of_same (s.wires_requestStop j) (s.vars_requestStop j))

end Faithful

/-- After a warm-up in a new scope, all stages of a tree are linked to slots of their own. -/
theorem fitted_of_settles {code : Code H} {i : Id .wire} {σ : Id .scope}
    (hclosed : code.Closed (·.isBuiltIn = true) {j | code.Below i j}) (hcode : s.code = code)
    (hheight : code.Height depth i) (h : Settles σ s s' (code.visits depth i))
    (hnew : ∀ x, s.vars.own σ x = none)
    (houter : ∀ x slot, s.vars.outer σ x = some slot → slot.row < s.vars.slots.size) :
    Fitted (s'.vars.own σ) code i s' := by
  refine ⟨h.code.trans hcode, ⟨h.vars.ready.valid, h.vars.ready.inj⟩, fun j hj n st hst => ?_⟩
  obtain ⟨hbuilt, -, declared, hdeclares, hlinked⟩ :=
    stage_of_settles hclosed hcode hheight h hj hst
  refine ⟨st.bare, Stage.plan?_eq_some_iff.2 ⟨hbuilt, rfl⟩, fun x hx => ?_⟩
  rw [Stage.uses?_bare] at hx
  obtain ⟨slot, hslot, hmeans⟩ := hlinked x hx
  refine ⟨slot, hslot, ?_⟩
  split at hmeans
  · exact ⟨fun y hy => h.vars.ready.inj y x slot hy hmeans, fun _ => hmeans⟩
  · rename_i hundeclared
    refine ⟨fun y hy => ?_, fun hbinds => absurd (.inr (hdeclares ?_)) hundeclared⟩
    -- The slot was there before, so no variable of the scope has it.
    · have hold := houter x slot hmeans
      rcases h.vars.fresh y slot hy with hy | hrow
      · rw [hnew] at hy
        cases hy
      · omega
    · rw [Stage.binds?_bare] at hbinds
      cases st <;> cases hbinds
      exact List.mem_singleton_self _

/-! ### Ending a run -/

theorem unbroken_cleanupStage {endNested : Id .wire → Exec H PUnit}
    (hn : ∀ (j : Id .wire) (s : Store H), Unbroken (s.eval (endNested j)).1) (keep : Value)
    (stage : Stage H) (s : Store H) : Unbroken (s.eval (stage.cleanup endNested keep)).1 := by
  cases stage with
  | buffer source =>
    simp only [Stage.cleanup, eval_bind, eval_getThe]
    split
    · exact .ok _
    · rename_i v hreclaim
      intro v' hv'
      cases hv'
      exact BufferSource.unbroken_reclaim hreclaim
  | inline sub | bound x sub slot =>
    obtain ⟨_ | j, running⟩ := sub
    · exact .ok _
    · simp only [Stage.cleanup, eval_bind]
      have hj := hn j s
      rcases hend : s.eval (endNested j) with ⟨halt | _, s'⟩ <;> rw [hend] at hj
      · exact fun v hv => hj v (by cases hv; rfl)
      · exact .ok _
  | consume r queue | listen r queue =>
    simp only [Stage.cleanup, eval_modifyGetThe]
    exact .ok _
  | _ => exact .ok _

theorem unbroken_cleanupBelow {endNested : Id .wire → Exec H PUnit}
    (hn : ∀ (j : Id .wire) (s : Store H), Unbroken (s.eval (endNested j)).1) (keep : Value)
    (id : Id .wire) (position : Nat) (s : Store H) :
    Unbroken (s.eval (cleanupBelow endNested keep id position)).1 := by
  induction position generalizing s with
  | zero => exact .ok _
  | succ position ih =>
    rw [eval_cleanupBelow_succ]
    split
    · exact ih s
    · rename_i placed _
      split
      · split
        · have hstage := unbroken_cleanupStage hn keep placed.stage (s.unmark id position)
          rcases hend : (s.unmark id position).eval (placed.stage.cleanup endNested keep) with
            ⟨halt | stage, s'⟩ <;> rw [hend] at hstage
          · exact fun v hv => hstage v (by cases hv; rfl)
          · exact ih _
        · exact ih _
      · exact ih s

theorem unbroken_cleanupWithin (depth : Nat) (keep : Value) (id : Id .wire) (s : Store H) :
    Unbroken (s.eval (cleanupWithin depth keep id)).1 := by
  induction depth generalizing id s with
  | zero =>
    intro v hv
    cases hv
  | succ depth ih =>
    rw [eval_cleanupWithin_succ]
    split
    · exact .ok _
    · refine unbroken_cleanupBelow (fun j s' => ?_) keep id _ s
      rw [eval_endNested]
      have hj := ih j s'
      rcases hend : s'.eval (cleanupWithin depth keep j) with ⟨halt | _, s''⟩ <;> rw [hend] at hj
      · exact fun v hv => hj v (by cases hv; rfl)
      · exact .ok _

/-- However a run is ended, no binding is found broken. -/
theorem unbroken_ending (id : Id .wire) (ending : Ending) (s : Store H) :
    Unbroken (s.eval (ending.exec id)).1 := by
  have hend : ∀ (outcome : Outcome) (s : Store H), Unbroken (s.eval (endRun id outcome)).1 := by
    intro outcome s
    have hcleanup := unbroken_cleanupWithin s.depthBound outcome.output id s
    simp only [endRun, eval_bind, eval_cleanup]
    rcases hrun : s.eval (cleanupWithin s.depthBound outcome.output id) with ⟨halt | _, s'⟩ <;>
      rw [hrun] at hcleanup
    · exact fun v hv => hcleanup v (by cases hv; rfl)
    · exact .ok _
  cases ending with
  | endRun outcome => exact hend outcome s
  | abandon =>
    change Unbroken (s.eval (abandon id)).1
    simp only [abandon, eval_bind, eval_get, eval_modify]
    exact hend _ _

end Store

/-! ### Runs of composed wires -/

namespace Variables

/-- Every variable has a slot. -/
def Backed (v : Variables) : Prop :=
  ∀ scope ∈ v.scopes.rows.toList, ∀ e ∈ scope.entries, e.2.slot.row < v.slots.size

instance (v : Variables) : Decidable v.Backed :=
  inferInstanceAs (Decidable (∀ scope ∈ v.scopes.rows.toList, ∀ e ∈ scope.entries, _))

theorem exists_scope_of_mem_ancestry {n : Nat} {σ : Id .scope} {scope : Scope}
    (h : scope ∈ v.ancestry n σ) : ∃ τ, scope = v.scope τ := by
  induction n generalizing σ with
  | zero => cases h
  | succ n ih =>
    rw [ancestry] at h
    rcases List.mem_cons.1 h with rfl | h
    · exact ⟨σ, rfl⟩
    · split at h
      · exact ih h
      · cases h

/-- The slot that a name means is there. -/
theorem Backed.valid (h : v.Backed) (hv : v.WellFormed) {σ : Id .scope} {x : String}
    {slot : Id .slot} (hx : v.find? σ x = some slot) : slot.row < v.slots.size := by
  obtain ⟨b, hb, rfl⟩ := Option.map_eq_some_iff.1 hx
  obtain ⟨scope, hscope, hlookup⟩ := List.exists_of_findSome?_eq_some hb
  obtain ⟨τ, rfl⟩ := exists_scope_of_mem_ancestry hscope
  have hmem := (lookup?_eq_some_iff (hv.names τ)).1 hlookup
  unfold Variables.scope at hmem
  cases hget : v.scopes.get? τ with
  | none =>
    rw [hget] at hmem
    cases hmem
  | some scope =>
    rw [hget] at hmem
    exact h scope (Array.mem_toList_iff.2 (Array.mem_of_getElem? hget)) _ hmem

end Variables

namespace Store

/-- When a tree of built-in stages has been composed with a guarded list of variables, after
compositions with guarded lists, all bindings hold in every run of it, whatever variables the parent
of the run shows and however the run is resumed, stopped and ended. Whenever a stage is activated,
the object that each stage around it has bound stands in the slot of its variable, except where a
stage in between has bound the variable again; and a stage that binds a variable leaves in its slot
what it found there. No resumption finds a binding broken. -/
theorem bindings_airtight {T : Set (Id .wire)} {L : List Request} {s s₁ s₂ : Store H}
    (hcareful : Careful T L s) (hclosed : s.code.Closed (·.isBuiltIn = true) T) {owned : Bool}
    {id : Id .wire} (hid : id ∈ T) {site : Site} (hsite : VarDecl.Guarded site.shared)
    (hL : NoCollision (L ++ requestsAs owned id site s)) {signature : Signature}
    (hcompose : s.eval (composeAs owned id site) = (.ok signature, s₁)) {parent : Option (Id .scope)}
    (hv : s.vars.WellFormed) (hbacked : s.vars.Backed)
    (hparent : ∀ P, parent = some P → P.row < s.vars.scopes.size) {input : Value} {board : Id .board}
    (hbegin : s₁.eval (beginRun id input parent board) = (.ok (.ok ()), s₂)) (turns : List Turn) :
    (∀ e ∈ turnsSightings id turns s₂, e.Faithful) ∧
      Unbroken ((turns.foldl (attend id) s₂).eval (resume id)).1 ∧
      ∀ ending : Ending, Unbroken ((turns.foldl (attend id) s₂).eval (ending.exec id)).1 := by
  have hairtight := airtight_of_composed hcareful hclosed hid hsite hL hcompose
  have hstill := still_composeAs s owned id site
  have hkeeps := code_composeAs s owned id site
  rw [hcompose] at hstill hkeeps
  have hvars₁ : s₁.vars = s.vars := hstill.vars
  -- The run begins in a new scope, and what is around it has slots that were there before.
  obtain ⟨s₀, s', hcode, hvars, rfl, hheight, hsettles⟩ := settles_beginRun hclosed hid hkeeps
    (by rw [hvars₁]; exact hv.scoped_addScope hparent) hbegin
  rw [hvars₁] at hvars hsettles
  have hfit : Fitted (s'.vars.own (s.vars.addScope parent).1) s.code id s' := by
    refine fitted_of_settles (hclosed.of_below hid) hcode hheight hsettles (fun x => ?_)
      fun x slot hx => ?_
    · rw [hvars, Variables.own, Variables.scope_addScope]
      rfl
    · rw [hvars, Variables.outer, hv.around_addScope hparent] at hx
      rw [hvars]
      cases hP : parent with
      | none => simp [hP] at hx
      | some P =>
        rw [hP] at hx
        exact hbacked.valid hv hx
  obtain ⟨hfaithful, hunbroken⟩ := faithful_turns hairtight
    (hfit.of_steady (steady_start (Set.mem_univ id) s' input)) turns
  exact ⟨hfaithful, hunbroken, fun ending => unbroken_ending id ending _⟩

/-- A scope with a variable, and a wire that binds the variable to an object for a wire, which waits
and binds it to another object for a third wire, which reads it and waits. -/
def rebinding : Store Host.none :=
  let (P, vars) := ({} : Variables).addScope none
  let vars := (vars.insert P "x" (.int 5) false).2
  let (v, s) := ({ vars } : Store Host.none).addWire "inner" false
  let (u, s) := s.addWire "middle" false
  let (w, s) := s.addWire "outer" false
  let stages (stages : List (Stage Host.none)) (w : Wire Host.none) : Wire Host.none :=
    { w with stages := stages.map fun stage => { stage } }
  let wait : Stage Host.none := .pause .nothing false
  let s := s.modifyWire v (stages [.get "x" none, wait])
  let s := s.modifyWire u (stages
    [wait, .buffer { size := 4 }, .bound "x" { wire := some v } none, .get "x" none])
  s.modifyWire w (stages [.buffer { size := 8 }, .bound "x" { wire := some u } none])

theorem wellFormed_rebinding : rebinding.vars.WellFormed :=
  (((Variables.WellFormed.insert (Variables.wellFormed_empty.addScope (by simp)) ⟨0⟩ "x" (.int 5)
    false).addScope (by simp)).addScope (by simp)).addScope (by simp)

/-- The site that describes the scope. -/
def rebindingSite : Site := { plainSite .int with shared := rebinding.vars.visible ⟨0⟩ }

/-- Both bindings hold while the wires are suspended and taken up again: up to two objects are held
around an activation. -/
theorem rebinding_airtight :
    ∃ signature s₁ s₂, rebinding.eval (composeAs true ⟨2⟩ rebindingSite) = (.ok signature, s₁) ∧
      s₁.eval (beginRun ⟨2⟩ (.int 1) (some ⟨0⟩) ⟨0⟩) = (.ok (.ok ()), s₂) ∧
      (turnsSightings ⟨2⟩ [.resume, .resume, .resume] s₂).map (·.held.length) =
        [0, 0, 1, 0, 1, 1, 1, 2, 2, 0, 1, 2, 1] ∧
      ∀ e ∈ turnsSightings ⟨2⟩ [.resume, .resume, .resume] s₂, e.Faithful := by
  have hok : (rebinding.eval (composeAs true ⟨2⟩ rebindingSite)).1.isOk = true := by decide +kernel
  have hbegun : ((rebinding.eval (composeAs true ⟨2⟩ rebindingSite)).2.eval
      (beginRun ⟨2⟩ (.int 1) (some ⟨0⟩) ⟨0⟩)).1 = .ok (.ok ()) := by decide +kernel
  have hheld : (turnsSightings ⟨2⟩ [.resume, .resume, .resume]
      ((rebinding.eval (composeAs true ⟨2⟩ rebindingSite)).2.eval
        (beginRun ⟨2⟩ (.int 1) (some ⟨0⟩) ⟨0⟩)).2).map (·.held.length) =
      [0, 0, 1, 0, 1, 1, 1, 2, 2, 0, 1, 2, 1] := by decide +kernel
  rcases heval : rebinding.eval (composeAs true ⟨2⟩ rebindingSite) with ⟨_ | signature, s₁⟩
  · rw [heval] at hok
    cases hok
  · rw [heval] at hbegun hheld
    refine ⟨signature, s₁, _, rfl, Prod.ext hbegun rfl, hheld, ?_⟩
    exact (bindings_airtight (.fresh (fresh_of_rows (by decide +kernel)))
      (closed_of_rows (by decide +kernel)) (by decide +kernel) (by decide +kernel) (by decide +kernel)
      heval wellFormed_rebinding (by decide +kernel) (fun P hP => by cases hP; decide +kernel)
      (Prod.ext hbegun rfl) _).1

/-- Two objects of one type. -/
def token (number : Nat) : Value := .object ⟨1, 2, .foreign number⟩

/-- A wire that overwrites a variable, and one that sets the variable and binds it for the first. -/
def overwriting : Store Host.none :=
  let (v, s) := ({} : Store Host.none).addWire "inner" false
  let (w, s) := s.addWire "outer" false
  let stages (stages : List (Stage Host.none)) (w : Wire Host.none) : Wire Host.none :=
    { w with stages := stages.map fun stage => { stage } }
  let s := s.modifyWire v (stages [.const (token 2), .update "x" .nothing none])
  s.modifyWire w (stages
    [.const (token 1), .set "x" .nothing none, .bound "x" { wire := some v } none])

/-- A site that lists an unprotected variable behind a protected one of its name. -/
def overwritingSite : Site :=
  { plainSite (token 1).ty with
    shared := [.sealed "x" (token 1).ty, .assignable "x" (token 1).ty] }

/-- Composed at that site first, the inner wire leaves a memo that answers where its variable is
bound, without a collision of hashes. So the outer wire composes, which it does not on its own, and
its run finds the binding broken. -/
theorem overwriting_breaks_binding :
    let s₁ := (overwriting.eval (composeOwned ⟨0⟩ overwritingSite)).2
    let s₂ := (s₁.eval (composeOwned ⟨1⟩ (plainSite .nothing))).2
    let s₃ := (s₂.eval (beginRun ⟨1⟩ .nothing none ⟨0⟩)).2
    NoCollision (ownedRequests ⟨0⟩ overwritingSite overwriting ++
        ownedRequests ⟨1⟩ (plainSite .nothing) s₁) ∧
      (overwriting.eval (composeOwned ⟨1⟩ (plainSite .nothing))).1.isOk = false ∧
      (s₁.eval (composeOwned ⟨1⟩ (plainSite .nothing))).1.isOk = true ∧
      (s₂.eval (beginRun ⟨1⟩ .nothing none ⟨0⟩)).1 = .ok (.ok ()) ∧
      ¬ Unbroken (s₃.eval (resume ⟨1⟩)).1 := by
  decide +kernel

end Store

end Dataflow
