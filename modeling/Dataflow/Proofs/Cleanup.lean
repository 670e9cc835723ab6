import Dataflow.Proofs.Calls
import Dataflow.Proofs.Composed
import Dataflow.Proofs.Order
import Dataflow.Script.Unit
import Mathlib.Data.Fintype.EquivFin
/-!
# The discipline of cleaning up

A stage counts as warmed up from the moment its warm-up is called until it is cleaned up. Clean-ups
are reached in several ways: a failed warm-up cleans up its own wire, then the wires around it do,
the end of a run does, and one wire may be run by several stages. Still each stage that was warmed
up is cleaned up exactly once, because of two facts that hold at every moment.

* All clean-ups come behind all warm-ups. So marks are first only set and then only taken away, and a
  stage is cleaned up when its mark goes. This is `Raises` and `Sweeps`.
* A stage that is marked in a nested wire has a marked stage above it that runs this wire. So
  cleaning up the outer wire leaves no mark behind. This is `Upheld`.
-/

namespace Dataflow

variable {H : Host} {answer : Except ActivationError PUnit} {st : Stage H} {input : Value}
  (id : Id .wire) {s s' s₁ s₂ s₃ : Store H} {n : Nat} {x : Spot} {log₁ log₂ : List Call}
  {parent : Option (Id .scope)} {outcome : Outcome}

namespace Store

/-! ### Marks -/

/-- A stage counts as warmed up. -/
def Marked (s : Store H) (x : Spot) : Prop :=
  ∃ p, s.placedAt? x.wire x.position = some p ∧ p.warmedUp = true

/-- The harness of the stage at a place. -/
def harness? (s : Store H) (x : Spot) : Option (Bool × Option (Id .wire)) :=
  (s.placedAt? x.wire x.position).map (·.stage.harness)

/-- The stage at a place is called when a run begins and ends. -/
def Called (s : Store H) (x : Spot) : Prop := ∃ j?, s.harness? x = some (true, j?)

/-- The stage at a place runs a wire. -/
def Runs (s : Store H) (x : Spot) (j : Id .wire) : Prop := s.harness? x = some (true, some j)

theorem placedAt?_eq (s : Store H) (i : Id .wire) (n : Nat) :
    s.placedAt? i n = (s.wires.get? i).bind fun w => w.stages[n]? := rfl

theorem placedAt?_congr {i : Id .wire}
    (h : (s'.wires.get? i).map Wire.stages = (s.wires.get? i).map Wire.stages) (n : Nat) :
    s'.placedAt? i n = s.placedAt? i n := by
  have hbind : ∀ o : Option (Wire H), (o.bind fun w => w.stages[n]?) =
      (o.map Wire.stages).bind fun l => l[n]? := by
    intro o
    cases o <;> rfl
  rw [placedAt?_eq, placedAt?_eq, hbind, hbind, h]

theorem placedAt?_modifyPlaced (s : Store H) (i : Id .wire) (n : Nat) (f : Placed H → Placed H)
    (x : Spot) :
    (s.modifyWire i (·.modifyPlaced n f)).placedAt? x.wire x.position =
      if x = ⟨i, n⟩ then (s.placedAt? i n).map f else s.placedAt? x.wire x.position := by
  obtain ⟨j, m⟩ := x
  by_cases hij : i = j
  · subst hij
    simp only [placedAt?_eq, get?_modifyWire_self, Spot.mk.injEq, true_and]
    cases s.wires.get? i with
    | none => simp
    | some w =>
      simp only [Option.map_some, Option.bind_some, Wire.modifyPlaced, List.getElem?_modify]
      by_cases hnm : n = m
      · subst hnm
        simp
      · simp [hnm, Ne.symm hnm]
  · rw [placedAt?_eq, get?_modifyWire_of_ne _ hij, ← placedAt?_eq]
    simp [Ne.symm hij]

section Updates

variable {i : Id .wire}

theorem harness?_modifyPlaced {f : Placed H → Placed H}
    (hf : ∀ p, s.placedAt? i n = some p → (f p).stage.harness = p.stage.harness) :
    (s.modifyWire i (·.modifyPlaced n f)).harness? x = s.harness? x := by
  unfold harness?
  rw [placedAt?_modifyPlaced]
  split
  · rename_i hx
    subst hx
    cases hp : s.placedAt? i n with
    | none => rfl
    | some p => simp [hf p hp]
  · rfl

theorem harness?_mark : (s.mark i n).harness? x = s.harness? x :=
  harness?_modifyPlaced fun _ _ => rfl

theorem harness?_unmark : (s.unmark i n).harness? x = s.harness? x :=
  harness?_modifyPlaced fun _ _ => rfl

theorem marked_mark : (s.mark i n).Marked x ↔
    s.Marked x ∨ x = ⟨i, n⟩ ∧ ∃ p, s.placedAt? i n = some p := by
  unfold Marked mark
  rw [placedAt?_modifyPlaced]
  split
  · rename_i h
    subst h
    cases s.placedAt? i n <;> simp
  · rename_i h
    simp [h]

theorem marked_unmark : (s.unmark i n).Marked x ↔ s.Marked x ∧ x ≠ ⟨i, n⟩ := by
  unfold Marked unmark
  rw [placedAt?_modifyPlaced]
  split
  · rename_i h
    subst h
    cases s.placedAt? i n <;> simp
  · rename_i h
    simp [h]

theorem marked_setStage (st : Stage H) :
    (s.modifyWire i (·.setStage n st)).Marked x ↔ s.Marked x := by
  unfold Marked Wire.setStage
  rw [placedAt?_modifyPlaced]
  split
  · rename_i h
    subst h
    cases s.placedAt? i n <;> simp
  · rfl

theorem harness?_setStage (h : ∀ p, s.placedAt? i n = some p → st.harness = p.stage.harness) :
    (s.modifyWire i (·.setStage n st)).harness? x = s.harness? x :=
  harness?_modifyPlaced h

end Updates

/-! ### What is done to marks -/

/-- The rest of a wire's places, as marks see them: neither marks nor harnesses change. -/
structure Alike (s s' : Store H) : Prop where
  harness : ∀ x, s'.harness? x = s.harness? x
  marks : ∀ x, s'.Marked x ↔ s.Marked x

/-- Marks are taken away, and the stages that are called then are exactly those that lose a mark and
have a lifecycle, the last of each wire first. -/
structure Sweeps (s s' : Store H) (log : List Call) : Prop where
  harness : ∀ x, s'.harness? x = s.harness? x
  marks : ∀ x, s'.Marked x → s.Marked x
  cleaned : ∀ x, x ∈ log.filterMap Call.cleanedUp? ↔ s.Called x ∧ s.Marked x ∧ ¬ s'.Marked x
  upper : ∀ x ∈ log.filterMap Call.cleanedUp?, ∀ n ≥ x.position, ¬ s'.Marked ⟨x.wire, n⟩
  order : (log.filterMap Call.cleanedUp?).Pairwise fun x y =>
    x.wire = y.wire → y.position < x.position
  warmed : log.filterMap Call.warmedUp? = []

/-- Marks are set, for all stages that are called then and for stages without a lifecycle. -/
structure Raises (s s' : Store H) (log : List Call) : Prop where
  harness : ∀ x, s'.harness? x = s.harness? x
  marks : ∀ x, s.Marked x → s'.Marked x
  warmed : ∀ x ∈ log.filterMap Call.warmedUp?, s'.Called x ∧ s'.Marked x
  fresh : ∀ x, s'.Marked x → s'.Called x → s.Marked x ∨ x ∈ log.filterMap Call.warmedUp?
  cleaned : log.filterMap Call.cleanedUp? = []

theorem called_congr (h : s'.harness? x = s.harness? x) : s'.Called x ↔ s.Called x := by
  unfold Called
  rw [h]

namespace Alike

variable {log : List Call}

theorem of_stages (h : ∀ i, (s₁.wires.get? i).map Wire.stages = (s.wires.get? i).map Wire.stages) :
    Alike s s₁ := by
  refine ⟨fun x => ?_, fun x => ?_⟩
  · unfold harness?
    rw [placedAt?_congr (h _)]
  · unfold Marked
    rw [placedAt?_congr (h _)]

theorem of_wires_eq (h : s₁.wires = s.wires) : Alike s s₁ := of_stages fun _ => by rw [h]

theorem modifyWire (i : Id .wire) {f : Wire H → Wire H} (hf : ∀ w, (f w).stages = w.stages) :
    Alike s (s.modifyWire i f) :=
  of_stages (Keeps.modifyWire (T := Set.univ) (Set.mem_univ i) fun w _ => hf w).same

theorem refl (s : Store H) : Alike s s := of_wires_eq rfl

theorem trans (h : Alike s s₁) (h' : Alike s₁ s₂) : Alike s s₂ :=
  ⟨fun x => (h'.harness x).trans (h.harness x), fun x => (h'.marks x).trans (h.marks x)⟩

theorem sweeps (h : Alike s s₁) : Sweeps s s₁ [] where
  harness := h.harness
  marks x hx := (h.marks x).1 hx
  cleaned x := by
    simp only [List.filterMap_nil, List.not_mem_nil, false_iff]
    rintro ⟨-, hx, hx'⟩
    exact hx' ((h.marks x).2 hx)
  upper := by simp
  order := .nil
  warmed := rfl

theorem raises (h : Alike s s₁) : Raises s s₁ [] where
  harness := h.harness
  marks x hx := (h.marks x).2 hx
  warmed := by simp
  fresh x hx _ := .inl ((h.marks x).1 hx)
  cleaned := rfl

end Alike

namespace Sweeps

variable {log : List Call}

theorem trans (h : Sweeps s s₁ log₁) (h' : Sweeps s₁ s₂ log₂) : Sweeps s s₂ (log₁ ++ log₂) where
  harness x := (h'.harness x).trans (h.harness x)
  marks x hx := h.marks x (h'.marks x hx)
  cleaned x := by
    rw [List.filterMap_append, List.mem_append, h.cleaned, h'.cleaned, called_congr (h.harness x)]
    have hdown := h'.marks x
    have hdown₁ := h.marks x
    tauto
  upper x hx n hn := by
    rw [List.filterMap_append, List.mem_append] at hx
    rcases hx with hx | hx
    · exact fun hm => h.upper x hx n hn (h'.marks _ hm)
    · exact h'.upper x hx n hn
  order := by
    rw [List.filterMap_append, List.pairwise_append]
    refine ⟨h.order, h'.order, fun x hx y hy hwire => ?_⟩
    -- what is cleaned up later still has its mark, and nothing behind the earlier stage has one
    have hmarked : s₁.Marked y := ((h'.cleaned y).1 hy).2.1
    by_contra hle
    refine h.upper x hx y.position (Nat.le_of_not_lt hle) ?_
    rwa [hwire]
  warmed := by rw [List.filterMap_append, h.warmed, h'.warmed, List.append_nil]

/-- A mark is taken away, with a clean-up if the stage has a lifecycle. -/
theorem unmark {i : Id .wire} (habove : ∀ m > n, ¬ s.Marked ⟨i, m⟩) (hmarked : s.Marked ⟨i, n⟩)
    {log : List Call}
    (hlog : (s.Called ⟨i, n⟩ ∧ log = [.cleanup ⟨i, n⟩]) ∨ (¬ s.Called ⟨i, n⟩ ∧ log = [])) :
    Sweeps s (s.unmark i n) log where
  harness x := harness?_unmark
  marks x hx := (marked_unmark.1 hx).1
  cleaned x := by
    rw [marked_unmark]
    rcases hlog with ⟨hcalled, rfl⟩ | ⟨hcalled, rfl⟩
    · simp only [List.filterMap_cons, Call.cleanedUp?, List.filterMap_nil, List.mem_singleton]
      constructor
      · rintro rfl
        exact ⟨hcalled, hmarked, fun h => h.2 rfl⟩
      · tauto
    · simp only [List.filterMap_nil, List.not_mem_nil, false_iff]
      rintro ⟨hx, hm, hm'⟩
      refine hm' ⟨hm, ?_⟩
      rintro rfl
      exact hcalled hx
  upper x hx m hm := by
    rw [marked_unmark]
    rcases hlog with ⟨-, rfl⟩ | ⟨-, rfl⟩
    · obtain rfl : x = ⟨i, n⟩ := by simpa [Call.cleanedUp?] using hx
      rintro ⟨hx', hne⟩
      rcases Nat.lt_or_eq_of_le hm with hlt | rfl
      · exact habove m hlt hx'
      · exact hne rfl
    · simp at hx
  order := by
    rcases hlog with ⟨-, rfl⟩ | ⟨-, rfl⟩ <;> simp [Call.cleanedUp?]
  warmed := by
    rcases hlog with ⟨-, rfl⟩ | ⟨-, rfl⟩ <;> rfl

end Sweeps

namespace Raises

variable {log : List Call}

theorem trans (h : Raises s s₁ log₁) (h' : Raises s₁ s₂ log₂) : Raises s s₂ (log₁ ++ log₂) where
  harness x := (h'.harness x).trans (h.harness x)
  marks x hx := h'.marks x (h.marks x hx)
  warmed x hx := by
    rw [List.filterMap_append, List.mem_append] at hx
    rcases hx with hx | hx
    · obtain ⟨hcalled, hmarked⟩ := h.warmed x hx
      exact ⟨(called_congr (h'.harness x)).2 hcalled, h'.marks x hmarked⟩
    · exact h'.warmed x hx
  fresh x hx hcalled := by
    rw [List.filterMap_append, List.mem_append]
    rcases h'.fresh x hx hcalled with hx | hx
    · rcases h.fresh x hx ((called_congr (h'.harness x)).1 hcalled) with hx | hx
      · exact .inl hx
      · exact .inr (.inl hx)
    · exact .inr (.inr hx)
  cleaned := by rw [List.filterMap_append, h.cleaned, h'.cleaned, List.append_nil]

/-- A mark is set, with a call if the stage has a lifecycle. -/
theorem mark {i : Id .wire} {log : List Call}
    (hlog : (s.Called ⟨i, n⟩ ∧ ∃ answer, log = [.warmup ⟨i, n⟩ answer]) ∨
      (¬ s.Called ⟨i, n⟩ ∧ log = [])) : Raises s (s.mark i n) log where
  harness x := harness?_mark
  marks x hx := marked_mark.2 (.inl hx)
  warmed x hx := by
    rcases hlog with ⟨hcalled, answer, rfl⟩ | ⟨-, rfl⟩
    · obtain rfl : x = ⟨i, n⟩ := by simpa [Call.warmedUp?] using hx
      refine ⟨(called_congr harness?_mark).2 hcalled, marked_mark.2 (.inr ⟨rfl, ?_⟩)⟩
      obtain ⟨j?, hj⟩ := hcalled
      obtain ⟨p, hp, -⟩ := Option.map_eq_some_iff.1 hj
      exact ⟨p, hp⟩
    · simp at hx
  fresh x hx hcalled := by
    rcases marked_mark.1 hx with hx | ⟨rfl, -⟩
    · exact .inl hx
    · rw [called_congr harness?_mark] at hcalled
      rcases hlog with ⟨-, answer, rfl⟩ | ⟨hnot, -⟩
      · exact .inr (by simp [Call.warmedUp?])
      · exact absurd hcalled hnot
  cleaned := by
    rcases hlog with ⟨-, answer, rfl⟩ | ⟨-, rfl⟩ <;> rfl

end Raises

/-! ### Marks above marks -/

/-- A marked stage of a wire in `T` has a marked stage of a wire in `T` above it that runs its wire,
unless the wire is in `R`. -/
def Upheld (T R : Set (Id .wire)) (s : Store H) : Prop :=
  ∀ x : Spot, x.wire ∈ T → s.Marked x → x.wire ∈ R ∨ ∃ y : Spot, y.wire ∈ T ∧ s.Marked y ∧ s.Runs y x.wire

section Upheld

variable {T R : Set (Id .wire)} {i j : Id .wire}

theorem runs_congr (h : s₁.harness? x = s.harness? x) : s₁.Runs x j ↔ s.Runs x j := by
  unfold Runs
  rw [h]

theorem Upheld.alike (h : Upheld T R s) (ha : Alike s s₁) : Upheld T R s₁ := by
  intro x hx hm
  rcases h x hx ((ha.marks x).1 hm) with hR | ⟨y, hy, hym, hrun⟩
  · exact .inl hR
  · exact .inr ⟨y, hy, (ha.marks y).2 hym, (runs_congr (ha.harness y)).2 hrun⟩

theorem Upheld.mono {R' : Set (Id .wire)} (h : Upheld T R s) (hR : R ⊆ R') : Upheld T R' s :=
  fun x hx hm => (h x hx hm).imp_left fun hx => hR hx

/-- A wire without marks needs nothing above it. -/
theorem Upheld.of_bare (h : Upheld T (insert i R) s) (hi : ∀ n, ¬ s.Marked ⟨i, n⟩) :
    Upheld T R s := by
  rintro ⟨j, n⟩ hx hm
  rcases h ⟨j, n⟩ hx hm with (rfl | hR) | hy
  · exact absurd hm (hi n)
  · exact .inl hR
  · exact .inr hy

/-- A marked stage holds up the wire that it runs. -/
theorem Upheld.of_runs (h : Upheld T (insert j R) s) (hi : i ∈ T) (hm : s.Marked ⟨i, n⟩)
    (hrun : s.Runs ⟨i, n⟩ j) : Upheld T R s := by
  rintro ⟨k, m⟩ hx hxm
  rcases h ⟨k, m⟩ hx hxm with (rfl | hR) | hy
  · exact .inr ⟨⟨i, n⟩, hi, hm, hrun⟩
  · exact .inl hR
  · exact .inr hy

/-- Taking a mark away leaves only the wire that its stage runs without support. -/
theorem Upheld.unmark {R' : Set (Id .wire)} (h : Upheld T R s) (hR : R ⊆ R')
    (hrun : ∀ k, s.Runs ⟨i, n⟩ k → k ∈ R') : Upheld T R' (s.unmark i n) := by
  intro x hx hm
  rcases h x hx (marked_unmark.1 hm).1 with hxR | ⟨y, hy, hym, hyrun⟩
  · exact .inl (hR hxR)
  · by_cases hyi : y = ⟨i, n⟩
    · subst hyi
      exact .inl (hrun _ hyrun)
    · exact .inr ⟨y, hy, marked_unmark.2 ⟨hym, hyi⟩, (runs_congr harness?_unmark).2 hyrun⟩

theorem Upheld.mark (h : Upheld T R s) (hi : i ∈ R) : Upheld T R (s.mark i n) := by
  intro x hx hm
  rcases marked_mark.1 hm with hm | ⟨rfl, -⟩
  · rcases h x hx hm with hR | ⟨y, hy, hym, hrun⟩
    · exact .inl hR
    · exact .inr ⟨y, hy, marked_mark.2 (.inl hym), (runs_congr harness?_mark).2 hrun⟩
  · exact .inl hi

end Upheld

/-! ### Cleaning up -/

section Cleanup

variable {s s' : Store H} {i : Id .wire} {n : Nat} {placed : Placed H}

theorem harness?_of_placedAt? (hp : s.placedAt? i n = some placed) :
    s.harness? ⟨i, n⟩ = some placed.stage.harness := by
  simp [harness?, hp]

theorem called_iff (hp : s.placedAt? i n = some placed) :
    s.Called ⟨i, n⟩ ↔ placed.stage.capabilities.lifecycle = true := by
  simp [Called, harness?_of_placedAt? hp, Stage.harness]

theorem runs_iff (hp : s.placedAt? i n = some placed) {j : Id .wire} :
    s.Runs ⟨i, n⟩ j ↔ placed.stage.nested? = some j := by
  simp only [Runs, harness?_of_placedAt? hp, Stage.harness, Option.some.injEq, Prod.mk.injEq]
  exact ⟨fun h => h.2, fun h => ⟨Stage.lifecycle_of_nested? h, h⟩⟩

/-- A stage with the harness of what stood at its place may replace what stands there now. -/
theorem alike_setStage (hp : s.placedAt? i n = some placed)
    (hst : st.harness = placed.stage.harness) (h : ∀ x, s'.harness? x = s.harness? x) :
    Alike s' (s'.modifyWire i (·.setStage n st)) := by
  refine ⟨fun x => harness?_setStage fun p hp' => ?_, fun x => marked_setStage st⟩
  have := h ⟨i, n⟩
  rw [harness?_of_placedAt? hp, harness?_of_placedAt? hp'] at this
  rw [hst, Option.some.inj this]

/-- All calls of a log are about wires in a set. -/
def Within (T : Set (Id .wire)) (log : List Call) : Prop := ∀ c ∈ log, c.wire ∈ T

theorem Within.append {T : Set (Id .wire)} (h : Within T log₁) (h' : Within T log₂) :
    Within T (log₁ ++ log₂) := by
  intro c hc
  rcases List.mem_append.1 hc with hc | hc
  · exact h c hc
  · exact h' c hc

/-- Wires that run only each other. -/
def Sealed (s : Store H) (T : Set (Id .wire)) : Prop :=
  ∀ (x : Spot) j, x.wire ∈ T → s.Runs x j → j ∈ T

theorem Sealed.congr {T : Set (Id .wire)} (h : s.Sealed T)
    (hharness : ∀ x, s₁.harness? x = s.harness? x) : s₁.Sealed T :=
  fun x j hx hj => h x j hx ((runs_congr (hharness x)).1 hj)

/-- What cleaning up a wire does: marks are swept, none is left in the wire, and what is marked
elsewhere is held up without it. -/
structure CleansUp (i : Id .wire) (s s' : Store H) (log : List Call) : Prop where
  sweeps : Sweeps s s' log
  bare : ∀ n, ¬ s'.Marked ⟨i, n⟩
  upheld : ∀ T R, Upheld T (insert i R) s → Upheld T R s'
  within : ∀ T, i ∈ T → s.Sealed T → Within T log

/-- What cleaning up stages of a wire does: marks are swept, and what is marked stays held up. -/
structure Cleans (i : Id .wire) (s s' : Store H) (log : List Call) : Prop where
  sweeps : Sweeps s s' log
  upheld : ∀ T R, Upheld T R s → Upheld T R s'
  within : ∀ T, i ∈ T → s.Sealed T → Within T log

theorem Cleans.refl (i : Id .wire) (s : Store H) : Cleans i s s [] :=
  ⟨(Alike.refl s).sweeps, fun _ _ h => h, by simp [Within]⟩

theorem Cleans.trans (h : Cleans i s s₁ log₁) (h' : Cleans i s₁ s₂ log₂) :
    Cleans i s s₂ (log₁ ++ log₂) where
  sweeps := h.sweeps.trans h'.sweeps
  upheld T R hup := h'.upheld T R (h.upheld T R hup)
  within T hi hseal := (h.within T hi hseal).append
    (h'.within T hi (hseal.congr h.sweeps.harness))

/-- Ending a nested wire is cleaning it up. -/
def EndsNested (endNested : Id .wire → Exec H PUnit) (calls : Id .wire → Store H → List Call) :
    Prop :=
  ∀ (s s' : Store H) j, s.eval (endNested j) = (.ok (), s') → CleansUp j s s' (calls j s)

variable {endNested : Id .wire → Exec H PUnit} {calls : Id .wire → Store H → List Call}
  {keep : Value}

/-- Cleaning up one marked stage, and with it the wire that it runs. -/
theorem cleansUp_stage (hn : EndsNested endNested calls) (hp : s.placedAt? i n = some placed)
    (hcall : placed.stage.capabilities.lifecycle = true) (hmarked : s.Marked ⟨i, n⟩)
    (habove : ∀ m > n, ¬ s.Marked ⟨i, m⟩)
    (h : (s.unmark i n).eval (placed.stage.cleanup endNested keep) = (.ok st, s')) :
    Cleans i s (s'.modifyWire i (·.setStage n st)) (.cleanup ⟨i, n⟩ ::
      (placed.stage.nested?.map fun j => calls j (s.unmark i n)).getD []) := by
  obtain ⟨hharness, hleaf, hnest⟩ := placed.stage.cleanup_spec endNested keep (s.unmark i n)
  rw [h] at hharness hleaf hnest
  replace hharness := hharness st rfl
  have hunmark : Sweeps s (s.unmark i n) [.cleanup ⟨i, n⟩] :=
    .unmark habove hmarked (.inl ⟨(called_iff hp).2 hcall, rfl⟩)
  cases hsub : placed.stage.nested? with
  | none =>
    have halike : Alike (s.unmark i n) s' := .of_wires_eq (hleaf hsub).1
    have hset := alike_setStage hp hharness fun x => (halike.harness x).trans harness?_unmark
    exact ⟨by simpa using hunmark.trans (halike.trans hset).sweeps, fun T R hup =>
      (hup.unmark subset_rfl (by simp [runs_iff hp, hsub])).alike (halike.trans hset),
      fun T hi _ => by simpa [Within, Call.wire] using hi⟩
  | some j =>
    have hends := hn _ _ j (hnest j hsub)
    have hboth := hunmark.trans hends.sweeps
    have hset := alike_setStage hp hharness hboth.harness
    refine ⟨by simpa using hboth.trans hset.sweeps, fun T R hup => ?_, fun T hi hseal => ?_⟩
    · refine (hends.upheld T R (hup.unmark (Set.subset_insert j R) fun k hk => ?_)).alike hset
      rw [runs_iff hp, hsub] at hk
      exact .inl (Option.some.inj hk).symm
    · have hj : j ∈ T := hseal ⟨i, n⟩ j hi ((runs_iff hp).2 hsub)
      have hinner := hends.within T hj (hseal.congr fun x => harness?_unmark)
      intro c hc
      rcases List.mem_cons.1 hc with rfl | hc
      · exact hi
      · exact hinner c hc

/-- Cleaning up the stages below a position, when nothing is marked from there on. -/
theorem cleansUp_below (hn : EndsNested endNested calls) (position : Nat)
    (habove : ∀ n ≥ position, ¬ s.Marked ⟨i, n⟩)
    (h : s.eval (cleanupBelow endNested keep i position) = (.ok (), s')) :
    Cleans i s s' (cleanupBelowCalls endNested calls keep i position s) ∧
      ∀ n, ¬ s'.Marked ⟨i, n⟩ := by
  induction position generalizing s with
  | zero =>
    cases h
    exact ⟨.refl i _, fun n => habove n (Nat.zero_le n)⟩
  | succ position ih =>
    have hbelow : ∀ {s₁ log}, Sweeps s s₁ log → ¬ s₁.Marked ⟨i, position⟩ →
        ∀ n ≥ position, ¬ s₁.Marked ⟨i, n⟩ := by
      intro s₁ log hsweep hposition n hle hm
      rcases Nat.lt_or_eq_of_le hle with hlt | rfl
      · exact habove n hlt (hsweep.marks _ hm)
      · exact hposition hm
    rw [eval_cleanupBelow_succ] at h
    rw [cleanupBelowCalls]
    cases hp : s.placedAt? i position with
    | none =>
      simp only [hp] at h ⊢
      refine ih (hbelow (Alike.refl s).sweeps ?_) h
      rintro ⟨p, hp', -⟩
      simp [hp] at hp'
    | some placed =>
      simp only [hp] at h ⊢
      by_cases hwarm : placed.warmedUp = true
      · have hmarked : s.Marked ⟨i, position⟩ := ⟨placed, hp, hwarm⟩
        have habove' : ∀ m > position, ¬ s.Marked ⟨i, m⟩ := fun m hm => habove m hm
        by_cases hcall : placed.stage.capabilities.lifecycle = true
        · simp only [hwarm, hcall, if_true] at h ⊢
          rcases hc : (s.unmark i position).eval (placed.stage.cleanup endNested keep) with
            ⟨halt | st, s₁⟩ <;> rw [hc] at h <;> dsimp only at h
          · cases h
          · have hstage := cleansUp_stage hn hp hcall hmarked habove' hc
            have hgone : ¬ (s₁.modifyWire i (·.setStage position st)).Marked ⟨i, position⟩ :=
              hstage.sweeps.upper ⟨i, position⟩ (by simp [Call.cleanedUp?]) position le_rfl
            obtain ⟨hrest, hbare⟩ := ih (hbelow hstage.sweeps hgone) h
            exact ⟨by simpa using hstage.trans hrest, hbare⟩
        · simp only [hwarm, hcall, if_true, Bool.false_eq_true, if_false] at h ⊢
          have hsweep : Sweeps s (s.unmark i position) [] :=
            .unmark habove' hmarked (.inr ⟨fun hc => hcall ((called_iff hp).1 hc), rfl⟩)
          have hgone : ¬ (s.unmark i position).Marked ⟨i, position⟩ := fun hm =>
            (marked_unmark.1 hm).2 rfl
          have hstage : Cleans i s (s.unmark i position) [] := ⟨hsweep, fun T R hup =>
            hup.unmark subset_rfl fun j hrun =>
              absurd (Stage.lifecycle_of_nested? ((runs_iff hp).1 hrun)) hcall,
            by simp [Within]⟩
          obtain ⟨hrest, hbare⟩ := ih (hbelow hsweep hgone) h
          exact ⟨by simpa using hstage.trans hrest, hbare⟩
      · simp only [hwarm, Bool.false_eq_true, if_false] at h ⊢
        refine ih (hbelow (Alike.refl s).sweeps ?_) h
        rintro ⟨p, hp', hwarm'⟩
        rw [hp] at hp'
        cases hp'
        exact hwarm hwarm'

theorem alike_conclude (s : Store H) (j : Id .wire) (outcome : Outcome) :
    Alike s (s.conclude j outcome) := by
  unfold conclude
  split
  · exact .refl s
  · exact (Alike.modifyWire j (by exact fun _ => rfl)).trans (.of_wires_eq rfl)

/-- Cleaning up a wire. -/
theorem cleansUp_cleanupWithin (depth : Nat) (keep : Value) (i : Id .wire)
    (h : s.eval (cleanupWithin depth keep i) = (.ok (), s')) :
    CleansUp i s s' (cleanupCalls depth keep i s) := by
  induction depth generalizing i s s' with
  | zero => cases h
  | succ depth ih =>
    rw [eval_cleanupWithin_succ] at h
    rw [cleanupCalls]
    cases hw : s.wires.get? i with
    | none =>
      simp only [hw] at h ⊢
      obtain rfl : s = s' := congrArg Prod.snd h
      have hbare : ∀ n, ¬ s.Marked ⟨i, n⟩ := by
        rintro n ⟨p, hp, -⟩
        simp [placedAt?_eq, hw] at hp
      exact ⟨(Alike.refl s).sweeps, hbare, fun T R hup => hup.of_bare hbare,
        fun _ _ _ c hc => by simp at hc⟩
    | some wire =>
      simp only [hw] at h ⊢
      have hn : EndsNested (Store.endNested (H := H) depth keep) (cleanupCalls depth keep) := by
        intro s₁ s₂ j hj
        rw [eval_endNested] at hj
        rcases hc : s₁.eval (cleanupWithin depth keep j) with ⟨halt | _, s₃⟩ <;> rw [hc] at hj
        · cases hj
        · have hclean := ih j hc
          have halike : Alike s₃ s₂ := by
            cases hj
            split
            · exact alike_conclude s₃ j _
            · exact .refl s₃
          refine ⟨by simpa using hclean.sweeps.trans halike.sweeps,
            fun n hm => hclean.bare n ((halike.marks _).1 hm),
            fun T R hup => (hclean.upheld T R hup).alike halike, hclean.within⟩
      obtain ⟨hcleans, hbare⟩ := cleansUp_below hn wire.stages.length (by
        rintro n hle ⟨p, hp, -⟩
        simp [placedAt?_eq, hw, List.getElem?_eq_none hle] at hp) h
      exact ⟨hcleans.sweeps, hbare, fun T R hup => (hcleans.upheld T _ hup).of_bare hbare,
        hcleans.within⟩

end Cleanup

/-! ### Warming up -/

/-- Marks are set first and taken away then. -/
def Attempts (s s' : Store H) (log : List Call) : Prop :=
  ∃ s₁ up down, log = up ++ down ∧ Raises s s₁ up ∧ Sweeps s₁ s' down

section Attempts

variable {log : List Call}

theorem Raises.attempts (h : Raises s s₁ log) : Attempts s s₁ log :=
  ⟨s₁, log, [], by simp, h, (Alike.refl s₁).sweeps⟩

theorem Raises.trans_attempts (h : Raises s s₁ log₁) (h' : Attempts s₁ s₂ log₂) :
    Attempts s s₂ (log₁ ++ log₂) := by
  obtain ⟨s₃, up, down, rfl, hup, hdown⟩ := h'
  exact ⟨s₃, log₁ ++ up, down, by simp, h.trans hup, hdown⟩

theorem Attempts.trans_sweeps (h : Attempts s s₁ log₁) (h' : Sweeps s₁ s₂ log₂) :
    Attempts s s₂ (log₁ ++ log₂) := by
  obtain ⟨s₃, up, down, rfl, hup, hdown⟩ := h
  exact ⟨s₃, up, down ++ log₂, by simp, hup, hdown.trans h'⟩

theorem Attempts.harness (h : Attempts s s₁ log) (x : Spot) : s₁.harness? x = s.harness? x := by
  obtain ⟨s₂, up, down, -, hup, hdown⟩ := h
  exact (hdown.harness x).trans (hup.harness x)

end Attempts

/-- The wires that need nothing above them behind a warm-up: one that was warmed up is to be held up by
its caller. -/
def owed (answer : Except ActivationError PUnit) (i : Id .wire) (R : Set (Id .wire)) :
    Set (Id .wire) :=
  match answer with
  | .ok _ => insert i R
  | .error _ => R

/-- What warming up a wire does: marks are set, and taken away again if it fails. -/
structure WarmsUp (i : Id .wire) (answer : Except ActivationError PUnit) (s s' : Store H)
    (log : List Call) : Prop where
  attempts : Attempts s s' log
  raises : answer = .ok () → Raises s s' log
  upheld : ∀ T R, i ∈ T → s.Sealed T → Upheld T R s → Upheld T (owed answer i R) s'
  within : ∀ T, i ∈ T → s.Sealed T → Within T log

/-- Warming up nested wires is warming up wires. -/
def WarmsNested (nested : NestedWarmup H)
    (calls : Id .wire → Value → Id .scope → Id .board → Store H → List Call) : Prop :=
  ∀ (s s' : Store H) j input scope board answer,
    s.eval (nested j input scope board) = (.ok answer, s') →
      WarmsUp j answer s s' (calls j input scope board s)

/-- What warming up stages of a wire does, while nothing above is asked to hold the wire up. -/
structure Warms (i : Id .wire) (answer : Except ActivationError PUnit) (s s' : Store H)
    (log : List Call) : Prop where
  attempts : Attempts s s' log
  raises : answer = .ok () → Raises s s' log
  upheld : ∀ T R, i ∈ T → i ∈ R → s.Sealed T → Upheld T R s → Upheld T R s'
  within : ∀ T, i ∈ T → s.Sealed T → Within T log

section Warmup

variable {nested : NestedWarmup H}
  {calls : Id .wire → Value → Id .scope → Id .board → Store H → List Call} {i : Id .wire}

theorem Alike.warms (h : Alike s s') : Warms i answer s s' [] :=
  ⟨h.raises.attempts, fun _ => h.raises, fun _ _ _ _ _ hup => hup.alike h, by simp [Within]⟩

theorem Warms.trans (h : Warms i (.ok ()) s s₁ log₁) (h' : Warms i answer s₁ s₂ log₂) :
    Warms i answer s s₂ (log₁ ++ log₂) := by
  have hraise := h.raises rfl
  exact ⟨hraise.trans_attempts h'.attempts, fun hok => hraise.trans (h'.raises hok),
    fun T R hi hR hseal hup =>
      h'.upheld T R hi hR (hseal.congr hraise.harness) (h.upheld T R hi hR hseal hup),
    fun T hi hseal => (h.within T hi hseal).append
      (h'.within T hi (hseal.congr hraise.harness))⟩

/-- Warming up one stage, and with it the wire that it runs. -/
theorem warmsUp_stage (hn : WarmsNested nested calls) {wire : Wire H} {placed : Placed H}
    {step : Step H PUnit} (hp : (s.mark i n).placedAt? i n = some placed)
    (hcall : placed.stage.capabilities.lifecycle = true)
    (h : (placed.stage.warmup nested wire).run (s.mark i n) = (step, s'))
    (hanswer : step.answer = .ok answer) :
    let log := .warmup ⟨i, n⟩ step.answer ::
      (placed.stage.nested?.map fun j => calls j wire.input wire.scope wire.board
        (placed.stage.prepared wire (s.mark i n))).getD []
    Warms i answer s (s'.modifyWire i (·.setStage n step.stage)) log := by
  intro log
  have hspec := placed.stage.warmup_spec nested wire (s.mark i n)
  rw [h] at hspec
  obtain ⟨hharness, hleaf, hnest⟩ := hspec
  have hcalled : s.Called ⟨i, n⟩ := (called_congr harness?_mark).1 ((called_iff hp).2 hcall)
  have hmark : Raises s (s.mark i n) [.warmup ⟨i, n⟩ step.answer] :=
    .mark (.inl ⟨hcalled, step.answer, rfl⟩)
  cases hsub : placed.stage.nested? with
  | none =>
    have halike : Alike (s.mark i n) s' := .of_wires_eq (hleaf hsub).1
    have hboth := halike.trans (alike_setStage hp hharness halike.harness)
    have hraise : Raises s (s'.modifyWire i (·.setStage n step.stage)) log := by
      simpa [log, hsub] using hmark.trans hboth.raises
    exact ⟨hraise.attempts, fun _ => hraise, fun T R _ hR _ hup => (hup.mark hR).alike hboth,
      fun T hi _ => by simpa [log, hsub, Within, Call.wire] using hi⟩
  | some j =>
    obtain ⟨rfl, hrelay⟩ := hnest j hsub
    have hready : Alike (s.mark i n) (placed.stage.prepared wire (s.mark i n)) :=
      .of_wires_eq (placed.stage.wires_prepared ..)
    rcases hinner : (placed.stage.prepared wire (s.mark i n)).eval
      (nested j wire.input wire.scope wire.board) with ⟨halt | answer', s₁⟩
    · rw [hinner] at hrelay
      simp [hanswer] at hrelay
    · have hwarm := hn _ _ j _ _ _ _ hinner
      rw [hinner] at hrelay
      have hready' := hmark.trans hready.raises
      have hattempt := hready'.trans_attempts hwarm.attempts
      have hset := alike_setStage hp hharness fun x =>
        (hwarm.attempts.harness x).trans (hready.harness x)
      have hruns : (s.mark i n).Runs ⟨i, n⟩ j := (runs_iff hp).2 hsub
      have hinT : ∀ T, i ∈ T → s.Sealed T → j ∈ T := fun T hi hseal =>
        hseal ⟨i, n⟩ j hi ((runs_congr harness?_mark).1 hruns)
      refine ⟨?_, fun hok => ?_, fun T R hi hR hseal hup => ?_, fun T hi hseal => ?_⟩
      · simpa [log, hsub] using hattempt.trans_sweeps hset.sweeps
      · have hok' : answer' = .ok () := by
          subst hok
          rcases answer' with e | _
          · obtain ⟨name, hname⟩ := hrelay
            simp [hanswer] at hname
          · rfl
        simpa [log, hsub] using (hready'.trans (hwarm.raises hok')).trans hset.raises
      · have hup' := hwarm.upheld T R (hinT T hi hseal) (hseal.congr fun x => hready'.harness x)
          ((hup.mark hR).alike hready)
        refine Upheld.alike ?_ hset
        rcases answer' with e | _
        · exact hup'
        · -- the stage itself is marked, and holds up the wire that it runs
          have hraise := hwarm.raises rfl
          have hmarked : (s.mark i n).Marked ⟨i, n⟩ := (hmark.warmed _ (by simp [Call.warmedUp?])).2
          refine Upheld.of_runs hup' hi (hraise.marks _ ((hready.marks _).2 hmarked)) ?_
          · rw [runs_congr (hraise.harness _), runs_congr (hready.harness _)]
            exact hruns
      · have hinner := hwarm.within T (hinT T hi hseal) (hseal.congr fun x => hready'.harness x)
        intro c hc
        simp only [log, hsub, Option.map_some, Option.getD_some] at hc
        rcases List.mem_cons.1 hc with rfl | hc
        · exact hi
        · exact hinner c hc

/-- Warming up stages from a position on. -/
theorem warmsUp_from (hn : WarmsNested nested calls) (position count : Nat)
    (h : s.eval (warmupFrom nested i position count) = (.ok answer, s')) :
    Warms i answer s s' (warmupFromCalls nested calls i position count s) := by
  induction count generalizing position s with
  | zero =>
    obtain rfl : s = s' := congrArg Prod.snd h
    exact (Alike.refl s).warms
  | succ count ih =>
    rw [eval_warmupFrom_succ] at h
    rw [warmupFromCalls]
    have hmissing : (s.mark i position).placedAt? i position = none →
        Alike s (s.mark i position) := by
      intro hp
      refine ⟨fun x => harness?_mark, fun x => marked_mark.trans (or_iff_left ?_)⟩
      rintro ⟨rfl, p, hp'⟩
      have hnone := harness?_mark (s := s) (i := i) (n := position) (x := ⟨i, position⟩)
      simp [harness?, hp, hp'] at hnone
    rcases hw : (s.mark i position).wires.get? i with _ | wire
    · simp only [hw] at h ⊢
      obtain rfl : s.mark i position = s' := congrArg Prod.snd h
      exact (hmissing (by simp [placedAt?_eq, hw])).warms
    rcases hp : (s.mark i position).placedAt? i position with _ | placed
    · simp only [hw, hp] at h ⊢
      obtain rfl : s.mark i position = s' := congrArg Prod.snd h
      exact (hmissing hp).warms
    simp only [hw, hp] at h ⊢
    by_cases hcall : placed.stage.capabilities.lifecycle = true
    · simp only [hcall, if_true] at h ⊢
      rcases hrun : (placed.stage.warmup nested wire).run (s.mark i position) with ⟨step, s₁⟩
      rw [hrun] at h
      dsimp only at h ⊢
      rcases hanswer : step.answer with halt | e | _ <;> rw [hanswer] at h <;> dsimp only at h
      · cases h
      all_goals
        have hstage := warmsUp_stage hn hp hcall hrun hanswer
        rw [hanswer] at hstage
      · cases h
        simpa using hstage
      · simpa using hstage.trans (ih (position + 1) h)
    · simp only [hcall, Bool.false_eq_true, if_false] at h ⊢
      have hnot : ¬ s.Called ⟨i, position⟩ := fun hc =>
        hcall ((called_iff hp).1 ((called_congr harness?_mark).2 hc))
      have hraise : Raises s (s.mark i position) [] := .mark (.inr ⟨hnot, rfl⟩)
      have hstage : Warms i (.ok ()) s (s.mark i position) [] := ⟨hraise.attempts, fun _ => hraise,
        fun _ _ _ hR _ hup => hup.mark hR, by simp [Within]⟩
      simpa using hstage.trans (ih (position + 1) h)

end Warmup

/-- Warming up a wire. -/
theorem warmsUp_warmupWithin (depth : Nat) (i : Id .wire) (input : Value) (scope : Id .scope)
    (board : Id .board) (h : s.eval (warmupWithin depth i input scope board) = (.ok answer, s')) :
    WarmsUp i answer s s' (warmupCalls depth i input scope board s) := by
  induction depth generalizing i input scope board answer s s' with
  | zero => cases h
  | succ depth ih =>
    rw [eval_warmupWithin_succ] at h
    rw [warmupCalls]
    have hidle : ∀ log, (∀ x ∈ log, ∃ j, x = Call.refuse j) → Raises s s log := by
      intro log hlog
      have hwarmed : log.filterMap Call.warmedUp? = [] := by
        refine List.filterMap_eq_nil_iff.2 fun x hx => ?_
        obtain ⟨j, rfl⟩ := hlog x hx
        rfl
      refine ⟨fun _ => rfl, fun _ h => h, by simp [hwarmed], fun x hx _ => .inl hx, ?_⟩
      refine List.filterMap_eq_nil_iff.2 fun x hx => ?_
      obtain ⟨j, rfl⟩ := hlog x hx
      rfl
    cases hw : s.wires.get? i with
    | none =>
      simp only [hw] at h ⊢
      cases h
      refine ⟨(hidle [] (by simp)).attempts, fun _ => hidle [] (by simp), fun T R _ _ hup => ?_,
        fun _ _ _ c hc => by simp at hc⟩
      exact hup.mono fun _ hx => .inr hx
    | some wire =>
      simp only [hw] at h ⊢
      by_cases hcomposed : wire.composed.isNone
      · simp only [hcomposed, if_true] at h ⊢
        cases h
        exact ⟨(hidle _ (by simp)).attempts, by simp, fun _ _ _ _ hup => hup,
          fun T hi _ => by simpa [Within, Call.wire] using hi⟩
      · simp only [hcomposed, Bool.false_eq_true, if_false] at h ⊢
        have hadopt : Alike s (s.adopt i input scope board) := .modifyWire i fun _ => rfl
        have hn : WarmsNested (warmupWithin (H := H) depth) (warmupCalls depth) :=
          fun s₁ s₂ j input scope board answer hj => ih j input scope board hj
        rcases hf : (s.adopt i input scope board).eval
          (warmupFrom (warmupWithin depth) i 0 wire.stages.length) with ⟨halt | e | _, s₁⟩ <;>
          rw [hf] at h <;> dsimp only at h ⊢
        · cases h
        · have hwarms := warmsUp_from hn 0 wire.stages.length hf
          rw [eval_cleanup] at h
          rcases hc : s₁.eval (cleanupWithin s₁.depthBound .nothing i) with ⟨halt | _, s₂⟩ <;>
            rw [hc] at h <;> cases h
          have hclean := cleansUp_cleanupWithin _ _ i hc
          refine ⟨?_, by simp, fun T R hi hseal hup => ?_, fun T hi hseal => ?_⟩
          · simpa using hadopt.raises.trans_attempts (hwarms.attempts.trans_sweeps hclean.sweeps)
          · refine hclean.upheld T R (hwarms.upheld T _ hi (Set.mem_insert i R)
              (hseal.congr hadopt.harness) ?_)
            exact (hup.alike hadopt).mono fun _ hx => .inr hx
          · have hseal' := hseal.congr hadopt.harness
            exact (hwarms.within T hi hseal').append
              (hclean.within T hi (hseal'.congr hwarms.attempts.harness))
        · have hwarms := hadopt.warms.trans (warmsUp_from hn 0 wire.stages.length hf)
          cases h
          rw [List.append_nil]
          refine ⟨hwarms.attempts, hwarms.raises, fun T R hi hseal hup => ?_, hwarms.within⟩
          exact hwarms.upheld T _ hi (Set.mem_insert i R) hseal (hup.mono fun _ hx => .inr hx)

/-! ### Runs -/

/-- How a run is ended by whoever drives it. -/
inductive Ending where
  | endRun (outcome : Outcome)
  | abandon

/-- The runs of a wire: on its own for one iteration, or driven step by step in whatever way. -/
inductive Run where
  | once (limit : Nat) (input : Value)
  | driven (input : Value) (parent : Option (Id .scope)) (board : Id .board) (turns : List Turn)
    (ending : Ending)

/-- What happens to a started wire in one turn. -/
def attend (id : Id .wire) (s : Store H) : Turn → Store H
  | .resume => (s.eval (resume id)).2
  | .requestStop j => s.requestStop j

/-- Ends a run. -/
def Ending.exec (id : Id .wire) : Ending → Exec H Outcome
  | .endRun outcome => Store.endRun id outcome
  | .abandon => Store.abandon id

/-- Carries a run out. -/
def Run.exec (id : Id .wire) : Run → Exec H PUnit
  | .once limit input => do let _ ← runOnce limit id input
  | .driven input parent board turns ending => do
    match ← beginRun id input parent board with
    | .error _ => return
    | .ok _ =>
      modify fun s => turns.foldl (attend id) s
      let _ ← ending.exec id

/-- The store in which a run warms its wire up, and the scope of the run. -/
def readied (s : Store H) (id : Id .wire) (parent : Option (Id .scope)) : Id .scope × Store H :=
  let s : Store H :=
    { s.modifyWire id (fun w => { w with run := s.runs.next }) with runs := s.runs.push {} }
  ((s.vars.addScope parent).1, { s with vars := (s.vars.addScope parent).2 })

/-- The calls of a run that begins. -/
def beginCalls (id : Id .wire) (input : Value) (parent : Option (Id .scope)) (board : Id .board)
    (s : Store H) : List Call :=
  let (scope, s) := s.readied id parent
  warmupCalls s.depthBound id input scope board s

/-- The calls of a run that ends. -/
def Ending.calls (id : Id .wire) : Ending → Store H → List Call
  | .endRun outcome, s => cleanupCalls s.depthBound outcome.output id s
  | .abandon, s =>
    let output := ((s.wires.get? id).map (·.lastOutput)).getD .nothing
    let s := s.modifyWire id fun w => { w with lastOutput := .nothing }
    cleanupCalls s.depthBound output id s

/-- The calls of a run. -/
def Run.calls (id : Id .wire) : Run → Store H → List Call
  | .once limit input, s =>
    match s.wires.get? id with
    | none => []
    | some wire =>
      match s.eval (composeOwned id (ownSite wire input)) with
      | (.error _, _) => []
      | (.ok _, s₁) =>
        beginCalls id input none wire.board s₁ ++
          match s₁.eval (beginRun id input none wire.board) with
          | (.ok (.ok _), s₂) =>
            match (s₂.modifyWire id fun w => { w with looped := false }).eval (driveToEnd id limit) with
            | (.ok outcome, s₃) =>
              (Ending.endRun outcome).calls id
                (s₃.modifyWire id fun w => { w with looped := wire.looped })
            | (.error _, _) => []
          | _ => []
  | .driven input parent board turns ending, s =>
    beginCalls id input parent board s ++
      match s.eval (beginRun id input parent board) with
      | (.ok (.ok _), s₁) => ending.calls id (turns.foldl (attend id) s₁)
      | _ => []

theorem eval_beginRun (s : Store H) (id : Id .wire) (input : Value) (parent : Option (Id .scope))
    (board : Id .board) :
    s.eval (beginRun id input parent board) =
      match (s.readied id parent).2.eval (warmupWithin (s.readied id parent).2.depthBound id input
        (s.readied id parent).1 board) with
      | (.error halt, s') => (.error halt, s')
      | (.ok (.error e), s') => (.ok (.error e), s'.conclude id (.failed ⟨e.message, "", 0⟩))
      | (.ok (.ok _), s') => (.ok (.ok ()), s'.start id input) := by
  unfold beginRun warmup warmupIn
  simp only [eval_bind, eval_modify, eval_get]
  unfold readied
  dsimp only
  rcases Store.eval _ (warmupWithin _ id input _ board) with ⟨_ | _ | _, s'⟩ <;> rfl

/-! ### What leaves marks alone -/

/-- The gear of the stages of a wire tells their marks and harnesses. -/
theorem Alike.of_gear {T : Set (Id .wire)} (h : Keeps Wire.gear T s s') : Alike s s' := by
  have hview : ∀ (s : Store H) (x : Spot), (s.placedAt? x.wire x.position).map
      (fun p => (p.stage.gear, p.warmedUp)) =
        ((s.wires.get? x.wire).map Wire.gear).bind fun gear => gear[x.position]? := by
    intro s x
    rw [placedAt?_eq]
    cases s.wires.get? x.wire with
    | none => rfl
    | some w => simp [Wire.gear]
  have hsame : ∀ x : Spot, (s'.placedAt? x.wire x.position).map
      (fun p => (p.stage.gear, p.warmedUp)) =
        (s.placedAt? x.wire x.position).map fun p => (p.stage.gear, p.warmedUp) := by
    intro x
    rw [hview, hview, h.same]
  have hharness : ∀ st : Stage H,
      st.harness = (st.gear.2.lifecycle, st.gear.1.bind Stage.nested?) := by
    intro st
    unfold Stage.harness Stage.gear
    cases st <;> rfl
  refine ⟨fun x => ?_, fun x => ?_⟩
  · have := congrArg (Option.map fun e => (e.1.2.lifecycle, e.1.1.bind Stage.nested?)) (hsame x)
    simp only [Option.map_map] at this
    simp only [harness?, hharness]
    exact this
  · have hmark : ∀ s : Store H, s.Marked x ↔ ((s.placedAt? x.wire x.position).map
        fun p => (p.stage.gear, p.warmedUp)).map (·.2) = some true := by
      intro s
      simp [Marked, Option.map_eq_some_iff]
    rw [hmark, hmark, hsame]

theorem Alike.of_steady {T : Set (Id .wire)} (h : Steady T s s') : Alike s s' := by
  refine .of_gear (h.keeps.map (fun f => (f.1.zip f.2.1).map fun e =>
    ((e.1.1, e.1.2.2), e.2)) fun w => ?_)
  simp [Wire.gear, Wire.frame, Stage.gear, List.zip_map']

theorem alike_resume (s : Store H) (id : Id .wire) : Alike s (s.eval (resume id)).2 :=
  .of_steady (s.steady_resume id)

theorem alike_turns (turns : List Turn) (s : Store H) : Alike s (turns.foldl (attend id) s) := by
  induction turns generalizing s with
  | nil => exact .refl s
  | cons turn rest ih =>
    refine Alike.trans ?_ (ih _)
    cases turn with
    | resume => exact s.alike_resume id
    | requestStop j => exact .of_wires_eq (s.wires_requestStop j)

theorem alike_driveToEnd (limit : Nat) (s : Store H) :
    Alike s (s.eval (driveToEnd id limit)).2 := by
  induction limit generalizing s with
  | zero => exact .refl s
  | succ limit ih =>
    have hresume := s.alike_resume id
    simp only [driveToEnd, eval_bind]
    rcases hr : s.eval (resume id) with ⟨_ | progress, s'⟩ <;> rw [hr] at hresume
    · exact hresume
    · cases hout : progress.outcome? with
      | none => simpa [hout] using hresume.trans (ih s')
      | some outcome => simpa [hout] using hresume

theorem alike_compose (s : Store H) (id : Id .wire) (site : Site) :
    Alike s (s.eval (composeOwned id site)).2 :=
  .of_gear (permits_gear.composeAs s true id site)

theorem alike_start (s : Store H) (id : Id .wire) (input : Value) :
    Alike s (s.start id input) :=
  .of_steady (steady_start (Set.mem_univ id) s input)

theorem alike_readied (s : Store H) (id : Id .wire) (parent : Option (Id .scope)) :
    Alike s (s.readied id parent).2 :=
  (Alike.modifyWire id (f := fun w => { w with run := s.runs.next }) fun _ => rfl).trans
    (.of_wires_eq rfl)

/-! ### The whole run -/

section Parts

variable {i : Id .wire} {log : List Call}

theorem WarmsUp.alike (h : WarmsUp i answer s₁ s₂ log) (hs : Alike s s₁) (hs' : Alike s₂ s₃) :
    WarmsUp i answer s s₃ log where
  attempts := by simpa using (hs.raises.trans_attempts h.attempts).trans_sweeps hs'.sweeps
  raises hok := by simpa using (hs.raises.trans (h.raises hok)).trans hs'.raises
  upheld T R hi hseal hup :=
    (h.upheld T R hi (hseal.congr hs.harness) (hup.alike hs)).alike hs'
  within T hi hseal := h.within T hi (hseal.congr hs.harness)

theorem CleansUp.alike (h : CleansUp i s₁ s₂ log) (hs : Alike s s₁) (hs' : Alike s₂ s₃) :
    CleansUp i s s₃ log where
  sweeps := by simpa using (hs.sweeps.trans h.sweeps).trans hs'.sweeps
  bare n hm := h.bare n ((hs'.marks _).1 hm)
  upheld T R hup := (h.upheld T R (hup.alike hs)).alike hs'
  within T hi hseal := h.within T hi (hseal.congr hs.harness)

theorem warmsUp_beginRun {board : Id .board}
    (h : s.eval (beginRun i input parent board) = (.ok answer, s₁)) :
    WarmsUp i answer s s₁ (beginCalls i input parent board s) := by
  rw [eval_beginRun] at h
  rcases hw : (s.readied i parent).2.eval (warmupWithin (s.readied i parent).2.depthBound i input
    (s.readied i parent).1 board) with ⟨halt | e | _, s₂⟩ <;> rw [hw] at h <;> dsimp only at h
  · cases h
  · cases h
    exact (warmsUp_warmupWithin _ i _ _ _ hw).alike (alike_readied ..) (alike_conclude ..)
  · cases h
    exact (warmsUp_warmupWithin _ i _ _ _ hw).alike (alike_readied ..) (alike_start ..)

theorem cleansUp_endRun {outcome' : Outcome} (h : s.eval (endRun i outcome) = (.ok outcome', s₁)) :
    CleansUp i s s₁ (cleanupCalls s.depthBound outcome.output i s) := by
  simp only [endRun, eval_bind, eval_cleanup, eval_modify, eval_pure] at h
  rcases hc : s.eval (cleanupWithin s.depthBound outcome.output i) with ⟨halt | _, s₂⟩ <;>
    rw [hc] at h <;> cases h
  exact (cleansUp_cleanupWithin _ _ i hc).alike (.refl s) (alike_conclude ..)

theorem cleansUp_ending {ending : Ending} (h : s.eval (ending.exec i) = (.ok outcome, s₁)) :
    CleansUp i s s₁ (ending.calls i s) := by
  cases ending with
  | endRun outcome' => exact cleansUp_endRun h
  | abandon =>
    simp only [Ending.exec, abandon, eval_bind, eval_get, eval_modify] at h
    exact (cleansUp_endRun h).alike (.modifyWire i fun _ => rfl) (.refl s₁)

end Parts

/-- A run is over with nothing left above marks: marks were set, and taken away. -/
structure Finishes (T : Set (Id .wire)) (s s' : Store H) (log : List Call) : Prop where
  attempts : Attempts s s' log
  upheld : Upheld T ∅ s'
  within : Within T log

section Finishes

variable {T : Set (Id .wire)} {i : Id .wire} {log log' : List Call}

/-- A run whose warm-up failed is over. -/
theorem WarmsUp.finishes {e : ActivationError} (h : WarmsUp i (.error e) s s₁ log) (hi : i ∈ T)
    (hseal : s.Sealed T) (hup : Upheld T ∅ s) : Finishes T s s₁ log :=
  ⟨h.attempts, h.upheld T ∅ hi hseal hup, h.within T hi hseal⟩

/-- A run that was warmed up is over when it has been cleaned up. -/
theorem WarmsUp.finishes_of_cleansUp (h : WarmsUp i (.ok ()) s s₁ log) (hs : Alike s₁ s₂)
    (h' : CleansUp i s₂ s₃ log') (hi : i ∈ T) (hseal : s.Sealed T) (hup : Upheld T ∅ s) :
    Finishes T s s₃ (log ++ log') := by
  have hwarm := h.alike (.refl s) hs
  refine ⟨hwarm.attempts.trans_sweeps h'.sweeps, h'.upheld T ∅ (hwarm.upheld T ∅ hi hseal hup),
    (hwarm.within T hi hseal).append (h'.within T hi ?_)⟩
  exact hseal.congr hwarm.attempts.harness

theorem Finishes.alike (h : Finishes T s₁ s₂ log) (hs : Alike s s₁) : Finishes T s s₂ log :=
  ⟨by simpa using hs.raises.trans_attempts h.attempts, h.upheld, h.within⟩

theorem finishes_driven {board : Id .board} {turns : List Turn} {ending : Ending}
    (h : s.eval ((Run.driven input parent board turns ending).exec i) = (.ok (), s₁)) (hi : i ∈ T)
    (hseal : s.Sealed T) (hup : Upheld T ∅ s) :
    Finishes T s s₁ ((Run.driven input parent board turns ending).calls i s) := by
  simp only [Run.exec, eval_bind] at h
  rw [Run.calls]
  rcases hb : s.eval (beginRun i input parent board) with ⟨halt | e | _, s₂⟩ <;> rw [hb] at h <;>
    dsimp only at h
  · cases h
  · cases h
    simpa using (warmsUp_beginRun hb).finishes hi hseal hup
  · simp only [eval_bind, eval_modify] at h
    rcases he : (turns.foldl (attend i) s₂).eval (ending.exec i) with ⟨halt | outcome, s₃⟩ <;>
      rw [he] at h <;> cases h
    exact (warmsUp_beginRun hb).finishes_of_cleansUp (alike_turns i turns s₂) (cleansUp_ending he)
      hi hseal hup

theorem finishes_once {limit : Nat} (h : s.eval ((Run.once limit input).exec i) = (.ok (), s₁))
    (hi : i ∈ T) (hseal : s.Sealed T) (hup : Upheld T ∅ s) :
    Finishes T s s₁ ((Run.once limit input).calls i s) := by
  have hidle : ∀ {s'}, Alike s s' → Finishes T s s' [] := fun ha =>
    ⟨ha.raises.attempts, hup.alike ha, by simp [Within]⟩
  rw [Run.exec, eval_bind] at h
  rw [Run.calls]
  rcases hw : s.wires.get? i with _ | wire
  · simp only [runOnce, eval_bind, eval_get, hw] at h ⊢
    cases h
    exact hidle (.refl s)
  rw [eval_runOnce hw] at h
  dsimp only
  have hcompose := alike_compose s i (ownSite wire input)
  rcases hc : s.eval (composeOwned i (ownSite wire input)) with ⟨e | signature, s₂⟩ <;>
    rw [hc] at h hcompose <;> dsimp only at h hcompose ⊢
  · cases h
    exact hidle hcompose
  have hseal' := hseal.congr hcompose.harness
  have hup' := hup.alike hcompose
  rcases hb : s₂.eval (beginRun i input none wire.board) with ⟨halt | e | _, s₃⟩ <;>
    rw [hb] at h <;> dsimp only at h ⊢
  · cases h
  · cases h
    simpa using ((warmsUp_beginRun hb).finishes hi hseal' hup').alike hcompose
  · simp only [eval_bind, eval_modify] at h
    have hdrive := alike_driveToEnd i limit (s₃.modifyWire i fun w => { w with looped := false })
    rcases hd : (s₃.modifyWire i fun w => { w with looped := false }).eval (driveToEnd i limit) with
      ⟨halt | outcome, s₄⟩ <;> rw [hd] at h hdrive <;> dsimp only at h hdrive ⊢
    · cases h
    · have hmiddle : Alike s₃ (s₄.modifyWire i fun w => { w with looped := wire.looped }) :=
        ((Alike.modifyWire i (by exact fun _ => rfl)).trans hdrive).trans
          (.modifyWire i fun _ => rfl)
      rcases he : (s₄.modifyWire i fun w => { w with looped := wire.looped }).eval
        (endRun i outcome) with ⟨halt | outcome', s₅⟩ <;> rw [he] at h <;> cases h
      exact ((warmsUp_beginRun hb).finishes_of_cleansUp hmiddle (cleansUp_endRun he) hi hseal'
        hup').alike hcompose

end Finishes

theorem sealed_below (s : Store H) (id : Id .wire) : s.Sealed {j | s.code.Below id j} := by
  intro x j hx hrun
  obtain ⟨p, hp, hharness⟩ := Option.map_eq_some_iff.1 hrun
  exact .tail hx (child_of_placedAt? hp (congrArg (·.2) hharness))

/-- In a tree of wires nothing stays marked if everything that is marked has a mark above it. -/
theorem bare_of_upheld {id : Id .wire} (htree : ∀ j, s.code.Below id j → s.Unnested j)
    (hharness : ∀ x, s'.harness? x = s.harness? x) (h : Upheld {j | s.code.Below id j} ∅ s')
    (x : Spot) (hx : s.code.Below id x.wire) :
    ¬ s'.Marked x := by
  -- no wire runs itself, so following marks upwards comes to an end
  let above (a b : Fin s'.wires.size) : Prop :=
    s.code.Below id ⟨a⟩ ∧ Relation.TransGen s.code.Child ⟨a⟩ ⟨b⟩
  have htrans : IsTrans _ above := ⟨fun _ _ _ hab hbc => ⟨hab.1, hab.2.trans hbc.2⟩⟩
  have hirrefl : Std.Irrefl above := ⟨fun a ha => by
    obtain ⟨j, hchild, hback⟩ := Relation.TransGen.head'_iff.1 ha.2
    exact htree _ ha.1 j hchild hback⟩
  have hrow : ∀ {y : Spot}, s'.Marked y → y.wire.row < s'.wires.size := by
    rintro y ⟨p, hp, -⟩
    obtain ⟨w, hw, -⟩ := Option.bind_eq_some_iff.1 hp
    exact (Array.getElem?_eq_some_iff.1 hw).1
  have hnone : ∀ a : Fin s'.wires.size, s.code.Below id ⟨a⟩ → ∀ n, ¬ s'.Marked ⟨⟨a⟩, n⟩ := by
    intro a
    induction a using (Finite.wellFounded_of_trans_of_irrefl above).induction with
    | _ a ih =>
      intro hbelow n hm
      rcases h ⟨⟨a⟩, n⟩ hbelow hm with hempty | ⟨y, hy, hym, hrun⟩
      · exact hempty
      · obtain ⟨p, hp, hh⟩ := Option.map_eq_some_iff.1 ((runs_congr (hharness y)).1 hrun)
        have hchild := child_of_placedAt? hp (congrArg (·.2) hh)
        exact ih ⟨y.wire.row, hrow hym⟩ ⟨hy, .single hchild⟩ hy y.position hym
  intro hm
  exact hnone ⟨x.wire.row, hrow hm⟩ hx x.position hm

/-- Each stage is cleaned up as often as it should be. -/
theorem Finishes.count {T : Set (Id .wire)} {log : List Call} (h : Finishes T s s' log)
    (hidle : ∀ x : Spot, x.wire ∈ T → ¬ s.Marked x) (hbare : ∀ x : Spot, x.wire ∈ T → ¬ s'.Marked x)
    (x : Spot) :
    (log.filterMap Call.cleanedUp?).count x =
      if x ∈ log.filterMap Call.warmedUp? then 1 else 0 := by
  obtain ⟨s₁, up, down, rfl, hup, hdown⟩ := h.attempts
  have hwire : ∀ {f : Call → Option Spot}, (∀ c y, f c = some y → c.wire = y.wire) →
      x ∈ (up ++ down).filterMap f → x.wire ∈ T := by
    intro f hf hx
    obtain ⟨c, hc, hcx⟩ := List.mem_filterMap.1 hx
    exact hf c x hcx ▸ h.within c hc
  have hcleaned : (up ++ down).filterMap Call.cleanedUp? = down.filterMap Call.cleanedUp? := by
    rw [List.filterMap_append, hup.cleaned, List.nil_append]
  have hwarmed : (up ++ down).filterMap Call.warmedUp? = up.filterMap Call.warmedUp? := by
    rw [List.filterMap_append, hdown.warmed, List.append_nil]
  have hmem : x ∈ (up ++ down).filterMap Call.cleanedUp? ↔
      x ∈ (up ++ down).filterMap Call.warmedUp? := by
    constructor
    · intro hx
      have hT := hwire (fun c y hcy => by cases c <;> cases hcy; rfl) hx
      rw [hcleaned, hdown.cleaned] at hx
      rw [hwarmed]
      exact (hup.fresh x hx.2.1 hx.1).resolve_left (hidle x hT)
    · intro hx
      have hT := hwire (fun c y hcy => by cases c <;> cases hcy; rfl) hx
      rw [hwarmed] at hx
      obtain ⟨hcalled, hmarked⟩ := hup.warmed x hx
      rw [hcleaned, hdown.cleaned]
      exact ⟨hcalled, hmarked, hbare x hT⟩
  have hnodup : ((up ++ down).filterMap Call.cleanedUp?).Nodup := by
    rw [hcleaned]
    refine hdown.order.imp fun {a b} hab => ?_
    rintro rfl
    exact lt_irrefl _ (hab rfl)
  split
  · rename_i hx
    exact List.count_eq_one_of_mem hnodup (hmem.2 hx)
  · rename_i hx
    exact List.count_eq_zero_of_not_mem fun hx' => hx (hmem.1 hx')

theorem Finishes.order {T : Set (Id .wire)} {log : List Call} (h : Finishes T s s' log) :
    (log.filterMap Call.cleanedUp?).Pairwise fun x y => x.wire = y.wire → y.position < x.position := by
  obtain ⟨s₁, up, down, rfl, hup, hdown⟩ := h.attempts
  rw [List.filterMap_append, hup.cleaned, List.nil_append]
  exact hdown.order

/-- The text of a note. -/
def noteText? : Script.Note → Option String
  | .line text => some text
  | _ => none

/-- A wire that runs another one twice and then warms up a unit that fails. -/
def failing : Store Script.host :=
  let unit (name : String) (failure : Option String) : Placed Script.host :=
    { stage := .unit (.actor { name, lifecycle := some { warmupError := failure } }) }
  let (v, s) := ({} : Store Script.host).addWire "inner" false
  let (w, s) := s.addWire "outer" false
  let composed : Option Memo := some ⟨none, default⟩
  let s := s.modifyWire v fun x => { x with stages := [unit "first" none, unit "second" none], composed }
  let twice : Placed Script.host := { stage := .inline { wire := some v } }
  s.modifyWire w fun x => { x with stages := [twice, twice, unit "bad" (some "no")], composed }

/-- A run of it that is abandoned at once. -/
def failedRun : Run := .driven (.int 1) none ⟨1⟩ [] .abandon

theorem unmarked_failing (x : Spot) : ¬ failing.Marked x := by
  rintro ⟨p, hp, hmarked⟩
  obtain ⟨w, hw, hp⟩ := Option.bind_eq_some_iff.1 hp
  have hall : ∀ w ∈ failing.wires.rows.toList, ∀ p ∈ w.stages, p.warmedUp = false := by
    decide +kernel
  have hrow := Array.mem_toList_iff.2 (Array.mem_of_getElem? hw)
  rw [hall w hrow p (List.mem_of_getElem? hp)] at hmarked
  cases hmarked

end Store

end Dataflow
