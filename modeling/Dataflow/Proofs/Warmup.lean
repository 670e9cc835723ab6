import Dataflow.Proofs.Composition
import Dataflow.Proofs.Scopes
/-!
# How a warm-up proceeds

Warming up a wire visits its stages in order, and the stages of a wire that a stage runs right after
that stage. A wire that several stages run is visited several times, and each visit resolves its
variables anew, so what counts for the run is the last visit of a stage. `Settles σ s s' V` says
what the visits `V` come to: which names the scope `σ` of the run has declared, and to which slot
each stage is linked.
-/

namespace Dataflow

variable {H : Host} {depth position n : Nat} {i j id : Id .wire} {plans : List (Option (Stage H))}
  {σ : Id .scope} {v : Variables} {st stage' : Stage H} {s s' : Store H} {x : String}

/-! ### Depth of nesting -/

namespace Code

/-- A wire runs wires at most so deep. -/
def Height (code : Code H) : Nat → Id .wire → Prop
  | 0, _ => False
  | depth + 1, i => ∀ j, code.Child i j → code.Height depth j

variable {code : Code H}

/-- No wire of some height leads back to itself. -/
theorem Height.acyclic (h : code.Height depth i) : ¬ Relation.TransGen code.Child i i := by
  induction depth generalizing i with
  | zero => exact h.elim
  | succ depth ih =>
    intro hi
    obtain ⟨j, hij, hji⟩ := Relation.TransGen.head'_iff.1 hi
    exact ih (h j hij) (Relation.TransGen.tail' hji hij)

/-- A wire is not below a wire that it runs. -/
theorem Height.not_below (h : code.Height depth j) (hij : code.Child i j) :
    ¬ code.Below j i := fun hji =>
  h.acyclic (Relation.TransGen.tail' hji hij)

end Code

/-! ### Visits -/

namespace Stage

/-- The variable that a stage uses. -/
def uses? : Stage H → Option String
  | add operand => operand.referent?
  | set x _ _ => some x
  | get x _ => some x
  | update x _ _ => some x
  | bound x _ _ => some x
  | _ => none

/-- The variable that a stage declares when it is warmed up. -/
def declares : Stage H → List String
  | set x _ _ => [x]
  | bound x _ _ => [x]
  | _ => []

/-- Whether a stage has a wire under way. -/
def underway : Stage H → Bool
  | inline sub => sub.running
  | bound _ sub _ => sub.running
  | _ => false

@[simp] theorem uses?_bare (st : Stage H) : st.bare.uses? = st.uses? := by
  cases st with
  | add operand => exact operand.referent?_bare
  | _ => rfl

@[simp] theorem declares_bare (st : Stage H) : st.bare.declares = st.declares := by
  cases st <;> rfl

end Stage

/-- A stage is visited: where it stands and what it was built with. -/
structure Visit (H : Host) where
  wire : Id .wire
  position : Nat
  stage : Stage H

/-- The names that visits declare. -/
def Visit.names (V : List (Visit H)) : List String := V.flatMap (·.stage.declares)

@[simp] theorem Visit.names_append (V W : List (Visit H)) :
    Visit.names (V ++ W) = Visit.names V ++ Visit.names W := List.flatMap_append ..

namespace Code

/-- The visits of the wire that a stage runs. -/
def innerVisits (nested : Id .wire → List (Visit H)) (st : Stage H) : List (Visit H) :=
  match st.nested? with
  | none => []
  | some j => nested j

/-- The visits of the stages of a wire from a position on. -/
def visitsFrom (nested : Id .wire → List (Visit H)) (i : Id .wire) :
    Nat → List (Option (Stage H)) → List (Visit H)
  | _, [] => []
  | position, none :: rest => visitsFrom nested i (position + 1) rest
  | position, some st :: rest =>
    ⟨i, position, st⟩ :: innerVisits nested st ++ visitsFrom nested i (position + 1) rest

/-- The visits of a wire with what it runs, nested at most so deep. -/
def visits (code : Code H) : Nat → Id .wire → List (Visit H)
  | 0, _ => []
  | depth + 1, i => visitsFrom (code.visits depth) i 0 ((code i).getD [])

end Code

namespace Code

variable {code : Code H}

theorem below_of_mem_visitsFrom {nested : Id .wire → List (Visit H)}
    (hn : ∀ j, ∀ v ∈ nested j, code.Below j v.wire)
    (hplans : ∀ st, some st ∈ plans → ∀ j, st.nested? = some j → code.Child i j) {v : Visit H}
    (hv : v ∈ visitsFrom nested i position plans) : code.Below i v.wire := by
  induction plans generalizing position with
  | nil => simp [visitsFrom] at hv
  | cons plan rest ih =>
    have hrest := fun st hst => hplans st (List.mem_cons_of_mem _ hst)
    cases plan with
    | none => exact ih hrest hv
    | some st =>
      rw [visitsFrom, List.cons_append, List.mem_cons, List.mem_append] at hv
      rcases hv with rfl | hv | hv
      · exact .refl
      · unfold innerVisits at hv
        cases hj : st.nested? with
        | none => simp [hj] at hv
        | some j =>
          rw [hj] at hv
          exact .head (hplans st List.mem_cons_self j hj) (hn j v hv)
      · exact ih hrest hv

/-- Only wires below a wire are visited. -/
theorem below_of_mem_visits {v : Visit H} (hv : v ∈ code.visits depth i) : code.Below i v.wire := by
  induction depth generalizing i v with
  | zero => simp [visits] at hv
  | succ depth ih =>
    rw [visits] at hv
    refine below_of_mem_visitsFrom (fun j v hv => ih hv) (fun st hst j hj => ?_) hv
    cases hi : code i with
    | none => simp [hi] at hst
    | some plans =>
      rw [hi] at hst
      exact ⟨plans, hi, st, hst, hj⟩

end Code

/-- A stage is linked to the slot that its variable means when it is visited: that of the scope if
the name is declared by then, and the outer one otherwise. -/
def Stage.Linked (σ : Id .scope) (v v' : Variables) (declared : List String) (st : Stage H) :
    Prop :=
  ∀ x, st.uses? = some x → ∃ slot, st.slot? = some slot ∧
    if (v.own σ x).isSome ∨ x ∈ declared then v'.own σ x = some slot else v.outer σ x = some slot

/-- What visits come to: their names are declared in the scope, stages that are not visited stay,
and a stage that is visited has no wire under way and is linked as of its last visit. -/
structure Settles (σ : Id .scope) (s s' : Store H) (V : List (Visit H)) : Prop where
  code : s'.code = s.code
  vars : Variables.Declares σ (Visit.names V) s.vars s'.vars
  scope : ∀ j, (s.wires.get? j).map Wire.scope = some σ → (s'.wires.get? j).map Wire.scope = some σ
  others : ∀ j n, (∀ v ∈ V, ¬ (v.wire = j ∧ v.position = n)) → s'.stageAt? j n = s.stageAt? j n
  visited : ∀ before v after, V = before ++ v :: after →
    (∀ u ∈ after, ¬ (u.wire = v.wire ∧ u.position = v.position)) →
      ∃ st, s'.stageAt? v.wire v.position = some st ∧ st.bare = v.stage ∧ st.underway = false ∧
        st.Linked σ s.vars s'.vars (Visit.names (before ++ [v]))

namespace Stage.Linked

variable {v₁ v₂ : Variables} {names declared : List String}

theorem later (h : st.Linked σ v v₁ declared) (h' : Variables.Declares σ names v₁ v₂) :
    st.Linked σ v v₂ declared := by
  intro x hx
  obtain ⟨slot, hslot, hmeans⟩ := h x hx
  refine ⟨slot, hslot, ?_⟩
  split at hmeans
  · rw [if_pos ‹_›]
    exact h'.kept x slot hmeans
  · rwa [if_neg ‹_›]

theorem earlier (h : Variables.Declares σ names v v₁) (h' : st.Linked σ v₁ v₂ declared) :
    st.Linked σ v v₂ (names ++ declared) := by
  intro x hx
  obtain ⟨slot, hslot, hmeans⟩ := h' x hx
  refine ⟨slot, hslot, ?_⟩
  have hknown : ((v.own σ x).isSome ∨ x ∈ names ++ declared) ↔
      ((v₁.own σ x).isSome ∨ x ∈ declared) := by
    rw [List.mem_append, ← or_assoc, ← h.bound]
  simp only [hknown, ← h.outer]
  exact hmeans

end Stage.Linked

namespace Store

theorem stageAt?_eq (s : Store H) (j : Id .wire) (n : Nat) :
    s.stageAt? j n = (s.wires.get? j).bind fun w => (w.stages[n]?).map (·.stage) := by
  unfold stageAt?
  cases s.wires.get? j with
  | none => rfl
  | some w =>
    change (w.stages[n]?).bind _ = (w.stages[n]?).map _
    cases w.stages[n]? <;> rfl

/-- A stage that looks at most at the wire's stages is the same if they are. -/
theorem stageAt?_modifyWire (s : Store H) (i : Id .wire) {f : Wire H → Wire H}
    (hf : ∀ w : Wire H, ((f w).stages[n]?).map (·.stage) = (w.stages[n]?).map (·.stage))
    (j : Id .wire) : (s.modifyWire i f).stageAt? j n = s.stageAt? j n := by
  rw [stageAt?_eq, stageAt?_eq]
  by_cases hij : i = j
  · subst hij
    rw [get?_modifyWire_self]
    cases s.wires.get? i with
    | none => rfl
    | some w => exact hf w
  · rw [get?_modifyWire_of_ne _ hij]

theorem stageAt?_modifyWire_of_ne (s : Store H) (h : i ≠ j) (f : Wire H → Wire H) (n : Nat) :
    (s.modifyWire i f).stageAt? j n = s.stageAt? j n := by
  rw [stageAt?_eq, stageAt?_eq, get?_modifyWire_of_ne _ h]

theorem stageAt?_setStage_of_ne (s : Store H) (i : Id .wire) (h : position ≠ n) (st : Stage H)
    (j : Id .wire) :
    (s.modifyWire i (·.setStage position st)).stageAt? j n = s.stageAt? j n :=
  s.stageAt?_modifyWire i (f := (·.setStage position st))
    (fun w => by simp [Wire.setStage, Wire.modifyPlaced, h]) j

theorem plannedAt_of_stageAt? (h : s.stageAt? id position = some st) :
    s.PlannedAt id position st := by
  rw [stageAt?_eq] at h
  obtain ⟨w, hw, hp⟩ := Option.bind_eq_some_iff.1 h
  obtain ⟨p, hp', rfl⟩ := Option.map_eq_some_iff.1 hp
  exact ⟨w.code, by simp [code, hw], by rw [Wire.code, List.getElem?_map, hp']; rfl⟩

end Store

namespace Settles

variable {s₁ s₂ : Store H} {V W : List (Visit H)}

/-- Nothing is visited, and no stage changes. -/
theorem of_same (hv : s.vars.Scoped σ) (hvars : s₁.vars = s.vars) (hcode : s₁.code = s.code)
    (hscope : ∀ j, (s.wires.get? j).map Wire.scope = some σ →
      (s₁.wires.get? j).map Wire.scope = some σ)
    (hstages : ∀ j n, s₁.stageAt? j n = s.stageAt? j n) : Settles σ s s₁ [] where
  code := hcode
  vars := by
    rw [hvars]
    exact .refl hv
  scope := hscope
  others j n _ := hstages j n
  visited before v after h := by simp at h

theorem append (h : Settles σ s s₁ V) (h' : Settles σ s₁ s₂ W) : Settles σ s s₂ (V ++ W) where
  code := h'.code.trans h.code
  vars := by simpa using h.vars.trans h'.vars
  scope j hj := h'.scope j (h.scope j hj)
  others j n hjn := by
    rw [h'.others j n fun v hv => hjn v (List.mem_append_right V hv)]
    exact h.others j n fun v hv => hjn v (List.mem_append_left W hv)
  visited before v after hV hlast := by
    rcases List.append_eq_append_iff.1 hV with ⟨rest, rfl, hW⟩ | ⟨rest, rfl, hW⟩
    · -- The last visit is one of `W`.
      obtain ⟨st, hst, hbare, hcalm, hlinked⟩ := h'.visited rest v after hW hlast
      refine ⟨st, hst, hbare, hcalm, ?_⟩
      rw [List.append_assoc, Visit.names_append]
      exact hlinked.earlier h.vars
    · cases rest with
      | nil =>
        obtain ⟨st, hst, hbare, hcalm, hlinked⟩ := h'.visited [] v after hW.symm hlast
        refine ⟨st, hst, hbare, hcalm, ?_⟩
        rw [Visit.names_append]
        simpa using hlinked.earlier h.vars
      | cons v' rest =>
        obtain ⟨rfl, rfl⟩ := List.cons.inj hW
        obtain ⟨st, hst, hbare, hcalm, hlinked⟩ := h.visited before v rest rfl fun u hu =>
          hlast u (List.mem_append_left W hu)
        refine ⟨st, ?_, hbare, hcalm, hlinked.later h'.vars⟩
        rw [h'.others _ _ fun u hu => hlast u (List.mem_append_right rest hu), hst]

/-- A stage declares its name, the wire that it runs is visited, and then the stage is put back. -/
theorem nest {stage : Stage H} {V : List (Visit H)} (hat : s.stageAt? id position = some stage)
    (hbare : st.bare = stage.bare) (hcalm : st.underway = false) (hwires : s₁.wires = s.wires)
    (hvars : Variables.Declares σ stage.declares s.vars s₁.vars)
    (hlinked : st.Linked σ s.vars s₁.vars stage.declares) (hV : Settles σ s₁ s₂ V)
    (hid : ∀ v ∈ V, v.wire ≠ id) :
    Settles σ s (s₂.modifyWire id (·.setStage position st))
      (⟨id, position, stage.bare⟩ :: V) := by
  have hcode₁ : s₁.code = s.code := by
    funext i
    simp only [Store.code, hwires]
  have hat₂ : s₂.stageAt? id position = some stage := by
    rw [hV.others id position fun v hv h => hid v hv h.1, Store.stageAt?_eq, hwires,
      ← Store.stageAt?_eq, hat]
  have hplanned : s₂.PlannedAt id position st := by
    obtain ⟨plans, hplans, hpos⟩ := Store.plannedAt_of_stageAt? hat₂
    exact ⟨plans, hplans, by rw [hpos, Stage.plan?_congr hbare]⟩
  have hcode₂ := hplanned.code_setStage
  refine ⟨?_, ?_, fun j hj => ?_, fun j n hjn => ?_, ?_⟩
  · rw [hcode₂, hV.code, hcode₁]
  · have := hvars.trans hV.vars
    simpa [Visit.names] using this
  · have hj₂ := hV.scope j (by rw [hwires, hj])
    rw [← hj₂]
    exact (Keeps.modifyWire (T := Set.univ) (π := Wire.scope) (f := (·.setStage position st))
      trivial fun _ _ => rfl).same j
  · have hne := hjn _ List.mem_cons_self
    have hj : s₂.stageAt? j n = s.stageAt? j n := by
      rw [hV.others j n fun v hv => hjn v (List.mem_cons_of_mem _ hv), Store.stageAt?_eq, hwires,
        ← Store.stageAt?_eq]
    rw [← hj]
    by_cases hij : id = j
    · exact Store.stageAt?_setStage_of_ne s₂ id (fun h => hne ⟨hij, h⟩) st j
    · exact Store.stageAt?_modifyWire_of_ne s₂ hij _ n
  · intro before v after hsplit hlast
    cases before with
    | nil =>
      obtain ⟨rfl, rfl⟩ := List.cons.inj hsplit
      refine ⟨st, by rw [Store.stageAt?_setStage, hat₂]; rfl, hbare, hcalm, ?_⟩
      have := hlinked.later hV.vars
      simpa [Visit.names] using this
    | cons u before =>
      obtain ⟨rfl, rfl⟩ := List.cons.inj hsplit
      obtain ⟨st', hst', hbare', hcalm', hlinked'⟩ := hV.visited before v after rfl hlast
      refine ⟨st', ?_, hbare', hcalm', ?_⟩
      · rw [Store.stageAt?_modifyWire_of_ne _ (hid v (by simp)).symm, hst']
      · have := hlinked'.earlier hvars
        simpa [Visit.names] using this

/-- A visit of a stage that has neither a variable nor a wire. -/
theorem idle {stage : Stage H} (hv : s.vars.Scoped σ) (hat : s.stageAt? id position = some stage)
    (huses : stage.uses? = none) (hcalm : stage.underway = false) :
    Settles σ s s [⟨id, position, stage.bare⟩] := by
  have hdeclares : Visit.names [(⟨id, position, stage.bare⟩ : Visit H)] = [] := by
    simp only [Visit.names, List.flatMap_cons, List.flatMap_nil, List.append_nil,
      Stage.declares_bare]
    cases stage <;> first | rfl | simp [Stage.uses?] at huses
  refine ⟨rfl, hdeclares ▸ .refl hv, fun _ h => h, fun _ _ _ => rfl, ?_⟩
  intro before v after hsplit _
  obtain ⟨rfl, rfl, rfl⟩ : before = [] ∧ v = ⟨id, position, stage.bare⟩ ∧ after = [] := by
    cases before <;> simp_all
  refine ⟨stage, hat, rfl, hcalm, fun x hx => ?_⟩
  rw [huses] at hx
  cases hx

end Settles

/-! ### Warming up one stage -/

namespace Stage

theorem linked_of_find? {slot : Id .slot} (hfind : v.find? σ x = some slot)
    (huses : ∀ y, st.uses? = some y → y = x) (hslot : st.slot? = some slot) :
    st.Linked σ v v [] := by
  intro y hy
  obtain rfl := huses y hy
  refine ⟨slot, hslot, ?_⟩
  rw [Variables.find?_eq] at hfind
  cases hown : v.own σ y with
  | none => simpa [hown] using hfind
  | some slot' => simpa [hown] using hfind

theorem linked_of_declare (hv : v.Scoped σ) (huses : ∀ y, st.uses? = some y → y = x)
    (hslot : st.slot? = some (v.declare σ x).1) : st.Linked σ v (v.declare σ x).2 [x] := by
  intro y hy
  obtain rfl := huses y hy
  exact ⟨_, hslot, by simpa using (Variables.declares_declare hv y).2⟩

theorem linked_of_uses?_eq_none (h : st.uses? = none) (σ : Id .scope) (v v' : Variables)
    (declared : List String) : st.Linked σ v v' declared := by
  intro x hx
  rw [h] at hx
  cases hx

/-- What warming up a built-in stage comes to: its name is declared, it is linked, and the wire that
it runs has been warmed up after that. -/
structure WarmedUp (nested : NestedWarmup H) (wire : Wire H) (stage stage' : Stage H)
    (s s' : Store H) : Prop where
  bare : stage'.bare = stage.bare
  calm : stage'.underway = false
  inner : ∃ s₁ : Store H, s₁.wires = s.wires ∧
    Variables.Declares wire.scope stage.declares s.vars s₁.vars ∧
    stage'.Linked wire.scope s.vars s₁.vars stage.declares ∧
    (stage.nested? = none → s' = s₁) ∧
    ∀ j, stage.nested? = some j →
      s₁.eval (nested j wire.input wire.scope wire.board) = (.ok (.ok ()), s')

namespace WarmedUp

variable {nested : NestedWarmup H} {wire : Wire H} {stage : Stage H}

theorem leaf (hn : stage.nested? = none) (hbare : stage'.bare = stage.bare)
    (hcalm : stage'.underway = false) (hwires : s'.wires = s.wires)
    (hvars : Variables.Declares wire.scope stage.declares s.vars s'.vars)
    (hlinked : stage'.Linked wire.scope s.vars s'.vars stage.declares) :
    WarmedUp nested wire stage stage' s s' :=
  ⟨hbare, hcalm, s', hwires, hvars, hlinked, fun _ => rfl, by simp [hn]⟩

theorem nesting (s₁ : Store H) (hn : stage.nested? = some j) (hbare : stage'.bare = stage.bare)
    (hcalm : stage'.underway = false) (hwires : s₁.wires = s.wires)
    (hvars : Variables.Declares wire.scope stage.declares s.vars s₁.vars)
    (hlinked : stage'.Linked wire.scope s.vars s₁.vars stage.declares)
    (h : s₁.eval (nested j wire.input wire.scope wire.board) = (.ok (.ok ()), s')) :
    WarmedUp nested wire stage stage' s s' := by
  refine ⟨hbare, hcalm, s₁, hwires, hvars, hlinked, by simp [hn], fun j' hj' => ?_⟩
  obtain rfl : j = j' := Option.some.inj (hn.symm.trans hj')
  exact h

/-- A stage without a variable and a wire. -/
theorem idle (hn : stage.nested? = none) (huses : stage.uses? = none)
    (hbare : stage'.bare = stage.bare) (hcalm : stage'.underway = false)
    (hwires : s'.wires = s.wires) (hvars : s'.vars = s.vars) (hv : s.vars.Scoped wire.scope) :
    WarmedUp nested wire stage stage' s s' := by
  have hdeclares : stage.declares = [] := by
    cases stage <;> first | rfl | simp [uses?] at huses
  refine leaf hn hbare hcalm hwires ?_ ?_
  · rw [hdeclares, hvars]
    exact .refl hv
  · refine linked_of_uses?_eq_none ?_ _ _ _ _
    rw [← uses?_bare, hbare, uses?_bare, huses]

end WarmedUp

theorem run_warmupNested (s : Store H) (nested : NestedWarmup H) (wire : Wire H) (sub : Nested) :
    (warmupNested nested wire sub).run s =
      match sub.wire with
      | none => (.ok (.error (.failed "Do requires a Wire")), s)
      | some id =>
        match s.eval (nested id wire.input wire.scope wire.board) with
        | (.error halt, s') => (.error halt, s')
        | (.ok (.ok _), s') => (.ok (.ok ()), s')
        | (.ok (.error e), s') => (.ok (.error (.nestedWire (s.wireName id) e.message)), s') := by
  unfold warmupNested
  cases sub.wire with
  | none => rfl
  | some id =>
    simp only [Store.run_bind, Store.run_getThe, Store.run_run]
    rcases s.eval (nested id wire.input wire.scope wire.board) with ⟨_ | _ | _, s'⟩ <;> rfl

theorem warmupNested_ok {nested : NestedWarmup H} {wire : Wire H} {sub : Nested}
    (h : (warmupNested nested wire sub).run s = (.ok (.ok ()), s')) :
    ∃ j, sub.wire = some j ∧
      s.eval (nested j wire.input wire.scope wire.board) = (.ok (.ok ()), s') := by
  rw [run_warmupNested] at h
  cases hsub : sub.wire with
  | none =>
    rw [hsub] at h
    cases h
  | some j =>
    rw [hsub] at h
    rcases hn : s.eval (nested j wire.input wire.scope wire.board) with ⟨_ | _ | _, s₁⟩ <;>
      simp only [hn] at h <;> cases h
    exact ⟨j, rfl, hn⟩

theorem resolveOperand_ok {operand operand' : Operand}
    (h : resolveOperand v σ operand = .ok operand') :
    (operand.referent? = none ∧ operand' = operand) ∨
      ∃ x slot, operand.referent? = some x ∧ v.find? σ x = some slot ∧
        operand' = { operand with slot := some slot } := by
  unfold resolveOperand at h
  cases href : operand.referent? with
  | none =>
    simp only [href, Except.ok.injEq] at h
    exact .inl ⟨rfl, h.symm⟩
  | some x =>
    cases hx : v.find? σ x with
    | none => simp [href, hx] at h
    | some slot =>
      simp only [href, hx, Except.ok.injEq] at h
      exact .inr ⟨x, slot, rfl, hx, h.symm⟩

theorem warmup_ok {nested : NestedWarmup H} {wire : Wire H} {stage : Stage H} {step : Step H PUnit}
    (hb : stage.isBuiltIn = true) (hv : s.vars.Scoped wire.scope)
    (h : (stage.warmup nested wire).run s = (step, s')) (hok : step.answer = .ok (.ok ())) :
    WarmedUp nested wire stage step.stage s s' := by
  cases stage with
  | add operand =>
    simp only [warmup, Store.run_bind, Store.run_getThe] at h
    cases hresolve : resolveOperand s.vars wire.scope operand with
    | error e =>
      rw [hresolve] at h
      cases h
      cases hok
    | ok operand' =>
      rw [hresolve] at h
      cases h
      obtain ⟨href, rfl⟩ | ⟨x, slot, href, hfind, rfl⟩ := resolveOperand_ok hresolve
      · exact .idle rfl href rfl rfl rfl rfl hv
      · refine .leaf rfl (congrArg add (operand.bare_slot x href _)) rfl rfl (.refl hv) ?_
        exact linked_of_find? hfind (fun y hy => Option.some.inj (hy.symm.trans href)) rfl
  | set x ty slot =>
    change StateT.run (if s.vars.isProtected wire.scope x then _ else _) s = _ at h
    by_cases hprot : s.vars.isProtected wire.scope x
    · rw [if_pos hprot] at h
      cases h
      cases hok
    · rw [if_neg hprot] at h
      cases h
      refine .leaf rfl rfl rfl rfl (Variables.declares_declare hv x).1 ?_
      exact linked_of_declare hv (fun y hy => (Option.some.inj hy).symm) rfl
  | get x slot =>
    simp only [warmup, Store.run_bind, Store.run_getThe] at h
    cases hfind : s.vars.find? wire.scope x with
    | none =>
      rw [hfind] at h
      cases h
      cases hok
    | some slot' =>
      rw [hfind] at h
      cases h
      refine .leaf rfl rfl rfl rfl (.refl hv) ?_
      exact linked_of_find? hfind (fun y hy => (Option.some.inj hy).symm) rfl
  | update x ty slot =>
    change StateT.run (if s.vars.isProtected wire.scope x then _ else _) s = _ at h
    by_cases hprot : s.vars.isProtected wire.scope x
    · rw [if_pos hprot] at h
      cases h
      cases hok
    · rw [if_neg hprot] at h
      cases hfind : s.vars.find? wire.scope x with
      | none =>
        rw [hfind] at h
        cases h
        cases hok
      | some slot' =>
        rw [hfind] at h
        cases h
        refine .leaf rfl rfl rfl rfl (.refl hv) ?_
        exact linked_of_find? hfind (fun y hy => (Option.some.inj hy).symm) rfl
  | inline sub =>
    simp only [warmup, Store.run_bind] at h
    cases hnested : (warmupNested nested wire { sub with running := false }).run s with
    | mk answer s₁ =>
      rw [hnested] at h
      cases h
      obtain rfl : answer = .ok (.ok ()) := hok
      obtain ⟨j, hj, heval⟩ := warmupNested_ok hnested
      exact .nesting s hj rfl rfl rfl (.refl hv) (linked_of_uses?_eq_none rfl _ _ _ _) heval
  | bound x sub slot =>
    simp only [warmup, Store.run_bind, Store.run_getThe, Store.run_modify] at h
    let declared : Store H := { s with vars := (s.vars.declare wire.scope x).2 }
    cases hnested : (warmupNested nested wire { sub with running := false }).run declared with
    | mk answer s₁ =>
      rw [hnested] at h
      cases h
      obtain rfl : answer = .ok (.ok ()) := hok
      obtain ⟨j, hj, heval⟩ := warmupNested_ok hnested
      refine .nesting declared hj rfl rfl rfl (Variables.declares_declare hv x).1 ?_ heval
      exact linked_of_declare hv (fun y hy => (Option.some.inj hy).symm) rfl
  | produce sender queue | broadcast sender fan | consume r queue | listen r queue =>
    simp only [warmup, Store.run_bind] at h
    split at h <;> cases h
    · exact .idle rfl rfl rfl rfl rfl rfl hv
    · cases hok
  | unit u => simp [isBuiltIn] at hb
  | _ =>
    cases h
    exact .idle rfl rfl rfl rfl rfl rfl hv

end Stage

/-! ### Warming up a wire -/

namespace Store

/-- The store in which a stage counts as warmed up. -/
def mark (s : Store H) (id : Id .wire) (position : Nat) : Store H :=
  s.modifyWire id (·.modifyPlaced position fun p => { p with warmedUp := true })

/-- The store in which a wire belongs to a run. -/
def adopt (s : Store H) (id : Id .wire) (input : Value) (scope : Id .scope) (board : Id .board) :
    Store H :=
  s.modifyWire id fun w => { w with scope, board, input }

theorem eval_warmupFrom_succ (s : Store H) (nested : NestedWarmup H) (id : Id .wire)
    (position count : Nat) :
    s.eval (warmupFrom nested id position (count + 1)) =
      match (s.mark id position).wires.get? id, (s.mark id position).placedAt? id position with
      | some wire, some placed =>
        if placed.stage.capabilities.lifecycle then
          let (step, s₁) := (placed.stage.warmup nested wire).run (s.mark id position)
          let s₂ := s₁.modifyWire id (·.setStage position step.stage)
          match step.answer with
          | .error halt => (.error halt, s₂)
          | .ok (.error e) => (.ok (.error e), s₂)
          | .ok (.ok _) => s₂.eval (warmupFrom nested id (position + 1) count)
        else (s.mark id position).eval (warmupFrom nested id (position + 1) count)
      | _, _ => (.ok (.ok ()), s.mark id position) := by
  rw [warmupFrom]
  have hmark : s.modifyWire id (·.modifyPlaced position fun p => { p with warmedUp := true }) =
      s.mark id position := rfl
  simp only [eval_bind, eval_modify, eval_get, hmark]
  generalize s.mark id position = s
  rcases hw : s.wires.get? id with _ | wire
  · rfl
  rcases hp : s.placedAt? id position with _ | placed
  · rfl
  dsimp only
  by_cases hl : placed.stage.capabilities.lifecycle
  · simp only [hl, if_true, eval_bind, eval_lift, eval_modify]
    rcases (placed.stage.warmup nested wire).run s with ⟨step, s₁⟩
    dsimp only
    rcases step.answer with _ | _ | _ <;> rfl
  · simp only [hl, Bool.false_eq_true, if_false]

theorem eval_warmupWithin_succ (s : Store H) (depth : Nat) (id : Id .wire) (input : Value)
    (scope : Id .scope) (board : Id .board) :
    s.eval (warmupWithin (depth + 1) id input scope board) =
      match s.wires.get? id with
      | none => (.ok (.ok ()), s)
      | some wire =>
        if wire.composed.isNone then (.ok (.error (.notComposed wire.name)), s)
        else
          match (s.adopt id input scope board).eval
            (warmupFrom (warmupWithin depth) id 0 wire.stages.length) with
          | (.error halt, s') => (.error halt, s')
          | (.ok (.ok _), s') => (.ok (.ok ()), s')
          | (.ok (.error e), s') =>
            match s'.eval (cleanup id .nothing) with
            | (.error halt, s'') => (.error halt, s'')
            | (.ok _, s'') => (.ok (.error e), s'') := by
  rw [warmupWithin]
  have hadopt : s.modifyWire id (fun w => { w with scope, board, input }) =
      s.adopt id input scope board := rfl
  simp only [eval_bind, eval_get]
  rcases hw : s.wires.get? id with _ | wire
  · rfl
  dsimp only
  by_cases hc : wire.composed.isNone
  · simp only [hc, if_true, eval_pure]
  · simp only [hc, Bool.false_eq_true, if_false, eval_bind, eval_modify, hadopt]
    rcases (s.adopt id input scope board).eval
      (warmupFrom (warmupWithin depth) id 0 wire.stages.length) with ⟨_ | _ | _, s'⟩
    · rfl
    · dsimp only
      simp only [eval_bind]
      rcases s'.eval (cleanup id .nothing) with ⟨_ | _, s''⟩ <;> rfl
    · rfl

/-- When a wire was warmed up, so were all its stages. -/
theorem warmupFrom_of_warmupWithin {wire : Wire H} {input : Value} {scope : Id .scope}
    {board : Id .board} (hw : s.wires.get? id = some wire)
    (h : s.eval (warmupWithin (depth + 1) id input scope board) = (.ok (.ok ()), s')) :
    (s.adopt id input scope board).eval (warmupFrom (warmupWithin depth) id 0 wire.stages.length) =
      (.ok (.ok ()), s') := by
  rw [eval_warmupWithin_succ, hw] at h
  dsimp only at h
  split at h
  · simp at h
  · rcases hfrom : (s.adopt id input scope board).eval
      (warmupFrom (warmupWithin depth) id 0 wire.stages.length) with ⟨_ | _ | _, s₁⟩
    · simp [hfrom] at h
    · rw [hfrom] at h
      dsimp only at h
      rcases hclean : s₁.eval (cleanup id .nothing) with ⟨_ | _, s₂⟩ <;> simp [hclean] at h
    · simpa [hfrom] using h

theorem stageAt?_mark (s : Store H) (id : Id .wire) (position : Nat) (j : Id .wire) (n : Nat) :
    (s.mark id position).stageAt? j n = s.stageAt? j n := by
  refine s.stageAt?_modifyWire id (fun w => ?_) j
  simp only [Wire.modifyPlaced, List.getElem?_modify]
  split
  · cases w.stages[n]? <;> rfl
  · simp

theorem code_mark (s : Store H) (id : Id .wire) (position : Nat) :
    (s.mark id position).code = s.code := by
  refine s.code_modifyWire id fun w => List.ext_getElem? fun n => ?_
  simp only [Wire.code, Wire.modifyPlaced, List.getElem?_map, List.getElem?_modify]
  split
  · cases w.stages[n]? <;> rfl
  · simp

theorem settles_mark (hv : s.vars.Scoped σ) (id : Id .wire) (position : Nat) :
    Settles σ s (s.mark id position) [] := by
  refine .of_same hv rfl (s.code_mark id position) (fun j hj => ?_) (s.stageAt?_mark id position)
  rw [← hj]
  exact (Keeps.modifyWire (T := Set.univ) (π := Wire.scope)
    (f := (·.modifyPlaced position fun p => { p with warmedUp := true })) trivial
    fun _ _ => rfl).same j

theorem settles_adopt (hv : s.vars.Scoped σ) (id : Id .wire) (input : Value) (board : Id .board) :
    Settles σ s (s.adopt id input σ board) [] := by
  refine .of_same hv rfl (s.code_modifyWire id fun _ => rfl) (fun j hj => ?_)
    (fun j n => s.stageAt?_modifyWire id (f := fun w => { w with scope := σ, board, input })
      (fun _ => rfl) j)
  by_cases hij : id = j
  · subst hij
    rw [adopt, get?_modifyWire_self, Option.map_map]
    obtain ⟨w, hw, -⟩ := Option.map_eq_some_iff.1 hj
    rw [hw]
    rfl
  · rwa [adopt, get?_modifyWire_of_ne _ hij]

theorem exists_of_code (h : s.code id = some plans) :
    ∃ w, s.wires.get? id = some w ∧ w.code = plans :=
  Option.map_eq_some_iff.1 h

/-- The stage whose plan stands at a position. -/
theorem placedAt?_of_code {w : Wire H} (hw : s.wires.get? id = some w) {plan : Option (Stage H)}
    (h : w.code[position]? = some plan) :
    ∃ p, s.placedAt? id position = some p ∧ p ∈ w.stages ∧ p.stage.plan? = plan ∧
      s.stageAt? id position = some p.stage := by
  rw [Wire.code, List.getElem?_map] at h
  obtain ⟨p, hp, hplan⟩ := Option.map_eq_some_iff.1 h
  exact ⟨p, by simp [placedAt?, hw, hp], List.mem_of_getElem? hp, hplan, by
    simp [stageAt?, hw, hp]⟩

section Settles

variable {code : Code H} {T : Set (Id .wire)} (hclosed : code.Closed (·.isBuiltIn = true) T)

include hclosed

/-- What the visit of a stage comes to, with the visits of the wire that it runs. -/
theorem settles_stage {nested : NestedWarmup H}
    (hn : ∀ (s s' : Store H) (j : Id .wire) (input : Value) (board : Id .board), j ∈ T →
      s.code = code → s.vars.Scoped σ →
      s.eval (nested j input σ board) = (.ok (.ok ()), s') →
        code.Height depth j ∧ Settles σ s s' (code.visits depth j)) (hi : i ∈ T) {wire : Wire H}
    {stage : Stage H} (hat : s.stageAt? i position = some stage) (hcode : s.code = code)
    (hchild : ∀ j, stage.nested? = some j → code.Child i j) (hscope : wire.scope = σ)
    (h : stage.WarmedUp nested wire stage' s s') :
    (∀ j, stage.nested? = some j → code.Height depth j) ∧
      Settles σ s (s'.modifyWire i (·.setStage position stage'))
        (⟨i, position, stage.bare⟩ :: Code.innerVisits (code.visits depth) stage.bare) := by
  obtain ⟨s₁, hwires, hvars, hlinked, hnone, hsome⟩ := h.inner
  rw [hscope] at hvars hlinked hsome
  unfold Code.innerVisits
  rw [Stage.nested?_bare]
  cases hj : stage.nested? with
  | none =>
    obtain rfl := hnone hj
    refine ⟨by simp, .nest hat h.bare h.calm hwires hvars hlinked ?_ (by simp)⟩
    exact .of_same hvars.ready rfl rfl (fun _ h => h) fun _ _ => rfl
  | some j =>
    have hcode₁ : s₁.code = code := by
      rw [← hcode]
      funext k
      simp only [Store.code, hwires]
    obtain ⟨hheight, hsettles⟩ := hn s₁ s' j _ _ (hclosed.child i hi j (hchild j hj)) hcode₁
      hvars.ready (hsome j hj)
    refine ⟨fun k hk => Option.some.inj hk ▸ hheight,
      .nest hat h.bare h.calm hwires hvars hlinked hsettles fun v hv hvi => ?_⟩
    exact hheight.not_below (hchild j hj) (hvi ▸ Code.below_of_mem_visits hv)

/-- What warming up the stages of a wire from a position on comes to. -/
theorem settles_warmupFrom {nested : NestedWarmup H}
    (hn : ∀ (s s' : Store H) (j : Id .wire) (input : Value) (board : Id .board), j ∈ T →
      s.code = code → s.vars.Scoped σ →
      s.eval (nested j input σ board) = (.ok (.ok ()), s') →
        code.Height depth j ∧ Settles σ s s' (code.visits depth j)) (hi : i ∈ T)
    {rest : List (Option (Stage H))} (hplans : code i = some plans)
    (hrest : plans.drop position = rest) (hcode : s.code = code) (hv : s.vars.Scoped σ)
    (hscope : (s.wires.get? i).map Wire.scope = some σ)
    (h : s.eval (warmupFrom nested i position rest.length) = (.ok (.ok ()), s')) :
    (∀ st, some st ∈ rest → ∀ j, st.nested? = some j → code.Height depth j) ∧
      Settles σ s s' (Code.visitsFrom (code.visits depth) i position rest) := by
  induction rest generalizing s position with
  | nil =>
    simp only [List.length_nil, warmupFrom, eval_pure, Prod.mk.injEq, true_and] at h
    subst h
    exact ⟨by simp, .of_same hv rfl rfl (fun _ h => h) fun _ _ => rfl⟩
  | cons plan rest ih =>
    have hmark := settles_mark hv i position
    have hcode' : (s.mark i position).code = code := hmark.code.trans hcode
    obtain ⟨w, hw, hwcode⟩ := exists_of_code (congrFun hcode' i ▸ hplans)
    have hat : w.code[position]? = some plan := by
      rw [hwcode, ← List.head?_drop, hrest]
      rfl
    obtain ⟨p, hp, hpmem, hplan, hstage⟩ := placedAt?_of_code hw hat
    obtain ⟨hbare, hbuilt, hsub⟩ := hclosed.stage hi (hwcode ▸ hplans) hpmem
    obtain rfl : some p.stage.bare = plan := hbare.symm.trans hplan
    rw [Stage.isBuiltIn_bare] at hbuilt
    have hwscope : w.scope = σ := by
      have := hmark.scope i hscope
      rw [hw] at this
      exact Option.some.inj this
    have hchild : ∀ j, p.stage.nested? = some j → code.Child i j := fun j hj =>
      ⟨plans, hplans, p.stage.bare, List.mem_of_mem_drop (hrest ▸ List.mem_cons_self), by simpa⟩
    -- The stage is visited first, with the wire that it runs.
    have hvisit : ∃ s₁ : Store H, (∀ j, p.stage.nested? = some j → code.Height depth j) ∧
        Settles σ (s.mark i position) s₁
          (⟨i, position, p.stage.bare⟩ ::
            Code.innerVisits (code.visits depth) p.stage.bare) ∧
        s₁.eval (warmupFrom nested i (position + 1) rest.length) = (.ok (.ok ()), s') := by
      rw [List.length_cons, eval_warmupFrom_succ, hw, hp] at h
      dsimp only at h
      by_cases hlife : p.stage.capabilities.lifecycle
      · rw [if_pos hlife] at h
        rcases hstep : (p.stage.warmup nested w).run (s.mark i position) with ⟨step, s₁⟩
        rw [hstep] at h
        dsimp only at h
        rcases hanswer : step.answer with _ | _ | _ <;> rw [hanswer] at h
        · simp at h
        · simp at h
        · obtain ⟨hheight, hsettles⟩ := settles_stage hclosed hn hi hstage hcode' hchild hwscope
            (Stage.warmup_ok hbuilt (hwscope ▸ hmark.vars.ready) hstep hanswer)
          exact ⟨_, hheight, hsettles, h⟩
      · rw [if_neg hlife] at h
        -- A stage without a warm-up has neither a variable nor a wire.
        have hidle : p.stage.nested? = none ∧ p.stage.uses? = none ∧ p.stage.underway = false := by
          cases hst : p.stage <;> first | exact ⟨rfl, rfl, rfl⟩ | simp_all [Stage.capabilities, Stage.isBuiltIn]
        refine ⟨_, by simp [hidle.1], ?_, h⟩
        rw [Code.innerVisits, Stage.nested?_bare, hidle.1]
        exact .idle hmark.vars.ready hstage hidle.2.1 hidle.2.2
    obtain ⟨s₁, hheight, hsettles, h⟩ := hvisit
    obtain ⟨hheights, hlater⟩ := ih (by rw [← List.tail_drop, hrest, List.tail_cons])
      (hsettles.code.trans hcode') hsettles.vars.ready (hsettles.scope i (hmark.scope i hscope)) h
    refine ⟨fun st hst j hj => ?_, ?_⟩
    · rcases List.mem_cons.1 hst with hst | hst
      · obtain rfl := Option.some.inj hst
        exact hheight j (by simpa using hj)
      · exact hheights st hst j hj
    · exact hmark.append (hsettles.append hlater)

/-- What warming up a wire comes to. -/
theorem settles_warmupWithin (hi : i ∈ T) (hcode : s.code = code) (hv : s.vars.Scoped σ)
    {input : Value} {board : Id .board}
    (h : s.eval (warmupWithin depth i input σ board) = (.ok (.ok ()), s')) :
    code.Height depth i ∧ Settles σ s s' (code.visits depth i) := by
  induction depth generalizing i s s' input board with
  | zero => simp [warmupWithin] at h
  | succ depth ih =>
    obtain ⟨stages, hstages, -⟩ := hclosed.known i hi
    obtain ⟨w, hw, hwcode⟩ := exists_of_code (congrFun hcode i ▸ hstages)
    have hfrom := warmupFrom_of_warmupWithin hw h
    have hadopt := settles_adopt hv i input board
    have hplans : code i = some w.code := by rw [hwcode, hstages]
    have hlength : w.code.length = w.stages.length := List.length_map _
    have hscope : ((s.adopt i input σ board).wires.get? i).map Wire.scope = some σ := by
      rw [adopt, get?_modifyWire_self, hw]
      rfl
    obtain ⟨hheights, hsettles⟩ := settles_warmupFrom hclosed
      (fun s s' j input board hj hcode hv h => ih hj hcode hv h) hi hplans (rfl : w.code.drop 0 = w.code)
      (hadopt.code.trans hcode) hadopt.vars.ready hscope (hlength ▸ hfrom)
    refine ⟨fun j hj => ?_, ?_⟩
    · obtain ⟨plans, hplans', st, hst, hnested⟩ := hj
      obtain rfl := Option.some.inj (hplans.symm.trans hplans')
      exact hheights st hst j hnested
    · rw [Code.visits, hplans]
      exact hadopt.append hsettles

end Settles

end Store

end Dataflow
