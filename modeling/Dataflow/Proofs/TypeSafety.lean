import Dataflow.Proofs.Judgments
import Dataflow.Proofs.Safety
import Dataflow.Proofs.Slots
/-!
# Composition rules out failures of types

A wire that composes is typed, and once it is warmed up its stages are linked to slots of their own
variables. So it is poised when its run begins, and stays so until the run ends.
-/

namespace Dataflow

variable {H : Host} {depth n : Nat} {i j : Id .wire} {st : Stage H} {σ : Id .scope} {s s' : Store H}

/-! ### From a warm-up to a run -/

/-- Each stage of each wire below a wire is visited. -/
theorem Code.mem_visits {code : Code H} (hheight : code.Height depth i) (hij : code.Below i j)
    {plans : List (Option (Stage H))} (hplans : code j = some plans)
    (hst : plans[n]? = some (some st)) :
    ⟨j, n, st⟩ ∈ code.visits depth i := by
  induction hij using Relation.ReflTransGen.head_induction_on generalizing depth with
  | refl =>
    cases depth with
    | zero => exact hheight.elim
    | succ depth =>
      rw [visits, hplans, Option.getD_some, visitsFrom_split _ _ hst]
      exact List.mem_append_right _ List.mem_cons_self
  | head hchild _ ih =>
    cases depth with
    | zero => exact hheight.elim
    | succ depth =>
      have hmem := ih (hheight _ hchild)
      obtain ⟨plans', hplans', st', hst', hnested⟩ := hchild
      obtain ⟨m, hm⟩ := List.mem_iff_getElem?.1 hst'
      rw [visits, hplans', Option.getD_some, visitsFrom_split _ _ hm, innerVisits, hnested]
      exact List.mem_append_right _ (List.mem_cons_of_mem _ (List.mem_append_left _ hmem))

namespace Store

variable {code : Code H}

/-- After a warm-up, each stage of a tree is linked as of its last visit. -/
theorem stage_of_settles {sort : Stage H → Prop} (hclosed : code.Closed sort {j | code.Below i j})
    (hcode : s.code = code) (hheight : code.Height depth i)
    (h : Settles σ s s' (code.visits depth i)) (hj : code.Below i j)
    (hst : s'.stageAt? j n = some st) :
    st.isBuiltIn = true ∧ st.underway = false ∧ ∃ declared, st.declares ⊆ declared ∧
      st.Linked σ s.vars s'.vars declared := by
  obtain ⟨plans, hplans, hget⟩ := plannedAt_of_stageAt? hst
  rw [h.code, hcode] at hplans
  obtain ⟨stages, hstages, -⟩ := hclosed.known j hj
  obtain rfl := Option.some.inj (hplans.symm.trans hstages)
  rw [List.getElem?_map] at hget
  obtain ⟨st₀, hst₀, hplan⟩ := Option.map_eq_some_iff.1 hget
  obtain ⟨hbuilt, -⟩ := Stage.plan?_eq_some_iff.1 hplan.symm
  have hvisit : (⟨j, n, st₀⟩ : Visit H) ∈ code.visits depth i :=
    Code.mem_visits hheight hj hplans (by rw [List.getElem?_map, hst₀, Option.map_some])
  -- what counts is the last visit
  obtain ⟨pre, post, hsplit⟩ := List.append_of_mem hvisit
  obtain ⟨before, u, after, heq, hwire, hposition, hlast, -⟩ := Visit.exists_last pre ⟨j, n, st₀⟩ post
  rw [← hsplit] at heq
  dsimp only at hwire hposition
  obtain ⟨st', hst', hbare, hidle, hlinked⟩ := h.visited before u after heq hlast
  rw [hwire, hposition, hst] at hst'
  obtain rfl := Option.some.inj hst'
  refine ⟨hbuilt, hidle, _, fun x hx => ?_, hlinked⟩
  rw [Visit.names_append, List.mem_append]
  refine .inr ?_
  rw [← Stage.declares_bare, hbare] at hx
  simpa [Visit.names] using hx

/-- After a warm-up in a scope with nothing around it, all stages of a tree are linked to variables
of the scope, and no wire is under way. -/
theorem rigged_of_settles (hclosed : code.Closed (·.isPlain = true) {j | code.Below i j})
    (hcode : s.code = code) (hheight : code.Height depth i)
    (h : Settles σ s s' (code.visits depth i)) (houter : ∀ x, s.vars.outer σ x = none) :
    Rigged (s'.vars.own σ) code i s' ∧ ∀ j, code.Below i j → s'.Calm j := by
  refine ⟨⟨h.code.trans hcode, ⟨h.vars.ready.valid, h.vars.ready.inj⟩, fun j hj n st hst => ?_⟩,
    fun j hj n st hst => (stage_of_settles hclosed hcode hheight h hj hst).2.1⟩
  obtain ⟨hbuilt, -, declared, -, hlinked⟩ := stage_of_settles hclosed hcode hheight h hj hst
  refine ⟨hbuilt, fun x hx => ?_⟩
  obtain ⟨slot, hslot, hmeans⟩ := hlinked x hx
  split at hmeans
  · exact ⟨slot, hmeans, hslot⟩
  · rw [houter] at hmeans
    cases hmeans

/-! ### Whole runs -/

/-- Whatever the number of resumptions, all failures of a poised wire are excused. -/
theorem innocent_driveEvents {own : String → Option (Id .slot)} {c : Contract} (limit : Nat)
    {position : Nat} (hheight : code.Height s.depthBound i) (hrig : Rigged own code i s)
    (hcursor : s.cursorAt? i = some position) (h : Poised code s (tagsOf own s.vars) i position c) :
    Innocent (driveEvents i limit s) := by
  induction limit generalizing s position with
  | zero => exact .nil
  | succ limit ih =>
    obtain ⟨hupshot, hinnocent⟩ := safe_resumeWithin own code s.depthBound i s position c hheight hrig
      hcursor h
    have hsteady := s.steady_resumeWithin s.depthBound i
    rw [driveEvents]
    refine hinnocent.append ?_
    rw [eval_resume, ← depthBound]
    rcases hr : s.eval (resumeWithin s.depthBound i) with ⟨_ | point | _ | _, s'⟩
    · exact .nil
    · rw [hr] at hupshot hsteady
      obtain ⟨position', hcursor', hpoised⟩ := hupshot
      refine ih ?_ (hrig.of_steady hsteady) hcursor' hpoised
      rw [depthBound, hsteady.keeps.size]
      exact hheight
    · exact .nil
    · exact .nil

/-- A wire that is typed for a value is poised when a run of it with that value begins. -/
theorem poised_of_begun {s₁ s₂ : Store H} {site : Site} {signature : Signature} {input : Value}
    {board : Id .board} (hclosed : s.code.Closed (·.isPlain = true) {j | s.code.Below i j})
    (hcode : s₁.code = s.code) (hjudged : Judged s.code i site signature)
    (hsite : site.shared = [] ∧ site.input = input.ty)
    (h : s₁.eval (beginRun i input none board) = (.ok (.ok ()), s₂)) :
    ∃ own, let s' := s₂.modifyWire i fun w => { w with looped := false }
      s.code.Height s'.depthBound i ∧ Rigged own s.code i s' ∧ s'.cursorAt? i = some 0 ∧
        ∃ after, Poised s.code s' (tagsOf own s'.vars) i 0
          ⟨Env.ofDecls [], signature.output.tag, after⟩ := by
  obtain ⟨hscoped, houter⟩ := s₁.vars.scoped_addScope_none
  have hbuilt : s.code.Closed (·.isBuiltIn = true) {j | s.code.Below i j} :=
    hclosed.imp fun st hst => by cases st <;> first | rfl | cases hst
  obtain ⟨s₀, s', hready, hvars, rfl, hheight, hsettles⟩ := settles_beginRun hbuilt
    Relation.ReflTransGen.refl hcode hscoped h
  obtain ⟨hrig, hcalm⟩ := rigged_of_settles hclosed hready hheight hsettles (hvars ▸ houter)
  obtain ⟨plans, hplans, htyped⟩ := hjudged.typed
  rw [hsite.1, hsite.2] at htyped
  obtain ⟨w, hw, -⟩ := exists_of_code (s := s') (hrig.same ▸ hplans)
  have hstart := get?_start hw input
  have hsteady : Steady {j | s.code.Below i j} s'
      ((s'.start i input).modifyWire i fun w => { w with looped := false }) :=
    (steady_start Relation.ReflTransGen.refl s' input).trans
      (.modifyWire Relation.ReflTransGen.refl (by exact fun _ _ => rfl))
  have hrow := (s'.start i input).get?_modifyWire_self i fun w => { w with looped := false }
  rw [hstart, Option.map_some] at hrow
  refine ⟨s'.vars.own (s₁.vars.addScope none).1, ?_, hrig.of_steady hsteady, ?_, _,
    .ready ⟨hrow, hplans, htyped, ?_, (Fits.self input).inputTag plans,
      (Fits.self input).inputTag plans, ?_, .refl _⟩ (fun j hj n st hst => ?_) htyped⟩
  · rw [depthBound, hsteady.keeps.size, size_of_code_eq (hrig.same.trans hready.symm)]
    exact hheight
  · rw [cursorAt?, hrow]
    rfl
  · exact stopping_start hw input rfl
  · intro x k b hx
    cases hx
  · rw [stageAt?_modifyWire _ _ (by exact fun _ => rfl), stageAt?_start] at hst
    exact hcalm j hj n st hst

/-- A wire binds a buffer for a wire that reads it and then runs a looped wire, which keeps the
largest number in a variable and adds it to one. -/
def overflowing : Store Host.none :=
  let (v, s) := ({} : Store Host.none).addWire "add" true
  let (u, s) := s.addWire "use" false
  let (a, s) := s.addWire "main" false
  let stages (stages : List (Stage Host.none)) (w : Wire Host.none) : Wire Host.none :=
    { w with stages := stages.map fun stage => { stage } }
  let s := s.modifyWire v (stages
    [.set "n" .nothing none, .const (.int 1), .add { value := .ref "n" }])
  let s := s.modifyWire u (stages
    [.get "b" none, .const (.int 0x7fffffffffffffff), .inline { wire := some v }])
  s.modifyWire a (stages [.buffer { size := 4 }, .bound "b" { wire := some u } none])

/-- Whether an activation failed. -/
def fails (e : Event H) : Bool :=
  match e.answer with
  | .ok (.error _) => true
  | _ => false

end Store

end Dataflow
