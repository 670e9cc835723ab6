import Dataflow.Proofs.TypeSafety
/-!
# The composed output type describes the output

A run that is driven to its end outputs a value of the kind that the composition has found. For the
types of single values this is the whole type.

A composition that finds no value says nothing about the output. It takes the input of a wire whose
first stage ignores it for no value, and a later stage that outputs the input of the wire is
composed for that, but outputs whatever the input was.
-/

namespace Dataflow

variable {H : Host} {limit : Nat} {s s' : Store H}

/-- The types of single values, which have nothing inside. -/
def Ty.isScalar : Ty → Bool
  | bool | int | float | string | bytes | wire | type => true
  | _ => false

/-- A type without anything inside takes all types of its kind. -/
theorem Ty.accepts_of_tag_eq {receiver input : Ty} (h : receiver.isScalar = true)
    (htag : receiver.tag = input.tag) : receiver.accepts input = true := by
  cases receiver with
  | bool | int | float | string | bytes | wire | type => cases input <;> first | rfl | cases htag
  | _ => cases h

theorem Ty.tag_ne_of_isScalar {t : Ty} (h : t.isScalar = true) : t.tag ≠ Ty.nothing.tag := by
  cases t with
  | bool | int | float | string | bytes | wire | type => decide
  | _ => cases h

namespace Store

/-- What a poised wire ends with has the tag of its typing. -/
theorem fits_driveToEnd {code : Code H} {i : Id .wire} {own : String → Option (Id .slot)}
    {c : Contract} {position : Nat} (hheight : code.Height s.depthBound i)
    (hrig : Rigged own code i s) (hcursor : s.cursorAt? i = some position)
    (h : Poised code s (tagsOf own s.vars) i position c) {output : Value}
    (hend : s.eval (driveToEnd i limit) = (.ok (.stopped output), s')) : Fits output c.output := by
  induction limit generalizing s position with
  | zero => cases hend
  | succ limit ih =>
    obtain ⟨hupshot, -⟩ := safe_resumeWithin own code s.depthBound i s position c hheight hrig
      hcursor h
    have hsteady := s.steady_resumeWithin s.depthBound i
    rw [driveToEnd, eval_bind, eval_resume, ← depthBound] at hend
    rcases hr : s.eval (resumeWithin s.depthBound i) with ⟨_ | point | v | failure, s₁⟩ <;>
      rw [hr] at hend hupshot hsteady
    · cases hend
    · obtain ⟨position', hcursor', hpoised⟩ := hupshot
      refine ih ?_ (hrig.of_steady hsteady) hcursor' hpoised hend
      rw [depthBound, hsteady.keeps.size]
      exact hheight
    · cases hend
      exact hupshot.1
    · cases hend

/-- A run that has stopped was composed, begun and driven to its end. -/
theorem runOnce_stopped {id : Id .wire} {input output : Value} {wire : Wire H}
    (hw : s.wires.get? id = some wire)
    (h : s.eval (runOnce limit id input) = (.ok (.ok (.stopped output)), s')) :
    ∃ signature s₁ s₂ s₃, s.eval (composeOwned id (ownSite wire input)) = (.ok signature, s₁) ∧
      s₁.eval (beginRun id input none wire.board) = (.ok (.ok ()), s₂) ∧
      (s₂.modifyWire id fun w => { w with looped := false }).eval (driveToEnd id limit) =
        (.ok (.stopped output), s₃) := by
  rw [eval_runOnce hw] at h
  rcases hcompose : s.eval (composeOwned id (ownSite wire input)) with ⟨_ | signature, s₁⟩ <;>
    rw [hcompose] at h <;> dsimp only at h
  · cases h
  rcases hbegin : s₁.eval (beginRun id input none wire.board) with ⟨_ | _ | _, s₂⟩ <;>
    rw [hbegin] at h <;> dsimp only at h
  · cases h
  · cases h
  simp only [eval_bind, eval_modify] at h
  rcases hdrive : (s₂.modifyWire id fun w => { w with looped := false }).eval (driveToEnd id limit)
    with ⟨_ | outcome, s₃⟩ <;> rw [hdrive] at h <;> dsimp only at h
  · cases h
  simp only [endRun, eval_bind, eval_modify, eval_pure] at h
  rcases hclean : (s₃.modifyWire id fun w => { w with looped := wire.looped }).eval
    (cleanup id outcome.output) with ⟨_ | _, s₄⟩ <;> rw [hclean] at h <;> cases h
  exact ⟨signature, s₁, s₂, s₃, rfl, hbegin, hdrive⟩

/-- If a fresh tree of plain stages composes for a value and the output type is that of a single
value, then the output of a run with that value has this type. -/
theorem output_has_type {T : Set (Id .wire)} {s s' : Store H}
    (hclosed : s.code.Closed (·.isPlain = true) T) (hfresh : ∀ j ∈ T, s.isComposed j = false)
    {id : Id .wire} (hid : id ∈ T) {wire : Wire H} (hw : s.wires.get? id = some wire) (input : Value)
    (hL : NoCollision (ownedRequests id (ownSite wire input) s)) (limit : Nat) {output : Value}
    (hrun : s.eval (runOnce limit id input) = (.ok (.ok (.stopped output)), s'))
    {signature : Signature}
    (hcompose : (s.eval (composeOwned id (ownSite wire input))).1 = .ok signature)
    (hscalar : signature.output.isScalar = true) :
    signature.output.accepts output.ty = true := by
  obtain ⟨signature', s₁, s₂, s₃, hcompose', hbegin, hdrive⟩ := runOnce_stopped hw hrun
  rw [hcompose'] at hcompose
  obtain rfl : signature' = signature := Except.ok.inj hcompose
  obtain ⟨hjudged, hcode⟩ := judged_composeOwned hclosed hfresh hid .nil input.ty_ne_any hL hcompose'
  obtain ⟨own, hheight, hrig, hcursor, after, hpoised⟩ := poised_of_begun (hclosed.of_below hid) hcode
    hjudged ⟨rfl, rfl⟩ hbegin
  refine Ty.accepts_of_tag_eq hscalar ?_
  rcases fits_driveToEnd hheight hrig hcursor hpoised hdrive with hnothing | htag
  · exact absurd hnothing (Ty.tag_ne_of_isScalar hscalar)
  · exact htag.symm

/-- The type of the value that a run has stopped with. -/
def stoppedTy? : Except Halt (Except ComposeError Outcome) → Option Ty
  | .ok (.ok (.stopped output)) => some output.ty
  | _ => none

/-- A wire that keeps a number in a variable and binds a buffer for a wire that doubles the number. -/
def doubling : Store Host.none :=
  let (a, s) := ({} : Store Host.none).addWire "main" false
  let (v, s) := s.addWire "double" false
  let stages (stages : List (Stage Host.none)) (w : Wire Host.none) : Wire Host.none :=
    { w with stages := stages.map fun stage => { stage } }
  let s := s.modifyWire v (stages [.get "n" none, .add { value := .ref "n" }])
  s.modifyWire a (stages
    [.set "n" .nothing none, .buffer { size := 4 }, .bound "b" { wire := some v } none])

/-- Doubling a number is composed for a number, and gives one. -/
theorem doubling_has_type :
    ∃ output s', doubling.eval (runOnce 1 ⟨0⟩ (.int 5)) = (.ok (.ok (.stopped output)), s') ∧
      Ty.int.accepts output.ty = true := by
  have hstopped : (stoppedTy? (doubling.eval (runOnce 1 ⟨0⟩ (.int 5))).1).isSome = true := by
    decide +kernel
  have hboard : (doubling.wires.get? ⟨0⟩).map (·.board) = some ⟨0⟩ := by decide +kernel
  have hcomposed : (doubling.eval (composeOwned ⟨0⟩ (plainSite .int))).1.toOption.map (·.output) =
      some .int := by decide +kernel
  obtain ⟨wire, hw, hboard⟩ := Option.map_eq_some_iff.1 hboard
  have hsite : ownSite wire (.int 5) = plainSite .int := by
    rw [ownSite, hboard]
    rfl
  rcases hcompose : (doubling.eval (composeOwned ⟨0⟩ (plainSite .int))).1 with _ | signature <;>
    rw [hcompose] at hcomposed
  · cases hcomposed
  have hint : signature.output = .int := Option.some.inj hcomposed
  have hscalar : signature.output.isScalar = true := by
    rw [hint]
    rfl
  rcases hrun : doubling.eval (runOnce 1 ⟨0⟩ (.int 5)) with ⟨_ | _ | output | _, s'⟩ <;>
    rw [hrun] at hstopped
  · cases hstopped
  · cases hstopped
  · refine ⟨output, s', rfl, hint ▸ output_has_type (closed_of_rows (by decide +kernel))
      (fresh_of_rows (by decide +kernel)) (by decide +kernel) hw (.int 5) ?_ 1 hrun
      (hsite ▸ hcompose) hscalar⟩
    rw [hsite]
    decide +kernel
  · cases hstopped

/-- A wire that outputs its input after a constant. -/
def recalling : Store Host.none :=
  let (a, s) := ({} : Store Host.none).addWire "main" false
  s.modifyWire a fun w => { w with stages := [{ stage := .const (.int 1) }, { stage := .input }] }

/-- A wire that ignores its input at first and outputs it in the end is composed for no value, but
outputs a number. -/
theorem recalling_is_untyped :
    ((recalling.eval (composeOwned ⟨0⟩ (plainSite .int))).1.toOption.map (·.output)) =
        some .nothing ∧
      stoppedTy? (recalling.eval (runOnce 1 ⟨0⟩ (.int 5))).1 = some .int ∧
      Ty.nothing.accepts .int = false := by
  decide +kernel

end Store

end Dataflow
