import Dataflow.Proofs.Nesting
import Dataflow.Proofs.Records
/-!
# The trail of a composition

A composition keeps a stack of the shared wires that it has entered, and refuses those that are on
it. Each level of nesting enters another wire, so there are never more levels than wires: the bound
on the depth of nesting is never reached. A wire is taken off the stack again on every way out,
whether it is composed, refused or answered from its memo.

The functions that list the steps follow those that compose, on the same stores, as those in
`Dataflow.Proofs.Requests` do. Nothing of them is used when a wire is composed.
-/

namespace Dataflow

variable {H : Host} {depth : Nat} {s : Store H} {stack : List (Id .wire)}

/-! ### The bound on the depth -/

namespace Store

section

variable {nested nested' : NestedCompose H} {n : Nat}
  (hn : ∀ (s : Store H) j site, s.wires.size = n → s.eval (nested j site) = s.eval (nested' j site))
  (hstill : ∀ (s : Store H) j site, Still s (s.eval (nested j site)).2)

include hn

theorem eval_bindParam_congr (hs : s.wires.size = n) (stage : Stage H) (place : Place) (here : Site)
    (param : Param) (value : Value) :
    s.eval (bindParam nested stage place here param value) =
      s.eval (bindParam nested' stage place here param value) := by
  simp only [eval_bindParam, hn s _ _ hs]

include hstill

theorem eval_bindParams_congr (hs : s.wires.size = n) (stage : Stage H) (place : Place)
    (here : Site) (index : Nat) (params : List Param) :
    s.eval (bindParams nested stage place here index params) =
      s.eval (bindParams nested' stage place here index params) := by
  induction params generalizing s index with
  | nil => rfl
  | cons param rest ih =>
    have hsize :=
      (permits_still.bindParam hstill s stage place here param (stage.getParam index)).keeps.size
    rw [bindParams, bindParams, eval_bind, eval_bind, ← eval_bindParam_congr hn hs]
    rcases hparam : s.eval (bindParam nested stage place here param (stage.getParam index)) with
      ⟨_ | found, s₁⟩
    · rfl
    · rw [hparam] at hsize
      simp only [eval_bind, ih (hsize.trans hs) (index + 1)]

theorem eval_composeStage_congr (hs : s.wires.size = n) (id : Id .wire) (wireName : String)
    (wireInput : Ty) (site : Site) (b : Bound) (position : Nat) (stage : Stage H) :
    s.eval (composeStage nested id wireName wireInput site b position stage) =
      s.eval (composeStage nested' id wireName wireInput site b position stage) := by
  have hparams : ∀ here, s.eval (composeParams nested stage position here) =
      s.eval (composeParams nested' stage position here) := by
    intro here
    unfold composeParams
    split
    · exact eval_bindParams_congr hn hstill hs stage _ here 0 stage.params
    · rfl
  simp only [eval_composeStage, hparams]

theorem eval_composeStages_congr (hs : s.wires.size = n) (id : Id .wire) (wireName : String)
    (wireInput : Ty) (site : Site) (position : Nat) (stages : List (Placed H)) (b : Bound) :
    s.eval (composeStages nested id wireName wireInput site position stages b) =
      s.eval (composeStages nested' id wireName wireInput site position stages b) := by
  induction stages generalizing s position b with
  | nil => rfl
  | cons p rest ih =>
    have hsize := (permits_still.composeStage hstill s id wireName wireInput site b position p.stage
      trivial).keeps.size
    rw [composeStages, composeStages, eval_bind, eval_bind,
      ← eval_composeStage_congr hn hstill hs]
    rcases hstage : s.eval (composeStage nested id wireName wireInput site b position p.stage) with
      ⟨_ | b', s₁⟩
    · rfl
    · rw [hstage] at hsize
      exact ih (hsize.trans hs) (position + 1) b'

theorem eval_composeLocked_congr (hs : s.wires.size = n) (locked : List (Id .wire)) (id : Id .wire)
    (site : Site) :
    s.eval (composeLocked nested locked id site) =
      s.eval (composeLocked nested' locked id site) := by
  have hforget : (s.modifyWire id forget).wires.size = n := by rw [size_modifyWire, hs]
  simp only [eval_composeLocked, eval_composeFresh, eval_composeStages_congr hn hstill hforget]

end

/-- A composition does not depend on the bound, once the bound is larger than the number of wires
that are not entered. -/
theorem eval_composeWithin_stable {depth' : Nat} {trail : Trail} (hnodup : trail.entered.Nodup)
    (hrows : ∀ v ∈ trail.entered, v.row < s.wires.size)
    (hdepth : s.wires.size < depth + trail.entered.length)
    (hdepth' : s.wires.size < depth' + trail.entered.length) (id : Id .wire) (site : Site) :
    s.eval (composeWithin depth trail id site) = s.eval (composeWithin depth' trail id site) := by
  have hlength := length_le_of_rows hnodup hrows
  induction depth generalizing depth' trail s id site with
  | zero => omega
  | succ depth ih =>
    obtain _ | depth' := depth'
    · omega
    rw [eval_composeWithin_succ, eval_composeWithin_succ]
    split
    · rfl
    rename_i hfresh
    split
    · rfl
    cases hw : s.wires.get? id with
    | none => simp only [eval_composeLocked, hw]
    | some wire =>
      have hnodup' : (id :: trail.entered).Nodup :=
        List.nodup_cons.2 ⟨by simpa using hfresh, hnodup⟩
      have hrows' : ∀ v ∈ id :: trail.entered, v.row < s.wires.size := by
        rintro v (_ | ⟨_, hv⟩)
        · exact row_lt_of_get? hw
        · exact hrows v hv
      -- One more wire is entered at the next level.
      refine eval_composeLocked_congr (fun s' j site' hs' => ?_)
        (fun s' j site' => permits_still.composeWithin _ _ j site' s') rfl _ id site
      rw [← hs'] at hrows' hdepth hdepth'
      exact ih hnodup' hrows' (by rw [List.length_cons]; omega) (by rw [List.length_cons]; omega) j
        site' (length_le_of_rows hnodup' hrows')

/-- No larger bound on the depth makes a difference. -/
theorem eval_composeWithin_of_le (h : s.depthBound ≤ depth) (id : Id .wire) (site : Site) :
    s.eval (composeWithin depth {} id site) = s.eval (composeShared id site) := by
  rw [eval_composeShared]
  exact eval_composeWithin_stable List.nodup_nil (by simp) (Nat.lt_of_succ_le h)
    (Nat.lt_succ_self _) id site

end Store

/-! ### The stack -/

namespace Trail

/-- What happens to the stack of the wires that are being composed. -/
inductive Move where
  /-- A wire is put on the stack. -/
  | enter (wire : Id .wire)
  /-- A wire is taken off the stack. -/
  | leave (wire : Id .wire)
  /-- A wire is found on the stack, and refused. -/
  | refuse (wire : Id .wire)
  deriving DecidableEq, Repr

/-- The stack after some steps, the last wire first, unless one of them was not possible: a wire is
entered only if it is not there, and left or refused only if it is. -/
def replay : List (Id .wire) → List Move → Option (List (Id .wire))
  | stack, [] => some stack
  | stack, .enter wire :: rest => if wire ∈ stack then none else replay (wire :: stack) rest
  | stack, .leave wire :: rest => if wire ∈ stack then replay (stack.erase wire) rest else none
  | stack, .refuse wire :: rest => if wire ∈ stack then replay stack rest else none

theorem replay_append (stack : List (Id .wire)) (steps later : List Move) :
    replay stack (steps ++ later) = (replay stack steps).bind (replay · later) := by
  induction steps generalizing stack with
  | nil => rfl
  | cons step steps ih =>
    cases step <;> simp only [List.cons_append, replay] <;> split <;> first | rfl | exact ih _

/-- Steps that leave the stack as it was leave it so one after the other. -/
theorem replay_append_of_eq {steps later : List Move} (h : replay stack steps = some stack)
    (h' : replay stack later = some stack) :
    replay stack (steps ++ later) = some stack := by
  rw [replay_append, h, Option.bind_some, h']

end Trail

namespace Store

open Trail (Move replay)

/-- The steps of nested compositions. -/
abbrev NestedSteps (H : Host) := Id .wire → Site → Store H → List Move

/-- The steps of the parameters from `index` on. -/
def paramSteps (nested : NestedCompose H) (steps : NestedSteps H) (stage : Stage H) (place : Place)
    (here : Site) : Nat → List Param → Store H → List Move
  | _, [], _ => []
  | index, param :: rest, s =>
    let own :=
      match stage.getParam index with
      | .wire sub =>
        if param.types.contains .wire then steps sub (here.nested (stage.lent here.input)) s else []
      | _ => []
    own ++
      match s.eval (bindParam nested stage place here param (stage.getParam index)) with
      | (.ok _, s') => paramSteps nested steps stage place here (index + 1) rest s'
      | (.error _, _) => []

/-- The steps of the stages from a position on. -/
def stagesSteps (nested : NestedCompose H) (steps : NestedSteps H) (id : Id .wire)
    (wireName : String) (wireInput : Ty) (site : Site) :
    Nat → List (Placed H) → Bound → Store H → List Move
  | _, [], _, _ => []
  | position, p :: rest, b, s =>
    let own :=
      if p.stage.takes b.previous && p.stage.capabilities.parameters then
        paramSteps nested steps p.stage ⟨p.stage.name, position⟩
          (hereSite wireName wireInput site b position) 0 p.stage.params s
      else []
    own ++
      match s.eval (composeStage nested id wireName wireInput site b position p.stage) with
      | (.ok b', s') => stagesSteps nested steps id wireName wireInput site (position + 1) rest b' s'
      | (.error _, _) => []

/-- The steps of composing a locked wire: none, if it is not there or its memo answers. -/
def lockedSteps (nested : NestedCompose H) (steps : NestedSteps H) (locked : List (Id .wire))
    (id : Id .wire) (site : Site) (s : Store H) : List Move :=
  match s.wires.get? id with
  | none => []
  | some wire =>
    match s.recalled? locked wire site with
    | some _ => []
    | none =>
      stagesSteps nested steps id wire.name (inputAt wire site) site 0 wire.stages
        { previous := inputAt wire site } (s.modifyWire id forget)

/-- The steps of composing a shared wire, nested so deep. A wire that is locked is entered before
that is found out. -/
def stepsWithin : Nat → Trail → NestedSteps H
  | 0, _, _, _, _ => []
  | depth + 1, trail, id, site, s =>
    if trail.entered.contains id then [.refuse id]
    else
      let inner :=
        if trail.locked.contains id then []
        else
          lockedSteps (composeWithin depth ⟨id :: trail.entered, id :: trail.locked⟩)
            (stepsWithin depth ⟨id :: trail.entered, id :: trail.locked⟩) (id :: trail.locked) id
            site s
      .enter id :: inner ++ [.leave id]

/-- The steps of composing a wire that others share. -/
def sharedSteps (id : Id .wire) (site : Site) (s : Store H) : List Move :=
  stepsWithin s.depthBound {} id site s

section

variable {nested : NestedCompose H} {steps : NestedSteps H}
  (hn : ∀ j site s, replay stack (steps j site s) = some stack)

include hn

theorem replay_paramSteps (stage : Stage H) (place : Place) (here : Site) (index : Nat)
    (params : List Param) (s : Store H) :
    replay stack (paramSteps nested steps stage place here index params s) = some stack := by
  induction params generalizing index s with
  | nil => rfl
  | cons param rest ih =>
    rw [paramSteps]
    refine Trail.replay_append_of_eq ?_ ?_
    · split
      · split
        · exact hn ..
        · rfl
      · rfl
    · split
      · exact ih ..
      · rfl

theorem replay_stagesSteps (id : Id .wire) (wireName : String) (wireInput : Ty) (site : Site)
    (position : Nat) (stages : List (Placed H)) (b : Bound) (s : Store H) :
    replay stack (stagesSteps nested steps id wireName wireInput site position stages b s) =
      some stack := by
  induction stages generalizing position b s with
  | nil => rfl
  | cons p rest ih =>
    rw [stagesSteps]
    refine Trail.replay_append_of_eq ?_ ?_
    · split
      · exact replay_paramSteps hn ..
      · rfl
    · split
      · exact ih ..
      · rfl

theorem replay_lockedSteps (locked : List (Id .wire)) (id : Id .wire) (site : Site) (s : Store H) :
    replay stack (lockedSteps nested steps locked id site s) = some stack := by
  unfold lockedSteps
  split
  · rfl
  · split
    · rfl
    · exact replay_stagesSteps hn ..

end

/-- However a composition ends, its stack is as it was. -/
theorem replay_stepsWithin (depth : Nat) (trail : Trail) (id : Id .wire) (site : Site)
    (s : Store H) : replay trail.entered (stepsWithin depth trail id site s) = some trail.entered := by
  induction depth generalizing trail id site s with
  | zero => rfl
  | succ depth ih =>
    rw [stepsWithin]
    split
    · rename_i hentered
      simp [replay, List.contains_iff_mem.1 hentered]
    · rename_i hfresh
      have hid : id ∉ trail.entered := by simpa using hfresh
      have hinner : replay (id :: trail.entered) (if trail.locked.contains id then [] else
          lockedSteps (composeWithin depth ⟨id :: trail.entered, id :: trail.locked⟩)
            (stepsWithin depth ⟨id :: trail.entered, id :: trail.locked⟩) (id :: trail.locked) id
            site s) = some (id :: trail.entered) := by
        split
        · rfl
        · exact replay_lockedSteps (fun j site s => ih ⟨id :: trail.entered, _⟩ j site s) _ id site s
      rw [List.cons_append, replay, if_neg hid, Trail.replay_append, hinner]
      simp [replay]

end Store

end Dataflow
