import Dataflow.Proofs.Finality
import Dataflow.Proofs.Reflection
/-!
# Two drivers

A wire can be driven by its caller, who composes, warms up and resumes it until it ends, or by a
mesh. A mesh with one task resumes it once in every round, since time moves on to when the task is
due. The runs are the same up to places, so both drivers come to the same result, or fail for the
same reason before any stage is activated.
-/

namespace Dataflow

variable {H : Host} {i : Id .wire} {point : Suspension} {w : Wire H} {t s' s s₁ s₂ : Store H}
  {halt : Halt} {π : Mirror} {g : Signature} {limit n : Nat} {input : Value} {outcome : Outcome}
  {e : ActivationError} {m : Mesh}

theorem Table.get?_push_of_ne {kind : Kind} {α : Type} (t : Table kind α) (a : α) {id : Id kind}
    (h : id ≠ t.next) : (t.push a).get? id = t.get? id := by
  have hrow : id.row ≠ t.rows.size := fun heq => h (congrArg Id.mk heq)
  simp [get?, push, Array.getElem?_push, hrow]

namespace Store

theorem modifyWire_eq_self {f : Wire H → Wire H} (h : ∀ w, s.wires.get? i = some w → f w = w) :
    s.modifyWire i f = s := by
  have hwires : s.wires.modify i f = s.wires := by
    refine congrArg Table.mk (Array.ext_getElem? fun n => ?_)
    rw [Array.getElem?_modify]
    split
    · rename_i hn
      subst hn
      cases hw : s.wires.rows[i.row]? with
      | none => rfl
      | some w => rw [Option.map_some, h w hw]
    · rfl
  rw [modifyWire, hwires]

/-! ### Progress of a run -/

/-- A wire that is suspended is under way. -/
theorem midRun_suspended (hw : (s.suspended i n point).wires.get? i = some w) :
    w.midRun = true := by
  unfold suspended at hw
  cases hi : s.wires.get? i with
  | none => simp [hi] at hw
  | some w₀ =>
    simp only [hi] at hw
    change (s.modifyWire i _).wires.get? i = some w at hw
    rw [get?_modifyWire_self, hi, Option.map_some, Option.some.injEq] at hw
    subst hw
    rfl

theorem midRun_of_completeIteration
    (h : s.eval (completeIteration i) = (.ok (.suspended point), s'))
    (hw : s'.wires.get? i = some w) : w.midRun = true := by
  rw [eval_completeIteration] at h
  split at h
  · cases h
  · split at h
    · cases h
    · split at h
      · cases h
        exact midRun_suspended hw
      · cases h

theorem midRun_of_advance {resume : Id .wire → Exec H Progress} {remaining : Nat}
    (h : s.eval (advance resume i n remaining) = (.ok (.suspended point), s'))
    (hw : s'.wires.get? i = some w) : w.midRun = true := by
  induction remaining generalizing n s with
  | zero => exact midRun_of_completeIteration h hw
  | succ remaining ih =>
    rw [eval_advance_succ] at h
    split at h
    · split at h
      · cases h
      · split at h
        · cases h
        · exact ih h
        · cases h
          exact midRun_suspended hw
        · exact midRun_of_completeIteration h hw
        · cases h
        · cases h
    · exact midRun_of_completeIteration h hw

/-- A wire whose run was resumed and did not end is under way. -/
theorem midRun_of_suspended {w₀ : Wire H} (hw₀ : s.wires.get? i = some w₀)
    (h : s.eval (resume i) = (.ok (.suspended point), s')) (hw : s'.wires.get? i = some w) :
    w.midRun = true := by
  rw [eval_resume] at h
  cases hp : w₀.cursor.position? with
  | none => simp [resumeWithin, eval_bind, hw₀, eval_takeUp, hp] at h
  | some n =>
    rw [eval_resumeWithin_succ _ _ hw₀ hp] at h
    exact midRun_of_advance h hw

/-- A wire that has been composed keeps a memo of it. -/
theorem composed_of_composeOwned {site : Site} (h : s.eval (composeOwned i site) = (.ok g, s'))
    (hw : s'.wires.get? i = some w) :
    w.composed.isNone = false := by
  rw [eval_composeOwned, eval_composeLocked] at h
  cases hw₀ : s.wires.get? i with
  | none => simp [hw₀] at h
  | some w₀ =>
    simp only [hw₀] at h
    split at h
    · rename_i hrecalled
      cases h
      obtain rfl := Option.some.inj (hw₀.symm.trans hw)
      rw [recalled?_eq s' [i] i w₀ site false, recallBy_eq_some_iff] at hrecalled
      obtain ⟨k, -, hmemo⟩ := hrecalled
      rw [hmemo]
      rfl
    · split at h
      · cases h
      · cases h
        rw [get?_modifyWire_self] at hw
        obtain ⟨w₁, -, rfl⟩ := Option.map_eq_some_iff.1 hw
        rfl

/-- A wire whose run has begun is under way. -/
theorem midRun_of_beginRun {parent : Option (Id .scope)} {board : Id .board}
    (h : s.eval (beginRun i input parent board) = (.ok (.ok ()), s'))
    (hw : s'.wires.get? i = some w) : w.midRun = true := by
  rw [eval_beginRun] at h
  split at h
  · cases h
  · cases h
  · rename_i s₁ _
    cases h
    unfold start at hw
    cases hi : s₁.wires.get? i with
    | none => simp [hi] at hw
    | some w₁ =>
      simp only [hi] at hw
      change (s₁.modifyWire i _).wires.get? i = some w at hw
      rw [get?_modifyWire_self, hi, Option.map_some, Option.some.injEq] at hw
      subst hw
      rfl

theorem outcome_of_endRun {o a : Outcome} (h : (s.eval (endRun i o)).1 = .ok a) : a = o := by
  rw [endRun, eval_bind] at h
  rcases hr : s.eval (cleanup i o.output) with ⟨_ | _, s₁⟩ <;> rw [hr] at h
  · cases h
  · exact (Except.ok.inj h).symm

/-- A run that has been ended is over, and its outcome is on record. -/
theorem result_of_endRun (hs : s.Coherent) (hw : s.wires.get? i = some w) {answer : Outcome}
    (h : s.eval (endRun i outcome) = (.ok answer, s')) :
    answer = outcome ∧ (s'.run w.run).state.isTerminal = true ∧
      (s'.run w.run).result = some outcome := by
  have hclean := (Coherent.custody.toUpkeep.tied s).cleanupWithin s.depthBound outcome.output i
    ⟨hs, fun _ => rfl⟩
  simp only [endRun, eval_bind, eval_cleanup] at h
  rcases hr : s.eval (cleanupWithin s.depthBound outcome.output i) with ⟨_ | _, s₁⟩ <;>
    rw [hr] at hclean h
  · cases h
  obtain ⟨hs₁, htied⟩ := hclean
  obtain ⟨rfl, rfl⟩ : outcome = answer ∧ s₁.conclude i outcome = s' := by simpa using h
  have hsame := htied i
  rw [hw, Option.map_some] at hsame
  obtain ⟨w₁, hw₁, hbonds⟩ := Option.map_eq_some_iff.1 hsame
  obtain ⟨r, hr⟩ : ∃ r, s₁.runs.get? w₁.run = some r :=
    ⟨_, Array.getElem?_eq_getElem (hs₁.known hw₁)⟩
  have hrun : (s₁.conclude i outcome).run w.run = r.close outcome := by
    rw [show w.run = w₁.run from congrArg (·.1) hbonds.symm]
    simp only [conclude, hw₁, run, modifyRun, modifyWire, Table.get?_modify_self, hr, Option.map_some,
      Option.getD_some]
  rw [hrun]
  exact ⟨rfl, by cases outcome <;> rfl, rfl⟩

end Store

namespace Mesh

open Store

/-! ### A mesh with one task -/

/-- The only task of a mesh is due, and its run is under way. -/
structure Alone (m : Mesh) (h : Handle) (s : Store H) : Prop where
  coherent : s.Coherent
  wire : ∃ w, s.wires.get? h.wire = some w ∧ w.run = h.run ∧ w.midRun = true
  task : ∃ due, m.tasks = [⟨h, due⟩] ∧ due ≤ m.clock

variable {m : Mesh} {h : Handle}

/-- Nothing is left to wait for. -/
theorem eval_runUntil_of_done {done : Store H → Bool} (hdone : done s = true) (limit : Nat) (m : Mesh) :
    s.eval (m.runUntil done limit) = (.ok m, s) := by
  cases limit <;> simp [runUntil, eval_bind, hdone]

namespace Alone

theorem isTerminal_eq_false (ha : m.Alone h s) : h.isTerminal s = false := by
  obtain ⟨w, hw, hrun, hmid⟩ := ha.wire
  cases hover : h.isTerminal s with
  | false => rfl
  | true =>
    have hidle := ha.coherent.idle hw (by rw [hrun]; exact hover)
    simp [Wire.midRun, hidle] at hmid

theorem isReady (ha : m.Alone h s) :
    ∃ due, m.tasks = [⟨h, due⟩] ∧ (⟨h, due⟩ : Task).isReady m.clock s = true := by
  obtain ⟨due, htasks, hdue⟩ := ha.task
  exact ⟨due, htasks, by simp [Task.isReady, hdue]⟩

/-- The wire keeps its record when it is resumed. -/
theorem resumed (ha : m.Alone h s) {answer : Except Halt Progress}
    (hr : s.eval (resume h.wire) = (answer, s₁)) :
    s₁.Coherent ∧ ∃ w, s₁.wires.get? h.wire = some w ∧ w.run = h.run := by
  obtain ⟨w, hw, hrun, -⟩ := ha.wire
  have hkept := (Coherent.custody.toUpkeep.tied s).resume (i := h.wire)
    (fun _ _ _ _ => Set.mem_univ _) ⟨ha.coherent, fun _ => rfl⟩
  rw [hr] at hkept
  obtain ⟨hs₁, htied⟩ := hkept
  have hsame := htied h.wire
  rw [hw, Option.map_some] at hsame
  obtain ⟨w₁, hw₁, hbonds⟩ := Option.map_eq_some_iff.1 hsame
  exact ⟨hs₁, w₁, hw₁, (congrArg (·.1) hbonds).trans hrun⟩

/-- A round in which the run is broken off. -/
theorem round_halts (ha : m.Alone h s) (hr : s.eval (resume h.wire) = (.error halt, s₁)) :
    s.eval m.round = (.error halt, s₁) := by
  obtain ⟨due, htasks, hready⟩ := ha.isReady
  simp [round, htasks, turns, Task.turn, eval_bind, hready, hr]

/-- A round in which the run is suspended. The task is due in the next round. -/
theorem round_suspends (ha : m.Alone h s)
    (hr : s.eval (resume h.wire) = (.ok (.suspended point), s₁)) :
    ∃ m₁, s.eval m.round = (.ok m₁, s₁) ∧ m₁.Alone h s₁ := by
  obtain ⟨due, htasks, hready⟩ := ha.isReady
  obtain ⟨w, hw, -⟩ := ha.wire
  obtain ⟨hs₁, w₁, hw₁, hrun⟩ := ha.resumed hr
  have hwire : ∃ w, s₁.wires.get? h.wire = some w ∧ w.run = h.run ∧ w.midRun = true :=
    ⟨w₁, hw₁, hrun, midRun_of_suspended hw hr hw₁⟩
  have hlater : ∀ due, due ≤ nextTime m.clock [⟨h, due⟩] := by
    intro due
    simp [nextTime]
  cases point with
  | yield =>
    refine ⟨_, by simp [round, htasks, turns, Task.turn, eval_bind, hready, hr]; rfl, hs₁, hwire,
      _, rfl, hlater _⟩
  | sleep delay =>
    refine ⟨_, by simp [round, htasks, turns, Task.turn, eval_bind, hready, hr]; rfl, hs₁, hwire,
      _, rfl, hlater _⟩

/-- A round in which the run comes to its end. -/
theorem round_ends (ha : m.Alone h s) {progress : Progress}
    (hr : s.eval (resume h.wire) = (.ok progress, s₁)) (hout : progress.outcome? = some outcome) :
    ∃ m₁, s.eval m.round =
      ((s₁.eval (endRun h.wire outcome)).1.map fun _ => m₁, (s₁.eval (endRun h.wire outcome)).2) := by
  obtain ⟨due, htasks, hready⟩ := ha.isReady
  refine ⟨{ m with tasks := [], clock := nextTime m.clock [] }, ?_⟩
  cases progress with
  | suspended point => cases hout
  | finished output =>
    obtain rfl := Option.some.inj hout
    simp only [round, htasks, turns, Task.turn, eval_bind, eval_get, hready, Bool.not_true,
      Bool.false_eq_true, if_false, hr]
    rcases s₁.eval (endRun h.wire (.stopped output)) with ⟨_ | _, s₂⟩ <;> rfl
  | failed failure =>
    obtain rfl := Option.some.inj hout
    simp only [round, htasks, turns, Task.turn, eval_bind, eval_get, hready, Bool.not_true,
      Bool.false_eq_true, if_false, hr]
    rcases s₁.eval (endRun h.wire (.failed failure)) with ⟨_ | _, s₂⟩ <;> rfl

/-- Waiting for the only task is driving its run to the end. -/
theorem runUntil (ha : m.Alone h s) (limit : Nat) :
    let driven := s.eval (driveToEnd h.wire limit >>= endRun h.wire)
    ∃ m', s.eval (m.runUntil (fun s => h.isTerminal s) limit) = (driven.1.map fun _ => m', driven.2) ∧
      ∀ outcome, driven.1 = .ok outcome → h.result? driven.2 = some outcome := by
  induction limit generalizing m s with
  | zero =>
    refine ⟨m, ?_, fun outcome h => by cases h⟩
    simp only [Mesh.runUntil, eval_bind, eval_get, ha.isTerminal_eq_false]
    rfl
  | succ limit ih =>
    have huntil : s.eval (m.runUntil (fun s => h.isTerminal s) (limit + 1)) =
        s.eval (m.round >>= Mesh.runUntil (fun s => h.isTerminal s) limit) := by
      simp only [Mesh.runUntil, eval_bind, eval_get, ha.isTerminal_eq_false, Bool.false_eq_true,
        if_false]
    rw [huntil, driveToEnd, eval_bind, eval_bind, eval_bind]
    rcases hr : s.eval (resume h.wire) with ⟨halt | progress, s₁⟩
    · rw [ha.round_halts hr]
      exact ⟨m, rfl, fun outcome h => by cases h⟩
    dsimp only
    cases hout : progress.outcome? with
    | none =>
      obtain ⟨point, rfl⟩ : ∃ point, progress = .suspended point := by
        cases progress with
        | suspended point => exact ⟨point, rfl⟩
        | finished output => cases hout
        | failed failure => cases hout
      obtain ⟨m₁, hround, ha₁⟩ := ha.round_suspends hr
      rw [hround]
      have hrest := ih ha₁
      rwa [eval_bind] at hrest
    | some outcome =>
      obtain ⟨m₁, hround⟩ := ha.round_ends hr hout
      rw [hround]
      obtain ⟨hs₁, w₁, hw₁, hrun⟩ := ha.resumed hr
      rcases he : s₁.eval (endRun h.wire outcome) with ⟨halt | answer, s₂⟩
      · exact ⟨m₁, by simp [Except.map, he], fun outcome h => by simp [he] at h⟩
      · obtain ⟨rfl, hover, hresult⟩ := result_of_endRun hs₁ hw₁ he
        rw [hrun] at hover hresult
        have hdone : h.isTerminal s₂ = true := hover
        refine ⟨m₁, ?_, fun outcome ho => ?_⟩
        · simp only [Except.map, he, eval_pure, eval_runUntil_of_done hdone]
        · simp only [he, eval_pure, Except.ok.injEq] at ho ⊢
          rw [Handle.result?, if_pos hdone, ← ho]
          exact hresult

/-- The answer is the outcome of the run. -/
theorem wait (ha : m.Alone h s) (hopen : m.terminated = false) {answer : Except Halt Outcome}
    (hd : s.eval (driveToEnd h.wire limit >>= endRun h.wire) = (answer, s₁)) :
    ∃ m', s.eval (m.wait limit h) = (answer.map fun outcome => (.ok outcome, m'), s₁) := by
  obtain ⟨m', huntil, hresult⟩ := ha.runUntil limit
  rw [hd] at huntil hresult
  refine ⟨m', ?_⟩
  simp only [Mesh.wait, eval_bind, eval_get, hopen, Bool.false_eq_true, if_false, huntil]
  cases answer with
  | error halt => rfl
  | ok outcome => simp only [Except.map, eval_pure, hresult outcome rfl, Option.getD_some]

end Alone

/-! ### A new mesh -/

/-- What a new mesh adds to the store: a scope and a board, and maybe traces. -/
theorem create_spec (config : Config) (s : Store H) :
    (create config s).1.scope = s.vars.scopes.next ∧
      (create config s).1.board = s.exchange.boards.next ∧
      (create config s).1.tasks = [] ∧ (create config s).1.terminated = false ∧
      (create config s).2.wires = s.wires ∧ (create config s).2.vars = (s.vars.addScope none).2 ∧
      (create config s).2.exchange = (s.exchange.addBoard config.channelCapacity).2 ∧
      (create config s).2.runs = s.runs ∧ (create config s).2.heap = s.heap := by
  unfold create
  dsimp only
  split <;> exact ⟨rfl, rfl, rfl, rfl, rfl, rfl, rfl, rfl, rfl⟩

/-- Schedules a wire and waits for it. -/
def scheduleAndWait (m : Mesh) (limit : Nat) (id : Id .wire) (input : Value) :
    Exec H (Except MeshError Outcome) := do
  let (scheduled, m) ← m.schedule id input
  match scheduled with
  | .error e => return .error e
  | .ok h => return (← m.wait limit h).1

/-- Runs a wire as the only task of a new mesh. -/
def runAlone (config : Config) (limit : Nat) (id : Id .wire) (input : Value) :
    Exec H (Except MeshError Outcome) := do
  (← modifyGetThe (Store H) (create config)).scheduleAndWait limit id input

end Mesh

namespace Store

/-- Wires as they were made, but for their stages: they have not been composed, no run of them is
under way, and each has an empty board of its own. -/
structure Pristine (s : Store H) (T : Set (Id .wire)) : Prop where
  composed : ∀ j ∈ T, ∀ w, s.wires.get? j = some w → w.composed = none
  idle : ∀ j ∈ T, ∀ w, s.wires.get? j = some w →
    w.midRun = false ∧ (s.run w.run).state.isActive = false
  board : ∀ j ∈ T, ∀ w, s.wires.get? j = some w →
    s.exchange.boards.get? w.board = some ⟨Board.defaultCapacity, []⟩
  own : ∀ j ∈ T, ∀ k ∈ T, ∀ w w', s.wires.get? j = some w → s.wires.get? k = some w' →
    w.board = w'.board → j = k

end Store

/-- Who collects the traces of a wire is left out of the relation. -/
theorem Mirror.Stores.collected {V : Variables → Variables → Prop} {Q : Mirror.Berths}
    {M : Mirror.Memories} (h : π.Stores V Q M s t) (i : Id .wire)
    (collector : Option (Id .collector)) :
    π.Stores V Q M s (t.modifyWire i fun w => { w with collector }) := by
  rw [← Store.modifyWire_eq_self (s := s) (i := i) (f := fun w => w) fun _ _ => rfl]
  refine h.modify_pair i (fun w w' _ hpair => ?_) fun _ _ _ _ hq => hq
  obtain ⟨⟨g, rfl⟩, hlooped, hstraight, hmemo, hberth, hkin⟩ := hpair
  exact ⟨⟨{ g with collector }, rfl⟩, hlooped, hstraight, hmemo, hberth, hkin⟩

namespace Mesh

open Store

section Reflection

variable {sort : Stage H → Prop} {T : Set (Id .wire)} {s : Store H}

/-- The kin of the stages of a wire. -/
def shapeOf (s : Store H) (j : Id .wire) : List (Bool × Option (Id .wire)) :=
  ((s.wires.get? j).map fun w => w.stages.map (·.stage.kin)).getD []

theorem of_mem_shapeOf (hT : s.code.Closed sort T) {j : Id .wire} (hj : j ∈ T)
    {e : Bool × Option (Id .wire)} (he : e ∈ shapeOf s j) :
    e.1 = true ∧ ∀ k, e.2 = some k → s.code.Child j k := by
  unfold shapeOf at he
  cases hw : s.wires.get? j with
  | none => simp [hw] at he
  | some w =>
    rw [hw, Option.map_some, Option.getD_some] at he
    obtain ⟨p, hp, rfl⟩ := List.mem_map.1 he
    have hcode : s.code j = some w.code := by rw [code, hw, Option.map_some]
    obtain ⟨hplan, -⟩ := hT.stage hj hcode hp
    refine ⟨(Stage.plan?_eq_some_iff.1 hplan).1, fun k hk => ?_⟩
    exact ⟨w.code, hcode, p.stage.bare, List.mem_map.2 ⟨p, hp, hplan⟩,
      (Stage.nested?_bare p.stage).trans hk⟩

/-- A run of a wire on its own, and its image on a new mesh. -/
def reflection (config : Config) (id : Id .wire) (wire : Wire H) (hT : s.code.Closed sort T) :
    Mirror where
  root := id
  scope := s.vars.scopes.next
  scope' := (create config s).2.vars.scopes.next
  board := wire.board
  board' := (create config s).1.board
  members := T
  shape := shapeOf s
  size := s.wires.size
  builtIn _ hj _ he := (of_mem_shapeOf hT hj he).1
  closed j hj _ he k hk := hT.child j hj k ((of_mem_shapeOf hT hj he).2 k hk)

variable (config : Config) {id : Id .wire} (wire : Wire H) (hT : s.code.Closed sort T)

/-- A wire that does not run itself is not among the wires below it. -/
theorem inside_reflection (hid : id ∈ T) (hloop : s.Unnested id) :
    (reflection config id wire hT).Inside {j | ∃ k, s.code.Child id k ∧ s.code.Below k j} where
  members := by
    rintro j ⟨k, hk, hkj⟩
    exact hT.below (hT.child id hid k hk) hkj
  closed := by
    rintro j ⟨k, hk, hkj⟩ e he l hl
    have hj : j ∈ T := hT.below (hT.child id hid k hk) hkj
    exact ⟨k, hk, hkj.tail ((of_mem_shapeOf hT hj he).2 l hl)⟩
  first e he k hk := ⟨k, (of_mem_shapeOf hT hid he).2 k hk, .refl⟩
  root := by
    rintro ⟨k, hk, hback⟩
    exact hloop k hk hback

variable {wire} (hw : s.wires.get? id = some wire) (hid : id ∈ T) (hfresh : s.Pristine T)

include hw hid hfresh

/-- Before anything is composed, the stores are the same up to places. The wire itself has still its
own board in both. -/
theorem stores_reflection (hcapacity : config.channelCapacity = Board.defaultCapacity)
    (hstraight : wire.looped = false) (asked asked' : List Request) :
    let π := reflection config id wire hT
    π.Stores (π.Unopened (create config s).1.scope) (fun j p p' => j ≠ id → π.Moored ∅ j p p')
      (π.Answered asked asked') s (create config s).2 := by
  intro π
  obtain ⟨hscope, hboard, -, -, hwires, hvars, hexchange, hruns, hheap⟩ := create_spec config s
  have hnext : ∀ j ∈ T, ∀ w, s.wires.get? j = some w → w.board ≠ s.exchange.boards.next := by
    intro j hj w hwj heq
    have hrow := (Array.getElem?_eq_some_iff.1 (hfresh.board j hj w hwj)).1
    exact absurd hrow (heq ▸ Nat.lt_irrefl _)
  refine ⟨rfl, by rw [hwires]; rfl, fun j => ?_, ?_, ?_, hruns, hheap⟩
  · rw [hwires]
    cases hj : s.wires.get? j with
    | none => exact .none
    | some w =>
      refine .some ⟨⟨⟨w.looped, w.composed, w.scope, w.board, w.collector⟩, rfl⟩, rfl, ?_, fun hjT => ?_,
        fun hne => ⟨fun hjT => .inr ⟨rfl, fun heq => ?_, ?_⟩, fun h => h.elim⟩, fun _ => ?_⟩
      · rintro rfl
        obtain rfl := Option.some.inj (hj.symm.trans hw)
        exact hstraight
      · rw [hfresh.composed j hjT w hj]
        exact .untouched j
      · exact hne (hfresh.own j hjT id hid w wire hj hw heq)
      · exact fun heq => hnext j hjT w hj (heq.trans hboard)
      · change _ = shapeOf s j
        rw [shapeOf, hj, Option.map_some, Option.getD_some]
  · have hpushed : (create config s).2.vars.scopes = s.vars.scopes.push {} := by rw [hvars]; rfl
    refine ⟨by rw [hvars]; rfl, rfl, rfl, ?_, ?_⟩
    · rw [hpushed, hscope, Table.size_push]
      exact Nat.lt_succ_self _
    · rw [Variables.scope, hpushed, hscope, Table.get?_push_next]
      rfl
  · have hpushed : (create config s).2.exchange.boards =
        s.exchange.boards.push ⟨Board.defaultCapacity, []⟩ := by
      rw [hexchange, hcapacity]
      rfl
    refine ⟨by rw [hexchange]; rfl, by rw [hexchange]; rfl, ?_⟩
    rintro b b' (⟨rfl, rfl⟩ | ⟨rfl, -, hne⟩)
    · change (create config s).2.exchange.boards.get? (create config s).1.board = _
      rw [hpushed, hboard, Table.get?_push_next]
      exact (hfresh.board id hid wire hw).symm
    · rw [hpushed]
      exact Table.get?_push_of_ne _ _ fun heq => hne (heq.trans hboard.symm)

end Reflection

/-! ### Both drivers -/

/-- A mesh composes a wire as one that others share. -/
theorem run_compose (m : Mesh) (s : Store H) (id : Id .wire) (input : Ty) :
    (m.compose id input).run s =
      ((s.eval (composeShared id (m.site s id input))).1.mapError (.compose (s.wireName id) ·),
        (s.eval (composeShared id (m.site s id input))).2) := by
  have hget : (get : StateM (Store H) (Store H)).run s = (s, s) := rfl
  simp only [compose, run_bind, hget, run_run]
  rcases s.eval (composeShared id (m.site s id input)) with ⟨_ | _, s₁⟩ <;> rfl

section Alone

variable {id : Id .wire} {wire : Wire H} (hopen : m.terminated = false)
  (hw : s.wires.get? id = some wire)
  (hidle : wire.midRun = false ∧ (s.run wire.run).state.isActive = false)

include hopen hw hidle

theorem eval_schedule :
    s.eval (m.schedule id input) =
      match s.eval (composeShared id (m.site s id input.ty)) with
      | (.error e, s₁) => (.ok (.error (.compose wire.name e), m), s₁)
      | (.ok _, s₁) =>
        match (s₁.modifyWire id fun w => { w with collector := m.collector }).eval
          (beginRun id input (some m.scope) m.board) with
        | (.error halt, s₂) => (.error halt, s₂)
        | (.ok (.error e), s₂) => (.ok (.error (.warmup wire.name e), m), s₂)
        | (.ok (.ok _), s₂) =>
          let handle := ⟨wire.name, id, ((s₂.wires.get? id).map (·.run)).getD ⟨0⟩⟩
          (.ok (.ok handle, { m.prune s₂ with
            scheduled := (m.prune s₂).scheduled ++ [handle]
            tasks := (m.prune s₂).tasks ++ [⟨handle, 0⟩] }), s₂) := by
  have hname : s.wireName id = wire.name := by rw [wireName, hw]; rfl
  simp only [schedule, eval_bind, eval_get, eval_lift, hopen, hw, hidle, Bool.or_false,
    Bool.false_eq_true, if_false, run_compose, hname]
  rcases s.eval (composeShared id (m.site s id input.ty)) with ⟨_ | _, s₁⟩
  · rfl
  · simp only [Except.mapError, eval_bind, eval_modify]
    rcases Store.eval _ (beginRun id input (some m.scope) m.board) with ⟨_ | _ | _, s₂⟩ <;> rfl

/-- A wire that is scheduled on a mesh without tasks is its only task. -/
theorem schedule_started (hs : s.Coherent) (htasks : m.tasks = [])
    (hc : s.eval (composeShared id (m.site s id input.ty)) = (.ok g, s₁))
    (hb : (s₁.modifyWire id fun w => { w with collector := m.collector }).eval
      (beginRun id input (some m.scope) m.board) = (.ok (.ok ()), s₂))
    (hw₂ : s₂.wires.get? id = some w) :
    ∃ m', s.eval (m.schedule id input) = (.ok (.ok ⟨wire.name, id, w.run⟩, m'), s₂) ∧
      m'.Alone ⟨wire.name, id, w.run⟩ s₂ ∧ m'.terminated = false := by
  have hquiet := quiet_composeShared s id (m.site s id input.ty)
  rw [hc] at hquiet
  have hs₁ : (s₁.modifyWire id fun w => { w with collector := m.collector }).Coherent :=
    (Coherent.custody.quiet hs hquiet).modifyWire id fun _ => ⟨rfl, rfl⟩
  have hs₂ := (Coherent.custody.beginRun id input (some m.scope) m.board hs₁).1
  rw [hb] at hs₂
  refine ⟨{ m.prune s₂ with
    scheduled := (m.prune s₂).scheduled ++ [⟨wire.name, id, w.run⟩]
    tasks := (m.prune s₂).tasks ++ [⟨⟨wire.name, id, w.run⟩, 0⟩] }, ?_,
    ⟨hs₂, ⟨w, hw₂, rfl, midRun_of_beginRun hb hw₂⟩, 0, ?_, Nat.zero_le _⟩, hopen⟩
  · rw [eval_schedule hopen hw hidle, hc]
    simp only [hb, hw₂, Option.map_some, Option.getD_some]
  · rw [show (m.prune s₂).tasks = m.tasks from rfl, htasks, List.nil_append]

end Alone

/-- The answer of the caller who runs a wire once, and that of a mesh on which it runs alone. Where the
one fails before any stage is activated, the other does not schedule the wire. -/
inductive Verdicts (name : String) :
    Except Halt (Except ComposeError Outcome) → Except Halt (Except MeshError Outcome) → Prop where
  | halted (halt : Halt) : Verdicts name (.error halt) (.error halt)
  | refused (e : ComposeError) : Verdicts name (.ok (.error e)) (.ok (.error (.compose name e)))
  | cold (e : ActivationError) :
      Verdicts name (.ok (.ok (.failed ⟨e.message, "", 0⟩))) (.ok (.error (.warmup name e)))
  | ended (outcome : Outcome) (h : ∀ f, outcome = .failed f → f.stage ≠ "") :
      Verdicts name (.ok (.ok outcome)) (.ok (.ok outcome))

/-- Once a run and its image have begun, they come to the same end. -/
theorem verdicts_driven {B : Set (Id .wire)} (hroot : π.root ∈ π.members) (hs : π.Runs B s t)
    {h : Handle} (ha : m.Alone h t) (hwire : h.wire = π.root) (hopen : m.terminated = false)
    {wire : Wire H} (hstraight : wire.looped = false) (limit : Nat) (name : String) :
    Verdicts name
      ((s.modifyWire π.root fun w => { w with looped := false }).eval (do
        let outcome ← driveToEnd π.root limit
        modify fun s => s.modifyWire π.root fun w => { w with looped := wire.looped }
        return .ok (← endRun π.root outcome))).1
      (t.eval (do return (← m.wait limit h).1)).1 := by
  -- The wire is not looped, so nothing changes when it is made so.
  have hsame : ∀ {s t : Store H}, π.Runs B s t →
      (s.modifyWire π.root fun w => { w with looped := false }) = s := by
    intro s t hs
    refine modifyWire_eq_self fun w hw => ?_
    obtain ⟨w', -, hpair⟩ := hs.get?_some hw
    rw [← hpair.straight rfl]
  rcases hd : t.eval (driveToEnd h.wire limit >>= endRun h.wire) with ⟨answer, t'⟩
  obtain ⟨m', hwait⟩ := ha.wait hopen hd
  rw [hsame hs, hstraight]
  simp only [eval_bind, eval_modify, hwait]
  rw [hwire, eval_bind] at hd
  obtain ⟨hdrive, hblamed⟩ := Mirror.agrees_driveToEnd hroot limit hs
  revert hblamed hd
  refine hdrive.elim fun a s t hs hd hblamed => ?_
  cases a with
  | error halt =>
    cases hd
    exact .halted halt
  | ok outcome =>
    dsimp only at hd ⊢
    rw [hsame hs]
    have hout := fun answer => outcome_of_endRun (s := s) (i := π.root) (o := outcome) (a := answer)
    revert hd hout
    refine (Mirror.agrees_endRun hroot hs outcome).elim fun a s t hs hd hout => ?_
    obtain ⟨rfl, rfl⟩ := Prod.mk.inj hd
    cases a with
    | error halt => exact .halted halt
    | ok answer =>
      obtain rfl := hout answer rfl
      exact .ended _ fun f hf => hblamed f (congrArg Except.ok hf)

/-- Once both have composed the wire, they say the same. -/
theorem verdicts_composed (hroot : π.root ∈ π.members) {t₁ : Store H} {asked asked' : List Request}
    (hstores : π.Stores (π.Unopened m.scope) (fun j p p' => j ≠ π.root → π.Moored ∅ j p p')
      (π.Answered asked asked') s₁ t₁) {wire : Wire H} (hw : s.wires.get? π.root = some wire)
    (hwt : t.wires.get? π.root = some wire) (hboard : wire.board = π.board)
    (hboard' : m.board = π.board') (hopen : m.terminated = false) (htasks : m.tasks = [])
    (ht : t.Coherent) (hidle : wire.midRun = false ∧ (t.run wire.run).state.isActive = false)
    (hstraight : wire.looped = false)
    (hs₁ : s.eval (composeOwned π.root (ownSite wire input)) = (.ok g, s₁))
    (ht₁ : t.eval (composeShared π.root (m.site t π.root input.ty)) = (.ok g, t₁)) (limit : Nat) :
    Verdicts wire.name (s.eval (runOnce limit π.root input)).1
      (t.eval (m.scheduleAndWait limit π.root input)).1 := by
  obtain ⟨w₁, hw₁⟩ : ∃ w₁, s₁.wires.get? π.root = some w₁ := by
    have hsame := (quiet_composeOwned s π.root (ownSite wire input)).same π.root
    rw [hs₁, hw, Option.map_some] at hsame
    obtain ⟨w₁, hw₁, -⟩ := Option.map_eq_some_iff.1 hsame
    exact ⟨w₁, hw₁⟩
  have hmade := hstores.mono (fun _ _ _ hq => hq) fun _ _ _ _ hm => Mirror.Answered.made_or_none hm
  have hbegin := Mirror.agrees_beginRun hroot (hmade.collected π.root m.collector)
    (fun j hj p p' hq => hq hj) hw₁ (composed_of_composeOwned hs₁ hw₁) input
  rw [← hboard, ← hboard'] at hbegin
  generalize hs₂ : s₁.eval (beginRun _ _ _ _) = p at hbegin
  generalize ht₂ : Store.eval _ (beginRun _ input (some m.scope) _) = q at hbegin
  obtain ⟨a, hruns⟩ := hbegin
  rename_i s₂ t₂
  rw [scheduleAndWait, eval_bind]
  rcases a with halt | e | _
  · simp only [eval_runOnce hw, hs₁, hs₂, eval_schedule hopen hwt hidle, ht₁, ht₂]
    exact .halted halt
  · simp only [eval_runOnce hw, hs₁, hs₂, eval_schedule hopen hwt hidle, ht₁, ht₂]
    exact .cold e
  · obtain ⟨w₂, hw₂⟩ : ∃ w₂, t₂.wires.get? π.root = some w₂ := by
      have hrow : π.root.row < t₂.wires.size := by
        rw [hruns.size', ← hstores.size]
        exact row_lt_of_get? hw₁
      exact ⟨_, Array.getElem?_eq_getElem hrow⟩
    obtain ⟨m', hschedule, halone, hopen'⟩ :=
      schedule_started hopen hwt hidle ht htasks ht₁ ht₂ hw₂
    simp only [hschedule, eval_runOnce hw, hs₁, hs₂]
    exact verdicts_driven hroot hruns halone rfl hopen' hstraight limit wire.name

/-- The caller who runs a wire once and a mesh on which the wire runs alone say the same. The wire and
those below it are of built-in stages, are as they were made, and do not run the wire itself; the
wire is not looped. Where a wire is asked for twice, hashes must not collide. -/
theorem drivers_agree (config : Config) (hcapacity : config.channelCapacity = Board.defaultCapacity)
    {T : Set (Id .wire)} {s : Store H} (hT : s.code.Closed (·.isBuiltIn = true) T)
    (hfresh : s.Pristine T) (hs : s.Coherent) {id : Id .wire} (hid : id ∈ T) (hloop : s.Unnested id)
    {wire : Wire H} (hw : s.wires.get? id = some wire) (hstraight : wire.looped = false)
    (input : Value) (limit : Nat)
    (hkeys : Mirror.Distinct (ownedRequests id (ownSite wire input) s)
      (sharedRequests id ((create config s).1.site (create config s).2 id input.ty)
        (create config s).2)) :
    Verdicts wire.name (s.eval (runOnce limit id input)).1
      (s.eval (runAlone config limit id input)).1 := by
  have hstores := stores_reflection config hT hw hid hfresh hcapacity hstraight
    (ownedRequests id (ownSite wire input) s)
    (sharedRequests id ((create config s).1.site (create config s).2 id input.ty)
      (create config s).2)
  have hinside := inside_reflection config wire hT hid hloop
  obtain ⟨-, -, htasks, hopen, hwires, -, -, hruns, -⟩ := create_spec config s
  rcases hcreate : create config s with ⟨m, t⟩
  have hboard : (reflection config id wire hT).board' = m.board :=
    congrArg (fun p => p.1.board) hcreate
  rw [hcreate] at hstores hkeys htasks hopen hwires hruns
  dsimp only at hstores hkeys htasks hopen hwires hruns
  have halone : s.eval (runAlone config limit id input) = t.eval (m.scheduleAndWait limit id input) := by
    rw [runAlone, eval_bind, eval_modifyGetThe, hcreate]
  rw [halone]
  have hvisible : t.vars.visible m.scope = [] := by
    simp [Variables.visible, Variables.chain, Variables.ancestry, hstores.vars.empty,
      Variables.visibleIn]
  have hsites : (reflection config id wire hT).Sites (ownSite wire input) (m.site t id input.ty) :=
    ⟨rfl, hvisible, rfl, hboard.symm⟩
  have hcompose := Mirror.agrees_compose hkeys hinside hid hstores hw hsites (List.Subset.refl _)
    (List.Subset.refl _)
  have hwt : t.wires.get? id = some wire := by rw [hwires, hw]
  have hidle : wire.midRun = false ∧ (t.run wire.run).state.isActive = false := by
    rw [Store.run, hruns]
    exact hfresh.idle id hid wire hw
  have ht : t.Coherent := hs.of_standing hruns fun {j w} hw => ⟨w, hwires ▸ hw, rfl, rfl⟩
  generalize hs₁ : s.eval (composeOwned _ _) = p at hcompose
  generalize ht₁ : t.eval (composeShared _ _) = q at hcompose
  obtain ⟨a, hstores₁⟩ := hcompose
  cases a with
  | error e =>
    change s.eval (composeOwned id _) = _ at hs₁
    change t.eval (composeShared id _) = _ at ht₁
    rw [eval_runOnce hw, hs₁, scheduleAndWait, eval_bind, eval_schedule hopen hwt hidle, ht₁]
    exact .refused e
  | ok g =>
    exact verdicts_composed hid hstores₁ hw hwt rfl hboard.symm hopen htasks ht hidle hstraight hs₁ ht₁
      limit

/-- Wires as they were made, row by row. -/
theorem pristine_of_rows
    (h : ∀ w ∈ s.wires.rows.toList, w.composed.isNone = true ∧ w.midRun = false ∧
      (s.run w.run).state.isActive = false ∧ ∃ b ∈ s.exchange.boards.get? w.board,
        b.capacity = Board.defaultCapacity ∧ b.entries = [])
    (hown : (s.wires.rows.toList.map (·.board)).Nodup) (T : Set (Id .wire)) : s.Pristine T := by
  have hrow : ∀ {j w}, s.wires.get? j = some w → s.wires.rows.toList[j.row]? = some w := by
    intro j w hw
    rw [Array.getElem?_toList]
    exact hw
  have hwire := fun {j w} hw => h w (List.mem_of_getElem? (hrow (j := j) hw))
  refine ⟨fun j _ w hw => ?_, fun j _ w hw => ?_, fun j _ w hw => ?_, fun j _ k _ w w' hw hw' heq => ?_⟩
  · exact Option.isNone_iff_eq_none.1 (hwire hw).1
  · exact ⟨(hwire hw).2.1, (hwire hw).2.2.1⟩
  · obtain ⟨b, hb, hcapacity, hentries⟩ := (hwire hw).2.2.2
    rw [Option.mem_def.1 hb, ← hcapacity, ← hentries]
  · have hj : (s.wires.rows.toList.map (·.board))[j.row]? = some w.board := by
      rw [List.getElem?_map, hrow hw, Option.map_some]
    have hk : (s.wires.rows.toList.map (·.board))[k.row]? = some w.board := by
      rw [List.getElem?_map, hrow hw', Option.map_some, heq]
    have hsame : j.row = k.row :=
      (List.getElem?_inj (List.getElem?_eq_some_iff.1 hj).1 hown).1 (hj.trans hk.symm)
    cases j
    cases k
    simp_all

/-- A wire that pauses and adds to a variable, and one that sets the variable, runs the first wire and
sends what it got. -/
def relaying : Store Host.none :=
  let s := ((({} : Store Host.none).addWire "inner" false).2.addWire "outer" false).2
  let stages (stages : List (Stage Host.none)) (w : Wire Host.none) : Wire Host.none :=
    { w with stages := stages.map fun stage => { stage } }
  let s := s.modifyWire ⟨0⟩ (stages [.pause .nothing false, .get "x" none, .add ⟨.int 1, none⟩])
  s.modifyWire ⟨1⟩ (stages
    [.set "x" .nothing none, .inline { wire := some ⟨0⟩ }, .produce { name := "c" } none])

theorem coherent_relaying : relaying.Coherent := by
  have hadded := (Coherent.empty (H := Host.none).addWire "inner" false).addWire "outer" false
  refine .modifyWire (.modifyWire hadded ⟨0⟩ ?_) ⟨1⟩ ?_
  all_goals exact fun _ => ⟨rfl, rfl⟩

/-- The type of what a run put out. -/
def endedTy? {ε : Type} : Except Halt (Except ε Outcome) → Option Ty
  | .ok (.ok (.stopped output)) => some output.ty
  | _ => none

/-- Both drivers of the outer wire need more than one turn, and come to its end. -/
theorem relaying_drivers_agree :
    endedTy? (relaying.eval (runOnce 1 ⟨1⟩ (.int 4))).1 = none ∧
      endedTy? (relaying.eval (runAlone {} 2 ⟨1⟩ (.int 4))).1 = some .int ∧
      Verdicts "outer" (relaying.eval (runOnce 2 ⟨1⟩ (.int 4))).1
        (relaying.eval (runAlone {} 2 ⟨1⟩ (.int 4))).1 := by
  have hid : (⟨1⟩ : Id .wire) ∈ {i | i.row < relaying.wires.size} := by decide +kernel
  have hw : relaying.wires.get? ⟨1⟩ = some relaying.wires.rows[1] := rfl
  have hasked : ((ownedRequests ⟨1⟩ { input := .int, wireInput := .int, board := ⟨1⟩ } relaying).map
      (·.wire)).Nodup := by decide +kernel
  exact ⟨by decide +kernel, by decide +kernel,
    drivers_agree {} rfl (closed_of_rows (by decide +kernel))
      (pristine_of_rows (by decide +kernel) (by decide +kernel) _) coherent_relaying hid
      (unnested_of_descending (by decide +kernel) _) hw rfl _ _ (.inl hasked)⟩

end Mesh

end Dataflow
