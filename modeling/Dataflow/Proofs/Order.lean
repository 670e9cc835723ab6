import Dataflow.Proofs.Activation
import Mathlib.Data.List.Chain
/-!
# The order of a run

A run of a wire may be broken up in any way: a stage suspends, a looped wire yields after each
iteration, and between two resumptions anyone may ask for a stop. Part of where the run stands is
kept in the wire and part of it only while the wire is being resumed. The log of the whole run shows
nothing of this. Each activation in it determines the next one: its position, its iteration and its
input.

The wire must not run itself, at any depth. Nothing is assumed of the units of the host.
-/

namespace Dataflow

variable {H : Host} {s : Store H} {c : Id .collector} {w : Wire H} {e : Event H}

/-! ### The law -/

/-- An activation before it takes place. -/
structure Point where
  position : Nat
  iteration : Nat
  input : Value

/-- The point of an activation. -/
def Event.point (e : Event H) : Point := ⟨e.position, e.iteration, e.input⟩

/-- What the order of a run depends on: the number of stages, whether the wire begins again behind
the last one, and the value that the run was started with. -/
structure Course where
  length : Nat
  looped : Bool
  input : Value

/-- The course of a wire. -/
def Wire.course (w : Wire H) : Course := ⟨w.stages.length, w.looped, w.input⟩

/-- The point at which a started wire goes on when it is resumed. -/
def Wire.due? (w : Wire H) : Option Point :=
  w.cursor.position?.map fun position => ⟨position, w.iteration, w.current⟩

namespace Course

/-- The point behind a complete iteration. -/
def restart? (c : Course) (iteration : Nat) : Option Point :=
  if c.looped then some ⟨0, iteration + 1, c.input⟩ else none

/-- The point behind an activation, if the run goes on. -/
def next? (c : Course) (e : Event H) : Option Point :=
  match e.answer with
  | .ok (.ok (.proceed output)) =>
    if e.position + 1 < c.length then some ⟨e.position + 1, e.iteration, output⟩
    else c.restart? e.iteration
  | .ok (.ok (.suspend _)) => some e.point
  | .ok (.ok (.finish _)) => c.restart? e.iteration
  | .ok (.ok (.stop _)) | .ok (.error _) | .error _ => none

/-- What a resumption answers that completes an iteration with a value. -/
def complete (c : Course) (output : Value) : Progress :=
  if c.looped then .suspended .yield else .finished output

/-- What a resumption answers that ends with an activation; none if it goes on behind it. -/
def ending? (c : Course) (e : Event H) : Option (Except Halt Progress) :=
  match e.answer with
  | .ok (.ok (.proceed output)) =>
    if e.position + 1 < c.length then none else some (.ok (c.complete output))
  | .ok (.ok (.suspend point)) => some (.ok (.suspended point))
  | .ok (.ok (.finish output)) => some (.ok (c.complete output))
  | .ok (.ok (.stop output)) => some (.ok (.finished output))
  | .ok (.error e') => some (.ok (.failed ⟨e'.message, e.stage.name, e.position⟩))
  | .error halt => some (.error halt)

/-- The output of the iteration that an activation completes. -/
def output? (c : Course) (e : Event H) : Option Value :=
  match e.answer with
  | .ok (.ok (.proceed output)) => if e.position + 1 < c.length then none else some output
  | .ok (.ok (.finish output)) => some output
  | _ => none

/-- The output of the last iteration that a log completes. -/
def lastOutput (c : Course) (before : Value) (log : List (Event H)) : Value :=
  (log.filterMap c.output?).getLastD before

theorem lastOutput_cons (c : Course) (before : Value) (e : Event H) (log : List (Event H)) :
    c.lastOutput before (e :: log) = c.lastOutput ((c.output? e).getD before) log := by
  rw [lastOutput, List.filterMap_cons]
  cases c.output? e with
  | none => rfl
  | some output => exact List.getLastD_cons ..

end Course

/-- What an activation leaves in a trace; one that was broken off leaves nothing. -/
def Event.stamp? (e : Event H) : Option (Nat × Nat × TraceEnd) :=
  match e.answer with
  | .ok answer => some (e.position, e.iteration, Store.traceEnd answer)
  | .error _ => none

/-- The part of a trace that tells where an activation was and how it ended. -/
def Trace.stamp (t : Trace) : Nat × Nat × TraceEnd := (t.position, t.iteration, t.ended)

/-! ### Runs -/

/-- What may happen to a started wire. -/
inductive Turn where
  /-- The wire is resumed. -/
  | resume
  /-- The current run of a wire is asked to stop. -/
  | requestStop (wire : Id .wire)

namespace Store

/-- The log of a started wire. The run is over after the first resumption that does not suspend. -/
def turnsLog (id : Id .wire) : List Turn → Store H → List (Event H)
  | [], _ => []
  | .requestStop j :: rest, s => turnsLog id rest (s.requestStop j)
  | .resume :: rest, s =>
    resumeEvents s.depthBound id s ++
      match s.eval (resume id) with
      | (.ok (.suspended _), s') => turnsLog id rest s'
      | _ => []

/-- Takes a started wire through turns: what the last resumption answered once the run is over, and
the store afterwards. -/
def take (id : Id .wire) : List Turn → Store H → Option (Except Halt Progress) × Store H
  | [], s => (none, s)
  | .requestStop j :: rest, s => take id rest (s.requestStop j)
  | .resume :: rest, s =>
    match s.eval (resume id) with
    | (.ok (.suspended _), s') => take id rest s'
    | (answer, s') => (some answer, s')

/-! ### One activation -/

/-- A wire does not run itself. -/
def Unnested (s : Store H) (id : Id .wire) : Prop := ∀ j, s.code.Child id j → ¬ s.code.Below j id

/-- The wires that a wire runs directly. -/
def children (s : Store H) (i : Id .wire) : List (Id .wire) :=
  match s.wires.get? i with
  | none => []
  | some w => w.stages.filterMap (·.stage.nested?)

theorem mem_children {i j : Id .wire} (h : s.code.Child i j) : j ∈ s.children i := by
  obtain ⟨stages, hstages, st, hst, hnested⟩ := h
  obtain ⟨w, hw, rfl⟩ := Option.map_eq_some_iff.1 hstages
  obtain ⟨p, hp, hplan⟩ := List.mem_map.1 hst
  obtain ⟨-, rfl⟩ := Stage.plan?_eq_some_iff.1 hplan
  rw [Stage.nested?_bare] at hnested
  simp only [children, hw]
  exact List.mem_filterMap.2 ⟨p, hp, hnested⟩

/-- Wires that run only wires made before them do not run themselves. -/
theorem unnested_of_descending (h : ∀ n < s.wires.size, ∀ j ∈ s.children ⟨n⟩, j.row < n)
    (i : Id .wire) : s.Unnested i := by
  have hchild : ∀ {i j}, s.code.Child i j → j.row < i.row := by
    intro i j hij
    have hmem := mem_children hij
    obtain ⟨stages, hstages, -⟩ := hij
    obtain ⟨w, hw, -⟩ := Option.map_eq_some_iff.1 hstages
    exact h i.row (Array.getElem?_eq_some_iff.1 hw).1 j hmem
  have hbelow : ∀ {i j}, s.code.Below i j → j.row ≤ i.row := by
    intro i j hij
    induction hij with
    | refl => exact le_rfl
    | tail _ hstep ih => exact (hchild hstep).le.trans ih
  intro j hj hback
  exact absurd (hbelow hback) (Nat.not_le_of_lt (hchild hj))

/-- A collector that no wire below a wire uses, the wire itself apart. -/
def Exclusive (s : Store H) (id : Id .wire) (c : Id .collector) : Prop :=
  ∀ j, s.code.Below id j → j ≠ id → ∀ w, s.wires.get? j = some w → w.collector ≠ some c

/-- A collector has got exactly the traces of a log. -/
def Recorded (c : Id .collector) (s s' : Store H) (log : List (Event H)) : Prop :=
  ∃ new : Array Trace, s'.collectors.get? c = (s.collectors.get? c).map (· ++ new) ∧
    new.toList.map Trace.stamp = log.filterMap Event.stamp?

section Stable

variable {T : Set (Id .wire)} {s₁ s₂ : Store H} {id : Id .wire} {log log₁ log₂ : List (Event H)}

theorem Unnested.of_steady (h : s.Unnested id) (hs : Steady T s s₁) : s₁.Unnested id := by
  unfold Unnested
  rwa [hs.code]

theorem Exclusive.of_steady (h : s.Exclusive id c) (hs : Steady T s s₁) : s₁.Exclusive id c := by
  intro j hj hne w hw
  obtain ⟨w', hw', hcollector⟩ := hs.collector hw
  rw [hs.code] at hj
  exact hcollector ▸ h j hj hne w' hw'

theorem Recorded.of_eq (h : s₁.collectors.get? c = s.collectors.get? c) : Recorded c s s₁ [] :=
  ⟨#[], by simp [h], rfl⟩

theorem Recorded.trans (h : Recorded c s s₁ log₁) (h' : Recorded c s₁ s₂ log₂) :
    Recorded c s s₂ (log₁ ++ log₂) := by
  obtain ⟨new, hnew, hstamps⟩ := h
  obtain ⟨new', hnew', hstamps'⟩ := h'
  refine ⟨new ++ new', ?_, by simp [hstamps, hstamps']⟩
  rw [hnew', hnew]
  cases s.collectors.get? c <;> simp

end Stable

/-- The wires that run inside a wire. -/
def inside (s : Store H) (id : Id .wire) : Set (Id .wire) :=
  {k | ∃ j, s.code.Child id j ∧ s.code.Below j k}

/-- What an activation changes about its own wire and its collector: the stage is put back, and if
it was answered a trace is added. -/
structure Activated (s : Store H) (id : Id .wire) (wire : Wire H) (e : Event H) (s' : Store H) :
    Prop where
  row : ∃ st, s'.wires.get? id = some (wire.setStage e.position st)
  steady : Steady {k | s.code.Below id k} s s'
  traced : ∀ c, s.Exclusive id c → wire.collector = some c → Recorded c s s' [e]

theorem activated_activateAt (depth : Nat) {id : Id .wire} {wire : Wire H} {position : Nat}
    {placed : Placed H} (hloop : s.Unnested id) (hw : s.wires.get? id = some wire)
    (hp : s.placedAt? id position = some placed) (inner : List (Event H)) :
    Activated s id wire
      ⟨id, position, wire.iteration, placed.stage, wire.current,
        (s.eval (activateAt (resumeWithin depth) id wire position placed.stage)).1, inner⟩
      (s.eval (activateAt (resumeWithin depth) id wire position placed.stage)).2 := by
  have hchild : ∀ j, placed.stage.nested? = some j → s.code.Child id j := fun j hj =>
    child_of_placedAt? hp hj
  have hresume : ∀ j, placed.stage.nested? = some j → ∀ s' : Store H, s'.code = s.code →
      Steady {k | s.code.Below j k} s' (s'.eval (resumeWithin depth j)).2 := fun j _ s' hcode =>
    hcode ▸ steady_resumeWithin depth j s'
  have hall : Steady {k | s.code.Below id k} s
      (s.eval (activateAt (resumeWithin depth) id wire position placed.stage)).2 :=
    steady_activateAt_resumeWithin depth hw hp
  -- the activation proper stays inside, so the wire is as it was when its stage is put back
  have hinside : Steady (s.inside id) s
      ((placed.stage.activate (resumeWithin depth) wire wire.current).run s).2 :=
    (Stage.steady_activate (T := s.inside id) (fun j hj => ⟨⟨j, hchild j hj, .refl⟩,
      fun s' hcode => (hresume j hj s' hcode).mono fun k hk => ⟨j, hchild j hj, hk⟩⟩)
      wire wire.current).2.2
  have hout : id ∉ s.inside id := fun ⟨j, hj, hbelow⟩ => hloop j hj hbelow
  have hrow := hinside.keeps.outside id hout
  rw [hw] at hrow
  have hquiet : ∀ c, s.Exclusive id c →
      ((placed.stage.activate (resumeWithin depth) wire wire.current).run s).2.collectors.get? c =
        s.collectors.get? c := fun c hc =>
    hinside.traces c fun j hj w hjw =>
      hc j (hj.elim fun _ h => .head h.1 h.2) (fun h => hout (h ▸ hj)) w hjw
  rw [eval_activateAt] at hall ⊢
  rcases hrun : (placed.stage.activate (resumeWithin depth) wire wire.current).run s with ⟨step, s₁⟩
  rw [hrun] at hrow hquiet hall
  dsimp only at hall ⊢
  rcases hanswer : step.answer with halt | answer <;> rw [hanswer] at hall
  · refine ⟨⟨step.stage, by simp [hrow]⟩, hall, fun c hc _ => ⟨#[], ?_, rfl⟩⟩
    simpa [modifyWire] using hquiet c hc
  · refine ⟨⟨step.stage, by simp [hrow]⟩, hall, fun c hc hcollector =>
      ⟨#[⟨wire.name, step.stage.name, position, wire.iteration, traceEnd answer⟩], ?_, rfl⟩⟩
    simp only [record, hcollector, Table.get?_modify_self]
    rw [← hquiet c hc]
    rfl

/-! ### One resumption -/

/-- What a part of a run tells: its log begins at a point and each activation in it determines the
next one. If it ends suspended, the last activation also determines where the wire goes on, and the
log determines the output that the wire keeps. If nobody asked for a stop, the last activation says
what was answered. -/
structure Lawful (c : Course) (start : Point) (stopping : Bool) (before : Value)
    (log : List (Event H)) (answer : Except Halt Progress) (w : Wire H) : Prop where
  head : ∀ e ∈ log.head?, e.point = start
  chain : log.IsChain fun e e' => c.next? e = some e'.point
  due : ∀ point, answer = .ok (.suspended point) →
    ∃ q, w.due? = some q ∧ q.position < c.length ∧ ∃ e ∈ log.getLast?, c.next? e = some q
  last : ∀ point, answer = .ok (.suspended point) → w.lastOutput = c.lastOutput before log
  ending : stopping = false → ∃ e ∈ log.getLast?, c.ending? e = some answer

namespace Lawful

variable {c : Course} {start : Point} {stopping : Bool} {answer : Except Halt Progress}
  {before : Value}

/-- A part that a stop request ends before it has begun. -/
theorem stopped (output : Value) (w : Wire H) :
    Lawful c start true before [] (.ok (.finished output)) w where
  head := by simp
  chain := .nil
  due := by simp
  last := by simp
  ending := by simp

theorem single (hstart : e.point = start)
    (hdue : ∀ point, answer = .ok (.suspended point) →
      ∃ q, w.due? = some q ∧ q.position < c.length ∧ c.next? e = some q ∧
        w.lastOutput = (c.output? e).getD before)
    (hending : stopping = false → c.ending? e = some answer) :
    Lawful c start stopping before [e] answer w where
  head := by simpa using hstart
  chain := .singleton e
  due point h := by
    obtain ⟨q, hq, hlt, hnext, -⟩ := hdue point h
    exact ⟨q, hq, hlt, e, by simp, hnext⟩
  last point h := by
    obtain ⟨-, -, -, -, hlast⟩ := hdue point h
    rw [hlast, Course.lastOutput_cons]
    rfl
  ending h := ⟨e, by simp, hending h⟩

theorem cons {next : Point} {stopping' : Bool} {log : List (Event H)}
    (h : Lawful c next stopping' ((c.output? e).getD before) log answer w) (hstart : e.point = start)
    (hnext : c.next? e = some next) (hstop : stopping = false → stopping' = false) :
    Lawful c start stopping before (e :: log) answer w where
  head := by simpa using hstart
  chain := by
    refine List.isChain_cons.2 ⟨fun e' he' => ?_, h.chain⟩
    rw [hnext, h.head e' he']
  due point hp := by
    obtain ⟨q, hq, hlt, e', he', hnext'⟩ := h.due point hp
    exact ⟨q, hq, hlt, e', by simp [List.getLast?_cons, Option.mem_def.1 he'], hnext'⟩
  last point hp := by rw [h.last point hp, Course.lastOutput_cons]
  ending hs := by
    obtain ⟨e', he', hending⟩ := h.ending (hstop hs)
    exact ⟨e', by simp [List.getLast?_cons, Option.mem_def.1 he'], hending⟩

end Lawful

/-- A part of a run of a wire, from a store in which it is at a point. -/
structure Part (id : Id .wire) (c : Course) (start : Point) (s : Store H) (w : Wire H)
    (log : List (Event H)) (r : Except Halt Progress × Store H) : Prop where
  row : ∃ w', r.2.wires.get? id = some w' ∧ w'.course = c ∧
    Lawful c start (s.stopping w) w.lastOutput log r.1 w'
  traced : ∀ c, s.Exclusive id c → w.collector = some c → Recorded c s r.2 log

/-- Completing an iteration: a looped wire is due again at its first stage, and unless a stop was
asked for the answer is that of the course. -/
theorem completeIteration_spec {id : Id .wire} (hw : s.wires.get? id = some w) :
    ∃ w', (s.eval (completeIteration id)).2.wires.get? id = some w' ∧ w'.course = w.course ∧
      (∀ point, (s.eval (completeIteration id)).1 = .ok (.suspended point) →
        w'.due? = some ⟨0, w.iteration + 1, w.input⟩ ∧ w'.lastOutput = w.current ∧
          w.course.restart? w.iteration = some ⟨0, w.iteration + 1, w.input⟩) ∧
      (s.stopping w = false →
        (s.eval (completeIteration id)).1 = .ok (w.course.complete w.current)) ∧
      (s.eval (completeIteration id)).2.collectors = s.collectors := by
  rw [eval_completeIteration, hw]
  dsimp only
  split
  · rename_i hstop
    exact ⟨{ w with lastOutput := .nothing }, by simp [hw], rfl, by simp, by simp [hstop], rfl⟩
  split
  · rename_i hlooped
    refine ⟨{ w with
      lastOutput := w.current, current := w.input, iteration := w.iteration + 1,
      cursor := .suspendedAt 0 .yield }, ?_, rfl, ?_, ?_, ?_⟩
    · simp [suspended, iterated, modifyRun, hw]
    · simp [Wire.due?, Cursor.position?, Course.restart?, Wire.course, hlooped]
    · simp [Course.complete, Wire.course, hlooped]
    · simp only [suspended, iterated, get?_modifyWire_self, hw, Option.map_some]
      rfl
  · rename_i hlooped
    refine ⟨{ w with lastOutput := .nothing, current := .nothing }, by simp [hw], rfl, by simp, ?_,
      rfl⟩
    simp [Course.complete, Wire.course, hlooped]

/-- A part that ends with an activation which completes the iteration. -/
theorem Part.complete (s₁ : Store H) {id : Id .wire} {c : Course} (w₁ : Wire H) (output : Value)
    (hc : w.course = c) (he : e.point = ⟨e.position, w.iteration, w.current⟩)
    (hlt : e.position < c.length) (hnext : c.next? e = c.restart? e.iteration)
    (hending : c.ending? e = some (.ok (c.complete output))) (houtput : c.output? e = some output)
    (hw₁ : s₁.wires.get? id = some { w₁ with current := output }) (hcourse : w₁.course = w.course)
    (hiteration : w₁.iteration = w.iteration)
    (hstop : s.stopping w = false → s₁.stopping { w₁ with current := output } = false)
    (htraced : ∀ c, s.Exclusive id c → w.collector = some c → Recorded c s s₁ [e]) :
    Part id c ⟨e.position, w.iteration, w.current⟩ s w [e] (s₁.eval (completeIteration id)) := by
  obtain ⟨w', hw', hcourse', hdue, hanswer, hquiet⟩ := completeIteration_spec hw₁
  have hcourse₁ : Wire.course { w₁ with current := output } = c := hcourse.trans hc
  rw [hcourse₁] at hcourse' hdue hanswer
  have hit : e.iteration = w.iteration := congrArg Point.iteration he
  refine ⟨⟨w', hw', hcourse', .single he (fun point hp => ?_) fun hs => ?_⟩, fun col hex hcol => ?_⟩
  · obtain ⟨hdue', hlast, hrestart⟩ := hdue point hp
    refine ⟨_, hdue', by exact Nat.zero_lt_of_lt hlt, ?_, by rw [hlast, houtput]; rfl⟩
    rw [hnext, hit]
    exact hiteration ▸ hrestart
  · rw [hending, hanswer (hstop hs)]
  · have := (htraced col hex hcol).trans (.of_eq (by rw [hquiet]))
    simpa using this

@[simp] theorem course_setStage (w : Wire H) (position : Nat) (st : Stage H) :
    (w.setStage position st).course = w.course := by
  simp [Wire.course, Wire.setStage, Wire.modifyPlaced]

/-- The stages of a wire from a position on make a part of its run. -/
theorem part_advance {id : Id .wire} {c : Course} (depth remaining position : Nat)
    (hsum : position + remaining + 1 = c.length) (hw : s.wires.get? id = some w) (hc : w.course = c)
    (hloop : s.Unnested id) :
    Part id c ⟨position, w.iteration, w.current⟩ s w
      (advanceEvents (resumeWithin depth) (resumeEvents depth) id position (remaining + 1) s)
      (s.eval (advance (resumeWithin depth) id position (remaining + 1))) := by
  induction remaining using Nat.strong_induction_on generalizing position s w with
  | _ remaining ih =>
    have hlen : position < w.stages.length := by
      have : w.stages.length = c.length := congrArg Course.length hc
      omega
    have hp : s.placedAt? id position = some w.stages[position] := by
      simp [placedAt?, hw, hlen]
    rw [eval_advance_succ]
    simp only [advanceEvents, hw, hp]
    by_cases hstop : s.stopping w = true
    · simp only [hstop, if_true]
      refine ⟨⟨{ w with lastOutput := .nothing }, by simp [hw], hc, ?_⟩, fun _ _ _ => .of_eq rfl⟩
      rw [hstop]
      exact .stopped _ _
    simp only [hstop, Bool.false_eq_true, if_false]
    have hact := activated_activateAt depth hloop hw hp
      (w.stages[position].stage.innerEvents (resumeEvents depth) w.current s)
    rcases heval : s.eval (activateAt (resumeWithin depth) id w position w.stages[position].stage)
      with ⟨answer, s₁⟩
    rw [heval] at hact
    obtain ⟨⟨st, hrow⟩, hsteady, htraced⟩ := hact
    have hstop₁ : s.stopping w = false → (s₁.run w.run).stopRequested = false :=
      hsteady.stops _
    have hpos : position < c.length := by omega
    have hcourse : (w.setStage position st).course = c := by rw [course_setStage, hc]
    rcases answer with halt | error | activation
    · exact ⟨⟨_, hrow, hcourse, .single rfl (by simp) fun _ => rfl⟩, htraced⟩
    · exact ⟨⟨_, hrow, hcourse, .single rfl (by simp) fun _ => rfl⟩, htraced⟩
    cases activation with
    | proceed output =>
      cases remaining with
      | zero =>
        have hlast : ¬ position + 1 < c.length := by omega
        refine Part.complete (s₁.modifyWire id fun w => { w with current := output })
          (w.setStage position st) output hc rfl hpos ?_ ?_ ?_ (by simp [hrow]) (by simp) rfl hstop₁
          htraced
        · simp [Course.next?, hlast]
        · simp [Course.ending?, hlast]
        · simp [Course.output?, hlast]
      | succ remaining =>
        have hnext : position + 1 < c.length := by omega
        have hpart := ih remaining (by omega) (position + 1)
          (s := s₁.modifyWire id fun w => { w with current := output })
          (w := { w.setStage position st with current := output }) (by omega)
          (by simp [hrow]) hcourse
          ((hloop.of_steady hsteady).of_steady (T := Set.univ) (.modifyWire (Set.mem_univ _) fun _ _ => rfl))
        obtain ⟨⟨w', hw', hcourse', hlaw⟩, htraced'⟩ := hpart
        have houtput : c.output? ⟨id, position, w.iteration, w.stages[position].stage, w.current,
            .ok (.ok (.proceed output)),
            w.stages[position].stage.innerEvents (resumeEvents depth) w.current s⟩ = none := by
          simp [Course.output?, hnext]
        refine ⟨⟨w', hw', hcourse', .cons (by rwa [houtput]) rfl ?_ hstop₁⟩, fun col hex hcol => ?_⟩
        · simp only [Course.next?, hnext, if_true]
          rfl
        · refine (htraced col hex hcol).trans (htraced' col ?_ hcol)
          exact (hex.of_steady hsteady).of_steady (T := Set.univ) (.modifyWire (Set.mem_univ _) fun _ _ => rfl)
    | suspend point =>
      refine ⟨⟨{ w.setStage position st with cursor := .suspendedAt position point }, ?_, hcourse,
        .single rfl (fun _ _ => ⟨_, rfl, hpos, rfl, rfl⟩) fun _ => rfl⟩, fun col hex hcol => ?_⟩
      · simp [suspended, hrow, modifyRun]
      · refine (htraced col hex hcol).trans (.of_eq ?_)
        simp only [suspended, hrow]
        rfl
    | finish output =>
      exact Part.complete (s₁.modifyWire id fun w => { w with current := output })
        (w.setStage position st) output hc rfl hpos rfl rfl rfl (by simp [hrow]) (by simp) rfl hstop₁
        htraced
    | stop output => exact ⟨⟨_, hrow, hcourse, .single rfl (by simp) fun _ => rfl⟩, htraced⟩

/-- The state that a resumption starts from, with the wire taken up. -/
theorem takenUp_spec {id : Id .wire} (hw : s.wires.get? id = some w) :
    ∃ w', (s.takenUp id w).wires.get? id = some w' ∧ w'.course = w.course ∧
      w'.iteration = w.iteration ∧ w'.current = w.current ∧ w'.lastOutput = w.lastOutput ∧
      w'.collector = w.collector ∧
      (s.takenUp id w).stopping w' = s.stopping w ∧ (s.takenUp id w).collectors = s.collectors := by
  unfold takenUp
  split
  · rename_i position point hcursor
    refine ⟨{ w with cursor := .running position }, by simp [modifyRun, hw], rfl, rfl, rfl, rfl, rfl,
      ?_, rfl⟩
    simp only [stopping, run, modifyRun, modifyWire, Table.get?_modify_self]
    cases s.runs.get? w.run <;> rfl
  · exact ⟨w, hw, rfl, rfl, rfl, rfl, rfl, rfl, rfl⟩

theorem eval_resume (s : Store H) (id : Id .wire) :
    s.eval (resume id) = s.eval (resumeWithin (s.wires.size + 1) id) := by
  simp only [resume, eval_bind, eval_get, depthBound]

/-- A resumption of a wire that has stages is a part of its run. -/
theorem part_resume {id : Id .wire} {c : Course} {start : Point} (hw : s.wires.get? id = some w)
    (hc : w.course = c) (hdue : w.due? = some start) (hpos : start.position < c.length)
    (hloop : s.Unnested id) :
    Part id c start s w (resumeEvents s.depthBound id s) (s.eval (resume id)) := by
  obtain ⟨position, hposition, rfl⟩ := Option.map_eq_some_iff.1 hdue
  obtain ⟨w', hw', hcourse, hiteration, hcurrent, hlast, hcollector, hstop, hquiet⟩ :=
    takenUp_spec hw
  have hsteady : Steady Set.univ s (s.takenUp id w) := steady_takenUp (Set.mem_univ _) s w
  have hlength : w.stages.length = c.length := congrArg Course.length hc
  obtain ⟨remaining, hremaining⟩ : ∃ r, w.stages.length - position = r + 1 :=
    ⟨_, (Nat.succ_pred_eq_of_pos (by dsimp only at hpos; omega)).symm⟩
  rw [eval_resume, eval_resumeWithin_succ s _ hw hposition, depthBound,
    resumeEvents_succ s _ hw hposition, hremaining]
  have hsum : position + remaining + 1 = c.length := by omega
  obtain ⟨⟨w'', hw'', hcourse', hlaw⟩, htraced⟩ := part_advance s.wires.size remaining position hsum hw'
    (hcourse.trans hc) (hloop.of_steady hsteady)
  rw [hiteration, hcurrent, hlast, hstop] at hlaw
  refine ⟨⟨w'', hw'', hcourse', hlaw⟩, fun col hex hcol => ?_⟩
  obtain ⟨new, hnew, hstamps⟩ := htraced col (hex.of_steady hsteady) (hcollector.trans hcol)
  exact ⟨new, by rw [hnew, hquiet], hstamps⟩

/-! ### Stop requests -/

section Stop

variable {id : Id .wire}

/-- A resumption of a wire that was asked to stop activates nothing and answers the output that the
wire keeps. -/
theorem resume_of_stopping (hw : s.wires.get? id = some w) (hdue : w.due?.isSome)
    (hstop : s.stopping w = true) :
    resumeEvents s.depthBound id s = [] ∧
      (s.eval (resume id)).1 = .ok (.finished w.lastOutput) := by
  obtain ⟨start, hstart⟩ := Option.isSome_iff_exists.1 hdue
  obtain ⟨position, hposition, rfl⟩ := Option.map_eq_some_iff.1 hstart
  obtain ⟨w', hw', -, -, -, hlast, -, hstop', -⟩ := takenUp_spec hw
  rw [hstop] at hstop'
  rw [eval_resume, eval_resumeWithin_succ s _ hw hposition, depthBound,
    resumeEvents_succ s _ hw hposition]
  have hcomplete : ((s.takenUp id w).eval (completeIteration id)).1 =
      .ok (.finished w.lastOutput) := by
    simp [eval_completeIteration, hw', hstop', hlast]
  cases w.stages.length - position with
  | zero => exact ⟨rfl, hcomplete⟩
  | succ remaining =>
    rw [eval_advance_succ]
    simp only [advanceEvents, hw']
    cases (s.takenUp id w).placedAt? id position with
    | none => exact ⟨rfl, hcomplete⟩
    | some placed => simp [hstop', hlast]

theorem wires_requestStop (s : Store H) (j : Id .wire) : (s.requestStop j).wires = s.wires := by
  unfold requestStop
  split <;> rfl

theorem collectors_requestStop (s : Store H) (j : Id .wire) :
    (s.requestStop j).collectors = s.collectors := by
  unfold requestStop
  split <;> rfl

theorem size_requestStop (s : Store H) (j : Id .wire) :
    (s.requestStop j).runs.size = s.runs.size := by
  unfold requestStop
  split
  · rfl
  · exact Table.size_modify ..

theorem Unnested.requestStop (h : s.Unnested id) (j : Id .wire) : (s.requestStop j).Unnested id := by
  unfold Unnested code
  rwa [wires_requestStop]

theorem Exclusive.requestStop (h : s.Exclusive id c) (j : Id .wire) :
    (s.requestStop j).Exclusive id c := by
  unfold Exclusive code
  rwa [wires_requestStop]

/-- A stop request is not taken back by another one. -/
theorem stopping_requestStop (h : s.stopping w = true) (j : Id .wire) :
    (s.requestStop j).stopping w = true := by
  unfold requestStop
  split
  · exact h
  · rename_i w' _
    unfold stopping run modifyRun at *
    by_cases hrun : w'.run = w.run
    · rw [hrun, Table.get?_modify_self]
      cases hget : s.runs.get? w.run with
      | none => simp [hget] at h
      | some record => rfl
    · rwa [Table.get?_modify_of_ne _ hrun]

theorem stopping_requestStop_self (hw : s.wires.get? id = some w) (hrun : w.run.row < s.runs.size) :
    (s.requestStop id).stopping w = true := by
  obtain ⟨record, hget⟩ : ∃ record, s.runs.get? w.run = some record :=
    ⟨_, Array.getElem?_eq_getElem hrun⟩
  simp [requestStop, hw, stopping, run, modifyRun, hget]

theorem turnsLog_of_stopping (turns : List Turn) (hw : s.wires.get? id = some w)
    (hdue : w.due?.isSome) (hstop : s.stopping w = true) : s.turnsLog id turns = [] := by
  induction turns generalizing s with
  | nil => rfl
  | cons turn rest ih =>
    cases turn with
    | requestStop j =>
      exact ih (by rw [wires_requestStop, hw]) (stopping_requestStop hstop j)
    | resume =>
      obtain ⟨hlog, hanswer⟩ := resume_of_stopping hw hdue hstop
      rw [turnsLog, hlog]
      rcases hr : s.eval (resume id) with ⟨answer, s'⟩
      obtain rfl : answer = .ok (.finished w.lastOutput) := by rw [← hanswer, hr]
      rfl

end Stop

/-! ### The whole run -/

theorem steady_resume (s : Store H) (id : Id .wire) :
    Steady {j | s.code.Below id j} s (s.eval (resume id)).2 := by
  rw [eval_resume]
  exact steady_resumeWithin _ id s

/-- What the last activation says about a run: how it ended, or that it is suspended. -/
def Told (c : Course) (e : Event H) : Option (Except Halt Progress) → Prop
  | some answer => c.ending? e = some answer
  | none => ∃ point, c.ending? e = some (.ok (.suspended point))

/-- What a run along a course tells, from a point on. -/
structure Chronicle (id : Id .wire) (c : Course) (start : Point) (s : Store H) (w : Wire H)
    (turns : List Turn) : Prop where
  head : ∀ e ∈ (s.turnsLog id turns).head?, e.point = start
  chain : (s.turnsLog id turns).IsChain fun e e' => c.next? e = some e'.point
  ending : (∀ t ∈ turns, t = .resume) → turns ≠ [] → s.stopping w = false →
    ∃ e ∈ (s.turnsLog id turns).getLast?, Told c e (s.take id turns).1
  traced : ∀ c, s.Exclusive id c → w.collector = some c →
    Recorded c s (s.take id turns).2 (s.turnsLog id turns)

theorem chronicle (turns : List Turn) {id : Id .wire} {c : Course} {start : Point}
    (hw : s.wires.get? id = some w) (hc : w.course = c) (hdue : w.due? = some start)
    (hpos : start.position < c.length) (hloop : s.Unnested id) :
    Chronicle id c start s w turns := by
  induction turns generalizing s w start with
  | nil => exact ⟨by simp [turnsLog], .nil, by simp, fun _ _ _ => .of_eq rfl⟩
  | cons turn rest ih =>
    cases turn with
    | requestStop j =>
      have h := ih (by rw [wires_requestStop, hw]) hc hdue hpos (hloop.requestStop j)
      refine ⟨h.head, h.chain, by simp, fun col hex hcol => ?_⟩
      have hquiet : Recorded col s (s.requestStop j) [] := .of_eq (by rw [collectors_requestStop])
      exact hquiet.trans (h.traced col (hex.requestStop j) hcol)
    | resume =>
      obtain ⟨⟨w', hw', hc', hlaw⟩, htraced⟩ := part_resume hw hc hdue hpos hloop
      have hsteady := s.steady_resume id
      rcases hr : s.eval (resume id) with ⟨answer, s'⟩
      rw [hr] at hw' hlaw htraced hsteady
      by_cases hsus : ∃ point, answer = .ok (.suspended point)
      · obtain ⟨point, rfl⟩ := hsus
        obtain ⟨q, hq, hqpos, e, he, hnext⟩ := hlaw.due point rfl
        obtain ⟨w₁, hw₁, hframe⟩ := hsteady.keeps.get? hw
        obtain rfl : w' = w₁ := Option.some.inj (hw'.symm.trans hw₁)
        have h := ih hw' hc' hq hqpos (hloop.of_steady hsteady)
        have hlog : s.turnsLog id (.resume :: rest) =
            resumeEvents s.depthBound id s ++ s'.turnsLog id rest := by
          simp only [turnsLog, hr]
        have htake : s.take id (.resume :: rest) = s'.take id rest := by
          simp only [take, hr]
        have hne : resumeEvents s.depthBound id s ≠ [] := by
          rintro hnil
          simp [hnil] at he
        refine ⟨?_, ?_, fun hall _ hstop => ?_, fun col hex hcol => ?_⟩
        · rw [hlog, List.head?_append_of_ne_nil _ hne]
          exact hlaw.head
        · rw [hlog, List.isChain_append]
          refine ⟨hlaw.chain, h.chain, fun x hx y hy => ?_⟩
          obtain rfl : e = x := Option.some.inj ((Option.mem_def.1 he).symm.trans hx)
          rw [hnext, h.head y hy]
        · have hrun : w'.run = w.run := congrArg (·.2.2.1) hframe
          have hstop' : s'.stopping w' = false := by
            rw [stopping, hrun]
            exact hsteady.stops _ hstop
          rw [hlog, htake]
          cases rest with
          | nil =>
            obtain ⟨e', he', hending⟩ := hlaw.ending hstop
            refine ⟨e', ?_, point, hending⟩
            simpa [turnsLog] using he'
          | cons turn rest =>
            obtain ⟨e', he', htold⟩ := h.ending (fun t ht => hall t (.tail _ ht)) (by simp) hstop'
            refine ⟨e', ?_, htold⟩
            rw [List.getLast?_append, Option.mem_def.1 he']
            rfl
        · have hcollector : w'.collector = w.collector := congrArg (·.2.2.2) hframe
          rw [hlog, htake]
          exact (htraced col hex hcol).trans
            (h.traced col (hex.of_steady hsteady) (hcollector.trans hcol))
      · have hlog : s.turnsLog id (.resume :: rest) = resumeEvents s.depthBound id s := by
          simp only [turnsLog, hr]
          split
          · simp_all
          · simp
        have htake : s.take id (.resume :: rest) = (some answer, s') := by
          simp only [take, hr]
          split <;> simp_all
        refine ⟨hlog ▸ hlaw.head, hlog ▸ hlaw.chain, fun _ _ hstop => ?_, fun col hex hcol => ?_⟩
        · rw [hlog, htake]
          exact hlaw.ending hstop
        · rw [hlog, htake]
          exact htraced col hex hcol

/-- What follows a stop request adds nothing to the log. -/
theorem turnsLog_requestStop (before after : List Turn) {id : Id .wire} {c : Course} {start : Point}
    (hw : s.wires.get? id = some w) (hc : w.course = c) (hdue : w.due? = some start)
    (hpos : start.position < c.length) (hloop : s.Unnested id) (hrun : w.run.row < s.runs.size) :
    s.turnsLog id (before ++ .requestStop id :: after) = s.turnsLog id before := by
  induction before generalizing s w start with
  | nil =>
    refine turnsLog_of_stopping after (by rw [wires_requestStop, hw]) (by simp [hdue]) ?_
    exact stopping_requestStop_self hw hrun
  | cons turn rest ih =>
    cases turn with
    | requestStop j =>
      exact ih (by rw [wires_requestStop, hw]) hc hdue hpos (hloop.requestStop j)
        (by rwa [size_requestStop])
    | resume =>
      obtain ⟨⟨w', hw', hc', hlaw⟩, -⟩ := part_resume hw hc hdue hpos hloop
      have hsteady := s.steady_resume id
      rw [List.cons_append, turnsLog, turnsLog]
      rcases hr : s.eval (resume id) with ⟨_ | point | _ | _, s'⟩
      · rfl
      · rw [hr] at hw' hlaw hsteady
        obtain ⟨q, hq, hqpos, -⟩ := hlaw.due point rfl
        obtain ⟨w₁, hw₁, hframe⟩ := hsteady.keeps.get? hw
        obtain rfl : w' = w₁ := Option.some.inj (hw'.symm.trans hw₁)
        have hrun' : w'.run = w.run := congrArg (·.2.2.1) hframe
        congr 1
        exact ih hw' hc' hq hqpos (hloop.of_steady hsteady) (by rwa [hrun', hsteady.runs])
      · rfl
      · rfl

/-- A wire without stages has nothing to activate. -/
theorem turns_of_empty (turns : List Turn) {id : Id .wire} (hw : s.wires.get? id = some w)
    (hempty : w.stages = []) :
    s.turnsLog id turns = [] ∧ (s.take id turns).2.collectors = s.collectors := by
  induction turns generalizing s w with
  | nil => exact ⟨rfl, rfl⟩
  | cons turn rest ih =>
    cases turn with
    | requestStop j =>
      obtain ⟨hlog, hquiet⟩ := ih (s := s.requestStop j) (by rw [wires_requestStop, hw]) hempty
      exact ⟨hlog, hquiet.trans (collectors_requestStop s j)⟩
    | resume =>
      have hresume : resumeEvents s.depthBound id s = [] ∧
          (s.eval (resume id)).2.collectors = s.collectors := by
        rw [eval_resume, depthBound]
        cases hposition : w.cursor.position? with
        | none => simp [resumeEvents, resumeWithin, eval_bind, eval_takeUp, hw, hposition]
        | some position =>
          obtain ⟨w', hw', -, -, -, -, -, -, hquiet⟩ := takenUp_spec hw
          obtain ⟨-, -, -, -, -, hquiet'⟩ := completeIteration_spec hw'
          rw [eval_resumeWithin_succ s _ hw hposition, resumeEvents_succ s _ hw hposition, hempty]
          simp only [List.length_nil, Nat.zero_sub]
          exact ⟨rfl, hquiet'.trans hquiet⟩
      have hsteady := s.steady_resume id
      rw [turnsLog, take, hresume.1]
      rcases hr : s.eval (resume id) with ⟨_ | point | _ | _, s'⟩ <;> rw [hr] at hresume hsteady
      · exact ⟨rfl, hresume.2⟩
      · obtain ⟨w', hw', hframe⟩ := hsteady.keeps.get? hw
        have hempty' : w'.stages = [] := by
          have := congrArg (·.2.1) hframe
          simpa [Wire.frame, hempty] using this
        obtain ⟨hlog, hquiet⟩ := ih hw' hempty'
        exact ⟨hlog, hquiet.trans hresume.2⟩
      · exact ⟨rfl, hresume.2⟩
      · exact ⟨rfl, hresume.2⟩

/-- A wire that was started runs its stages in order, whatever they answer and however its run is
broken up into resumptions. The log begins with the first stage, the first iteration and the input
of the wire, and each activation in it is the one that the activation before leads to. Behind a stop
request it has nothing more. As long as nobody asks for a stop nothing is left out either: the last
activation says how the last resumption ended. What a collector gets that only this wire uses are
the traces of exactly this log. -/
theorem stages_run_in_order (s : Store H) (id : Id .wire) (w : Wire H)
    (hw : s.wires.get? id = some w) (hrun : w.run.row < s.runs.size) (hloop : s.Unnested id)
    (input : Value) (turns : List Turn) :
    let course : Course := ⟨w.stages.length, w.looped, input⟩
    let started := s.start id input
    let log := started.turnsLog id turns
    (∀ e ∈ log.head?, e.point = ⟨0, 0, input⟩) ∧
      (log.IsChain fun e e' => course.next? e = some e'.point) ∧
      (∀ before after, turns = before ++ .requestStop id :: after →
        log = started.turnsLog id before) ∧
      ((∀ t ∈ turns, t = .resume) → turns ≠ [] → w.stages ≠ [] →
        ∃ e ∈ log.getLast?, Told course e (started.take id turns).1) ∧
      (∀ c, w.collector = some c → s.Exclusive id c →
        Recorded c s (started.take id turns).2 log) := by
  intro course started log
  have hsteady : Steady Set.univ s started := steady_start (Set.mem_univ _) s input
  let w₀ : Wire H :=
    { w with current := input, input, lastOutput := .nothing, iteration := 0, cursor := .running 0 }
  have hw₀ : started.wires.get? id = some w₀ := by simp [started, start, hw, modifyRun, w₀]
  have hquiet : started.collectors = s.collectors := by
    simp only [started, start, hw]
    rfl
  have hstop : started.stopping w₀ = false := by
    simp only [started, start, hw, stopping, run, modifyRun, w₀, Table.get?_modify_self]
    cases (s.modifyWire id _).runs.get? w.run <;> rfl
  by_cases hempty : w.stages = []
  · have hall : ∀ turns, started.turnsLog id turns = [] ∧
        (started.take id turns).2.collectors = started.collectors := fun turns =>
      turns_of_empty turns hw₀ hempty
    have hlog : log = [] := (hall turns).1
    refine ⟨by simp [hlog], by simp [hlog], fun before _ _ => hlog.trans (hall before).1.symm,
      fun _ _ h => absurd hempty h, fun c _ _ => ?_⟩
    rw [hlog]
    exact .of_eq (by rw [(hall turns).2, hquiet])
  · have hpos : 0 < course.length := List.length_pos_iff.2 hempty
    have hloop₀ := hloop.of_steady hsteady
    have h := chronicle turns hw₀ rfl rfl hpos hloop₀
    refine ⟨h.head, h.chain, ?_, fun hall hne _ => h.ending hall hne hstop, fun c hcol hex => ?_⟩
    · rintro before after rfl
      exact turnsLog_requestStop before after hw₀ rfl rfl hpos hloop₀ (hsteady.runs ▸ hrun)
    · obtain ⟨new, hnew, hstamps⟩ := h.traced c (hex.of_steady hsteady) hcol
      exact ⟨new, by rw [hnew, hquiet], hstamps⟩

/-- A looped wire that pauses and then passes its input on. -/
def pausing : Store Host.none :=
  let (id, s) := ({} : Store Host.none).addWire "tick" true
  s.modifyWire id fun w =>
    { w with stages := [{ stage := .pause .nothing false }, { stage := .pass }] }

/-- Three resumptions with a stop request before the last: the pause is activated twice with the
same input, the iteration is completed, and the run ends there. -/
theorem pausing_runs_in_order :
    let log := (pausing.start ⟨0⟩ (.int 5)).turnsLog ⟨0⟩ [.resume, .resume, .requestStop ⟨0⟩, .resume]
    log.map Event.position = [0, 0, 1] ∧ (∀ e ∈ log.head?, e.point = ⟨0, 0, .int 5⟩) ∧
      log.IsChain fun e e' => Course.next? ⟨2, true, .int 5⟩ e = some e'.point := by
  have h := stages_run_in_order pausing ⟨0⟩ _ rfl (by decide)
    (unnested_of_descending (by decide) _) (.int 5)
    [.resume, .resume, .requestStop ⟨0⟩, .resume]
  exact ⟨rfl, h.1, h.2.1⟩

end Store

end Dataflow
