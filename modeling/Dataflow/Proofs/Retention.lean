import Dataflow.Proofs.Finality
import Dataflow.Proofs.Queues
/-!
# Uncollected results are dropped oldest first

A mesh remembers the runs that no wait has collected. Whenever a wire is scheduled, finished runs
beyond a bound are dropped, the oldest ones first. In between, runs end in any order, so which of them
count as the oldest finished ones changes from one scheduling to the next. What is left is still told
by the history alone: `uncollected` goes through it and keeps, at each scheduling, the runs that were
under way and the latest of those that were over.

Records are numbered in scheduling order, so a mesh never has two handles of one run.
-/

namespace Dataflow

namespace Mesh

open Store

variable {H : Host} {m m' : Mesh} {s s' : Store H} {r : Nat} {h : Handle} {handles : List Handle}

/-! ### What is kept -/

/-- The last so many. -/
def latest (r : Nat) (handles : List Handle) : List Handle := handles.drop (handles.length - r)

/-- The runs that are not over, and of the others the latest `r`. -/
def keep (r : Nat) (ended : Handle → Bool) (handles : List Handle) : List Handle :=
  handles.filter fun h => !ended h || decide (h ∈ latest r (handles.filter ended))

/-- Runs that are over are dropped from the front. -/
theorem dropFinished_eq (hnodup : handles.Nodup) (n : Nat) :
    dropFinished s n handles = handles.filter fun h =>
      !h.isTerminal s || decide (h ∈ (handles.filter fun h => h.isTerminal s).drop n) := by
  induction handles generalizing n with
  | nil => cases n <;> rfl
  | cons h rest ih =>
    obtain ⟨hh, hrest⟩ := List.nodup_cons.1 hnodup
    cases n with
    | zero =>
      rw [dropFinished, eq_comm, List.filter_eq_self]
      intro h' hh'
      cases hover : h'.isTerminal s <;> simp [hover, hh']
    | succ n =>
      rw [dropFinished]
      cases hover : h.isTerminal s with
      | true =>
        have hgone : h ∉ (rest.filter fun h => h.isTerminal s).drop n := fun hmem =>
          hh (List.mem_filter.1 (List.mem_of_mem_drop hmem)).1
        simp [hover, hgone, ih hrest]
      | false => simp [hover, ih hrest]

theorem prune_eq_keep (hnodup : m.scheduled.Nodup) :
    (m.prune s).scheduled = keep m.config.retainedResults (·.isTerminal s) m.scheduled :=
  dropFinished_eq hnodup _

/-! ### Histories -/

/-- What goes on in between: tasks take their turns, and runs end in whatever order. Nothing is
assumed but that no record is lost. -/
structure Lapse (H : Host) where
  tasks : List Task
  clock : Nat
  change : Store H → Store H
  lasting : ∀ s, s.runs.size ≤ (change s).runs.size

/-- What happens to a mesh. -/
inductive Event (H : Host) where
  | schedule (wire : Id .wire) (input : Value)
  | elapse (lapse : Lapse H)
  | collect (limit : Nat)

/-- What is told of it. -/
inductive Notice where
  /-- A wire was scheduled, when those runs were over. -/
  | scheduled (h : Handle) (ended : Handle → Bool)
  | collected (outcomes : List Outcome)
  /-- Nothing, or what was asked for failed. -/
  | silent

/-- One event. -/
def happen : Mesh × Store H → Event H → Notice × Mesh × Store H
  | (m, s), .schedule wire input =>
    match s.eval (m.schedule wire input) with
    | (.ok (.ok h, m), s) => (.scheduled h (·.isTerminal s), m, s)
    | (_, s) => (.silent, m, s)
  | (m, s), .elapse lapse =>
    (.silent, { m with tasks := lapse.tasks, clock := lapse.clock }, lapse.change s)
  | (m, s), .collect limit =>
    match s.eval (m.waitAll limit) with
    | (.ok (outcomes, m), s) => (.collected outcomes, m, s)
    | (_, s) => (.silent, m, s)

/-- The uncollected runs after one more event. -/
def left (r : Nat) (handles : List Handle) : Notice → List Handle
  | .scheduled h ended => keep r ended handles ++ [h]
  | .collected _ => []
  | .silent => handles

/-- The uncollected runs after a history, in scheduling order. -/
def uncollected (r : Nat) (notices : List Notice) : List Handle := notices.foldl (left r) []

/-- A mesh remembers these runs, and has their records in scheduling order. -/
structure Remembers (config : Config) (handles : List Handle) (m : Mesh) (s : Store H) : Prop where
  config : m.config = config
  live : m.terminated = false
  scheduled : m.scheduled = handles
  order : (handles.map (·.run.row)).Pairwise (· < ·)
  known : ∀ h ∈ handles, h.run.row < s.runs.size

theorem custody_size (n : Nat) :
    Custody (fun s : Store H => n ≤ s.runs.size) (fun _ => True) Set.univ Set.univ where
  toUpkeep := upkeep_size n
  renew _ _ h := h.trans ((Nat.le_succ _).trans (Table.size_push ..).ge)
  fresh _ := trivial
  stop _ h := h.trans_eq (Table.size_modify ..).symm
  roots _ _ _ := trivial

/-- Waiting lets tasks take their turns, and no more is changed about the mesh. -/
theorem runUntil_ok {done : Store H → Bool} {limit : Nat}
    (h : s.eval (runUntil done limit m) = (.ok m', s')) :
    done s' = true ∧ m'.config = m.config ∧ m'.terminated = m.terminated ∧
      m'.scheduled = m.scheduled := by
  induction limit generalizing m s with
  | zero =>
    simp only [runUntil, eval_bind, eval_get] at h
    by_cases hdone : done s = true
    · rw [if_pos hdone] at h
      cases h
      exact ⟨hdone, rfl, rfl, rfl⟩
    · rw [if_neg hdone] at h
      cases h
  | succ limit ih =>
    simp only [runUntil, eval_bind, eval_get] at h
    by_cases hdone : done s = true
    · rw [if_pos hdone] at h
      cases h
      exact ⟨hdone, rfl, rfl, rfl⟩
    · rw [if_neg hdone] at h
      simp only [round, eval_bind] at h
      rcases hr : s.eval (turns m.clock m.tasks) with ⟨halt | tasks, s₁⟩ <;> rw [hr] at h
      · cases h
      · exact ih (m := { m with tasks, clock := nextTime m.clock tasks }) h

/-- A collection takes all runs that a mesh remembers and answers their results, in order. -/
theorem waitAll_ok {limit : Nat} {outcomes : List Outcome} (hlive : m.terminated = false)
    (h : s.eval (m.waitAll limit) = (.ok (outcomes, m'), s')) :
    outcomes = results m.scheduled s' ∧ (∀ h ∈ m.scheduled, h.isTerminal s' = true) ∧
      m'.config = m.config ∧ m'.terminated = false ∧ m'.scheduled = [] := by
  simp only [waitAll, hlive, Bool.false_eq_true, if_false, waitFor, eval_bind] at h
  rcases hr : s.eval (runUntil (fun s => m.scheduled.all fun h => h.isTerminal s) limit
    { m with scheduled := [], terminated := false }) with ⟨halt | m₁, s₁⟩ <;> rw [hr] at h <;> cases h
  obtain ⟨hdone, hconfig, hterminated, hscheduled⟩ := runUntil_ok hr
  exact ⟨rfl, by simpa using hdone, hconfig, hterminated, hscheduled⟩

namespace Remembers

variable {config : Config}

theorem nodup (hm : Remembers config handles m s) : handles.Nodup :=
  List.Nodup.of_map _ (hm.order.imp ne_of_lt)

/-- What becomes of the store does not matter, as long as no record is lost. -/
theorem mono (hm : Remembers config handles m s) (hsize : s.runs.size ≤ s'.runs.size) :
    Remembers config handles m s' :=
  { hm with known := fun h hh => (hm.known h hh).trans_le hsize }

/-- A new run has a later record than those that are remembered. -/
theorem schedule (hm : Remembers config handles m s) {wire : Id .wire} {input : Value}
    (hs : s.eval (m.schedule wire input) = (.ok (.ok h, m'), s')) :
    Remembers config (keep config.retainedResults (·.isTerminal s') handles ++ [h]) m' s' := by
  obtain ⟨-, hrun, hsize, rfl⟩ := schedule_spec hs
  have hrow : h.run.row = s.runs.size := congrArg Id.row hrun
  have hkept : (keep config.retainedResults (·.isTerminal s') handles).Sublist handles :=
    List.filter_sublist
  refine ⟨hm.config, hm.live, ?_, ?_, fun h' hh' => ?_⟩
  · dsimp only
    rw [prune_eq_keep (hm.scheduled ▸ hm.nodup), hm.config, hm.scheduled]
  · rw [List.map_append, List.pairwise_append]
    refine ⟨hm.order.sublist (hkept.map _), List.pairwise_singleton .., fun row hmem row' hmem' => ?_⟩
    obtain ⟨h', hh', rfl⟩ := List.mem_map.1 hmem
    rw [List.mem_singleton.1 hmem']
    exact (hm.known h' (hkept.subset hh')).trans_eq hrow.symm
  · rcases List.mem_append.1 hh' with hh' | hh'
    · exact (hm.known h' (hkept.subset hh')).trans hsize
    · rwa [List.mem_singleton.1 hh', hrow]

/-- Whatever happens, a mesh remembers the runs that the history says. -/
theorem happen (hm : Remembers config handles m s) (event : Event H) :
    let (notice, m', s') := happen (m, s) event
    Remembers config (left config.retainedResults handles notice) m' s' := by
  cases event with
  | schedule wire input =>
    have hsize := (ensures_schedule (custody_size s.runs.size) m wire input s le_rfl).1
    rw [Mesh.happen]
    rcases hr : s.eval (m.schedule wire input) with ⟨halt | ⟨e | h, m'⟩, s'⟩ <;> rw [hr] at hsize
    · exact hm.mono hsize
    · exact hm.mono hsize
    · exact hm.schedule hr
  | elapse lapse =>
    exact ⟨hm.config, hm.live, hm.scheduled, hm.order, (hm.mono (lapse.lasting s)).known⟩
  | collect limit =>
    have hsize := (ensures_waitAll (m := m) (custody_size s.runs.size) limit
      (fun _ _ => Set.mem_univ _) s le_rfl).1
    rw [Mesh.happen]
    rcases hr : s.eval (m.waitAll limit) with ⟨halt | ⟨outcomes, m'⟩, s'⟩ <;> rw [hr] at hsize
    · exact hm.mono hsize
    · obtain ⟨-, -, hconfig, hlive, hnone⟩ := waitAll_ok hm.live hr
      exact ⟨hconfig.trans hm.config, hlive, hnone, .nil, fun _ hh => absurd hh List.not_mem_nil⟩

theorem runAll (hm : Remembers config handles m s) (events : List (Event H)) :
    let run := Dataflow.runAll Mesh.happen events (m, s)
    Remembers config (run.1.foldl (left config.retainedResults) handles) run.2.1 run.2.2 := by
  induction events generalizing m s handles with
  | nil => exact hm
  | cons event events ih => exact ih (hm.happen event)

end Remembers

theorem remembers_create (config : Config) (s : Store H) :
    Remembers config [] (create config s).1 (create config s).2 := by
  unfold create
  dsimp only
  split <;> exact ⟨rfl, rfl, rfl, .nil, fun _ hh => absurd hh List.not_mem_nil⟩

/-- Uncollected results are dropped oldest first and reported in order. Let wires be scheduled on a new
mesh, with or without success, runs end in any order, and results be collected. Then the mesh has the
runs that were scheduled since the last collection and not dropped, in scheduling order, each once:
at each scheduling all were kept that were not over, and of the others the latest ones up to the
bound. The next collection, if it comes to its end, finds all of them over and answers their results
in that order; and the next scheduling keeps them by the same rule. -/
theorem dropped_oldest_first (config : Config) (s₀ : Store H) (events : List (Event H)) :
    let run := runAll happen events (create config s₀)
    let m := run.2.1
    let s := run.2.2
    m.scheduled = uncollected config.retainedResults run.1 ∧
      (m.scheduled.map (·.run.row)).Pairwise (· < ·) ∧
      (∀ limit outcomes m' s', s.eval (m.waitAll limit) = (.ok (outcomes, m'), s') →
        outcomes = results m.scheduled s' ∧ (∀ h ∈ m.scheduled, h.isTerminal s' = true) ∧
          m'.scheduled = []) ∧
      ∀ wire input h m' s', s.eval (m.schedule wire input) = (.ok (.ok h, m'), s') →
        h ∉ m.scheduled ∧
          m'.scheduled = keep config.retainedResults (·.isTerminal s') m.scheduled ++ [h] := by
  intro run m s
  have hm : Remembers config _ m s := (remembers_create config s₀).runAll events
  refine ⟨hm.scheduled, hm.scheduled ▸ hm.order, fun limit outcomes m' s' hs => ?_,
    fun wire input h m' s' hs => ⟨fun hmem => ?_, ?_⟩⟩
  · obtain ⟨houtcomes, hover, -, -, hnone⟩ := waitAll_ok hm.live hs
    exact ⟨houtcomes, hover, hnone⟩
  · have hknown := hm.known h (hm.scheduled ▸ hmem)
    rw [(schedule_spec hs).2.1] at hknown
    exact lt_irrefl _ hknown
  · rw [(hm.schedule hs).scheduled, hm.scheduled]

end Mesh

end Dataflow
