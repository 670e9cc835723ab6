import Dataflow.Channel.Receiver
import Dataflow.Proofs.Queues
/-!
# Receivers pass on what was sent

A receiver collects a batch over several activations, and in between its queue is sent to and may be
closed. The storage of the last output goes back to the same queue, where later sends are copied
into it. Still each value that was delivered is passed on once, in order: what was output, followed
by what is collected and what is queued, are the deliveries.

`Collects` says what one activation can do. All else is read off its three cases.
-/

namespace Dataflow

variable {pending rest : List Value}

namespace Receiver

/-! ### One activation -/

/-- What collected values are output as: a sequence, if batches are collected at all. -/
def pack (batch : Nat) (values : List Value) : Value :=
  if 1 < batch then .seq values else values.headD .nothing

/-- The values that an output is made of. -/
def unpack (batch : Nat) : Value → List Value
  | .seq values => if 1 < batch then values else [.seq values]
  | v => [v]

/-- A number of values that makes an output: a whole batch, or the rest of a stream that is over. -/
def Enough (batch count : Nat) (ended : Prop) : Prop :=
  count = batch ∨ 0 < count ∧ count < batch ∧ ended

/-- What becomes of collected and queued values: the answer, and what is collected and queued
then. -/
inductive Collects (closed : Bool) (batch : Nat) (pending items : List Value) :
    Activation → List Value → List Value → Prop where
  /-- There is too little for an output, and more may come. -/
  | wait (hopen : closed = false) (hfew : pending.length + items.length < batch) :
      Collects closed batch pending items (.suspend .yield) (pending ++ items) []
  /-- There is nothing left. -/
  | finish (hclosed : closed = true) (hpending : pending = []) (hitems : items = []) :
      Collects closed batch pending items (.stop .nothing) [] []
  /-- There is an output. -/
  | output (values rest : List Value) (hvalues : pending ++ items = values ++ rest)
      (henough : Enough batch values.length (closed = true ∧ rest = [])) :
      Collects closed batch pending items (.proceed (pack batch values)) [] rest

/-- What is left of the settings and of the storage after an activation: nothing but the output is
kept for reuse. -/
structure Spent (batch : Nat) (last : Option Value) (answer : Activation) (r : Receiver) :
    Prop where
  batch : r.batch = batch
  last : ∀ v ∈ r.last, v ∈ last ∨ answer = .proceed v

variable {r : Receiver} {q : Queue} {closed noCopy : Bool} {values : List Value} {batch : Nat}

theorem spent_output (noCopy : Bool) (v : Value) :
    Spent r.batch r.last (r.output noCopy v).1 (r.output noCopy v).2 := by
  cases noCopy with
  | true => exact ⟨rfl, fun v hv => .inl hv⟩
  | false => exact ⟨rfl, fun w hw => .inr (congrArg _ (Option.some.inj hw))⟩

theorem pending_output (noCopy : Bool) (v : Value) : (r.output noCopy v).2.pending = r.pending := by
  cases noCopy <;> rfl

/-- The values of a whole batch, or of a last one, are output. -/
theorem collects_outputBatch {items : List Value} (hbatch : 1 < r.batch)
    (hvalues : pending ++ items = r.pending ++ rest)
    (henough : Enough r.batch r.pending.length (closed = true ∧ rest = [])) :
    Collects closed r.batch pending items (r.outputBatch noCopy).1 (r.outputBatch noCopy).2.pending
      rest := by
  have h := Collects.output r.pending rest hvalues henough
  rw [pack, if_pos hbatch] at h
  rw [outputBatch, pending_output]
  exact h

/-- An activation takes queued values until one of the cases is reached. -/
theorem collect_collects (items : List Value) (hpending : r.pending.length < r.batch) :
    Collects closed r.batch r.pending items (collect closed noCopy r items).1.1
        (collect closed noCopy r items).1.2.pending (collect closed noCopy r items).2 ∧
      Spent r.batch r.last (collect closed noCopy r items).1.1
        (collect closed noCopy r items).1.2 := by
  induction items generalizing r with
  | nil =>
    rw [collect]
    split
    · rename_i hopen
      have hwait : Collects closed r.batch r.pending [] (.suspend .yield) (r.pending ++ []) [] :=
        .wait (by simpa using hopen) hpending
      rw [List.append_nil] at hwait
      exact ⟨hwait, rfl, fun v hv => .inl hv⟩
    · rename_i hclosed
      have hclosed : closed = true := by simpa using hclosed
      split
      · rename_i hnone
        have hnone := List.isEmpty_iff.1 hnone
        have hfinish : Collects closed r.batch r.pending [] (.stop .nothing) [] [] :=
          .finish hclosed hnone rfl
        exact ⟨by simpa only [hnone] using hfinish, rfl, fun v hv => .inl hv⟩
      · rename_i hsome
        have hlength : 0 < r.pending.length := List.length_pos_iff.2 fun h => hsome (by simp [h])
        exact ⟨collects_outputBatch (by omega) rfl (.inr ⟨hlength, hpending, hclosed, rfl⟩),
          spent_output (r := { r with pending := [] }) ..⟩
  | cons v rest ih =>
    rw [collect]
    split
    · -- values are output one by one, so none is collected
      rename_i hbatch
      have hone : r.batch = 1 := by omega
      have hnone : r.pending = [] := List.length_eq_zero_iff.1 (by omega)
      have houtput : Collects closed r.batch r.pending (v :: rest) (.proceed (pack r.batch [v])) []
          rest := .output [v] rest (by rw [hnone]; rfl) (.inl hone.symm)
      rw [pack, if_neg (by omega)] at houtput
      exact ⟨by rw [pending_output, hnone] at *; exact houtput, spent_output ..⟩
    · rename_i hbatch
      dsimp only
      have happend : r.pending ++ v :: rest = (r.pending ++ [v]) ++ rest := by simp
      have hlength : (r.pending ++ [v]).length = r.pending.length + 1 := by simp
      split
      · exact ⟨collects_outputBatch (r := { r with pending := r.pending ++ [v] })
          (Nat.lt_of_not_le hbatch) happend (.inl (by dsimp only at *; omega)),
          spent_output (r := { r with pending := [] }) ..⟩
      · -- the cases of the rest are those of the whole
        rename_i hmore
        obtain ⟨h, hspent⟩ :=
          ih (r := { r with pending := r.pending ++ [v] }) (Nat.lt_of_not_le hmore)
        refine ⟨?_, hspent⟩
        dsimp only at h
        generalize collect closed noCopy { r with pending := r.pending ++ [v] } rest = result at h ⊢
        generalize result.1.1 = answer, result.1.2.pending = pending, result.2 = rest' at h ⊢
        cases h with
        | wait hopen hfew =>
          rw [← happend]
          exact .wait hopen (by rw [List.length_cons]; omega)
        | finish _ hnone _ => simp at hnone
        | output values rest' hvalues henough =>
          exact .output values rest' (happend.trans hvalues) henough

/-- All values of a receiver are tidy, and no batch is complete. -/
structure Ready (r : Receiver) : Prop where
  few : r.pending.length < r.batch
  pending : ∀ v ∈ r.pending, v.isTidy = true
  last : ∀ v ∈ r.last, v.isTidy = true

/-- Storage that goes back is not seen. -/
theorem recycleLast_spec (hr : r.Ready) (hq : q.Tidy) :
    (r.recycleLast q).2.view = q.view ∧ (r.recycleLast q).2.Tidy := by
  rw [recycleLast]
  dsimp only
  split
  · exact ⟨rfl, hq⟩
  · rename_i values hlast
    have htidy := hr.last _ hlast
    split
    · exact Queue.recycle_foldl hq values (Value.itemsTidy_iff.1 htidy)
    · exact ⟨Queue.view_recycle .., hq.recycle htidy⟩
  · rename_i v _ hlast
    exact ⟨Queue.view_recycle .., hq.recycle (hr.last v hlast)⟩

/-- An activation collects from the queue as it finds it, and leaves tidy storage. -/
theorem receive_collects (hr : r.Ready) (hq : q.Tidy) :
    Collects q.header.closed r.batch r.pending q.items (r.receive q).1 (r.receive q).2.1.pending
        (r.receive q).2.2.items ∧
      Spent r.batch none (r.receive q).1 (r.receive q).2.1 ∧
      ∀ v ∈ (r.receive q).2.2.spare, v.isTidy = true := by
  obtain ⟨hview, htidy⟩ := recycleLast_spec hr hq
  have hclosed : (r.recycleLast q).2.header.closed = q.header.closed := congrArg Fifo.closed hview
  have hitems : (r.recycleLast q).2.items = q.items := congrArg Fifo.items hview
  have h : Collects (r.recycleLast q).2.header.closed r.batch r.pending (r.recycleLast q).2.items
      (r.receive q).1 (r.receive q).2.1.pending (r.receive q).2.2.items ∧
        Spent r.batch none (r.receive q).1 (r.receive q).2.1 :=
    collect_collects (r := { r with last := none }) _ hr.few
  rw [hclosed, hitems] at h
  exact ⟨h.1, h.2, htidy.spare⟩

theorem unpack_pack {ended : Prop} (h : Enough batch values.length ended) (hbatch : 1 ≤ batch) :
    unpack batch (pack batch values) = values := by
  rw [pack]
  split
  · rename_i hmany
    simp only [unpack, hmany, if_true]
  · rename_i hone
    have hlength : values.length = 1 := by rcases h with h | h <;> omega
    obtain ⟨v, rfl⟩ := List.length_eq_one_iff.1 hlength
    cases v <;> simp [unpack, hone]

theorem isTidy_pack (h : ∀ v ∈ values, v.isTidy = true) : (pack batch values).isTidy = true := by
  rw [pack]
  split
  · exact Value.itemsTidy_iff.2 h
  · cases values with
    | nil => rfl
    | cons v values => exact h v List.mem_cons_self

/-- The values that an activation passes on. -/
def passed (batch : Nat) : Activation → List Value
  | .proceed v => unpack batch v
  | _ => []

section Collects

variable {items pending' : List Value} {answer : Activation}
  (h : Collects closed batch pending items answer pending' rest)

include h

/-- The first values are passed on, and less than a batch stays collected. -/
theorem Collects.conserves (hfew : pending.length < batch) :
    pending ++ items = passed batch answer ++ (pending' ++ rest) ∧ pending'.length < batch := by
  have hbatch : 1 ≤ batch := Nat.one_le_of_lt hfew
  cases h with
  | wait _ hfew => exact ⟨by simp [passed], by simpa using hfew⟩
  | finish _ hnone hitems => exact ⟨by simp [passed, hnone, hitems], hbatch⟩
  | output values _ hvalues henough =>
    rw [passed, unpack_pack henough hbatch]
    exact ⟨hvalues, hbatch⟩

theorem Collects.isTidy (htidy : ∀ v ∈ pending ++ items, v.isTidy = true) {v : Value}
    (hv : answer = .proceed v) : v.isTidy = true := by
  cases h with
  | output values rest hvalues henough =>
    cases hv
    rw [hvalues] at htidy
    exact isTidy_pack fun v hv => htidy v (List.mem_append_left _ hv)
  | _ => cases hv

/-- What an activation answers, by what is collected and queued before. -/
theorem Collects.answers (hbatch : 1 ≤ batch) :
    (answer = .suspend .yield ↔ closed = false ∧ pending.length + items.length < batch) ∧
      (answer = .suspend .yield → pending' = pending ++ items ∧ rest = []) ∧
      (answer = .stop .nothing ↔ closed = true ∧ items = [] ∧ pending = []) ∧
      (answer = .suspend .yield ∨ answer = .stop .nothing ∨ ∃ v, answer = .proceed v ∧
        Enough batch (unpack batch v).length (closed = true ∧ rest = []) ∧
        (1 < batch → v = .seq (unpack batch v))) := by
  cases h with
  | wait hopen hfew => exact ⟨by simp [hopen, hfew], by simp, by simp [hopen], .inl rfl⟩
  | finish hclosed hnone hitems =>
    exact ⟨by simp [hclosed], by simp, by simp [hclosed, hnone, hitems], .inr (.inl rfl)⟩
  | output values rest hvalues henough =>
    have hlength := congrArg List.length hvalues
    rw [List.length_append, List.length_append] at hlength
    refine ⟨?_, by simp, ?_, .inr (.inr ⟨_, rfl, ?_, fun hmany => ?_⟩)⟩
    · refine ⟨by simp, fun ⟨hopen, hfew⟩ => ?_⟩
      rcases henough with henough | ⟨-, -, hclosed, -⟩
      · omega
      · simp [hopen] at hclosed
    · refine ⟨by simp, fun ⟨_, hitems, hnone⟩ => ?_⟩
      rw [hitems, hnone, List.length_nil] at hlength
      rcases henough with henough | henough <;> omega
    · rwa [unpack_pack henough hbatch]
    · rw [unpack_pack henough hbatch, pack, if_pos hmany]

end Collects

/-! ### Runs -/

/-- What happens around a receiver: it is activated, or something is done with its queue. -/
inductive Op where
  | receive
  | feed (op : Queue.Op)

/-- What is told. -/
inductive Answer where
  | received (activation : Activation)
  | fed (answer : Queue.Answer)

/-- Only the receiver takes values from the queue, and all values are tidy. -/
def Op.isFair : Op → Bool
  | receive => true
  | feed .receive | feed .flush => false
  | feed op => op.isTidy

/-- One thing that happens to a receiver and its queue. -/
def step : Receiver × Queue → Op → Answer × Receiver × Queue
  | (r, q), .receive => (r.receive q).map .received id
  | (r, q), .feed op => ((q.step op).1 |> .fed, r, (q.step op).2)

/-- The values that something has delivered to the queue. -/
def delivered : Op × Answer → List Value
  | (.feed op, .fed answer) => op.entering answer
  | _ => []

/-- The activation that an answer tells of. -/
def Answer.activation? : Answer → Option Activation
  | received activation => some activation
  | fed _ => none

/-- The values on the way: those collected, then those queued. -/
def held (state : Receiver × Queue) : List Value := state.1.pending ++ state.2.items

/-- A receiver of batches of one size and its queue, all in order. -/
structure Tidy (batch : Nat) (state : Receiver × Queue) : Prop where
  ready : state.1.Ready
  queue : state.2.Tidy
  size : state.1.batch = batch

variable {state : Receiver × Queue}

/-- An activation passes on the first values on the way. -/
theorem conserves_receive (h : Tidy batch (r, q)) :
    held (r, q) = passed batch (r.receive q).1 ++ held (r.receive q).2 ∧
      Tidy batch (r.receive q).2 := by
  obtain ⟨hr, hq, rfl⟩ := h
  obtain ⟨hcollects, hspent, hspare⟩ := receive_collects hr hq
  obtain ⟨hsplit, hfew⟩ := hcollects.conserves hr.few
  have hheld : ∀ v ∈ r.pending ++ q.items, v.isTidy = true := by
    intro v hv
    rcases List.mem_append.1 hv with hv | hv
    · exact hr.pending v hv
    · exact hq.items v hv
  have hleft : ∀ v ∈ held (r.receive q).2, v.isTidy = true := fun v hv =>
    hheld v (hsplit ▸ List.mem_append_right _ hv)
  refine ⟨hsplit, ⟨hspent.batch.symm ▸ hfew, fun v hv => hleft v (List.mem_append_left _ hv), ?_⟩,
    ⟨fun v hv => hleft v (List.mem_append_right _ hv), hspare⟩, hspent.batch⟩
  intro v hv
  exact hcollects.isTidy hheld ((hspent.last v hv).resolve_left (by simp))

/-- What is done with the queue adds the deliveries behind the values on the way. -/
theorem conserves_feed (h : Tidy batch (r, q)) {op : Queue.Op} (hop : (Op.feed op).isFair = true) :
    held (r, q) ++ op.entering (q.step op).1 = held (r, (q.step op).2) ∧
      Tidy batch (r, (q.step op).2) := by
  obtain ⟨hr, hq, hbatch⟩ := h
  have htidy : op.isTidy = true := by cases op <;> first | exact hop | rfl
  have hleave : (q.step op).1.leaving q.items = [] := by cases op <;> first | rfl | cases hop
  have hitems := Queue.step_conserves hq htidy
  rw [hleave, List.nil_append] at hitems
  refine ⟨?_, hr, (Queue.refines_step hq htidy).tidy, hbatch⟩
  rw [held, List.append_assoc, hitems, held]

/-- The values delivered along a run. -/
def deliveries (ops : List Op) (answers : List Answer) : List Value :=
  (ops.zip answers).flatMap delivered

/-- The values passed on along a run. -/
def outputs (batch : Nat) (answers : List Answer) : List Value :=
  (answers.filterMap Answer.activation?).flatMap (passed batch)

/-- What was on the way and what was delivered since is what was passed on, followed by what is on
the way. -/
theorem conserved {ops : List Op} (h : Tidy batch (r, q)) (hops : ∀ op ∈ ops, op.isFair = true) :
    held (r, q) ++ deliveries ops (runAll step ops (r, q)).1 =
        outputs batch (runAll step ops (r, q)).1 ++ held (runAll step ops (r, q)).2 ∧
      Tidy batch (runAll step ops (r, q)).2 := by
  induction ops generalizing r q with
  | nil => exact ⟨by simp [runAll, deliveries, outputs], h⟩
  | cons op ops ih =>
    have hrest : ∀ op ∈ ops, op.isFair = true := fun op hop => hops op (List.mem_cons_of_mem _ hop)
    cases op with
    | receive =>
      obtain ⟨hstep, htidy⟩ := conserves_receive h
      obtain ⟨hrun, htidy⟩ := ih htidy hrest
      refine ⟨?_, htidy⟩
      rw [hstep, List.append_assoc]
      exact (congrArg _ hrun).trans (List.append_assoc ..).symm
    | feed op =>
      obtain ⟨hstep, htidy⟩ := conserves_feed h (hops _ List.mem_cons_self)
      obtain ⟨hrun, htidy⟩ := ih htidy hrest
      refine ⟨?_, htidy⟩
      rw [← hstep, List.append_assoc] at hrun
      exact hrun

/-- A receiver passes on what its queue was sent, each value once and in order, whatever is done
with the queue meanwhile, as long as nobody else takes values from it. What was output, followed by
what is collected and what is queued, is what was queued at first and what was delivered since. The
next activation waits if and only if the queue is open and there is less than a batch, all of which
is collected then. It ends the run if and only if the queue is closed and there is nothing at all.
Else it outputs a whole batch, or a shorter one that is the last of a stream. -/
theorem passes_each_once (r : Receiver) (hbatch : 1 ≤ r.batch) (hpending : r.pending = [])
    (hlast : r.last = none) (q : Queue) (hq : q.Tidy) (ops : List Op)
    (hops : ∀ op ∈ ops, op.isFair = true) :
    let run := runAll step ops (r, q)
    let (r', q') := run.2
    let (answer, r'', q'') := r'.receive q'
    q.items ++ deliveries ops run.1 = outputs r.batch run.1 ++ (r'.pending ++ q'.items) ∧
      (answer = .suspend .yield ↔
        q'.header.closed = false ∧ r'.pending.length + q'.items.length < r.batch) ∧
      (answer = .suspend .yield → r''.pending = r'.pending ++ q'.items ∧ q''.items = []) ∧
      (answer = .stop .nothing ↔
        q'.header.closed = true ∧ q'.items = [] ∧ r'.pending = []) ∧
      (answer = .suspend .yield ∨ answer = .stop .nothing ∨ ∃ v, answer = .proceed v ∧
        Enough r.batch (unpack r.batch v).length (q'.header.closed = true ∧ q''.items = []) ∧
        (1 < r.batch → v = .seq (unpack r.batch v))) := by
  intro run
  have hready : Tidy r.batch (r, q) :=
    ⟨⟨by rw [hpending]; exact hbatch, by simp [hpending], by simp [hlast]⟩, hq, rfl⟩
  obtain ⟨hconserved, hr', hq', hbatch'⟩ := conserved hready hops
  rw [held, hpending, List.nil_append, held] at hconserved
  have hcollects := (receive_collects hr' hq').1
  rw [hbatch'] at hcollects
  exact ⟨hconserved, hcollects.answers hbatch⟩

/-- A batch is collected over a suspension, and another one when the queue is closed. -/
def batching : List Op :=
  [.feed (.send (.int 1)), .receive, .feed (.send (.seq [.int 2])), .feed (.send (.int 3)),
    .receive, .receive, .feed .close, .receive]

/-- All values come out, and then the run ends. -/
theorem batching_passes_each_once :
    let run := runAll step batching ({ batch := 2 }, .new .any false 8)
    outputs 2 run.1 = [.int 1, .seq [.int 2], .int 3] ∧
      (run.2.1.receive run.2.2).1 = .stop .nothing := by
  obtain ⟨hpassed, -, -, hstop, -⟩ := passes_each_once { batch := 2 } (by decide) rfl rfl
    (.new .any false 8) (Queue.tidy_new ..) batching (by decide +kernel)
  exact ⟨((List.append_nil _).symm.trans hpassed.symm : _), hstop.2 ⟨rfl, rfl, rfl⟩⟩

end Receiver

end Dataflow
