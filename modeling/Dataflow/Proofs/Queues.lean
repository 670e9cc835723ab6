import Dataflow.Channel.Queue
import Dataflow.Proofs.Copying
/-!
# Queues deliver in order

A queue keeps storage that receivers have handed back, and copies what is sent into it. A `Fifo` is
a queue without any of that: a list with a bound. From outside the two cannot be told apart, whatever
is done with them and whatever storage comes back, be it handed back by a receiver, refused by a
full queue or flushed.

The reason is `Value.copyOver_eq`, and the invariant that carries it through a run is that all
storage stays tidy.
-/

namespace Dataflow

variable {n : Nat}

/-- Operations one after the other, with the answers and what is left in the end. -/
def runAll {σ ω α : Type} (step : σ → ω → α × σ) : List ω → σ → List α × σ
  | [], s => ([], s)
  | op :: ops, s =>
    let (answer, s) := step s op
    let (answers, s) := runAll step ops s
    (answer :: answers, s)

section RunAll

variable {σ ω α : Type} (step : σ → ω → α × σ)

theorem runAll_cons (op : ω) (ops : List ω) (s : σ) : runAll step (op :: ops) s =
    ((step s op).1 :: (runAll step ops (step s op).2).1, (runAll step ops (step s op).2).2) := rfl

/-- What each step keeps, a run keeps. -/
theorem runAll_invariant {P : σ → Prop} (hstep : ∀ s op, P s → P (step s op).2) (ops : List ω)
    {s : σ} (h : P s) : P (runAll step ops s).2 := by
  induction ops generalizing s with
  | nil => exact h
  | cons op ops ih => exact ih (hstep s op h)

end RunAll

/-- A plain bounded queue. -/
structure Fifo where
  capacity : Nat
  closed : Bool := false
  items : List Value := []

namespace Queue

/-- What can be done with a queue. -/
inductive Op where
  | send (v : Value)
  | sendOwned (v : Value)
  | receive
  | recycle (v : Value)
  | close
  | flush

/-- What a queue tells. -/
inductive Answer where
  | sent (outcome : SendOutcome)
  | received (outcome : ReceiveOutcome)
  | recycled
  /-- Whether it was closed before. -/
  | closed (before : Bool)
  | flushed (count : Nat)

/-- Whether the value of the operation, if it has one, is tidy. -/
def Op.isTidy : Op → Bool
  | send v | sendOwned v | recycle v => v.isTidy
  | _ => true

/-- One operation on a queue. -/
def step (q : Queue) : Op → Answer × Queue
  | .send v => (q.send v).map .sent id
  | .sendOwned v => (q.sendOwned v).map .sent id
  | .receive => q.receive.map .received id
  | .recycle v => (.recycled, q.recycle v)
  | .close => (.closed q.header.closed, q.close)
  | .flush => q.flush.map .flushed id

end Queue

namespace Fifo

/-- Adds a value if the queue is open and has room. -/
def send (f : Fifo) (v : Value) : SendOutcome × Fifo :=
  if f.closed then (.closed, f)
  else if f.items.length < f.capacity then (.delivered, { f with items := f.items ++ [v] })
  else (.full, f)

/-- Takes the next value. -/
def receive (f : Fifo) : ReceiveOutcome × Fifo :=
  match f.items with
  | v :: rest => (.value v, { f with items := rest })
  | [] => (if f.closed then .ended else .empty, f)

/-- One operation on a plain queue. It sends what it is given and has no use for storage. -/
def step (f : Fifo) : Queue.Op → Queue.Answer × Fifo
  | .send v | .sendOwned v => (f.send v).map .sent id
  | .receive => f.receive.map .received id
  | .recycle _ => (.recycled, f)
  | .close => (.closed f.closed, { f with closed := true })
  | .flush => (.flushed f.items.length, { f with items := [] })

end Fifo

namespace Queue

/-! ### Refinement -/

/-- What can be seen of a queue: all but the storage. -/
def view (q : Queue) : Fifo := ⟨q.capacity, q.header.closed, q.items⟩

/-- Values and storage are tidy. -/
structure Tidy (q : Queue) : Prop where
  items : ∀ v ∈ q.items, v.isTidy = true
  spare : ∀ v ∈ q.spare, v.isTidy = true

/-- A result of a queue is that of a plain queue, and leaves everything tidy. -/
structure Refines {α : Type} (r : α × Queue) (r' : α × Fifo) : Prop where
  answer : r.1 = r'.1
  view : r.2.view = r'.2
  tidy : r.2.Tidy

theorem Refines.map {α β : Type} {r : α × Queue} {r' : α × Fifo} (h : Refines r r') (f : α → β) :
    Refines (r.map f id) (r'.map f id) := ⟨congrArg f h.answer, h.view, h.tidy⟩

variable {q : Queue} {v : Value}

theorem tidy_new (ty : Ty) (noCopy : Bool) (capacity : Nat) : (new ty noCopy capacity).Tidy :=
  ⟨by simp [new], by simp [new]⟩

@[simp] theorem view_recycle (q : Queue) (v : Value) : (q.recycle v).view = q.view := by
  rw [recycle]
  split <;> rfl

theorem Tidy.recycle (hq : q.Tidy) (hv : v.isTidy = true) : (q.recycle v).Tidy := by
  rw [Queue.recycle]
  split
  · exact hq
  · refine ⟨hq.items, fun w hw => ?_⟩
    rcases List.mem_append.1 hw with hw | hw
    · exact hq.spare w hw
    · rwa [List.mem_singleton.1 hw]

/-- Storage can be handed back any number of times. -/
theorem recycle_foldl (hq : q.Tidy) (values : List Value)
    (hvalues : ∀ v ∈ values, v.isTidy = true) :
    (values.foldl Queue.recycle q).view = q.view ∧ (values.foldl Queue.recycle q).Tidy := by
  induction values generalizing q with
  | nil => exact ⟨rfl, hq⟩
  | cons v values ih =>
    have hv := hq.recycle (hvalues v List.mem_cons_self)
    obtain ⟨hview, htidy⟩ := ih hv fun w hw => hvalues w (List.mem_cons_of_mem _ hw)
    exact ⟨hview.trans (view_recycle q v), htidy⟩

theorem refines_push (hq : q.Tidy) (hv : v.isTidy = true) (hopen : q.header.closed = false) :
    Refines (q.push v) (q.view.send v) := by
  have hsend : q.view.send v = if q.items.length < q.capacity then
      (.delivered, { q.view with items := q.items ++ [v] }) else (.full, q.view) := by
    rw [Fifo.send, if_neg (by simp [view, hopen])]
    rfl
  rw [push, hsend]
  split
  · refine ⟨rfl, rfl, fun w hw => ?_, hq.spare⟩
    rcases List.mem_append.1 hw with hw | hw
    · exact hq.items w hw
    · rwa [List.mem_singleton.1 hw]
  · exact ⟨rfl, view_recycle q v, hq.recycle hv⟩

/-- Whatever storage is used, the value that was sent is queued. -/
theorem refines_send (hq : q.Tidy) (hv : v.isTidy = true) : Refines (q.send v) (q.view.send v) := by
  rw [send]
  split
  · rename_i hclosed
    rw [Fifo.send, if_pos (show q.view.closed = true from hclosed)]
    exact ⟨rfl, rfl, hq⟩
  · rename_i hopen
    have hopen := Bool.eq_false_iff.2 hopen
    split
    · exact refines_push hq hv hopen
    · split
      · -- new storage holds nothing
        rw [Value.overwrite, Value.copyOver_eq v _ hv rfl]
        exact refines_push hq hv hopen
      · -- used storage holds some tidy value, of which nothing is left
        rename_i storage rest hspare
        have hstorage : storage.isTidy = true := hq.spare _ (by simp [hspare])
        have hrest : ({ q with spare := rest } : Queue).Tidy :=
          ⟨hq.items, fun w hw => hq.spare w (by rw [hspare]; exact List.mem_cons_of_mem _ hw)⟩
        rw [Value.overwrite, Value.copyOver_eq v _ hv hstorage]
        exact refines_push hrest hv hopen

theorem refines_sendOwned (hq : q.Tidy) (hv : v.isTidy = true) :
    Refines (q.sendOwned v) (q.view.send v) := by
  rw [sendOwned]
  split
  · rename_i hclosed
    rw [Fifo.send, if_pos (show q.view.closed = true from hclosed)]
    exact ⟨rfl, rfl, hq⟩
  · rename_i hopen
    exact refines_push hq hv (Bool.eq_false_iff.2 hopen)

theorem refines_receive (hq : q.Tidy) : Refines q.receive q.view.receive := by
  rw [receive, Fifo.receive]
  cases hitems : q.items with
  | nil =>
    simp only [view, hitems]
    exact ⟨rfl, by simp [view, hitems], hq⟩
  | cons v rest =>
    simp only [view, hitems]
    exact ⟨rfl, rfl, fun w hw => hq.items w (by rw [hitems]; exact List.mem_cons_of_mem _ hw),
      hq.spare⟩

theorem refines_flush (hq : q.Tidy) :
    Refines q.flush (q.items.length, { q.view with items := [] }) := by
  have hempty : ({ q with items := [] } : Queue).Tidy := ⟨by simp, hq.spare⟩
  obtain ⟨hview, htidy⟩ := recycle_foldl hempty q.items hq.items
  exact ⟨rfl, hview, htidy⟩

/-- One operation does to a queue what it does to the plain queue. -/
theorem refines_step (hq : q.Tidy) {op : Op} (hop : op.isTidy = true) :
    Refines (q.step op) (q.view.step op) := by
  cases op with
  | send v => exact (refines_send hq hop).map Answer.sent
  | sendOwned v => exact (refines_sendOwned hq hop).map Answer.sent
  | receive => exact (refines_receive hq).map Answer.received
  | recycle v => exact ⟨rfl, view_recycle q v, hq.recycle hop⟩
  | close => exact ⟨rfl, rfl, hq.items, hq.spare⟩
  | flush => exact (refines_flush hq).map Answer.flushed

/-- So do many. -/
theorem refines_runAll (hq : q.Tidy) {ops : List Op} (hops : ∀ op ∈ ops, op.isTidy = true) :
    Refines (runAll step ops q) (runAll Fifo.step ops q.view) := by
  induction ops generalizing q with
  | nil => exact ⟨rfl, rfl, hq⟩
  | cons op ops ih =>
    have hstep := refines_step hq (hops op List.mem_cons_self)
    -- both sides go on from what the first operation leaves
    have hrest := ih hstep.tidy fun op' hop => hops op' (List.mem_cons_of_mem _ hop)
    rw [hstep.view] at hrest
    rw [runAll_cons, runAll_cons, hstep.answer]
    exact ⟨congrArg _ hrest.answer, hrest.view, hrest.tidy⟩

/-! ### In and out -/

/-- The value that an operation is to put in. -/
def Op.offer : Op → List Value
  | send v | sendOwned v => [v]
  | _ => []

/-- The value that an operation has put in, by the answer. -/
def Op.entering (op : Op) : Answer → List Value
  | .sent .delivered => op.offer
  | _ => []

/-- The values that an answer says have been taken out, of those that were in the queue. -/
def Answer.leaving (items : List Value) : Answer → List Value
  | received (.value v) => [v]
  | flushed _ => items
  | _ => []

/-- The values put in along a run. -/
def entered : List Op → Queue → List Value
  | [], _ => []
  | op :: ops, q => op.entering (q.step op).1 ++ entered ops (q.step op).2

/-- The values received or flushed along a run. -/
def departed : List Op → Queue → List Value
  | [], _ => []
  | op :: ops, q => (q.step op).1.leaving q.items ++ departed ops (q.step op).2

end Queue

namespace Fifo

theorem send_items (f : Fifo) {op : Queue.Op} {v : Value} (hop : op.offer = [v]) :
    (f.send v).2.items = f.items ++ op.entering (.sent (f.send v).1) := by
  rw [send]
  split
  · exact (List.append_nil _).symm
  · split
    · exact congrArg _ hop.symm
    · exact (List.append_nil _).symm

/-- A plain queue adds at the end and takes from the front. -/
theorem step_conserves (f : Fifo) (op : Queue.Op) :
    f.items ++ op.entering (f.step op).1 =
      (f.step op).1.leaving f.items ++ (f.step op).2.items := by
  cases op with
  | send v => exact (f.send_items rfl).symm
  | sendOwned v => exact (f.send_items rfl).symm
  | receive =>
    obtain ⟨capacity, closed, items⟩ := f
    cases items with
    | nil => cases closed <;> rfl
    | cons v rest => exact List.append_nil _
  | recycle v => exact List.append_nil _
  | close => exact List.append_nil _
  | flush => rfl

/-- A plain queue that is closed stays so. -/
theorem closed_step {f : Fifo} (h : f.closed = true) (op : Queue.Op) :
    (f.step op).2.closed = true := by
  have hsend : ∀ v, (f.send v).2.closed = true := fun v => by rw [send, if_pos h]; exact h
  cases op with
  | send v => exact hsend v
  | sendOwned v => exact hsend v
  | receive =>
    obtain ⟨capacity, closed, items⟩ := f
    cases items <;> exact h
  | recycle v => exact h
  | close => rfl
  | flush => exact h

/-- A plain queue of room `n` that holds no more than that. -/
def Within (n : Nat) (f : Fifo) : Prop := f.capacity = n ∧ f.items.length ≤ n

theorem Within.send {f : Fifo} (h : f.Within n) (v : Value) : (f.send v).2.Within n := by
  rw [Fifo.send]
  split
  · exact h
  · split
    · rename_i hroom
      rw [h.1] at hroom
      exact ⟨h.1, by simpa using Nat.succ_le_of_lt hroom⟩
    · exact h

theorem Within.step {f : Fifo} (h : f.Within n) (op : Queue.Op) : (f.step op).2.Within n := by
  cases op with
  | send v => exact h.send v
  | sendOwned v => exact h.send v
  | receive =>
    obtain ⟨capacity, closed, items⟩ := f
    cases items with
    | nil => exact h
    | cons v rest => exact ⟨h.1, (Nat.le_succ _).trans h.2⟩
  | recycle v => exact h
  | close => exact h
  | flush => exact ⟨h.1, Nat.zero_le _⟩

end Fifo

namespace Queue

variable {q : Queue}

theorem step_conserves (hq : q.Tidy) {op : Op} (hop : op.isTidy = true) :
    q.items ++ op.entering (q.step op).1 =
      (q.step op).1.leaving q.items ++ (q.step op).2.items := by
  have h := refines_step hq hop
  have hitems : (q.step op).2.items = (q.view.step op).2.items := congrArg Fifo.items h.view
  rw [h.answer, hitems]
  exact q.view.step_conserves op

/-- What was in a queue and what was put in since is what came out, followed by what is still in. -/
theorem conserved (hq : q.Tidy) {ops : List Op} (hops : ∀ op ∈ ops, op.isTidy = true) :
    q.items ++ entered ops q = departed ops q ++ (runAll step ops q).2.items := by
  induction ops generalizing q with
  | nil => simp [entered, departed, runAll]
  | cons op ops ih =>
    have hop := hops op List.mem_cons_self
    have hrest := ih (refines_step hq hop).tidy fun op' hop => hops op' (List.mem_cons_of_mem _ hop)
    rw [entered, departed, runAll_cons, List.append_assoc, ← hrest, ← List.append_assoc,
      step_conserves hq hop, List.append_assoc]

/-! ### The end of the stream -/

theorem closed_runAll (hq : q.Tidy) {ops : List Op} (hops : ∀ op ∈ ops, op.isTidy = true)
    (h : q.header.closed = true) : (runAll step ops q).2.header.closed = true := by
  have hplain : (runAll Fifo.step ops q.view).2.closed = true :=
    runAll_invariant Fifo.step (P := (·.closed = true)) (fun _ op h => Fifo.closed_step h op) ops h
  rwa [← (refines_runAll hq hops).view] at hplain

/-- Closed and drained. -/
def Exhausted (q : Queue) : Prop := q.header.closed = true ∧ q.items = []

theorem receive_ended_iff : q.receive.1 = .ended ↔ q.Exhausted := by
  rw [receive, Exhausted]
  cases q.items with
  | nil => cases q.header.closed <;> simp
  | cons v rest => simp

theorem send_closed (h : q.header.closed = true) (v : Value) : q.send v = (.closed, q) := by
  rw [send, if_pos h]

theorem sendOwned_closed (h : q.header.closed = true) (v : Value) :
    q.sendOwned v = (.closed, q) := by
  rw [sendOwned, if_pos h]

/-- Nothing gets an exhausted queue going again. -/
theorem Exhausted.step (h : q.Exhausted) (op : Op) : (q.step op).2.Exhausted := by
  cases op with
  | send v => simpa [Queue.step, send_closed h.1 v] using h
  | sendOwned v => simpa [Queue.step, sendOwned_closed h.1 v] using h
  | receive => simpa [Queue.step, receive, h.2] using h
  | recycle v =>
    have hview := view_recycle q v
    exact ⟨(congrArg Fifo.closed hview).trans h.1, (congrArg Fifo.items hview).trans h.2⟩
  | close => exact ⟨rfl, h.2⟩
  | flush => simpa [Queue.step, flush, h.2, Exhausted] using h.1

/-- A queue is a bounded queue that delivers in order. After any operations on a new one, be it with
reuse of storage or without, all answers were those of a plain queue with the same room, and so are
the length and whether it is closed. The values that were put in are those that came out, followed
by those still in, so that each comes out once at most, as it was and in order. The end of the
stream is told if and only if the queue is closed and drained, and nothing changes after that. -/
theorem bounded_fifo (ty : Ty) (noCopy : Bool) (capacity : Nat) (ops : List Op)
    (htidy : ∀ op ∈ ops, op.isTidy = true) :
    let start := new ty noCopy capacity
    let run := runAll step ops start
    let plain := runAll Fifo.step ops ⟨max capacity 1, false, []⟩
    run.1 = plain.1 ∧ run.2.view = plain.2 ∧
      run.2.items.length ≤ max capacity 1 ∧
      entered ops start = departed ops start ++ run.2.items ∧
      (run.2.receive.1 = .ended ↔ run.2.header.closed = true ∧ run.2.items = []) ∧
      (run.2.receive.1 = .ended → ∀ later : List Op,
        let q := (runAll step later run.2).2
        q.receive.1 = .ended ∧ ∀ v, (q.send v).1 = .closed ∧ (q.sendOwned v).1 = .closed) := by
  intro start run plain
  have hrefines : Refines run plain := refines_runAll (tidy_new ty noCopy capacity) htidy
  have hwithin : plain.2.Within (max capacity 1) :=
    runAll_invariant Fifo.step (fun _ op h => h.step op) ops ⟨rfl, Nat.zero_le _⟩
  refine ⟨hrefines.answer, hrefines.view, ?_, conserved (tidy_new ty noCopy capacity) htidy,
    receive_ended_iff, fun hended later => ?_⟩
  · rw [← hrefines.view] at hwithin
    exact hwithin.2
  · have hlater : (runAll step later run.2).2.Exhausted :=
      runAll_invariant step (fun _ op h => h.step op) later (receive_ended_iff.1 hended)
    exact ⟨receive_ended_iff.2 hlater, fun v =>
      ⟨congrArg Prod.fst (send_closed hlater.1 v), congrArg Prod.fst (sendOwned_closed hlater.1 v)⟩⟩

/-- Tables and sequences are sent through storage of other shapes. -/
def reusing : List Op :=
  [.recycle (.table [("b", .seq [.int 2, .int 3]), ("c", .nothing)]),
    .send (.table [("a", .int 1), ("b", .seq [.bool true])]), .send (.seq [.int 4, .int 5]),
    .receive, .send (.seq [.float ⟨0⟩]), .receive, .flush, .close, .receive, .sendOwned .nothing]

theorem reusing_bounded_fifo : (∀ op ∈ reusing, op.isTidy = true) ∧
    ((runAll step reusing (new .any false 0)).1 =
      [.recycled, .sent .delivered, .sent .full,
        .received (.value (.table [("a", .int 1), ("b", .seq [.bool true])])), .sent .delivered,
        .received (.value (.seq [.float ⟨0⟩])), .flushed 0, .closed false, .received .ended,
        .sent .closed]) := by
  have htidy : ∀ op ∈ reusing, op.isTidy = true := by decide +kernel
  exact ⟨htidy, (bounded_fifo .any false 0 reusing htidy).1⟩

end Queue

end Dataflow
