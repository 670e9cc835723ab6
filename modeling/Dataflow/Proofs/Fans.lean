import Dataflow.Channel.Exchange
import Dataflow.Proofs.Queues
/-!
# Fans deliver exactly once

A fan writes each published value to the private queues of its subscribers, and forgets those who
have left the next time it publishes. The list of subscribers is therefore neither that of all who
came nor that of all who still listen, but it lies between the two, and that is enough: to each
queue of a subscriber an operation on the fan is an operation of a queue. To publish is to send, to
close is to close, and only a flush does not reach those who are forgotten. So what is known of
queues holds of every subscriber.
-/

namespace Dataflow

variable {queues : Queues}

/-! ### Changes of several queues -/

namespace Fan

/-- The queues of the list have been changed by `g`, the others not at all. -/
def Touches (ids : List (Id .queue)) (g : Queue → Queue) (queues queues' : Queues) : Prop :=
  ∀ q, queues'.get? q = if q ∈ ids then (queues.get? q).map g else queues.get? q

variable {g : Queue → Queue} {queues₁ queues' : Queues} {id : Id .queue} {ids : List (Id .queue)}

theorem touches_nil : Touches [] g queues queues := fun q => by simp

theorem touches_modify : Touches [id] g queues (queues.modify id g) := by
  intro q
  by_cases hq : q = id
  · subst hq
    simp
  · rw [queues.get?_modify_of_ne (Ne.symm hq)]
    simp [hq]

theorem touches_set {queue : Queue} (h : queues.get? id = some queue) :
    Touches [id] g queues (queues.set id (g queue)) := by
  intro q
  by_cases hq : q = id
  · subst hq
    simp [Table.set, h]
  · rw [Table.set, queues.get?_modify_of_ne (Ne.symm hq)]
    simp [hq]

theorem touches_of_none (h : queues.get? id = none) : Touches [id] g queues queues := by
  intro q
  by_cases hq : q = id
  · subst hq
    simp [h]
  · simp [hq]

theorem Touches.cons (h₁ : Touches [id] g queues queues₁) (h : Touches ids g queues₁ queues')
    (hid : id ∉ ids) : Touches (id :: ids) g queues queues' := by
  intro q
  rw [h q, h₁ q]
  by_cases hq : q = id
  · subst hq
    simp [hid]
  · simp [hq]

theorem touches_deliver (v : Value) (hids : ids.Nodup) (queues : Queues) :
    Touches ids (fun q => (q.send v).2) queues (deliver v ids queues).2 := by
  induction ids generalizing queues with
  | nil => exact touches_nil
  | cons id ids ih =>
    obtain ⟨hid, hids⟩ := List.nodup_cons.1 hids
    rw [deliver]
    split
    · rename_i hnone
      exact (touches_of_none hnone).cons (ih hids queues) hid
    · rename_i queue hqueue
      exact (touches_set hqueue).cons (ih hids _) hid

theorem touches_close (f : Fan) (hids : f.subscribers.Nodup) (queues : Queues) :
    Touches f.subscribers Queue.close queues (f.close queues).2 := by
  rw [close]
  generalize f.subscribers = ids at hids
  induction ids generalizing queues with
  | nil => exact touches_nil
  | cons id ids ih =>
    obtain ⟨hid, hids⟩ := List.nodup_cons.1 hids
    exact touches_modify.cons (ih _ hids) hid

theorem touches_flush (f : Fan) (hids : f.subscribers.Nodup) (queues : Queues) :
    Touches f.subscribers (fun q => q.flush.2) queues (f.flush queues).2 := by
  rw [flush]
  generalize f.subscribers = ids at hids
  generalize 0 = count
  induction ids generalizing count queues with
  | nil => exact touches_nil
  | cons id ids ih =>
    obtain ⟨hid, hids⟩ := List.nodup_cons.1 hids
    cases hget : queues.get? id with
    | none =>
      simp only [List.foldl_cons, hget]
      exact (touches_of_none hget).cons (ih queues hids _) hid
    | some queue =>
      simp only [List.foldl_cons, hget]
      exact (touches_set hget).cons (ih _ hids _) hid

end Fan

/-! ### Deliveries -/

/-- Whether a value that is sent now is added. -/
def Queue.admits (q : Queue) : Bool := !q.header.closed && decide (q.items.length < q.capacity)

theorem Queue.send_delivered_iff (q : Queue) (v : Value) :
    (q.send v).1 = .delivered ↔ q.admits = true := by
  have hpush : ∀ (q' : Queue) (w : Value), (q'.push w).1 = .delivered ↔
      q'.items.length < q'.capacity := by
    intro q' w
    rw [push]
    split <;> simp_all
  rw [send, admits]
  split
  · simp_all
  · rename_i hopen
    rw [Bool.eq_false_iff.2 hopen]
    split
    · simp [hpush]
    · split <;> simp [hpush]

namespace Fan

/-- Whether the queue of an identity adds a value that is sent now. -/
def admits (queues : Queues) (id : Id .queue) : Bool :=
  ((queues.get? id).map Queue.admits).getD false

theorem deliver_count (v : Value) {ids : List (Id .queue)} (hids : ids.Nodup) (queues : Queues) :
    (deliver v ids queues).1 = ids.countP (admits queues) := by
  induction ids generalizing queues with
  | nil => rfl
  | cons id ids ih =>
    obtain ⟨hid, hids⟩ := List.nodup_cons.1 hids
    rw [deliver, List.countP_cons]
    split
    · rename_i hnone
      rw [ih hids queues, admits, hnone]
      rfl
    · rename_i queue hqueue
      -- the queues of the others are as they were
      have hothers : ∀ q ∈ ids, admits (queues.set id (queue.send v).2) q = true ↔
          admits queues q = true := by
        intro q hq
        have hne : id ≠ q := fun heq => hid (heq ▸ hq)
        rw [admits, admits, Table.set, queues.get?_modify_of_ne hne]
      have hadmits : admits queues id = queue.admits := by rw [admits, hqueue]; rfl
      dsimp only
      rw [ih hids, List.countP_congr hothers, hadmits]
      by_cases hsent : (queue.send v).1 = .delivered
      · rw [if_pos hsent, if_pos ((queue.send_delivered_iff v).1 hsent)]
      · rw [if_neg hsent, if_neg fun h => hsent ((queue.send_delivered_iff v).2 h), add_zero]

theorem publish_header (f : Fan) (queues : Queues) (v : Value) :
    (f.publish queues v).2.1.header = f.header := by
  rw [publish]
  split <;> rfl

/-- Publishing forgets at most those who have left. -/
theorem publish_subscribers (f : Fan) (queues : Queues) (v : Value) :
    (f.publish queues v).2.1.subscribers.Sublist f.subscribers ∧
      ∀ id ∈ f.subscribers, listening queues id = true →
        id ∈ (f.publish queues v).2.1.subscribers := by
  rw [publish]
  split
  · exact ⟨.refl _, fun _ hid _ => hid⟩
  · exact ⟨List.filter_sublist, fun _ hid hlistens => List.mem_filter.2 ⟨hid, hlistens⟩⟩

/-! ### Operations -/

/-- What can be done with a fan and with the queues of its subscribers. -/
inductive Op where
  | subscribe
  | publish (v : Value)
  | close
  | flush
  | subscriber (id : Id .queue) (op : Queue.Op)

/-- What a fan or a queue tells. -/
inductive Answer where
  | subscribed (id : Option (Id .queue))
  | published (count : Nat)
  | closed (before : Bool)
  | flushed (count : Nat)
  | subscriber (answer : Option Queue.Answer)

/-- Whether a published value is tidy, and an operation of a subscriber sends nothing. -/
def Op.isProper : Op → Bool
  | publish v => v.isTidy
  | subscriber _ op => op.isTidy && op.offer.isEmpty
  | _ => true

/-- One operation on a fan or on the queue of a subscriber. -/
def step (fan : Id .fan) (x : Exchange) : Op → Answer × Exchange
  | .subscribe => (x.subscribe fan).map .subscribed id
  | .publish v => (x.publish fan v).map .published id
  | .close => (x.close (.fan fan)).map .closed id
  | .flush => (x.flush (.fan fan)).map .flushed id
  | .subscriber id op =>
    match x.queues.get? id with
    | none => (.subscriber none, x)
    | some queue =>
      (.subscriber (some (queue.step op).1),
        { x with queues := x.queues.set id (queue.step op).2 })

/-- The subscriber that an answer tells of. -/
def Answer.joined : Answer → List (Id .queue)
  | subscribed id => id.toList
  | _ => []

/-- All who subscribed along a run, in the order in which they came. -/
def joined (fan : Id .fan) (ops : List Op) (x : Exchange) : List (Id .queue) :=
  (runAll (step fan) ops x).1.flatMap Answer.joined

/-- An operation on a fan, as it is seen by the queue of someone who subscribed. -/
def Op.seenBy (f : Fan) (id : Id .queue) : Op → List Queue.Op
  | subscribe => []
  | publish v => [.send v]
  | close => [.close]
  | flush => if id ∈ f.subscribers then [.flush] else []
  | subscriber id' op => if id' = id then [op] else []

/-! ### The invariant -/

/-- What is true of the queues of all who subscribed to a fan. Those who listen are on its list, and
on the list are only those who came. -/
structure Keeps (fan : Id .fan) (known : List (Id .queue)) (x : Exchange) (f : Fan) : Prop where
  fan : x.fans.get? fan = some f
  nodup : known.Nodup
  sublist : f.subscribers.Sublist known
  tidy : ∀ id ∈ known, ∃ queue, x.queues.get? id = some queue ∧ queue.Tidy
  current : ∀ id ∈ known, listening x.queues id = true → id ∈ f.subscribers
  closed : f.header.closed = true → ∀ id ∈ known, listening x.queues id = false

variable {fan : Id .fan} {known : List (Id .queue)} {x : Exchange} {f f' : Fan} {id : Id .queue}
  {queue : Queue}

theorem listening_eq (h : queues.get? id = some queue) :
    listening queues id = !queue.header.closed := by rw [listening, h]

theorem listening_of_open (h : queues.get? id = some queue) (hopen : ¬ queue.header.closed = true) :
    listening queues id = true := by
  rw [listening_eq h, Bool.eq_false_iff.2 hopen]
  rfl

namespace Keeps

theorem live_nodup (h : Keeps fan known x f) :
    (f.subscribers.filter (listening x.queues)).Nodup :=
  (h.nodup.sublist h.sublist).sublist List.filter_sublist

/-- Who is off the list has left. -/
theorem closed_of_notMem (h : Keeps fan known x f) (hid : id ∈ known)
    (hq : x.queues.get? id = some queue) (hnot : id ∉ f.subscribers) :
    queue.header.closed = true := by
  by_contra hopen
  exact hnot (h.current id hid (listening_of_open hq hopen))

theorem closed_of_closed (h : Keeps fan known x f) (hid : id ∈ known)
    (hq : x.queues.get? id = some queue) (hclosed : f.header.closed = true) :
    queue.header.closed = true := by
  simpa [listening_eq hq] using h.closed hclosed id hid

/-- To the queue of someone who subscribed, every operation on the fan is one of a queue. It makes
no difference that the fan does not write to those who have left. -/
theorem get?_step (h : Keeps fan known x f) (op : Op) (hid : id ∈ known)
    (hq : x.queues.get? id = some queue) :
    (step fan x op).2.queues.get? id = some (runAll Queue.step (op.seenBy f id) queue).2 := by
  cases op with
  | subscribe =>
    simp only [step, Exchange.subscribe, h.fan]
    exact (Table.get?_push_of_lt _ _ (Array.getElem?_eq_some_iff.1 hq).1).trans hq
  | publish v =>
    have hsend : queue.header.closed = true → (queue.send v).2 = queue := fun hclosed =>
      congrArg Prod.snd (queue.send_closed hclosed v)
    simp only [step, Exchange.publish, h.fan]
    change (f.publish x.queues v).2.2.get? id = some (queue.send v).2
    rw [publish]
    split
    · rename_i hclosed
      rw [hsend (h.closed_of_closed hid hq hclosed)]
      exact hq
    · dsimp only
      rw [touches_deliver v h.live_nodup x.queues id, hq]
      split
      · rfl
      · -- it was not written to, so it is closed and would have taken nothing in
        rename_i hlive
        rw [hsend]
        by_contra hopen
        have hlistens := listening_of_open hq hopen
        exact hlive (List.mem_filter.2 ⟨h.current id hid hlistens, hlistens⟩)
  | close =>
    simp only [step, Exchange.close, h.fan]
    change (f.close x.queues).2.get? id = some queue.close
    rw [touches_close f (h.nodup.sublist h.sublist) x.queues id, hq]
    split
    · rfl
    · rename_i hnot
      have hclosed := h.closed_of_notMem hid hq hnot
      simp only [Queue.close, Header.close, ← hclosed]
  | flush =>
    simp only [step, Exchange.flush, h.fan, Op.seenBy]
    change (f.flush x.queues).2.get? id = _
    rw [touches_flush f (h.nodup.sublist h.sublist) x.queues id, hq]
    split <;> rfl
  | subscriber id' op =>
    rw [step, Op.seenBy]
    by_cases heq : id' = id
    · subst heq
      simp [hq, Table.set, runAll]
    · rw [if_neg heq]
      split
      · exact hq
      · exact (x.queues.get?_modify_of_ne heq _).trans hq

/-- What is seen of a proper operation is tidy. -/
theorem tidy_seenBy (f : Fan) (id : Id .queue) {op : Op} (hop : op.isProper = true) :
    ∀ op' ∈ op.seenBy f id, op'.isTidy = true := by
  intro op' hop'
  cases op with
  | subscribe => simp [Op.seenBy] at hop'
  | publish v =>
    rw [List.mem_singleton.1 hop']
    exact hop
  | close =>
    rw [List.mem_singleton.1 hop']
    rfl
  | flush =>
    rw [Op.seenBy] at hop'
    split at hop'
    · rw [List.mem_singleton.1 hop']
      rfl
    · simp at hop'
  | subscriber id' op =>
    rw [Op.seenBy] at hop'
    split at hop'
    · rw [List.mem_singleton.1 hop']
      exact (Bool.and_eq_true_iff.1 hop).1
    · simp at hop'

/-- Those who came before stay known. The list may lose those who have left, and the fan may be
closed once all of them are. -/
theorem preserved (h : Keeps fan known x f) {op : Op} (hop : op.isProper = true)
    (hfan : (step fan x op).2.fans.get? fan = some f') (hsub : f'.subscribers.Sublist known)
    (hkept : ∀ id ∈ f.subscribers, listening x.queues id = true → id ∈ f'.subscribers)
    (hclosed : f'.header.closed = true → f.header.closed = true ∨ op = .close) :
    Keeps fan known (step fan x op).2 f' := by
  have hqueue : ∀ id ∈ known, ∃ queue queue', x.queues.get? id = some queue ∧
      (step fan x op).2.queues.get? id = some queue' ∧ queue'.Tidy ∧
      (queue.header.closed = true ∨ op = .close → queue'.header.closed = true) := by
    intro id hid
    obtain ⟨queue, hq, htidy⟩ := h.tidy id hid
    have hseen := tidy_seenBy f id hop
    refine ⟨queue, _, hq, h.get?_step op hid hq, (Queue.refines_runAll htidy hseen).tidy, ?_⟩
    rintro (hleft | rfl)
    · exact Queue.closed_runAll htidy hseen hleft
    · rfl
  constructor
  case fan => exact hfan
  case nodup => exact h.nodup
  case sublist => exact hsub
  case tidy =>
    intro id hid
    obtain ⟨queue, queue', -, hq', htidy, -⟩ := hqueue id hid
    exact ⟨queue', hq', htidy⟩
  case current =>
    -- who listens afterwards has listened before
    intro id hid hlistens
    obtain ⟨queue, queue', hq, hq', -, hleft⟩ := hqueue id hid
    rw [listening_eq hq', Bool.not_eq_true'] at hlistens
    have hopen : ¬ queue.header.closed = true := fun hclosed => by
      rw [hleft (.inl hclosed)] at hlistens
      exact Bool.noConfusion hlistens
    have hbefore := listening_of_open hq hopen
    exact hkept id (h.current id hid hbefore) hbefore
  case closed =>
    intro hclosed' id hid
    obtain ⟨queue, queue', hq, hq', -, hleft⟩ := hqueue id hid
    have hleft' := hleft ((hclosed hclosed').imp_left (h.closed_of_closed hid hq))
    rw [listening_eq hq', hleft']
    rfl

/-- Someone new gets an empty queue, which is closed if the fan is. -/
theorem newcomer (h : Keeps fan known x f) : ∃ queue : Queue,
    (step fan x .subscribe).2.queues.get? x.queues.next = some queue ∧ queue.Tidy ∧
      queue.items = [] ∧ (f.header.closed = true → queue.header.closed = true) := by
  simp only [Fan.step, Exchange.subscribe, h.fan]
  refine ⟨_, Table.get?_push_next .., ?_, ?_, fun hclosed => by rw [if_pos hclosed]; rfl⟩
  · have hempty := Queue.tidy_new f.header.ty f.header.noCopy f.capacity
    split
    · exact ⟨hempty.items, hempty.spare⟩
    · exact hempty
  · split <;> rfl

/-- Someone new is known from now on. -/
theorem subscribe (h : Keeps fan known x f) :
    Keeps fan (known ++ [x.queues.next]) (step fan x .subscribe).2 (f.subscribe x.queues).2.1 := by
  obtain ⟨newcomer, hnew, htidy, -, hclosed⟩ := h.newcomer
  have hold : ∀ id ∈ known, (Fan.step fan x .subscribe).2.queues.get? id = x.queues.get? id := by
    intro id hid
    obtain ⟨queue, hq, -⟩ := h.tidy id hid
    rw [h.get?_step .subscribe hid hq, hq]
    rfl
  have hlistens : ∀ id ∈ known, listening (Fan.step fan x .subscribe).2.queues id =
      listening x.queues id := fun id hid => by rw [listening, listening, hold id hid]
  have hfresh : x.queues.next ∉ known := by
    intro hid
    obtain ⟨queue, hq, -⟩ := h.tidy _ hid
    exact absurd (Array.getElem?_eq_some_iff.1 hq).1 (lt_irrefl _)
  constructor
  case fan => simp [Fan.step, Exchange.subscribe, h.fan, Table.set]
  case nodup => exact h.nodup.append (List.nodup_singleton _) (by simpa using hfresh)
  case sublist => exact h.sublist.append (.refl _)
  case tidy =>
    intro id hid
    rcases List.mem_append.1 hid with hid | hid
    · rw [hold id hid]
      exact h.tidy id hid
    · rw [List.mem_singleton.1 hid]
      exact ⟨newcomer, hnew, htidy⟩
  case current =>
    intro id hid hlisten
    rcases List.mem_append.1 hid with hid | hid
    · exact List.mem_append_left _ (h.current id hid ((hlistens id hid).symm.trans hlisten))
    · exact List.mem_append_right _ hid
  case closed =>
    intro hfan id hid
    rcases List.mem_append.1 hid with hid | hid
    · exact (hlistens id hid).trans (h.closed hfan id hid)
    · rw [List.mem_singleton.1 hid, listening_eq hnew, hclosed hfan]
      rfl

/-- One operation keeps the subscribers known, and a closed fan closed. -/
theorem step (h : Keeps fan known x f) {op : Op} (hop : op.isProper = true) :
    ∃ f', Keeps fan (known ++ (step fan x op).1.joined) (step fan x op).2 f' ∧
      (f.header.closed = true ∨ op = .close → f'.header.closed = true) := by
  cases op with
  | subscribe =>
    have hanswer : (Fan.step fan x .subscribe).1.joined = [x.queues.next] := by
      simp only [Fan.step, Exchange.subscribe, h.fan]
      rfl
    rw [hanswer]
    exact ⟨_, h.subscribe, fun hclosed => hclosed.resolve_right (by simp)⟩
  | publish v =>
    have hfan : (Fan.step fan x (.publish v)).2.fans.get? fan =
        some (f.publish x.queues v).2.1 := by
      simp [Fan.step, Exchange.publish, h.fan, Table.set]
    obtain ⟨hsub, hkept⟩ := f.publish_subscribers x.queues v
    have hheader := f.publish_header x.queues v
    refine ⟨(f.publish x.queues v).2.1, ?_, fun hclosed => ?_⟩
    · rw [show (Fan.step fan x (.publish v)).1.joined = [] from rfl, List.append_nil]
      refine h.preserved hop hfan (hsub.trans h.sublist) hkept fun hclosed => .inl ?_
      rwa [hheader] at hclosed
    · rw [hheader]
      exact hclosed.resolve_right (by simp)
  | close =>
    refine ⟨{ f with header := f.header.close }, ?_, fun _ => rfl⟩
    rw [show (Fan.step fan x .close).1.joined = [] from rfl, List.append_nil]
    refine h.preserved hop ?_ h.sublist (fun _ hid _ => hid) fun _ => .inr rfl
    simp [Fan.step, Exchange.close, h.fan, Fan.close, Table.set]
  | flush =>
    refine ⟨f, ?_, fun hclosed => hclosed.resolve_right (by simp)⟩
    rw [show (Fan.step fan x .flush).1.joined = [] from rfl, List.append_nil]
    refine h.preserved hop ?_ h.sublist (fun _ hid _ => hid) .inl
    simp [Fan.step, Exchange.flush, h.fan]
  | subscriber id op =>
    refine ⟨f, ?_, fun hclosed => hclosed.resolve_right (by simp)⟩
    have hanswer : (Fan.step fan x (.subscriber id op)).1.joined = [] := by
      rw [Fan.step]
      split <;> rfl
    rw [hanswer, List.append_nil]
    refine h.preserved hop ?_ h.sublist (fun _ hid _ => hid) .inl
    rw [Fan.step]
    split <;> exact h.fan

/-- So does a run. -/
theorem run (h : Keeps fan known x f) {ops : List Op} (hops : ∀ op ∈ ops, op.isProper = true) :
    ∃ f', Keeps fan (known ++ Fan.joined fan ops x) (runAll (Fan.step fan) ops x).2 f' ∧
      (f.header.closed = true ∨ .close ∈ ops → f'.header.closed = true) := by
  induction ops generalizing known x f with
  | nil =>
    refine ⟨f, ?_, fun hclosed => hclosed.resolve_right (by simp)⟩
    rw [Fan.joined, runAll, List.flatMap_nil, List.append_nil]
    exact h
  | cons op ops ih =>
    obtain ⟨f₁, hstep, hclosed₁⟩ := h.step (hops op List.mem_cons_self)
    obtain ⟨f', hrest, hclosed'⟩ := ih hstep fun op' hop => hops op' (List.mem_cons_of_mem _ hop)
    refine ⟨f', ?_, fun hclosed => hclosed' ?_⟩
    · rwa [List.append_assoc] at hrest
    · rcases hclosed with hclosed | hclose
      · exact .inl (hclosed₁ (.inl hclosed))
      · rcases List.mem_cons.1 hclose with rfl | hclose
        · exact .inl (hclosed₁ (.inr rfl))
        · exact .inr hclose

end Keeps

/-- Nobody has subscribed to a new fan. -/
theorem keeps_new {ty : Ty} {noCopy : Bool} {capacity : Nat}
    (hfan : x.fans.get? fan = some (new ty noCopy capacity)) :
    Keeps fan [] x (new ty noCopy capacity) where
  fan := hfan
  nodup := .nil
  sublist := .refl _
  tidy := by simp
  current := by simp
  closed := by simp

/-! ### Publications -/

/-- Whether a value that is published now gets to a subscriber: the fan and the queue are open, and
the queue has room. -/
def reaches (fan : Id .fan) (x : Exchange) (id : Id .queue) : Bool :=
  !x.isClosed (.fan fan) && admits x.queues id

theorem listening_of_admits (h : admits queues id = true) : listening queues id = true := by
  rw [admits] at h
  rw [listening]
  cases hq : queues.get? id with
  | none => simp [hq] at h
  | some queue => simp_all [Queue.admits]

namespace Keeps

theorem isClosed (h : Keeps fan known x f) : x.isClosed (.fan fan) = f.header.closed := by
  rw [Exchange.isClosed, h.fan]
  rfl

/-- Those on the list who listen are those who came and listen. -/
theorem live_eq (h : Keeps fan known x f) :
    f.subscribers.filter (listening x.queues) = known.filter (listening x.queues) := by
  refine (h.sublist.filter _).eq_of_length_le (List.Subperm.length_le ?_)
  refine List.subperm_of_subset (h.nodup.filter _) fun id hid => ?_
  obtain ⟨hid, hlistens⟩ := List.mem_filter.1 hid
  exact List.mem_filter.2 ⟨h.current id hid hlistens, hlistens⟩

/-- A publication is counted once for everyone it reaches. -/
theorem publish_count (h : Keeps fan known x f) (v : Value) :
    (x.publish fan v).1 = known.countP (reaches fan x) := by
  simp only [Exchange.publish, h.fan]
  rw [publish]
  split
  · rename_i hclosed
    have hnone : ∀ id ∈ known, ¬ reaches fan x id = true := by
      simp [reaches, h.isClosed, hclosed]
    exact (List.countP_eq_zero.2 hnone).symm
  · -- only those who listen admit anything, and all of them are on the list
    rename_i hopen
    have hreaches : ∀ id ∈ known, reaches fan x id = true ↔
        (admits x.queues id && listening x.queues id) = true := by
      intro id _
      rw [reaches, h.isClosed, Bool.eq_false_iff.2 hopen, Bool.not_false, Bool.true_and,
        Bool.and_eq_true]
      exact ⟨fun hadmits => ⟨hadmits, listening_of_admits hadmits⟩, fun h => h.1⟩
    rw [deliver_count v h.live_nodup, h.live_eq, List.countP_filter, List.countP_congr hreaches]

end Keeps

/-! ### What a subscriber gets -/

/-- The value of an operation that gets to a subscriber. -/
def Op.offers (fan : Id .fan) (id : Id .queue) (x : Exchange) : Op → List Value
  | publish v => if reaches fan x id then [v] else []
  | _ => []

/-- The values that a subscriber receives by an operation, or that are flushed from its queue. -/
def Op.takes (fan : Id .fan) (id : Id .queue) (x : Exchange) : Op → List Value
  | subscriber id' op =>
    if id' = id then ((x.queues.get? id).map fun q => (q.step op).1.leaving q.items).getD [] else []
  | flush =>
    if (x.fans.get? fan).any (id ∈ ·.subscribers) then ((x.queues.get? id).map (·.items)).getD []
    else []
  | _ => []

/-- The values published along a run that got to a subscriber. -/
def offered (fan : Id .fan) (id : Id .queue) : List Op → Exchange → List Value
  | [], _ => []
  | op :: ops, x => op.offers fan id x ++ offered fan id ops (step fan x op).2

/-- The values that a subscriber received along a run, or lost to a flush. -/
def taken (fan : Id .fan) (id : Id .queue) : List Op → Exchange → List Value
  | [], _ => []
  | op :: ops, x => op.takes fan id x ++ taken fan id ops (step fan x op).2

namespace Keeps

theorem reaches_eq (h : Keeps fan known x f) (hid : id ∈ known)
    (hq : x.queues.get? id = some queue) : reaches fan x id = queue.admits := by
  rw [reaches, h.isClosed, admits, hq, Option.map_some, Option.getD_some]
  cases hclosed : f.header.closed with
  | false => rfl
  | true => rw [Queue.admits, h.closed_of_closed hid hq hclosed]; rfl

/-- What a queue takes in of an operation on the fan is what got to the subscriber. -/
theorem entered_seenBy (h : Keeps fan known x f) (hid : id ∈ known)
    (hq : x.queues.get? id = some queue) {op : Op} (hop : op.isProper = true) :
    Queue.entered (op.seenBy f id) queue = op.offers fan id x := by
  cases op with
  | subscribe => rfl
  | publish v =>
    rw [Op.seenBy, Op.offers, h.reaches_eq hid hq, Queue.entered, Queue.entered, List.append_nil]
    change Queue.Op.entering (.send v) (.sent (queue.send v).1) = _
    have hdelivered := queue.send_delivered_iff v
    cases hsent : (queue.send v).1 with
    | delivered => rw [if_pos (hdelivered.1 hsent)]; rfl
    | closed => rw [if_neg fun hadmits => by simp_all]; rfl
    | full => rw [if_neg fun hadmits => by simp_all]; rfl
  | close => rfl
  | flush =>
    rw [Op.seenBy]
    split <;> rfl
  | subscriber id' op =>
    have hoffer : op.offer = [] := List.isEmpty_iff.1 (Bool.and_eq_true_iff.1 hop).2
    simp only [Op.seenBy, Op.offers]
    split
    · rw [Queue.entered, Queue.entered, List.append_nil, Queue.Op.entering.eq_def]
      split
      · exact hoffer
      · rfl
    · rfl

/-- What comes out of a queue by an operation on the fan is what the subscriber received or lost. -/
theorem departed_seenBy (h : Keeps fan known x f) (hq : x.queues.get? id = some queue) (op : Op) :
    Queue.departed (op.seenBy f id) queue = op.takes fan id x := by
  cases op with
  | subscribe => rfl
  | publish v => rfl
  | close => rfl
  | flush =>
    simp only [Op.takes, hq, h.fan, Op.seenBy, Option.any_some, decide_eq_true_eq, Option.map_some,
      Option.getD_some]
    split
    · exact List.append_nil _
    · rfl
  | subscriber id' op =>
    simp only [Op.takes, hq, Op.seenBy, Option.map_some, Option.getD_some]
    split
    · exact List.append_nil _
    · rfl

/-- What was in the queue of a subscriber and what got to it since is what it received or lost,
followed by what is still in its queue. -/
theorem conserved (h : Keeps fan known x f) (hid : id ∈ known)
    (hq : x.queues.get? id = some queue) {ops : List Op} (hops : ∀ op ∈ ops, op.isProper = true) :
    ∃ queue', (runAll (Fan.step fan) ops x).2.queues.get? id = some queue' ∧
      queue.items ++ offered fan id ops x = taken fan id ops x ++ queue'.items := by
  induction ops generalizing known x f queue with
  | nil => exact ⟨queue, hq, List.append_nil _⟩
  | cons op ops ih =>
    have hop := hops op List.mem_cons_self
    obtain ⟨queue₁, hq₁, htidy⟩ := h.tidy id hid
    obtain rfl := Option.some.inj (hq₁.symm.trans hq)
    -- the invariant goes on with more subscribers, this one among them
    obtain ⟨f₁, hstep, -⟩ := h.step hop
    obtain ⟨queue', hq', hrest⟩ := ih hstep (List.mem_append_left _ hid) (h.get?_step op hid hq)
      fun op' hop => hops op' (List.mem_cons_of_mem _ hop)
    refine ⟨queue', hq', ?_⟩
    have hseen := Queue.conserved htidy (tidy_seenBy f id hop)
    rw [h.entered_seenBy hid hq hop, h.departed_seenBy hq op] at hseen
    rw [offered, taken, List.append_assoc, ← hrest, ← List.append_assoc, hseen, List.append_assoc]

end Keeps

/-- Fans deliver exactly once. Take any operations on a new fan and on the queues of its
subscribers. Whoever subscribes then gets a queue, and whatever is done later, what was received from
it or flushed, followed by what is still in it, is what was published since while the fan and the
queue were open and the queue had room. A publication answers how many of all who ever subscribed it
reaches in this sense. Once the fan has been closed, all who came before or come later are closed,
and nothing is delivered any more. -/
theorem exactly_once {ty : Ty} {noCopy : Bool} {capacity : Nat}
    (hfan : x.fans.get? fan = some (new ty noCopy capacity)) (before : List Op)
    (hbefore : ∀ op ∈ before, op.isProper = true) :
    let y := (runAll (step fan) before x).2
    (∃ id, (y.subscribe fan).1 = some id ∧
      ∀ after : List Op, (∀ op ∈ after, op.isProper = true) →
        let z := (y.subscribe fan).2
        ∃ queue, (runAll (step fan) after z).2.queues.get? id = some queue ∧
          taken fan id after z ++ queue.items = offered fan id after z) ∧
      (∀ v, (y.publish fan v).1 = (joined fan before x).countP (reaches fan y)) ∧
      (.close ∈ before → (∀ id ∈ joined fan before x, y.isClosed (.queue id) = true) ∧
        ∀ v, (y.publish fan v).1 = 0) := by
  intro y
  obtain ⟨f, hy, hclosed⟩ : ∃ f, Keeps fan (joined fan before x) y f ∧
      (.close ∈ before → f.header.closed = true) := by
    obtain ⟨f, hy, hclosed⟩ := (keeps_new hfan).run hbefore
    exact ⟨f, hy, fun hclose => hclosed (.inr hclose)⟩
  refine ⟨⟨y.queues.next, ?_, fun after hafter => ?_⟩, hy.publish_count, fun hclose => ?_⟩
  · simp only [Exchange.subscribe, hy.fan]
    rfl
  · obtain ⟨newcomer, hnew, -, hempty, -⟩ := hy.newcomer
    obtain ⟨queue, hq, hconserved⟩ :=
      hy.subscribe.conserved (List.mem_append_right _ List.mem_cons_self) hnew hafter
    rw [hempty, List.nil_append] at hconserved
    exact ⟨queue, hq, hconserved.symm⟩
  · refine ⟨fun id hid => ?_, fun v => ?_⟩
    · obtain ⟨queue, hq, -⟩ := hy.tidy id hid
      rw [Exchange.isClosed, hq]
      exact hy.closed_of_closed hid hq (hclosed hclose)
    · rw [hy.publish_count v, List.countP_eq_zero]
      simp [reaches, hy.isClosed, hclosed hclose]

/-- A fan of room one, with nobody on it. -/
def alone : Exchange := { fans := Table.empty.push (new .any false 1) }

/-- Three subscribe; one leaves and one does not keep up. -/
def crowded : List Op :=
  [.subscribe, .subscribe, .publish (.int 1), .subscribe, .subscriber ⟨0⟩ .receive,
    .subscriber ⟨2⟩ .close]

theorem crowded_exactly_once : (∀ op ∈ crowded, op.isProper = true) ∧
    joined ⟨0⟩ crowded alone = [⟨0⟩, ⟨1⟩, ⟨2⟩] ∧
      ((runAll (step ⟨0⟩) crowded alone).2.publish ⟨0⟩ (.int 2)).1 = 1 := by
  have hproper : ∀ op ∈ crowded, op.isProper = true := by decide +kernel
  have hreached : (joined ⟨0⟩ crowded alone).countP
      (reaches ⟨0⟩ (runAll (step ⟨0⟩) crowded alone).2) = 1 := by decide +kernel
  have hnew : alone.fans.get? ⟨0⟩ = some (new .any false 1) := rfl
  exact ⟨hproper, by decide +kernel, ((exactly_once hnew crowded hproper).2.1 _).trans hreached⟩

end Fan

end Dataflow
