import Dataflow.Pool
import Dataflow.Proofs.Queues
import Mathlib.Data.List.Nodup
import Mathlib.Data.List.Range
/-!
# Pools keep their books

A pool keeps three records of the same thing: whether a cell is leased, which indices are free and
which are in use, and how many references an item has. Each operation updates some of them, and
some operations are refused halfway. This file shows that the records agree at all times, and that
the counts are those of the history: one for the lease, one more for each reference added since and
one less for each dropped.

What an operation does is said once, cell by cell (`acquire_leases`, `step_retain_of_live`,
`release_of_live`, `recycle_cells`). The invariant and the history follow from that.
-/

namespace Dataflow

variable {i : Nat} {h : PoolHandle}

section RunAll

variable {σ ω α : Type} (step : σ → ω → α × σ)

theorem runAll_concat (ops : List ω) (op : ω) (s : σ) :
    runAll step (ops ++ [op]) s =
      ((runAll step ops s).1 ++ [(step (runAll step ops s).2 op).1],
        (step (runAll step ops s).2 op).2) := by
  induction ops generalizing s with
  | nil => rfl
  | cons first ops ih => rw [List.cons_append, runAll_cons, ih, runAll_cons, List.cons_append]

theorem length_runAll (ops : List ω) (s : σ) : (runAll step ops s).1.length = ops.length := by
  induction ops generalizing s with
  | nil => rfl
  | cons op ops ih => rw [runAll_cons, List.length_cons, ih, List.length_cons]

end RunAll

namespace Pool

variable {α : Type}

/-! ### Operations and their history -/

/-- What can be done with a pool. -/
inductive Op (α : Type) where
  | acquire (create : α)
  /-- Changes an item through a handle. -/
  | edit (h : PoolHandle) (f : α → α)
  | retain (h : PoolHandle)
  | release (h : PoolHandle)
  | recycle

/-- What a pool tells. -/
inductive Answer where
  | acquired (result : Except Violation PoolHandle)
  /-- Whether the handle was live. -/
  | edited (live : Bool)
  /-- A reference was added or dropped, or the handle was refused. -/
  | counted (result : Except Violation PUnit)
  | recycled (count : Nat)

/-- The answer of an operation that gives a new pool or is refused, which leaves the pool as it
was. -/
def counted (p : Pool α) : Except Violation (Pool α) → Answer × Pool α
  | .ok q => (.counted (.ok ()), q)
  | .error v => (.counted (.error v), p)

/-- One operation on a pool. -/
def step (p : Pool α) : Op α → Answer × Pool α
  | .acquire create => (p.acquire create).map .acquired id
  | .edit h f =>
    match p.get? h with
    | some item => (p.set h (f item)).map .edited id
    | none => (.edited false, p)
  | .retain h => p.counted (p.retain h)
  | .release h => p.counted (p.release h)
  | .recycle => p.recycle.map .recycled id

/-- An operation with its answer. -/
abbrev Event (α : Type) := Op α × Answer

/-- The pool after operations on a new one. -/
def after (ops : List (Op α)) : Pool α := (runAll step ops {}).2

/-- What was done with a new pool and what it told, oldest first. -/
def log (ops : List (Op α)) : List (Event α) := ops.zip (runAll step ops {}).1

theorem after_concat (ops : List (Op α)) (op : Op α) :
    after (ops ++ [op]) = ((after ops).step op).2 := by
  rw [after, runAll_concat, after]

theorem log_concat (ops : List (Op α)) (op : Op α) :
    log (ops ++ [op]) = log ops ++ [(op, ((after ops).step op).1)] := by
  rw [log, runAll_concat, List.zip_append (length_runAll step ops {}).symm]
  rfl

/-- Whether the item of a cell was leased. -/
def leases (i : Nat) : Event α → Bool
  | (_, .acquired (.ok h)) => h.index == i
  | _ => false

/-- Whether a reference to the item of a cell was added. -/
def adds (i : Nat) : Event α → Bool
  | (.retain h, .counted (.ok _)) => h.index == i
  | _ => false

/-- Whether a reference to the item of a cell was dropped. -/
def drops (i : Nat) : Event α → Bool
  | (.release h, .counted (.ok _)) => h.index == i
  | _ => false

/-- What happened since the item of a cell was last leased, latest first. -/
def sinceLease (i : Nat) (events : List (Event α)) : List (Event α) :=
  events.reverse.takeWhile fun e => !leases i e

/-- The references to the item of a cell by the history: one for the lease, and those that were
added less those that were dropped since. -/
def balance (i : Nat) (events : List (Event α)) : Int :=
  1 + (sinceLease i events).countP (adds i) - (sinceLease i events).countP (drops i)

theorem balance_of_leases {e : Event α} (he : leases i e = true) (events : List (Event α)) :
    balance i (events ++ [e]) = 1 := by
  simp [balance, sinceLease, he]

theorem balance_of_not_leases {e : Event α} (he : leases i e = false) (events : List (Event α)) :
    balance i (events ++ [e]) =
      balance i events + (if adds i e then 1 else 0) - (if drops i e then 1 else 0) := by
  simp only [balance, sinceLease, List.reverse_append, List.reverse_singleton, List.singleton_append,
    List.takeWhile_cons, he, Bool.not_false, if_true, List.countP_cons]
  split <;> split <;> push_cast <;> omega

/-! ### Cells -/

theorem getElem?_modifyCell (p : Pool α) (i j : Nat) (f : PoolCell α → PoolCell α) :
    (p.modifyCell i f).cells[j]? = if i = j then p.cells[j]?.map f else p.cells[j]? := by
  rw [modifyCell, List.getElem?_modify]
  split <;> simp

theorem live?_eq_some {p : Pool α} {c : PoolCell α} :
    p.live? h = some c ↔
      p.cells[h.index]? = some c ∧ c.generation = h.generation ∧ c.leased = true := by
  rw [live?, Option.filter_eq_some_iff]
  simp

theorem get?_eq_none_iff {p : Pool α} : p.get? h = none ↔ p.live? h = none := by
  rw [get?, Option.map_eq_none_iff]

/-- Several cells are changed at once. -/
theorem getElem?_foldl_modify (f : PoolCell α → PoolCell α) {back : List Nat} (h : back.Nodup)
    (cells : List (PoolCell α)) (j : Nat) :
    (back.foldl (fun cells i => cells.modify i f) cells)[j]? =
      if j ∈ back then cells[j]?.map f else cells[j]? := by
  induction back generalizing cells with
  | nil => simp
  | cons i back ih =>
    obtain ⟨hi, hback⟩ := List.nodup_cons.1 h
    rw [List.foldl_cons, ih hback, List.getElem?_modify]
    by_cases hj : i = j
    · subst hj
      simp [hi]
    · simp [hj, Ne.symm hj]

theorem length_foldl_modify (f : PoolCell α → PoolCell α) (back : List Nat)
    (cells : List (PoolCell α)) :
    (back.foldl (fun cells i => cells.modify i f) cells).length = cells.length := by
  induction back generalizing cells with
  | nil => rfl
  | cons i back ih => rw [List.foldl_cons, ih, List.length_modify]

/-! ### Agreement of the records -/

/-- Free and leased indices together are all indices, each once. A free cell is not leased and has
only the pool's reference; one in use is leased and has at least that. -/
structure Sound (p : Pool α) : Prop where
  listed : (p.free ++ p.inUse).Perm (List.range p.cells.length)
  idle : ∀ i ∈ p.free, ∀ c, p.cells[i]? = some c → c.leased = false ∧ c.refs = 1
  busy : ∀ i ∈ p.inUse, ∀ c, p.cells[i]? = some c → c.leased = true ∧ 1 ≤ c.refs

theorem sound_empty : Sound ({} : Pool α) :=
  ⟨.refl _, fun _ h => absurd h List.not_mem_nil, fun _ h => absurd h List.not_mem_nil⟩

namespace Sound

variable {p : Pool α}

theorem mem_iff (hp : p.Sound) (i : Nat) : i ∈ p.free ∨ i ∈ p.inUse ↔ i < p.cells.length := by
  rw [← List.mem_append, hp.listed.mem_iff, List.mem_range]

theorem nodup (hp : p.Sound) : (p.free ++ p.inUse).Nodup :=
  hp.listed.nodup_iff.2 List.nodup_range

theorem nodup_inUse (hp : p.Sound) : p.inUse.Nodup := hp.nodup.of_append_right

/-- What an index in use stands for. -/
theorem cell_of_mem_inUse (hp : p.Sound) (hi : i ∈ p.inUse) :
    ∃ c, p.cells[i]? = some c ∧ c.leased = true ∧ 1 ≤ c.refs := by
  have hlt := (hp.mem_iff i).1 (.inr hi)
  exact ⟨_, List.getElem?_eq_getElem hlt, hp.busy i hi _ (List.getElem?_eq_getElem hlt)⟩

/-- What a free index stands for. -/
theorem cell_of_mem_free (hp : p.Sound) (hi : i ∈ p.free) :
    ∃ c, p.cells[i]? = some c ∧ c.leased = false ∧ c.refs = 1 := by
  have hlt := (hp.mem_iff i).1 (.inl hi)
  exact ⟨_, List.getElem?_eq_getElem hlt, hp.idle i hi _ (List.getElem?_eq_getElem hlt)⟩

theorem leased_iff (hp : p.Sound) {c : PoolCell α} (hc : p.cells[i]? = some c) :
    c.leased = true ↔ i ∈ p.inUse := by
  refine ⟨fun hleased => ?_, fun hi => (hp.busy i hi c hc).1⟩
  rcases (hp.mem_iff i).2 (List.getElem?_eq_some_iff.1 hc).1 with hi | hi
  · exact absurd hleased (by simp [(hp.idle i hi c hc).1])
  · exact hi

theorem not_leased_iff (hp : p.Sound) {c : PoolCell α} (hc : p.cells[i]? = some c) :
    c.leased = false ↔ i ∈ p.free := by
  refine ⟨fun hleased => ?_, fun hi => (hp.idle i hi c hc).1⟩
  rcases (hp.mem_iff i).2 (List.getElem?_eq_some_iff.1 hc).1 with hi | hi
  · exact hi
  · exact absurd hleased (by simp [(hp.busy i hi c hc).1])

theorem one_le_refs (hp : p.Sound) {c : PoolCell α} (hc : p.cells[i]? = some c) : 1 ≤ c.refs := by
  rcases (hp.mem_iff i).2 (List.getElem?_eq_some_iff.1 hc).1 with hi | hi
  · exact (hp.idle i hi c hc).2.ge
  · exact (hp.busy i hi c hc).2

theorem mem_inUse_of_live (hp : p.Sound) {c : PoolCell α} (hc : p.live? h = some c) :
    h.index ∈ p.inUse := by
  obtain ⟨hcell, -, hleased⟩ := live?_eq_some.1 hc
  exact (hp.leased_iff hcell).1 hleased

/-- A change to a leased cell that leaves it leased keeps the records in agreement, as long as the
pool's reference stays. -/
theorem modifyCell (hp : p.Sound) {f : PoolCell α → PoolCell α} (hi : i ∈ p.inUse)
    (hf : ∀ c, p.cells[i]? = some c → (f c).leased = c.leased ∧ 1 ≤ (f c).refs) :
    (p.modifyCell i f).Sound := by
  have hne : ∀ j ∈ p.free, i ≠ j := by
    rintro j hj rfl
    exact (List.nodup_append.1 hp.nodup).2.2 i hj i hi rfl
  refine ⟨?_, fun j hj c hc => ?_, fun j hj c hc => ?_⟩
  · simpa [Pool.modifyCell] using hp.listed
  · rw [getElem?_modifyCell, if_neg (hne j hj)] at hc
    exact hp.idle j hj c hc
  · rw [getElem?_modifyCell] at hc
    split at hc
    · rename_i hij
      subst hij
      obtain ⟨c₀, hc₀, rfl⟩ := Option.map_eq_some_iff.1 hc
      exact ⟨(hf c₀ hc₀).1.trans (hp.busy i hj c₀ hc₀).1, (hf c₀ hc₀).2⟩
    · exact hp.busy j hj c hc

end Sound

/-! ### What each operation does -/

/-- The item that `acquire` hands out: that of a free cell, or else a new one. -/
def contentAt (p : Pool α) (i : Nat) (create : α) : α := (p.cells[i]?.map (·.item)).getD create

/-- `q` is `p` after the handle `h` was handed out: its cell was not in use and is leased now, all
other cells are as they were. -/
structure Leases (p : Pool α) (create : α) (h : PoolHandle) (q : Pool α) : Prop where
  taken : p.free = q.free ++ [h.index] ∧ q.cells.length = p.cells.length ∨
    p.free = [] ∧ q.free = [] ∧ h.index = p.cells.length ∧ q.cells.length = p.cells.length + 1
  inUse : q.inUse = p.inUse ++ [h.index]
  generation : (p.cells[h.index]?.map PoolCell.generation).getD 0 = h.generation
  cell : q.cells[h.index]? = some ⟨p.contentAt h.index create, h.generation, 2, true⟩
  others : ∀ j, j ≠ h.index → q.cells[j]? = p.cells[j]?

/-- The cell of a free index is leased as it is. -/
theorem lease_eq {p : Pool α} {c : PoolCell α} (hc : p.cells[i]? = some c)
    (hleased : c.leased = false) (hrefs : c.refs = 1) :
    p.lease i = (.ok ⟨i, c.generation⟩,
      { p.modifyCell i (fun c => { c with leased := true, refs := 2 }) with
        inUse := p.inUse ++ [i] }) := by
  simp [lease, hc, hleased, hrefs]

/-- A lease never fails, and is as described. -/
theorem acquire_leases {p : Pool α} (hp : p.Sound) (create : α) :
    ∃ h q, p.acquire create = (.ok h, q) ∧ p.Leases create h q := by
  rw [acquire]
  cases hlast : p.free.getLast? with
  | some i =>
    obtain ⟨rest, hfree⟩ := List.getLast?_eq_some_iff.1 hlast
    obtain ⟨c, hc, hleased, hrefs⟩ := hp.cell_of_mem_free (i := i) (by simp [hfree])
    refine ⟨_, _, lease_eq hc hleased hrefs, .inl ⟨by simp [modifyCell, hfree], by simp [modifyCell]⟩,
      rfl, ?_, ?_, ?_⟩
    · simp [hc]
    · simp [modifyCell, hc, contentAt]
    · intro j hj
      simp [modifyCell, Ne.symm hj]
  | none =>
    have hfree : p.free = [] := List.getLast?_eq_none_iff.1 hlast
    have hnew : (p.cells ++ [{ item := create }])[p.cells.length]? = some { item := create } :=
      List.getElem?_concat_length
    refine ⟨_, _, lease_eq hnew rfl rfl, .inr ⟨hfree, hfree, rfl, by simp [modifyCell]⟩, rfl,
      ?_, ?_, ?_⟩
    · simp
    · simp [modifyCell, contentAt]
    · intro j hj
      have hj : p.cells.length ≠ j := Ne.symm hj
      simp only [modifyCell, List.getElem?_modify, hj, if_false, List.getElem?_append]
      split
      · simp
      · rename_i hlt
        rw [List.getElem?_eq_none (by simp; omega), List.getElem?_eq_none (by omega)]
        rfl

/-- The items that are taken back now: those in use that only the pool holds. -/
def returning (p : Pool α) : List Nat := p.inUse.filter p.unused

theorem recycle_eq (p : Pool α) : p.recycle.1 = p.returning.length ∧
    p.recycle.2.free = p.free ++ p.returning ∧
    p.recycle.2.inUse = p.inUse.filter fun i => !p.unused i := ⟨rfl, rfl, rfl⟩

/-- Recycling ends the leases of the cells that are taken back. -/
theorem recycle_cells {p : Pool α} (hp : p.Sound) (j : Nat) :
    p.recycle.2.cells[j]? =
      if j ∈ p.returning then
        p.cells[j]?.map fun c => { c with leased := false, generation := c.generation + 1 }
      else p.cells[j]? :=
  getElem?_foldl_modify _ (hp.nodup_inUse.filter _) _ _

theorem mem_returning {p : Pool α} {c : PoolCell α} (hc : p.cells[i]? = some c) :
    i ∈ p.returning ↔ i ∈ p.inUse ∧ c.refs = 1 := by
  simp [returning, unused, hc]

theorem step_acquire {p q : Pool α} {create : α} (hq : p.acquire create = (.ok h, q)) :
    p.step (.acquire create) = (.acquired (.ok h), q) := by
  rw [step, hq]
  rfl

theorem step_edit_of_live {p : Pool α} {c : PoolCell α} (hc : p.live? h = some c) (f : α → α) :
    p.step (.edit h f) =
      (.edited true, p.modifyCell h.index fun c' => { c' with item := f c.item }) := by
  simp [step, get?, set, hc]

theorem step_edit_of_stale {p : Pool α} (hstale : p.live? h = none) (f : α → α) :
    p.step (.edit h f) = (.edited false, p) := by
  rw [step, get?_eq_none_iff.2 hstale]

theorem step_retain_of_live {p : Pool α} {c : PoolCell α} (hc : p.live? h = some c) :
    p.step (.retain h) =
      (.counted (.ok ()), p.modifyCell h.index fun c => { c with refs := c.refs + 1 }) := by
  rw [step, retain, hc]
  rfl

theorem step_retain_of_stale {p : Pool α} (hstale : p.live? h = none) :
    ∃ v, p.step (.retain h) = (.counted (.error v), p) := by
  rw [step, retain, hstale]
  exact ⟨_, rfl⟩

theorem release_of_live {p : Pool α} {c : PoolCell α} (hc : p.live? h = some c) :
    p.release h = if c.refs ≤ 1 then
        .error ⟨.poolCount, "released more references than were taken",
          some ("refs = " ++ toString c.refs)⟩
      else .ok (p.modifyCell h.index fun c => { c with refs := c.refs - 1 }) := by
  rw [release, hc]

theorem release_of_stale {p : Pool α} (hstale : p.live? h = none) :
    p.release h = .error ⟨.poolHandle, "released a stale pool handle", none⟩ := by
  rw [release, hstale]

theorem step_release_of_error {p : Pool α} {v : Violation} (hv : p.release h = .error v) :
    p.step (.release h) = (.counted (.error v), p) := by
  rw [step, hv]
  rfl

theorem step_release_of_ok {p q : Pool α} (hq : p.release h = .ok q) :
    p.step (.release h) = (.counted (.ok ()), q) := by
  rw [step, hq]
  rfl

/-! ### Steps -/

namespace Sound

variable {p q : Pool α} {create : α}

/-- The cell of a new lease was not in use. -/
theorem not_mem_inUse_of_leases (hp : p.Sound) (hq : p.Leases create h q) : h.index ∉ p.inUse := by
  rcases hq.taken with ⟨hfree, -⟩ | ⟨-, -, hnew, -⟩
  · intro hi
    exact (List.nodup_append.1 hp.nodup).2.2 h.index (by simp [hfree]) h.index hi rfl
  · rw [hnew]
    exact fun hi => absurd ((hp.mem_iff _).1 (.inr hi)) (lt_irrefl _)

theorem leases (hp : p.Sound) (hq : p.Leases create h q) : q.Sound := by
  have hlisted : (q.free ++ q.inUse).Perm (List.range q.cells.length) := by
    rw [hq.inUse]
    rcases hq.taken with ⟨hfree, hlength⟩ | ⟨hfree, hfree', hnew, hlength⟩
    · refine List.Perm.trans ?_ (hlength ▸ hp.listed)
      rw [hfree, List.append_assoc]
      exact List.perm_append_comm.append_left _
    · have hall := hp.listed
      rw [hfree, List.nil_append] at hall
      rw [hfree', List.nil_append, hlength, List.range_succ, hnew]
      exact hall.append_right _
  refine ⟨hlisted, fun j hj c hc => ?_, fun j hj c hc => ?_⟩
  · -- what is still free was free, and is another cell
    have hne : j ≠ h.index := by
      rintro rfl
      exact (List.nodup_append.1 (hlisted.nodup_iff.2 List.nodup_range)).2.2 _ hj h.index
        (by simp [hq.inUse]) rfl
    rw [hq.others j hne] at hc
    refine hp.idle j ?_ c hc
    rcases hq.taken with ⟨hfree, -⟩ | ⟨-, hfree', -⟩
    · simp [hfree, hj]
    · simp [hfree'] at hj
  · by_cases hj' : j = h.index
    · subst hj'
      cases hq.cell.symm.trans hc
      exact ⟨rfl, Nat.le_succ 1⟩
    · rw [hq.others j hj'] at hc
      rw [hq.inUse] at hj
      exact hp.busy j (by simpa [hj'] using hj) c hc

theorem recycle (hp : p.Sound) : p.recycle.2.Sound := by
  obtain ⟨-, hfree, hinUse⟩ := p.recycle_eq
  refine ⟨?_, fun j hj c hc => ?_, fun j hj c hc => ?_⟩
  · rw [hfree, hinUse, List.append_assoc, show p.recycle.2.cells.length = p.cells.length from
      length_foldl_modify _ _ _]
    exact ((List.filter_append_perm p.unused p.inUse).append_left _).trans hp.listed
  · rw [recycle_cells hp] at hc
    split at hc
    · rename_i hback
      obtain ⟨c₀, hc₀, rfl⟩ := Option.map_eq_some_iff.1 hc
      exact ⟨rfl, ((mem_returning hc₀).1 hback).2⟩
    · rename_i hback
      rw [hfree, List.mem_append] at hj
      exact hp.idle j (hj.resolve_right hback) c hc
  · rw [hinUse, List.mem_filter] at hj
    have hkept : j ∉ p.returning := by
      intro hback
      simp [(List.mem_filter.1 hback).2] at hj
    rw [recycle_cells hp, if_neg hkept] at hc
    exact hp.busy j hj.1 c hc

end Sound

/-- The records agree, and the counts are those of the history. -/
structure Booked (p : Pool α) (events : List (Event α)) : Prop where
  sound : p.Sound
  counts : ∀ i ∈ p.inUse, ∀ c, p.cells[i]? = some c → (c.refs : Int) = 1 + balance i events

namespace Booked

variable {p : Pool α} {events : List (Event α)}

/-- An event that changes no count. -/
theorem neutral (hp : p.Booked events) {e : Event α}
    (he : ∀ i, leases i e = false ∧ adds i e = false ∧ drops i e = false) :
    p.Booked (events ++ [e]) := by
  refine ⟨hp.sound, fun i hi c hc => ?_⟩
  rw [balance_of_not_leases (he i).1, hp.counts i hi c hc]
  simp [he i]

/-- An event that changes the count of one item in use. -/
theorem modifyCell (hp : p.Booked events) {e : Event α} {f : PoolCell α → PoolCell α}
    (hi : i ∈ p.inUse)
    (hothers : ∀ j, leases j e = false ∧ (i ≠ j → adds j e = false ∧ drops j e = false))
    (hf : ∀ c, p.cells[i]? = some c → (f c).leased = c.leased ∧ 1 ≤ (f c).refs ∧
      ((f c).refs : Int) = c.refs + (if adds i e then 1 else 0) - (if drops i e then 1 else 0)) :
    (p.modifyCell i f).Booked (events ++ [e]) := by
  refine ⟨hp.sound.modifyCell hi fun c hc => ⟨(hf c hc).1, (hf c hc).2.1⟩, fun j hj c hc => ?_⟩
  rw [getElem?_modifyCell] at hc
  rw [balance_of_not_leases (hothers j).1]
  split at hc
  · rename_i hij
    subst hij
    obtain ⟨c₀, hc₀, rfl⟩ := Option.map_eq_some_iff.1 hc
    have hbefore := hp.counts i hj c₀ hc₀
    have hafter := (hf c₀ hc₀).2.2
    omega
  · rename_i hij
    rw [hp.counts j hj c hc]
    simp [(hothers j).2 hij]

theorem acquire (hp : p.Booked events) (create : α) :
    (p.step (.acquire create)).2.Booked
      (events ++ [(.acquire create, (p.step (.acquire create)).1)]) := by
  obtain ⟨h, q, hacquire, hq⟩ := acquire_leases hp.sound create
  rw [step_acquire hacquire]
  refine ⟨hp.sound.leases hq, fun i hi c hc => ?_⟩
  by_cases hih : i = h.index
  · subst hih
    cases hq.cell.symm.trans hc
    rw [balance_of_leases (by simp [Pool.leases])]
    rfl
  · rw [balance_of_not_leases (by simp [Pool.leases, Ne.symm hih])]
    rw [hq.others i hih] at hc
    have hi : i ∈ p.inUse := by simpa [hq.inUse, hih] using hi
    simpa [adds, drops] using hp.counts i hi c hc

theorem edit (hp : p.Booked events) (h : PoolHandle) (f : α → α) :
    (p.step (.edit h f)).2.Booked (events ++ [(.edit h f, (p.step (.edit h f)).1)]) := by
  cases hlive : p.live? h with
  | none =>
    rw [step_edit_of_stale hlive]
    exact hp.neutral fun i => ⟨rfl, rfl, rfl⟩
  | some c =>
    rw [step_edit_of_live hlive]
    refine hp.modifyCell (hp.sound.mem_inUse_of_live hlive) (fun j => ⟨rfl, fun _ => ⟨rfl, rfl⟩⟩)
      fun c' hc' => ⟨rfl, (hp.sound.one_le_refs hc' : 1 ≤ c'.refs), ?_⟩
    simp [adds, drops]

theorem retain (hp : p.Booked events) (h : PoolHandle) :
    (p.step (.retain h)).2.Booked (events ++ [(.retain h, (p.step (.retain h)).1)]) := by
  cases hlive : p.live? h with
  | none =>
    obtain ⟨v, hv⟩ := step_retain_of_stale hlive
    rw [hv]
    exact hp.neutral fun i => ⟨rfl, rfl, rfl⟩
  | some c =>
    rw [step_retain_of_live hlive]
    refine hp.modifyCell (hp.sound.mem_inUse_of_live hlive)
      (fun j => ⟨rfl, fun hj => ⟨by simp [adds, hj], rfl⟩⟩)
      fun c hc => ⟨rfl, Nat.le_add_left 1 _, ?_⟩
    simp [adds, drops]

theorem release (hp : p.Booked events) (h : PoolHandle) :
    (p.step (.release h)).2.Booked (events ++ [(.release h, (p.step (.release h)).1)]) := by
  cases hlive : p.live? h with
  | none =>
    rw [step_release_of_error (release_of_stale hlive)]
    exact hp.neutral fun i => ⟨rfl, rfl, rfl⟩
  | some c =>
    have hrelease := release_of_live hlive
    by_cases hrefs : c.refs ≤ 1
    · rw [if_pos hrefs] at hrelease
      rw [step_release_of_error hrelease]
      exact hp.neutral fun i => ⟨rfl, rfl, rfl⟩
    · rw [if_neg hrefs] at hrelease
      rw [step_release_of_ok hrelease]
      refine hp.modifyCell (hp.sound.mem_inUse_of_live hlive)
        (fun j => ⟨rfl, fun hj => ⟨rfl, by simp [drops, hj]⟩⟩) fun c' hc' => ?_
      cases (live?_eq_some.1 hlive).1.symm.trans hc'
      have hsub : ((c.refs - 1 : Nat) : Int) = c.refs - 1 := by omega
      exact ⟨rfl, Nat.le_sub_of_add_le (by omega), by simpa [adds, drops] using hsub⟩

theorem recycle (hp : p.Booked events) :
    (p.step .recycle).2.Booked (events ++ [(.recycle, (p.step .recycle).1)]) := by
  have hkept : ∀ i ∈ p.recycle.2.inUse, i ∈ p.inUse ∧ p.recycle.2.cells[i]? = p.cells[i]? := by
    intro i hi
    rw [p.recycle_eq.2.2, List.mem_filter] at hi
    refine ⟨hi.1, ?_⟩
    rw [recycle_cells hp.sound, if_neg]
    intro hback
    simp [List.of_mem_filter hback] at hi
  refine Booked.neutral ⟨hp.sound.recycle, fun i hi c hc => ?_⟩ fun i => ⟨rfl, rfl, rfl⟩
  exact hp.counts i (hkept i hi).1 c ((hkept i hi).2 ▸ hc)

theorem step (hp : p.Booked events) (op : Op α) :
    (p.step op).2.Booked (events ++ [(op, (p.step op).1)]) := by
  cases op with
  | acquire create => exact hp.acquire create
  | edit h f => exact hp.edit h f
  | retain h => exact hp.retain h
  | release h => exact hp.release h
  | recycle => exact hp.recycle

end Booked

/-- The books of a pool are in order after any operations on a new one. -/
theorem booked_after (ops : List (Op α)) : (after ops).Booked (log ops) := by
  induction ops using List.reverseRecOn with
  | nil => exact ⟨sound_empty, fun _ h => absurd h List.not_mem_nil⟩
  | append_singleton ops op ih =>
    rw [after_concat, log_concat]
    exact ih.step op

theorem unused_eq_decide_balance {p : Pool α} {events : List (Event α)} (hp : p.Booked events)
    (hi : i ∈ p.inUse) : p.unused i = decide (balance i events = 0) := by
  obtain ⟨c, hc, -, -⟩ := hp.sound.cell_of_mem_inUse hi
  have hcount := hp.counts i hi c hc
  rw [unused, hc, Bool.eq_iff_iff, beq_iff_eq, decide_eq_true_eq]
  omega

/-- A pool keeps its books. After any operations on a new one, with whatever handles and whether they
were refused or not, the free indices and those in use are all indices, each once. A cell is free
if and only if its index is listed so, and then has only the pool's reference; every cell has that.
A lease is never refused. The references through a live handle are those of the history, and one is
refused to be dropped if and only if the handle is stale or there is none. Recycling moves the items
in use that have none to the free ones, in order, and tells how many. -/
theorem books_balance (ops : List (Op α)) :
    let p := after ops
    let number := fun i => balance i (log ops)
    (p.free ++ p.inUse).Perm (List.range p.size) ∧
      (∀ i c, p.cells[i]? = some c →
        (c.leased = false ↔ i ∈ p.free) ∧ (i ∈ p.free → c.refs = 1) ∧ 1 ≤ c.refs) ∧
      (∀ create, ∃ h, (p.acquire create).1 = .ok h) ∧
      (∀ h, (p.get? h).isSome = true → ∃ n, p.refs? h = some n ∧ (n : Int) = number h.index) ∧
      (∀ h, (p.release h).isOk = false ↔ p.get? h = none ∨ number h.index = 0) ∧
      p.recycle.1 = (p.inUse.filter fun i => number i = 0).length ∧
      p.recycle.2.free = p.free ++ p.inUse.filter (fun i => number i = 0) ∧
      p.recycle.2.inUse = p.inUse.filter fun i => number i ≠ 0 := by
  intro p number
  have hp : p.Booked (log ops) := booked_after ops
  have hlive : ∀ h c, p.live? h = some c → (c.refs : Int) = 1 + number h.index := fun h c hc =>
    hp.counts _ (hp.sound.mem_inUse_of_live hc) c (live?_eq_some.1 hc).1
  have hback : p.returning = p.inUse.filter fun i => number i = 0 :=
    List.filter_congr fun i hi => unused_eq_decide_balance hp hi
  obtain ⟨hcount, hfree, hinUse⟩ := p.recycle_eq
  refine ⟨hp.sound.listed, fun i c hc => ⟨hp.sound.not_leased_iff hc, fun hi => ?_, ?_⟩,
    fun create => ?_, fun h hsome => ?_, fun h => ?_, ?_, ?_, ?_⟩
  · exact (hp.sound.idle i hi c hc).2
  · exact hp.sound.one_le_refs hc
  · obtain ⟨h, q, hacquire, -⟩ := acquire_leases hp.sound create
    exact ⟨h, by rw [hacquire]⟩
  · obtain ⟨c, hc⟩ := Option.isSome_iff_exists.1 (Option.isSome_map.symm.trans hsome)
    have hrefs := hlive h c hc
    have hone := hp.sound.one_le_refs (live?_eq_some.1 hc).1
    exact ⟨c.refs - 1, by rw [refs?, hc]; rfl, by omega⟩
  · cases hc : p.live? h with
    | none => simp [release_of_stale hc, get?_eq_none_iff.2 hc, Except.isOk, Except.toBool]
    | some c =>
      have hrefs := hlive h c hc
      have hone := hp.sound.one_le_refs (live?_eq_some.1 hc).1
      have hsome : p.get? h ≠ none := by simp [get?, hc]
      rw [release_of_live hc]
      split
      · simp only [Except.isOk, Except.toBool, hsome, false_or, true_iff]
        omega
      · simp only [Except.isOk, Except.toBool, hsome, false_or, Bool.true_eq_false, false_iff]
        omega
  · rw [hcount, hback]
  · rw [hfree, hback]
  · rw [hinUse]
    exact List.filter_congr fun i hi => by
      rw [unused_eq_decide_balance hp hi, decide_not]

/-- Two items. One is retained; the other is released once too often, comes back, and is refused
under its old handle. -/
def lending : List (Op Nat) :=
  [.acquire 1, .acquire 2, .retain ⟨0, 0⟩, .release ⟨1, 0⟩, .release ⟨1, 0⟩, .recycle, .acquire 3,
    .release ⟨1, 0⟩, .release ⟨1, 1⟩]

theorem lending_books_balance : (after lending).inUse = [0, 1] ∧ (after lending).recycle.1 = 1 ∧
    ∃ n, (after lending).refs? ⟨0, 0⟩ = some n ∧ (n : Int) = balance 0 (log lending) :=
  have h := books_balance lending
  ⟨by decide, h.2.2.2.2.2.1, h.2.2.2.1 ⟨0, 0⟩ (by decide)⟩

end Pool

end Dataflow
