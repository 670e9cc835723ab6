import Dataflow.Buffer
import Dataflow.Proofs.Leases
/-!
# Buffers are lent to one holder at a time

A buffer source keeps two records of the buffers that are out: its own list of handles, and the
counts of its pool. A handle on the list has the reference of its lease besides that of the pool, and
the list names the items in use in the order in which they were leased. So a handle is never released
twice, and the pool refuses nothing.

Who holds a buffer is not known to the source. It asks when it takes buffers back, and the answer may
be anything. What is out, by the history, are the buffers that had a holder each time since they were
handed out. These are the buffers of the list. Distinct cells have distinct buffers, so what is handed
out next is none of them, and zeroing it leaves them alone.
-/

namespace Dataflow

namespace Pool

variable {α : Type} {p q : Pool α} {handles : List PoolHandle} {h : PoolHandle} {create : α}

/-- Drops a reference. -/
def dropRef (c : PoolCell α) : PoolCell α := { c with refs := c.refs - 1 }

/-- `q` is `p` after one reference of each handle was dropped. -/
structure Released (p : Pool α) (handles : List PoolHandle) (q : Pool α) : Prop where
  sound : q.Sound
  inUse : q.inUse = p.inUse
  cells : ∀ j, q.cells[j]? =
    if j ∈ handles.map (·.index) then p.cells[j]?.map dropRef else p.cells[j]?

/-- A handle of another cell stays as live as it is. -/
theorem live?_modifyCell_of_ne {i : Nat} (hi : i ≠ h.index)
    (f : PoolCell α → PoolCell α) : (p.modifyCell i f).live? h = p.live? h := by
  rw [live?, live?, getElem?_modifyCell, if_neg hi]

/-- The items of all cells. -/
def items (p : Pool α) : List α := p.cells.map (·.item)

theorem items_eq (h : ∀ j : Nat, q.cells[j]?.map (·.item) = p.cells[j]?.map (·.item)) :
    q.items = p.items := by
  refine List.ext_getElem? fun j => ?_
  rw [items, items, List.getElem?_map, List.getElem?_map, h]

/-- A lease takes an item that is there, or adds one when no cell is free. -/
theorem Leases.items (hp : p.Sound) (hq : p.Leases create h q) :
    (q.items = p.items ∧ p.items[h.index]? = some (p.contentAt h.index create)) ∨
      (q.items = p.items ++ [create] ∧ p.contentAt h.index create = create ∧
        p.cells.length = p.inUse.length) := by
  have hcell : q.items[h.index]? = some (p.contentAt h.index create) := by
    rw [Pool.items, List.getElem?_map, hq.cell]
    rfl
  have hothers : ∀ j, j ≠ h.index → q.items[j]? = p.items[j]? := fun j hj => by
    rw [Pool.items, Pool.items, List.getElem?_map, List.getElem?_map, hq.others j hj]
  rcases hq.taken with ⟨hfree, hlength⟩ | ⟨hfree, -, hnew, -⟩
  · obtain ⟨c, hc, -⟩ := hp.cell_of_mem_free (i := h.index) (by simp [hfree])
    have hitem : p.items[h.index]? = some (p.contentAt h.index create) := by
      rw [Pool.items, List.getElem?_map, contentAt, hc]
      rfl
    refine .inl ⟨List.ext_getElem? fun j => ?_, hitem⟩
    by_cases hj : j = h.index
    · rw [hj, hcell, hitem]
    · exact hothers j hj
  · have hlast : p.items.length = h.index := by rw [Pool.items, List.length_map, hnew]
    have hcontent : p.contentAt h.index create = create := by
      rw [contentAt, hnew, List.getElem?_eq_none le_rfl]
      rfl
    refine .inr ⟨List.ext_getElem? fun j => ?_, hcontent, ?_⟩
    · by_cases hj : j = h.index
      · rw [hj, hcell, hcontent, ← hlast, List.getElem?_concat_length]
      · rw [hothers j hj, List.getElem?_append]
        split
        · rfl
        · rw [List.getElem?_eq_none (by omega), List.getElem?_eq_none (by simp; omega)]
    · simpa [hfree] using hp.listed.length_eq.symm

end Pool

namespace Heap

variable {heap : Heap} {id id' : ObjectId}

/-- The octets of a buffer are in the heap. -/
def Stores (heap : Heap) (id : ObjectId) : Prop := ∃ n, id = .buffer n ∧ n < heap.blocks.size

theorem size_le_write (heap : Heap) (id : ObjectId) (octets : List UInt8) :
    heap.blocks.size ≤ (heap.write id octets).blocks.size := by
  cases id with
  | foreign n => exact Nat.le_refl _
  | buffer n =>
    rw [write]
    split <;> simp

theorem Stores.write (h : heap.Stores id) (id' : ObjectId) (octets : List UInt8) :
    (heap.write id' octets).Stores id := by
  obtain ⟨n, rfl, hn⟩ := h
  exact ⟨n, rfl, Nat.lt_of_lt_of_le hn (heap.size_le_write id' octets)⟩

/-- Writing to a buffer leaves the others alone. -/
theorem octets_write_of_ne (h : heap.Stores id) (hne : id ≠ id') (octets : List UInt8) :
    (heap.write id' octets).octets id = heap.octets id := by
  obtain ⟨n, rfl, hn⟩ := h
  cases id' with
  | foreign m => rfl
  | buffer m =>
    have hnm : m ≠ n := fun h => hne (h ▸ rfl)
    rw [write]
    split
    · simp [Heap.octets, hnm]
    · simp [Heap.octets, Array.getElem?_push, hn.ne]

theorem octets_write_self (h : heap.Stores id ∨ id = heap.fresh.id) (octets : List UInt8) :
    (heap.write id octets).octets id = octets ∧ (heap.write id octets).Stores id := by
  rcases h with ⟨n, rfl, hn⟩ | rfl
  · exact ⟨by simp [write, hn, Heap.octets], Stores.write ⟨n, rfl, hn⟩ _ _⟩
  · exact ⟨by simp [write, fresh, Heap.octets], _, rfl, by simp [write, fresh]⟩

end Heap

namespace BufferSource

variable {s s' : BufferSource} {held : ObjectId → Bool} {heap : Heap}

/-- The handles of the buffers that are out are the items in use, in order, and each has one
reference besides the pool's. -/
structure Sound (s : BufferSource) : Prop where
  pool : s.pool.Sound
  leased : s.leased.map (·.index) = s.pool.inUse
  counts : ∀ h ∈ s.leased, ∃ c, s.pool.live? h = some c ∧ c.refs = 2

theorem sound_new (size : Nat) : Sound { size } :=
  ⟨Pool.sound_empty, rfl, fun _ h => absurd h List.not_mem_nil⟩

/-- Each handle is kept if its buffer is held, and else released. -/
theorem releaseUnheld_spec (held : ObjectId → Bool) {todo : List PoolHandle} (hpool : s.pool.Sound)
    (hnodup : (todo.map (·.index)).Nodup)
    (hcounts : ∀ h ∈ todo, ∃ c, s.pool.live? h = some c ∧ c.refs = 2) :
    ∃ pool, releaseUnheld held todo s =
        .ok { s with pool, leased := todo.filter (s.isHeld held) } ∧
      s.pool.Released (todo.filter fun h => !s.isHeld held h) pool := by
  induction todo generalizing s with
  | nil => exact ⟨s.pool, rfl, hpool, rfl, by simp⟩
  | cons h rest ih =>
    obtain ⟨hfresh, hrest⟩ := List.nodup_cons.1 hnodup
    rw [releaseUnheld]
    by_cases hheld : s.isHeld held h = true
    · obtain ⟨pool, hpool', hreleased⟩ := ih hpool hrest fun h' hh' => hcounts h' (.tail _ hh')
      refine ⟨pool, ?_, by simpa [hheld] using hreleased⟩
      simp [hheld, hpool', bind, Except.bind, pure, Except.pure]
    · obtain ⟨c, hlive, hrefs⟩ := hcounts h List.mem_cons_self
      have hne : ∀ h' ∈ rest, h.index ≠ h'.index := fun h' hh' he =>
        hfresh (List.mem_map.2 ⟨h', hh', he.symm⟩)
      have hrelease : s.pool.release h = .ok (s.pool.modifyCell h.index Pool.dropRef) := by
        rw [Pool.release_of_live hlive, if_neg (by omega)]
        rfl
      have hsound : (s.pool.modifyCell h.index Pool.dropRef).Sound := by
        refine hpool.modifyCell (hpool.mem_inUse_of_live hlive) fun c' hc' => ⟨rfl, ?_⟩
        obtain rfl := Option.some.inj (hc'.symm.trans (Pool.live?_eq_some.1 hlive).1)
        exact Nat.le_sub_one_of_lt (by omega)
      -- the other handles see nothing of it
      have hsame : ∀ h' ∈ rest,
          ({ s with pool := s.pool.modifyCell h.index Pool.dropRef } : BufferSource).isHeld held h' =
            s.isHeld held h' := by
        intro h' hh'
        rw [isHeld, isHeld, Pool.get?, Pool.get?, Pool.live?_modifyCell_of_ne (hne h' hh')]
      obtain ⟨pool, hpool', hsound', hinUse, hcells⟩ :=
        ih (s := { s with pool := s.pool.modifyCell h.index Pool.dropRef }) hsound hrest fun h' hh' => by
          rw [Pool.live?_modifyCell_of_ne (hne h' hh')]
          exact hcounts h' (.tail _ hh')
      rw [List.filter_congr hsame] at hpool'
      rw [List.filter_congr fun h' hh' => congrArg not (hsame h' hh')] at hcells
      refine ⟨pool, ?_, hsound', hinUse, fun j => ?_⟩
      · simp [hheld, hrelease, hpool', bind, Except.bind]
      · rw [hcells, Pool.getElem?_modifyCell, List.filter_cons_of_pos (by simpa using hheld)]
        simp only [List.map_cons, List.mem_cons]
        by_cases hj : h.index = j
        · subst hj
          have hnot : h.index ∉ (rest.filter fun h => !s.isHeld held h).map (·.index) := fun hmem =>
            hfresh (List.map_subset _ (List.filter_subset_self _) hmem)
          rw [if_neg hnot, if_pos rfl, if_pos (.inl rfl)]
        · simp only [hj, Ne.symm hj, if_false, false_or]

/-- `s'` is `s` after the buffers that nobody holds were taken back: their handles are gone, and
those of the others are as live as they were. -/
structure Reclaims (s : BufferSource) (held : ObjectId → Bool) (s' : BufferSource) : Prop where
  sound : s'.Sound
  size : s'.size = s.size
  leased : s'.leased = s.leased.filter (s.isHeld held)
  live : ∀ h ∈ s'.leased, s'.pool.live? h = s.pool.live? h
  items : s'.pool.items = s.pool.items

/-- Buffers that nobody holds can be taken back. -/
theorem reclaim_reclaims (hs : s.Sound) (held : ObjectId → Bool) :
    ∃ s', s.reclaim held = .ok s' ∧ s.Reclaims held s' := by
  have hnodup : (s.leased.map (·.index)).Nodup := hs.leased ▸ hs.pool.nodup_inUse
  obtain ⟨pool, hrelease, hsound, hinUse, hcells⟩ :=
    releaseUnheld_spec held hs.pool hnodup hs.counts
  -- a handle has lost its reference exactly if its buffer is not held
  have hmem : ∀ h ∈ s.leased, h.index ∈ (s.leased.filter fun h => !s.isHeld held h).map (·.index) ↔
      s.isHeld held h = false := by
    intro h hh
    simp only [List.mem_map, List.mem_filter, Bool.not_eq_true']
    refine ⟨?_, fun hnot => ⟨h, ⟨hh, hnot⟩, rfl⟩⟩
    rintro ⟨h', ⟨hh', hnot⟩, he⟩
    rwa [← List.inj_on_of_nodup_map hnodup hh' hh he]
  have hunused : ∀ h ∈ s.leased, pool.unused h.index = !s.isHeld held h := by
    intro h hh
    obtain ⟨c, hlive, hrefs⟩ := hs.counts h hh
    rw [Pool.unused, hcells, (Pool.live?_eq_some.1 hlive).1]
    cases hheld : s.isHeld held h <;> simp [hmem h hh, hheld, hrefs, Pool.dropRef]
  have hreclaim : s.reclaim held =
      .ok { s with pool := pool.recycle.2, leased := s.leased.filter (s.isHeld held) } := by
    simp [reclaim, hrelease, bind, Except.bind, pure, Except.pure]
  have hkept : ∀ h ∈ s.leased.filter (s.isHeld held), pool.recycle.2.live? h = s.pool.live? h := by
    intro h hh
    obtain ⟨hh, hheld⟩ := List.mem_filter.1 hh
    have hback : h.index ∉ pool.returning := fun hback => by
      simp [Pool.returning, hunused h hh, hheld] at hback
    rw [Pool.live?, Pool.live?, Pool.recycle_cells hsound, if_neg hback, hcells,
      if_neg (by simp [hmem h hh, hheld])]
  refine ⟨_, hreclaim, ⟨hsound.recycle, ?_, fun h hh => ?_⟩, rfl, rfl, hkept, Pool.items_eq fun j => ?_⟩
  · rw [pool.recycle_eq.2.2, hinUse, ← hs.leased, List.filter_map]
    refine congrArg _ (List.filter_congr fun h hh => ?_)
    rw [Function.comp_apply, hunused h hh, Bool.not_not]
  · rw [hkept h hh]
    exact hs.counts h (List.mem_filter.1 hh).1
  · rw [Pool.recycle_cells hsound, hcells]
    split <;> split <;> simp [Function.comp_def, Pool.dropRef]

/-- A buffer can always be handed out: after the others were taken back, one is leased and zeroed. -/
theorem next_hands (hs : s.Sound) (held : ObjectId → Bool) (heap : Heap) :
    ∃ s₁ h pool, s.Reclaims held s₁ ∧ s₁.pool.Leases heap.fresh h pool ∧
      Sound { s₁ with pool, leased := s₁.leased ++ [h] } ∧
      let object := s₁.pool.contentAt h.index heap.fresh
      s.next held heap = .ok (object, { s₁ with pool, leased := s₁.leased ++ [h] },
        heap.write object.id (List.replicate s.size 0)) := by
  obtain ⟨s₁, hreclaim, hs₁⟩ := reclaim_reclaims hs held
  obtain ⟨h, pool, hacquire, hleases⟩ := Pool.acquire_leases hs₁.sound.pool heap.fresh
  have hlive := Pool.live?_eq_some.2 ⟨hleases.cell, rfl, rfl⟩
  refine ⟨s₁, h, pool, hs₁, hleases, ⟨hs₁.sound.pool.leases hleases, ?_, fun h' hh' => ?_⟩, ?_⟩
  · rw [List.map_append, hs₁.sound.leased, hleases.inUse]
    rfl
  · rcases List.mem_append.1 hh' with hh' | hh'
    · obtain ⟨c, hlive, hrefs⟩ := hs₁.sound.counts h' hh'
      have hne : h'.index ≠ h.index := fun he =>
        hs₁.sound.pool.not_mem_inUse_of_leases hleases (he ▸ hs₁.sound.pool.mem_inUse_of_live hlive)
      exact ⟨c, by rwa [Pool.live?, hleases.others _ hne], hrefs⟩
    · obtain rfl := List.mem_singleton.1 hh'
      exact ⟨_, hlive, rfl⟩
  · simp only [next, hreclaim, bind, Except.bind, hacquire, Pool.get?, hlive, Option.map_some,
      Option.getD_some, hs₁.size]
    rfl

/-! ### Runs -/

/-- What happens to a source and its buffers. At a reclaim it is told which buffers have a holder
besides the pool; whoever has a buffer may write to it. -/
inductive Op where
  | activate (held : ObjectId → Bool)
  | resize (size : Nat)
  | cleanup (held : ObjectId → Bool)
  | write (id : ObjectId) (octets : List UInt8)

/-- What the source tells. -/
inductive Answer where
  | handed (result : Except Violation ObjectRef)
  | cleaned (result : Except Violation PUnit)
  | silent

/-- One thing that happens. What is refused changes nothing. -/
def step : BufferSource × Heap → Op → Answer × BufferSource × Heap
  | (s, heap), .activate held =>
    match s.next held heap with
    | .ok (object, s, heap) => (.handed (.ok object), s, heap)
    | .error v => (.handed (.error v), s, heap)
  | (s, heap), .resize size => (.silent, { s with size }, heap)
  | (s, heap), .cleanup held =>
    match s.reclaim held with
    | .ok s => (.cleaned (.ok ()), s, heap)
    | .error v => (.cleaned (.error v), s, heap)
  | (s, heap), .write id octets => (.silent, s, heap.write id octets)

/-- What the history says is out. -/
structure Ledger where
  /-- The buffers that had a holder at each reclaim since they were handed out. -/
  out : List ObjectRef := []
  /-- The largest number of them at a reclaim. -/
  peak : Nat := 0

namespace Ledger

/-- The buffers that are still held, if those of `held` have a holder. -/
def still (l : Ledger) (held : ObjectId → Bool) : List ObjectRef := l.out.filter fun o => held o.id

/-- Only the buffers that are still held stay out. -/
def reclaim (l : Ledger) (held : ObjectId → Bool) : Ledger :=
  ⟨l.still held, max l.peak (l.still held).length⟩

/-- Notes what happened. -/
def note (l : Ledger) : Op × Answer → Ledger
  | (.activate held, .handed (.ok object)) =>
    { l.reclaim held with out := l.still held ++ [object] }
  | (.activate held, _) | (.cleanup held, _) => l.reclaim held
  | _ => l

end Ledger

/-- The buffers of the leased handles are those that the history says are out, no two cells have the
same buffer, and there is at most one more than were ever held. -/
structure Accounts (s : BufferSource) (heap : Heap) (l : Ledger) : Prop where
  sound : s.Sound
  out : s.leased.map s.pool.get? = l.out.map some
  distinct : (s.pool.items.map (·.id)).Nodup
  stored : ∀ o ∈ s.pool.items, heap.Stores o.id
  few : s.pool.size ≤ 1 + l.peak

/-- What is left on the list are the handles of the buffers that are still held. -/
theorem Reclaims.out {l : Ledger} (h : s.Reclaims held s')
    (hout : s.leased.map s.pool.get? = l.out.map some) :
    s'.leased.map s'.pool.get? = (l.still held).map some := by
  let asked (o : Option ObjectRef) : Bool := o.any fun object => held object.id
  have hasked : s.isHeld held = fun h => asked (s.pool.get? h) := by
    funext h
    rw [isHeld]
    cases s.pool.get? h <;> rfl
  calc s'.leased.map s'.pool.get?
      = s'.leased.map s.pool.get? :=
        List.map_congr_left fun h' hh' => by rw [Pool.get?, Pool.get?, h.live h' hh']
    _ = (s.leased.map s.pool.get?).filter asked := by
        rw [h.leased, hasked, List.filter_map]
        rfl
    _ = (l.still held).map some := by
        rw [hout, List.filter_map]
        rfl

namespace Accounts

variable {l : Ledger}

theorem reclaim (h : s.Accounts heap l) (hs' : s.Reclaims held s') :
    s'.Accounts heap (l.reclaim held) := by
  refine ⟨hs'.sound, hs'.out h.out, hs'.items ▸ h.distinct, hs'.items ▸ h.stored, ?_⟩
  have hsize : s'.pool.size = s.pool.size := by
    simpa [Pool.items, Pool.size] using congrArg List.length hs'.items
  rw [hsize]
  exact h.few.trans (Nat.add_le_add_left (le_max_left ..) 1)

/-- The buffer that is handed out is none of those still held. It is zeroed, and they keep their
octets. -/
theorem next (h : s.Accounts heap l) (held : ObjectId → Bool) :
    ∃ object s' heap', s.next held heap = .ok (object, s', heap') ∧
      s'.Accounts heap' { l.reclaim held with out := l.still held ++ [object] } ∧
      (∀ o ∈ l.still held, o.id ≠ object.id ∧ heap'.octets o.id = heap.octets o.id) ∧
      heap'.octets object.id = List.replicate s.size 0 := by
  obtain ⟨s₁, handle, pool, hreclaims, hleases, hsound, hnext⟩ := next_hands h.sound held heap
  have h₁ := h.reclaim hreclaims
  set object := s₁.pool.contentAt handle.index heap.fresh with hobject
  have hcell : pool.items[handle.index]? = some object := by
    rw [Pool.items, List.getElem?_map, hleases.cell]
    rfl
  have hitems := hleases.items hreclaims.sound.pool
  rw [← hobject] at hitems
  -- the buffer is one of the pool or a new one, and cells stay distinct
  have hnew : ¬heap.Stores heap.fresh.id := by
    rintro ⟨n, hn, hlt⟩
    cases hn
    exact absurd hlt (lt_irrefl _)
  have hstored : heap.Stores object.id ∨ object.id = heap.fresh.id := by
    rcases hitems with ⟨-, hmem⟩ | ⟨-, hfresh, -⟩
    · exact .inl (h₁.stored _ (List.mem_of_getElem? hmem))
    · exact .inr (congrArg ObjectRef.id hfresh)
  obtain ⟨hzero, hstores⟩ := Heap.octets_write_self hstored (List.replicate s.size 0)
  have hdistinct : (pool.items.map (·.id)).Nodup := by
    rcases hitems with ⟨hsame, -⟩ | ⟨hadded, -⟩
    · rw [hsame]
      exact h₁.distinct
    · rw [hadded, List.map_append, List.nodup_append]
      refine ⟨h₁.distinct, List.nodup_singleton _, fun id hid id' hid' heq => hnew ?_⟩
      obtain ⟨o, ho, rfl⟩ := List.mem_map.1 hid
      have hid' : id' = heap.fresh.id := List.mem_singleton.1 hid'
      rw [← hid', ← heq]
      exact h₁.stored o ho
  -- what is still held is in other cells
  have hne : ∀ h' ∈ s₁.leased, h'.index ≠ handle.index := fun h' hh' he =>
    hreclaims.sound.pool.not_mem_inUse_of_leases hleases
      (he ▸ hreclaims.sound.leased ▸ List.mem_map_of_mem hh')
  have hget : ∀ h' ∈ s₁.leased, pool.get? h' = s₁.pool.get? h' := fun h' hh' => by
    rw [Pool.get?, Pool.get?, Pool.live?, Pool.live?, hleases.others _ (hne h' hh')]
  have hothers : ∀ o ∈ l.still held, o.id ≠ object.id ∧ heap.Stores o.id := by
    intro o ho
    obtain ⟨h', hh', hget'⟩ := List.mem_map.1 ((hreclaims.out h.out).symm ▸ List.mem_map_of_mem ho)
    obtain ⟨c, hlive, rfl⟩ := Option.map_eq_some_iff.1 hget'
    have hcell' := (Pool.live?_eq_some.1 hlive).1
    have hitem : pool.items[h'.index]? = some c.item := by
      rw [Pool.items, List.getElem?_map, hleases.others _ (hne h' hh'), hcell']
      rfl
    refine ⟨fun heq => hne h' hh' ((List.getElem?_inj ?_ hdistinct).1 ?_),
      h₁.stored _ (List.mem_map_of_mem (List.mem_of_getElem? hcell'))⟩
    · rw [List.length_map]
      exact (List.getElem?_eq_some_iff.1 hitem).1
    · rw [List.getElem?_map, List.getElem?_map, hitem, hcell, Option.map_some, Option.map_some, heq]
  refine ⟨object, _, _, hnext, ⟨hsound, ?_, hdistinct, fun o ho => ?_, ?_⟩, fun o ho => ?_, hzero⟩
  · have hlive := Pool.live?_eq_some.2 ⟨hleases.cell, rfl, rfl⟩
    rw [List.map_append, List.map_append, List.map_congr_left hget, hreclaims.out h.out]
    simp [Pool.get?, hlive, hobject]
  · rcases hitems with ⟨hsame, -⟩ | ⟨hadded, hfresh, -⟩
    · exact (h₁.stored o (hsame ▸ ho)).write _ _
    · rcases List.mem_append.1 (hadded ▸ ho) with ho | ho
      · exact (h₁.stored o ho).write _ _
      · rwa [List.mem_singleton.1 ho, ← hfresh]
  · -- a cell is added only when all are in use, that is by buffers that are still held
    rcases hitems with ⟨hsame, -⟩ | ⟨hadded, -, hfull⟩
    · have hsize : pool.size = s₁.pool.size := by
        simpa [Pool.items, Pool.size] using congrArg List.length hsame
      exact hsize ▸ h₁.few
    · have hsize : pool.size = s₁.pool.size + 1 := by
        simpa [Pool.items, Pool.size] using congrArg List.length hadded
      have hstill : s₁.pool.size = (l.still held).length := by
        rw [Pool.size, hfull, ← hreclaims.sound.leased]
        simpa using congrArg List.length (hreclaims.out h.out)
      have hpeak : (l.still held).length ≤ (l.reclaim held).peak := le_max_right ..
      change pool.size ≤ 1 + (l.reclaim held).peak
      omega
  · exact ⟨(hothers o ho).1, Heap.octets_write_of_ne (hothers o ho).2 (hothers o ho).1 _⟩

/-- Whatever happens, the list stays that of the history. -/
theorem step (h : s.Accounts heap l) (op : Op) :
    (step (s, heap) op).2.1.Accounts (step (s, heap) op).2.2 (l.note (op, (step (s, heap) op).1)) := by
  cases op with
  | activate held =>
    obtain ⟨object, s', heap', hnext, hs', -⟩ := h.next held
    simp only [BufferSource.step, hnext]
    exact hs'
  | resize size => exact ⟨⟨h.sound.pool, h.sound.leased, h.sound.counts⟩, h.out, h.distinct, h.stored, h.few⟩
  | cleanup held =>
    obtain ⟨s', hreclaim, hs'⟩ := reclaim_reclaims h.sound held
    simp only [BufferSource.step, hreclaim]
    exact h.reclaim hs'
  | write id octets => exact ⟨h.sound, h.out, h.distinct, fun o ho => (h.stored o ho).write _ _, h.few⟩

theorem run (h : s.Accounts heap l) (ops : List Op) :
    let run := runAll BufferSource.step ops (s, heap)
    run.2.1.Accounts run.2.2 ((ops.zip run.1).foldl Ledger.note l) := by
  induction ops generalizing s heap l with
  | nil => exact h
  | cons op ops ih => exact ih (h.step op)

end Accounts

/-- A source never hands out a buffer that somebody still holds. Take a new source, whatever is in the
heap, and let it be activated, resized and cleaned up, and its buffers be written to, with any holders
at each reclaim. Then the leased handles are those of the items in use, in order, and of the buffers
that have had a holder ever since they were handed out; the pool has at most one item more than there
were such buffers at any reclaim. The next reclaim is not refused. Nor is the next activation: its
buffer has as many zero octets as asked for, is none of those still held, and they keep their
octets. -/
theorem lends_unheld (size : Nat) (heap : Heap) (ops : List Op) :
    let run := runAll step ops ({ size }, heap)
    let s := run.2.1
    let l := (ops.zip run.1).foldl Ledger.note {}
    s.leased.map (·.index) = s.pool.inUse ∧ s.leased.map s.pool.get? = l.out.map some ∧
      s.pool.size ≤ 1 + l.peak ∧ ∀ held, (∃ s', s.reclaim held = .ok s') ∧
        ∃ object s' heap', s.next held run.2.2 = .ok (object, s', heap') ∧
          (∀ o ∈ l.still held, o.id ≠ object.id ∧ heap'.octets o.id = run.2.2.octets o.id) ∧
          heap'.octets object.id = List.replicate s.size 0 := by
  intro run s l
  have hnew : Accounts { size } heap {} :=
    ⟨sound_new size, rfl, List.nodup_nil, fun o ho => absurd ho List.not_mem_nil, Nat.zero_le _⟩
  have h : s.Accounts run.2.2 l := hnew.run ops
  refine ⟨h.sound.leased, h.out, h.few, fun held => ⟨?_, ?_⟩⟩
  · obtain ⟨s', hreclaim, -⟩ := reclaim_reclaims h.sound held
    exact ⟨s', hreclaim⟩
  · obtain ⟨object, s', heap', hnext, -, hothers, hzero⟩ := h.next held
    exact ⟨object, s', heap', hnext, hothers, hzero⟩

/-- Of two buffers the first one is kept, and the second is handed out again. -/
example : (runAll step [.activate fun _ => false, .activate (· == .buffer 0),
      .write (.buffer 0) [7], .activate (· == .buffer 0)] ({ size := 2 }, {})).2.2.blocks =
    #[[7], [0, 0]] := by
  decide +kernel

end BufferSource

end Dataflow
