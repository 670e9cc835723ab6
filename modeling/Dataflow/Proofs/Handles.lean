import Dataflow.Proofs.Leases
/-!
# Handles of a pool never alias

The cells of a pool are leased again and again, with what is in them. A handle is told apart from
those of other leases of its cell by a generation, which is a 32-bit number and wraps. As long as no
cell was taken back `2 ^ 32` times, it counts how often that happened. Handles are then pairwise
different, and each reaches the item of its own lease, from the moment it is handed out until the
item is taken back.
-/

namespace Dataflow.Pool

variable {α : Type} {p q : Pool α} {h h' : PoolHandle} {i : Nat} {f : PoolCell α → PoolCell α}

/-! ### Generations -/

/-- Whether an operation takes the item of a cell back. -/
def takesBack (p : Pool α) (i : Nat) : Op α → Bool
  | .recycle => decide (i ∈ p.returning)
  | _ => false

/-- How often operations take the item of a cell back, from a pool on. -/
def turnsFrom (i : Nat) : List (Op α) → Pool α → Nat
  | [], _ => 0
  | op :: ops, p => (if p.takesBack i op then 1 else 0) + turnsFrom i ops (p.step op).2

/-- How often the item of a cell is taken back along operations on a new pool. -/
def turns (i : Nat) (ops : List (Op α)) : Nat := turnsFrom i ops {}

theorem turns_concat (i : Nat) (ops : List (Op α)) (op : Op α) :
    turns i (ops ++ [op]) = turns i ops + if (after ops).takesBack i op then 1 else 0 := by
  rw [turns, turns, after]
  generalize ({} : Pool α) = p
  induction ops generalizing p with
  | nil => exact Nat.add_comm _ _
  | cons first ops ih => rw [List.cons_append, turnsFrom, ih, turnsFrom, runAll_cons, Nat.add_assoc]

theorem turns_le_length (i : Nat) (ops : List (Op α)) : turns i ops ≤ ops.length := by
  rw [turns]
  generalize ({} : Pool α) = p
  induction ops generalizing p with
  | nil => exact Nat.le_refl 0
  | cons op ops ih =>
    have := ih (p.step op).2
    rw [turnsFrom, List.length_cons]
    split <;> omega

/-- The generation of a cell. One that does not exist yet has none behind it. -/
def generationAt (p : Pool α) (i : Nat) : Nat :=
  ((p.cells[i]?.map PoolCell.generation).getD 0).toNat

theorem generationAt_of_leases {create : α} (hq : p.Leases create h q) (i : Nat) :
    q.generationAt i = p.generationAt i := by
  by_cases hi : i = h.index
  · subst hi
    rw [generationAt, generationAt, hq.generation, hq.cell]
    rfl
  · rw [generationAt, generationAt, hq.others i hi]

theorem generationAt_modifyCell (hf : ∀ c, (f c).generation = c.generation) (j : Nat) :
    (p.modifyCell i f).generationAt j = p.generationAt j := by
  rw [generationAt, generationAt, getElem?_modifyCell]
  split
  · cases p.cells[j]? <;> simp [hf]
  · rfl

theorem generationAt_recycle (hp : p.Sound)
    (hroom : i ∈ p.returning → p.generationAt i + 1 < 2 ^ 32) :
    p.recycle.2.generationAt i = p.generationAt i + if i ∈ p.returning then 1 else 0 := by
  rw [generationAt, generationAt, recycle_cells hp]
  split
  · rename_i hi
    obtain ⟨c, hc, -⟩ := hp.cell_of_mem_inUse (List.mem_of_mem_filter hi)
    have hroom := hroom hi
    simp only [generationAt, hc, Option.map_some, Option.getD_some] at hroom ⊢
    rw [UInt32.toNat_add]
    exact Nat.mod_eq_of_lt hroom
  · rfl

theorem modifyCell_self (p : Pool α) (i : Nat) :
    (p.modifyCell i fun c => { c with refs := id c.refs }) = p := by
  rw [modifyCell]
  congr
  exact List.modify_id i p.cells

/-- Adding a reference changes a count at most. -/
theorem step_retain_counts (p : Pool α) (h : PoolHandle) :
    ∃ g : Nat → Nat, (p.step (.retain h)).2 =
      p.modifyCell h.index fun c => { c with refs := g c.refs } := by
  cases hlive : p.live? h with
  | none =>
    obtain ⟨v, hv⟩ := step_retain_of_stale hlive
    exact ⟨id, by rw [hv, modifyCell_self]⟩
  | some c => exact ⟨(· + 1), by rw [step_retain_of_live hlive]⟩

/-- Dropping a reference changes a count at most. -/
theorem step_release_counts (p : Pool α) (h : PoolHandle) :
    ∃ g : Nat → Nat, (p.step (.release h)).2 =
      p.modifyCell h.index fun c => { c with refs := g c.refs } := by
  cases hrelease : p.release h with
  | error v => exact ⟨id, by rw [step_release_of_error hrelease, modifyCell_self]⟩
  | ok q =>
    refine ⟨(· - 1), ?_⟩
    rw [step_release_of_ok hrelease]
    cases hlive : p.live? h with
    | none => simp [release_of_stale hlive] at hrelease
    | some c =>
      rw [release_of_live hlive] at hrelease
      split at hrelease
      · cases hrelease
      · exact (Except.ok.inj hrelease).symm

/-- The generation of a cell counts how often its item was taken back. -/
theorem generationAt_step (hp : p.Sound) (op : Op α)
    (hroom : p.takesBack i op = true → p.generationAt i + 1 < 2 ^ 32) :
    (p.step op).2.generationAt i = p.generationAt i + if p.takesBack i op then 1 else 0 := by
  cases op with
  | acquire create =>
    obtain ⟨h, q, hacquire, hq⟩ := acquire_leases hp create
    rw [step_acquire hacquire]
    exact generationAt_of_leases hq i
  | edit h f =>
    cases hlive : p.live? h with
    | none =>
      rw [step_edit_of_stale hlive]
      rfl
    | some c =>
      rw [step_edit_of_live hlive]
      exact generationAt_modifyCell (fun _ => by rfl) i
  | retain h =>
    obtain ⟨g, hg⟩ := p.step_retain_counts h
    rw [hg]
    exact generationAt_modifyCell (fun _ => by rfl) i
  | release h =>
    obtain ⟨g, hg⟩ := p.step_release_counts h
    rw [hg]
    exact generationAt_modifyCell (fun _ => by rfl) i
  | recycle =>
    simp only [takesBack, decide_eq_true_eq] at hroom ⊢
    exact generationAt_recycle hp hroom

theorem sound_after (ops : List (Op α)) : (after ops).Sound := (booked_after ops).sound

theorem generationAt_after (i : Nat) {ops : List (Op α)} (hturns : turns i ops < 2 ^ 32) :
    (after ops).generationAt i = turns i ops := by
  induction ops using List.reverseRecOn with
  | nil => rfl
  | append_singleton ops op ih =>
    rw [turns_concat] at hturns
    have hbefore := ih (Nat.lt_of_le_of_lt (Nat.le_add_right _ _) hturns)
    rw [after_concat, turns_concat, generationAt_step (sound_after ops) op, hbefore]
    intro hback
    rwa [if_pos hback, ← hbefore] at hturns

/-! ### Handles -/

/-- The handle that an answer hands out. -/
def Answer.handle? : Answer → Option PoolHandle
  | acquired (.ok h) => some h
  | _ => none

theorem handle?_counted (p : Pool α) (result : Except Violation (Pool α)) :
    (p.counted result).1.handle? = none := by
  cases result <;> rfl

/-- The handles that were handed out along operations on a new pool, oldest first. -/
def handed (ops : List (Op α)) : List PoolHandle :=
  (runAll step ops {}).1.filterMap Answer.handle?

theorem handed_concat (ops : List (Op α)) (op : Op α) :
    handed (ops ++ [op]) = handed ops ++ ((after ops).step op).1.handle?.toList := by
  rw [handed, runAll_concat, List.filterMap_append, handed, after]
  cases hhandle : (step (runAll step ops {}).2 op).1.handle? <;> simp [hhandle]

/-- The handles that were handed out are pairwise different. Each is of a cell that exists, and of a
generation that has come; if the cell is free, of one that is over. -/
structure Distinct (p : Pool α) (handles : List PoolHandle) : Prop where
  nodup : handles.Nodup
  known : ∀ h ∈ handles, h.index < p.cells.length
  begun : ∀ h ∈ handles, h.generation.toNat ≤ p.generationAt h.index
  ended : ∀ h ∈ handles, h.index ∈ p.free → h.generation.toNat < p.generationAt h.index

namespace Distinct

variable {handles : List PoolHandle}

/-- A new handle is of a later generation than the others of its cell. -/
theorem leases (hd : p.Distinct handles) {create : α} (hp : p.Sound) (hq : p.Leases create h q) :
    q.Distinct (handles ++ [h]) := by
  have hgeneration : h.generation.toNat = p.generationAt h.index := by
    rw [generationAt, hq.generation]
  have hlength : p.cells.length ≤ q.cells.length ∧ h.index < q.cells.length := by
    refine ⟨?_, (List.getElem?_eq_some_iff.1 hq.cell).1⟩
    rcases hq.taken with ⟨-, hlength⟩ | ⟨-, -, -, hlength⟩ <;> omega
  have hnew : ∀ h' ∈ handles, h' ≠ h := by
    rintro h' hh' rfl
    rcases hq.taken with ⟨hfree, -⟩ | ⟨-, -, hlast, -⟩
    · have := hd.ended h' hh' (by simp [hfree])
      omega
    · have := hd.known h' hh'
      omega
  have hfree : ∀ i ∈ q.free, i ∈ p.free := by
    intro i hi
    rcases hq.taken with ⟨hfree, -⟩ | ⟨-, hfree, -⟩
    · simp [hfree, hi]
    · simp [hfree] at hi
  have hbusy : h.index ∉ q.free := by
    intro hi
    obtain ⟨c, hc, hleased, -⟩ := (hp.leases hq).cell_of_mem_free hi
    cases hq.cell.symm.trans hc
    cases hleased
  refine ⟨hd.nodup.append (List.nodup_singleton h) ?_, fun h' hh' => ?_, fun h' hh' => ?_,
    fun h' hh' hi => ?_⟩
  · simpa using fun hh => hnew h hh rfl
  all_goals rcases List.mem_append.1 hh' with hh' | hh'
  · exact Nat.lt_of_lt_of_le (hd.known h' hh') hlength.1
  · rw [List.mem_singleton.1 hh']
    exact hlength.2
  · rw [generationAt_of_leases hq]
    exact hd.begun h' hh'
  · rw [List.mem_singleton.1 hh', generationAt_of_leases hq]
    exact hgeneration.le
  · rw [generationAt_of_leases hq]
    exact hd.ended h' hh' (hfree _ hi)
  · rw [List.mem_singleton.1 hh'] at hi
    exact absurd hi hbusy

/-- Changes to one cell that keep its generation. -/
theorem modifyCell (hd : p.Distinct handles) (hf : ∀ c, (f c).generation = c.generation) :
    (p.modifyCell i f).Distinct handles := by
  refine ⟨hd.nodup, fun h hh => ?_, fun h hh => ?_, fun h hh hi => ?_⟩
  · simpa [Pool.modifyCell] using hd.known h hh
  · rw [generationAt_modifyCell hf]
    exact hd.begun h hh
  · rw [generationAt_modifyCell hf]
    exact hd.ended h hh hi

/-- The handles of what is taken back are of a generation that is over then. -/
theorem recycle (hd : p.Distinct handles) (hp : p.Sound)
    (hroom : ∀ i ∈ p.returning, p.generationAt i + 1 < 2 ^ 32) :
    p.recycle.2.Distinct handles := by
  refine ⟨hd.nodup, fun h hh => ?_, fun h hh => ?_, fun h hh hi => ?_⟩
  · rw [show p.recycle.2.cells.length = p.cells.length from length_foldl_modify _ _ _]
    exact hd.known h hh
  all_goals
    rw [generationAt_recycle hp (hroom _)]
    have hbegun := hd.begun h hh
  · omega
  · split
    · omega
    · rename_i hback
      rw [p.recycle_eq.2.1, List.mem_append] at hi
      exact hd.ended h hh (hi.resolve_right hback)

theorem step (hd : p.Distinct handles) (hp : p.Sound) (op : Op α)
    (hroom : ∀ i, p.takesBack i op = true → p.generationAt i + 1 < 2 ^ 32) :
    (p.step op).2.Distinct (handles ++ (p.step op).1.handle?.toList) := by
  cases op with
  | acquire create =>
    obtain ⟨h, q, hacquire, hq⟩ := acquire_leases hp create
    rw [step_acquire hacquire]
    exact hd.leases hp hq
  | edit h f =>
    cases hlive : p.live? h with
    | none =>
      rw [step_edit_of_stale hlive]
      simpa [Answer.handle?] using hd
    | some c =>
      rw [step_edit_of_live hlive]
      simpa [Answer.handle?] using hd.modifyCell fun _ => by rfl
  | retain h =>
    obtain ⟨g, hg⟩ := p.step_retain_counts h
    rw [hg, show (p.step (.retain h)).1.handle? = none from handle?_counted p _, Option.toList_none,
      List.append_nil]
    exact hd.modifyCell fun _ => rfl
  | release h =>
    obtain ⟨g, hg⟩ := p.step_release_counts h
    rw [hg, show (p.step (.release h)).1.handle? = none from handle?_counted p _, Option.toList_none,
      List.append_nil]
    exact hd.modifyCell fun _ => rfl
  | recycle =>
    have h := hd.recycle hp fun i hi => hroom i (by simpa [takesBack] using hi)
    simpa [Pool.step, Answer.handle?] using h

end Distinct

theorem distinct_after {ops : List (Op α)} (hturns : ∀ i, turns i ops < 2 ^ 32) :
    (after ops).Distinct (handed ops) := by
  induction ops using List.reverseRecOn with
  | nil => exact ⟨.nil, by simp [handed, runAll], by simp [handed, runAll], by simp [handed, runAll]⟩
  | append_singleton ops op ih =>
    have hbefore : ∀ i, turns i ops < 2 ^ 32 := fun i =>
      Nat.lt_of_le_of_lt (by rw [turns_concat]; exact Nat.le_add_right _ _) (hturns i)
    rw [after_concat, handed_concat]
    refine (ih hbefore).step (sound_after ops) op fun i hback => ?_
    rw [generationAt_after i (hbefore i)]
    simpa [turns_concat, hback] using hturns i

/-! ### Through a handle -/

theorem get?_eq (p : Pool α) (h : PoolHandle) : p.get? h = p.cells[h.index]?.bind fun c =>
    if c.generation = h.generation ∧ c.leased = true then some c.item else none := by
  rw [get?, live?]
  cases p.cells[h.index]? with
  | none => rfl
  | some c => by_cases hg : c.generation = h.generation <;> cases hl : c.leased <;> simp [hg, hl]

/-- Different handles of one cell are of different generations. -/
theorem generation_ne (hne : h ≠ h') (hi : h.index = h'.index) : h.generation ≠ h'.generation := by
  obtain ⟨i, g⟩ := h
  obtain ⟨i', g'⟩ := h'
  rintro (rfl : g = g')
  exact hne (congrArg (PoolHandle.mk · g) hi)

/-- A new handle reaches what was in its cell. -/
theorem get?_leased {create : α} (hq : p.Leases create h q) :
    q.get? h = some (p.contentAt h.index create) := by
  simp [get?_eq, hq.cell]

/-- A new lease changes nothing for other handles, be they of the same cell. -/
theorem get?_of_leases (hp : p.Sound) {create : α} (hq : p.Leases create h q) (hne : h ≠ h') :
    q.get? h' = p.get? h' := by
  by_cases hi : h'.index = h.index
  · have hgeneration := generation_ne hne hi.symm
    rw [get?_eq, hi, hq.cell, get?_eq_none_iff.2]
    · simp [hgeneration]
    · -- before the lease the cell was not in use
      refine Option.eq_none_iff_forall_ne_some.2 fun c hc => hp.not_mem_inUse_of_leases hq ?_
      rw [← hi]
      exact hp.mem_inUse_of_live hc
  · rw [get?_eq, get?_eq, hq.others _ hi]

theorem get?_modifyCell (h : PoolHandle)
    (hf : ∀ c, (f c).item = c.item ∧ (f c).generation = c.generation ∧ (f c).leased = c.leased) :
    (p.modifyCell i f).get? h = p.get? h := by
  rw [get?_eq, get?_eq, getElem?_modifyCell]
  split
  · cases p.cells[h.index]? <;> simp [hf]
  · rfl

/-- A change through a handle is seen through that handle only. -/
theorem get?_edit (p : Pool α) (h h' : PoolHandle) (f : α → α) :
    (p.step (.edit h' f)).2.get? h = if h' = h then (p.get? h).map f else p.get? h := by
  cases hlive : p.live? h' with
  | none =>
    rw [step_edit_of_stale hlive]
    split
    · rename_i heq
      rw [← heq, get?_eq_none_iff.2 hlive]
      rfl
    · rfl
  | some c =>
    obtain ⟨hc, hgeneration, hleased⟩ := live?_eq_some.1 hlive
    rw [step_edit_of_live hlive, get?_eq, getElem?_modifyCell]
    by_cases heq : h' = h
    · subst heq
      simp [get?_eq, hc, hgeneration, hleased]
    · rw [if_neg heq, get?_eq]
      split
      · rename_i hi
        have hother := generation_ne heq hi
        rw [hi] at hc
        simp [hc, hgeneration, hother]
      · rfl

/-- Recycling ends a handle if and only if its item has no references. -/
theorem get?_recycle (hp : p.Sound) (h : PoolHandle) :
    p.recycle.2.get? h = if p.refs? h = some 0 then none else p.get? h := by
  rw [get?_eq, recycle_cells hp]
  cases hlive : p.live? h with
  | none =>
    -- a handle that is stale stays so
    rw [get?_eq_none_iff.2 hlive, ite_self]
    split
    · cases p.cells[h.index]? <;> simp
    · rw [← get?_eq, get?_eq_none_iff.2 hlive]
  | some c =>
    have hc := (live?_eq_some.1 hlive).1
    have hone := hp.one_le_refs hc
    have hback : h.index ∈ p.returning ↔ p.refs? h = some 0 := by
      rw [mem_returning hc, refs?, hlive]
      simp only [hp.mem_inUse_of_live hlive, true_and, Option.map_some, Option.some.injEq]
      omega
    simp only [hback]
    split
    · simp [hc]
    · rw [← get?_eq]

/-- The change that an operation makes through a handle. -/
def Op.change (h : PoolHandle) : Op α → α → α
  | edit h' f => if h' = h then f else id
  | _ => id

/-- What one operation that does not hand out the handle does to what the handle reaches. -/
theorem get?_step (hp : p.Sound) (op : Op α) (hh : (p.step op).1.handle? ≠ some h) (x : α) :
    (p.step op).2.get? h = some x ↔
      (op = .recycle → p.refs? h ≠ some 0) ∧ ∃ y, p.get? h = some y ∧ op.change h y = x := by
  cases op with
  | acquire create =>
    obtain ⟨h', q, hacquire, hq⟩ := acquire_leases hp create
    rw [step_acquire hacquire] at hh ⊢
    rw [get?_of_leases hp hq fun heq => hh (congrArg some heq)]
    simp [Op.change]
  | edit h' f =>
    rw [get?_edit]
    by_cases heq : h' = h <;> simp [Op.change, heq]
  | retain h' =>
    obtain ⟨g, hg⟩ := p.step_retain_counts h'
    rw [hg, get?_modifyCell h fun _ => by exact ⟨rfl, rfl, rfl⟩]
    simp [Op.change]
  | release h' =>
    obtain ⟨g, hg⟩ := p.step_release_counts h'
    rw [hg, get?_modifyCell h fun _ => by exact ⟨rfl, rfl, rfl⟩]
    simp [Op.change]
  | recycle =>
    rw [show (p.step .recycle).2 = p.recycle.2 from rfl, get?_recycle hp]
    by_cases hzero : p.refs? h = some 0 <;> simp [Op.change, hzero]

/-! ### The life of a handle -/

/-- Between `before` and now, that is among `since`, no recycling found the item of the handle without
references. -/
def Unreturned (h : PoolHandle) (before since : List (Op α)) : Prop :=
  ∀ mid rest, since = mid ++ .recycle :: rest → (after (before ++ mid)).refs? h ≠ some 0

/-- What the changes through a handle make of an item. -/
def edited (h : PoolHandle) (since : List (Op α)) (item : α) : α :=
  since.foldl (fun item op => op.change h item) item

theorem unreturned_concat {before since : List (Op α)} {op : Op α} :
    Unreturned h before (since ++ [op]) ↔
      Unreturned h before since ∧ (op = .recycle → (after (before ++ since)).refs? h ≠ some 0) := by
  constructor
  · refine fun hall => ⟨fun mid rest hmid => hall mid (rest ++ [op]) (by simp [hmid]), ?_⟩
    rintro rfl
    exact hall since [] rfl
  · rintro ⟨hsince, hlast⟩ mid rest hmid
    rcases List.eq_nil_or_concat rest with rfl | ⟨rest, last, rfl⟩
    · obtain ⟨rfl, hop⟩ := List.append_inj' hmid rfl
      exact hlast (List.singleton_inj.1 hop)
    · rw [List.concat_eq_append, ← List.cons_append, ← List.append_assoc] at hmid
      exact hsince mid rest (List.append_inj' hmid rfl).1

theorem edited_concat (h : PoolHandle) (since : List (Op α)) (op : Op α) (item : α) :
    edited h (since ++ [op]) item = op.change h (edited h since item) := by
  simp [edited]

theorem handed_subset (ops later : List (Op α)) : handed ops ⊆ handed (ops ++ later) := by
  induction later using List.reverseRecOn with
  | nil => simp
  | append_singleton later op ih =>
    rw [← List.append_assoc, handed_concat]
    exact fun h hh => List.mem_append_left _ (ih hh)

theorem get?_of_not_handed {ops : List (Op α)} (hh : h ∉ handed ops) :
    (after ops).get? h = none := by
  induction ops using List.reverseRecOn with
  | nil => rfl
  | append_singleton ops op ih =>
    rw [handed_concat, List.mem_append, not_or] at hh
    have hother : ((after ops).step op).1.handle? ≠ some h := fun heq => hh.2 (by simp [heq])
    refine Option.eq_none_iff_forall_ne_some.2 fun x hx => ?_
    rw [after_concat, get?_step (sound_after ops) op hother, ih hh.1] at hx
    simp at hx

/-- What a handle reaches, from its lease on. -/
theorem get?_since {before : List (Op α)} {create : α}
    (hh : ((after before).acquire create).1 = .ok h) (since : List (Op α))
    (hnodup : (handed (before ++ [.acquire create] ++ since)).Nodup) (x : α) :
    (after (before ++ [.acquire create] ++ since)).get? h = some x ↔
      Unreturned h (before ++ [.acquire create]) since ∧
        edited h since ((after before).contentAt h.index create) = x := by
  obtain ⟨_, q, hacquire, hq⟩ := acquire_leases (sound_after before) create
  rw [hacquire] at hh
  cases hh
  have hlease := step_acquire hacquire
  induction since using List.reverseRecOn generalizing x with
  | nil =>
    rw [List.append_nil, after_concat, hlease, get?_leased hq]
    simp [Unreturned, edited]
  | append_singleton since op ih =>
    rw [← List.append_assoc, handed_concat] at hnodup
    have hmem : h ∈ handed (before ++ [.acquire create] ++ since) := by
      refine handed_subset _ since ?_
      rw [handed_concat, hlease]
      simp [Answer.handle?]
    have hother : ((after (before ++ [.acquire create] ++ since)).step op).1.handle? ≠ some h :=
      fun heq => (List.nodup_append.1 hnodup).2.2 h hmem h (Option.mem_toList.2 heq) rfl
    rw [← List.append_assoc, after_concat, get?_step (sound_after _) op hother, unreturned_concat,
      edited_concat]
    simp only [ih (List.nodup_append.1 hnodup).1]
    constructor
    · rintro ⟨hback, y, ⟨hsince, rfl⟩, rfl⟩
      exact ⟨⟨hsince, hback⟩, rfl⟩
    · rintro ⟨⟨hsince, hback⟩, rfl⟩
      exact ⟨hback, _, ⟨hsince, rfl⟩, rfl⟩

/-- Handles never alias. Take any operations on a new pool that take back no cell `2 ^ 32` times. All
handles that they hand out are different. Through a handle that was not handed out nothing is
reached. Through one that was, an item is reached if and only if no recycling since then found it
without references, and the item is what was in the cell, or else was made, when the handle was
handed out, with the changes that were made since through that very handle. -/
theorem handles_never_alias (ops : List (Op α)) (hturns : ∀ i, turns i ops < 2 ^ 32) :
    (handed ops).Nodup ∧
      (∀ h, h ∉ handed ops → (after ops).get? h = none) ∧
      ∀ before create since h, ops = before ++ [.acquire create] ++ since →
        ((after before).acquire create).1 = .ok h → ∀ x,
          ((after ops).get? h = some x ↔
            Unreturned h (before ++ [.acquire create]) since ∧
              edited h since ((after before).contentAt h.index create) = x) := by
  have hnodup := (distinct_after hturns).nodup
  refine ⟨hnodup, fun h hh => get?_of_not_handed hh, ?_⟩
  rintro before create since h rfl hh x
  exact get?_since hh since hnodup x

/-- An item is changed, given back and leased again under a new handle; changes through the old one
are lost. -/
def relending : List (Op Nat) :=
  [.acquire 1, .edit ⟨0, 0⟩ (· + 10), .release ⟨0, 0⟩, .recycle, .acquire 2, .edit ⟨0, 0⟩ (· + 100),
    .edit ⟨0, 1⟩ (· + 1000)]

theorem relending_never_aliases : (∀ i, turns i relending < 2 ^ 32) ∧
    (handed relending).Nodup ∧ (after relending).get? ⟨0, 1⟩ = some 1011 ∧
    Unreturned ⟨0, 1⟩ (relending.take 5) (relending.drop 5) := by
  have hturns : ∀ i, turns i relending < 2 ^ 32 := fun i =>
    Nat.lt_of_le_of_lt (turns_le_length i relending) (by decide)
  have hget : (after relending).get? ⟨0, 1⟩ = some 1011 := by decide
  obtain ⟨hnodup, -, hlife⟩ := handles_never_alias relending hturns
  have hlive := (hlife (relending.take 4) 2 (relending.drop 5) ⟨0, 1⟩ rfl (by decide) 1011).1 hget
  exact ⟨hturns, hnodup, hget, hlive.1⟩

end Dataflow.Pool
