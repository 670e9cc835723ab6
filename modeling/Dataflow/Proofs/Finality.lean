import Dataflow.Proofs.Operations
/-!
# Results are final

A run that is over stays as it is: neither its state nor its result changes, whatever is done with
the mesh and its wires afterwards. There is one exception. A stage that runs a wire starts that wire
on the record that the wire has, so a wire that was scheduled and is then run inside another one
writes over the record of its last run, unless a run of its own was begun in between.
-/

namespace Dataflow

variable {H : Host} {f : Wire H → Wire H} {r : Id .run} {g : RunRecord → RunRecord} {m : Mesh}
  {i j : Id .wire} {w wi : Wire H} {s s' : Store H} {h : Mesh.Handle}
  {result : Option Outcome} {input : Value}

/-! ### Records and their wires -/

namespace Store

/-- Every wire has a record of its own, and a wire whose run is over is idle. -/
structure Coherent (s : Store H) : Prop where
  known : ∀ {j : Id .wire} {w : Wire H}, s.wires.get? j = some w → w.run.row < s.runs.size
  own : ∀ {j k : Id .wire} {w w' : Wire H}, s.wires.get? j = some w → s.wires.get? k = some w' →
    w.run = w'.run → j = k
  idle : ∀ {j : Id .wire} {w : Wire H}, s.wires.get? j = some w →
    (s.run w.run).state.isTerminal = true → w.cursor = .idle

/-- The record of a run is there, and no wire has it but the one that was scheduled. -/
structure Issued (h : Mesh.Handle) (s : Store H) : Prop where
  known : h.run.row < s.runs.size
  own : ∀ {j : Id .wire} {w : Wire H}, s.wires.get? j = some w → w.run = h.run → j = h.wire

/-- A run is over with this record, and its wire is idle if it still has the record. No wire of `T`
has it. -/
structure AtRest (h : Mesh.Handle) (state : RunState) (result : Option Outcome)
    (T : Set (Id .wire)) (s : Store H) : Prop where
  known : h.run.row < s.runs.size
  state : (s.run h.run).state = state
  result : (s.run h.run).result = result
  idle : ∀ {j : Id .wire} {w : Wire H}, s.wires.get? j = some w → w.run = h.run →
    w.midRun = false
  apart : ∀ {j : Id .wire} {w : Wire H}, j ∈ T → s.wires.get? j = some w → w.run ≠ h.run

variable {T : Set (Id .wire)}

theorem run_modifyRun_of_ne (s : Store H) {r' : Id .run} (hne : r ≠ r')
    (f : RunRecord → RunRecord) : (s.modifyRun r f).run r' = s.run r' := by
  rw [run, run, modifyRun, Table.get?_modify_of_ne _ hne]

/-- Changing records otherwise leaves the state and the result of a run alone. -/
theorem run_stop (s : Store H) (r r' : Id .run) :
    ((s.modifyRun r fun r => { r with stopRequested := true }).run r').state = (s.run r').state ∧
      ((s.modifyRun r fun r => { r with stopRequested := true }).run r').result =
        (s.run r').result := by
  by_cases hne : r = r'
  · subst hne
    rw [run, run, modifyRun, Table.get?_modify_self]
    cases s.runs.get? r <;> exact ⟨rfl, rfl⟩
  · rw [run_modifyRun_of_ne _ hne]
    exact ⟨rfl, rfl⟩

theorem run_readied (s : Store H) (i : Id .wire) (parent : Option (Id .scope))
    (hr : r.row < s.runs.size) : (s.readied i parent).2.run r = s.run r := by
  rw [run, run]
  exact congrArg (Option.getD · {}) (Table.get?_push_of_lt s.runs {} hr)

/-- A wire that begins a run has a new record, and all other wires have the records they had. -/
theorem get?_readied {parent : Option (Id .scope)}
    (hw : (s.readied i parent).2.wires.get? j = some w) :
    ∃ w₀, s.wires.get? j = some w₀ ∧ w.cursor = w₀.cursor ∧
      w.stages = w₀.stages ∧ ((j = i ∧ w.run = s.runs.next) ∨ (j ≠ i ∧ w.run = w₀.run)) := by
  change (s.modifyWire i fun w => { w with run := s.runs.next }).wires.get? j = some w at hw
  obtain ⟨rfl, w₀, hw₀, rfl⟩ | ⟨hij, hw⟩ := get?_of_modifyWire hw
  · exact ⟨w₀, hw₀, rfl, rfl, .inl ⟨rfl, rfl⟩⟩
  · exact ⟨w, hw, rfl, rfl, .inr ⟨Ne.symm hij, rfl⟩⟩

/-- A wire after a move: the wire that moved, or one that stayed as it was. -/
theorem get?_move (hw : ((s.modifyWire i f).modifyRun r g).wires.get? j = some w) :
    (i = j ∧ ∃ w₀, s.wires.get? j = some w₀ ∧ w = f w₀) ∨ (i ≠ j ∧ s.wires.get? j = some w) :=
  get?_of_modifyWire (s := s) hw

theorem run_of_quiet (hq : Quiet s s') (hw : s'.wires.get? j = some w) :
    ∃ w₀, s.wires.get? j = some w₀ ∧ w.run = w₀.run ∧ w.cursor = w₀.cursor := by
  obtain ⟨w₀, hw₀, hstance⟩ := hq.get? hw
  exact ⟨w₀, hw₀, congrArg (·.1) hstance.symm, congrArg (·.2.1) hstance.symm⟩

namespace Coherent

theorem of_standing (hs : s.Coherent) (hruns : s'.runs = s.runs)
    (hwires : ∀ {j : Id .wire} {w : Wire H}, s'.wires.get? j = some w →
      ∃ w₀, s.wires.get? j = some w₀ ∧ w.run = w₀.run ∧ w.cursor = w₀.cursor) : s'.Coherent := by
  have hrun : ∀ r, s'.run r = s.run r := fun r => by rw [run, run, hruns]
  refine ⟨fun hw => ?_, fun hw hw' heq => ?_, fun hw hover => ?_⟩
  · obtain ⟨w₀, hw₀, hw, -⟩ := hwires hw
    rw [hw, hruns]
    exact hs.known hw₀
  · obtain ⟨w₀, hw₀, hw, -⟩ := hwires hw
    obtain ⟨w₁, hw₁, hw', -⟩ := hwires hw'
    exact hs.own hw₀ hw₁ (by rw [← hw, ← hw', heq])
  · obtain ⟨w₀, hw₀, hw, hcursor⟩ := hwires hw
    rw [hcursor]
    exact hs.idle hw₀ (by rwa [hrun, hw] at hover)

theorem empty : ({} : Store H).Coherent :=
  ⟨fun hw => by simp [Table.get?, Table.empty] at hw, fun hw => by simp [Table.get?, Table.empty] at hw,
    fun hw => by simp [Table.get?, Table.empty] at hw⟩

/-- Wires may be built at will. -/
theorem modifyWire (hs : s.Coherent) (i : Id .wire)
    (hf : ∀ w, (f w).run = w.run ∧ (f w).cursor = w.cursor) : (s.modifyWire i f).Coherent := by
  refine hs.of_standing rfl fun {j w} hw => ?_
  rcases get?_move (r := ⟨0⟩) (g := id) (s := s) hw with ⟨-, w₀, hw₀, rfl⟩ | ⟨-, hw⟩
  · exact ⟨w₀, hw₀, hf w₀⟩
  · exact ⟨w, hw, rfl, rfl⟩

/-- A new wire has a new record. -/
theorem addWire (hs : s.Coherent) (name : String) (looped : Bool) :
    (s.addWire name looped).2.Coherent := by
  have hwires : ∀ {j : Id .wire} {w : Wire H}, (s.addWire name looped).2.wires.get? j = some w →
      s.wires.get? j = some w ∨
        (j = s.wires.next ∧ w.run = s.runs.next ∧ w.cursor = .idle) := by
    intro j w hw
    change (s.wires.push _).get? j = some w at hw
    rcases lt_trichotomy j.row s.wires.size with hlt | heq | hgt
    · rw [Table.get?_push_of_lt _ _ hlt] at hw
      exact .inl hw
    · obtain rfl : j = s.wires.next := by
        cases j
        exact congrArg Id.mk heq
      rw [Table.get?_push_next, Option.some.injEq] at hw
      subst hw
      exact .inr ⟨rfl, rfl, rfl⟩
    · rw [Table.get?, Array.getElem?_eq_none] at hw
      · cases hw
      · exact (Array.size_push _).trans_le (Nat.succ_le_of_lt hgt)
  have hsize : (s.addWire name looped).2.runs.size = s.runs.size + 1 := Table.size_push ..
  have hnext : ∀ {j w}, s.wires.get? j = some w → w.run ≠ s.runs.next := fun hw heq =>
    Nat.lt_irrefl _ ((congrArg Id.row heq) ▸ hs.known hw)
  refine ⟨fun hw => ?_, fun hw hw' heq => ?_, fun hw hover => ?_⟩
  · rw [hsize]
    rcases hwires hw with hw | ⟨-, hrun, -⟩
    · exact Nat.lt_succ_of_lt (hs.known hw)
    · rw [hrun]
      exact Nat.lt_succ_self _
  · rcases hwires hw with hw | ⟨rfl, hrun, -⟩ <;> rcases hwires hw' with hw' | ⟨rfl, hrun', -⟩
    · exact hs.own hw hw' heq
    · exact absurd (heq.trans hrun') (hnext hw)
    · exact absurd (heq.symm.trans hrun) (hnext hw')
    · rfl
  · rcases hwires hw with hw | ⟨-, -, hcursor⟩
    · refine hs.idle hw ?_
      rwa [run, show (s.addWire name looped).2.runs = s.runs.push {} from rfl,
        Table.get?_push_of_lt _ _ (hs.known hw)] at hover
    · exact hcursor

theorem move (hs : s.Coherent) (hwi : s.wires.get? i = some wi) {cursor : Cursor} {state : RunState}
    (hf : ∀ w, (f w).run = w.run ∧ (f w).cursor = cursor) (hg : ∀ r, (g r).state = state)
    (hidle : state.isTerminal = true → cursor = .idle) :
    ((s.modifyWire i f).modifyRun wi.run g).Coherent := by
  -- The record that a wire has after the move is the one that it had before.
  have hbefore : ∀ {j w}, ((s.modifyWire i f).modifyRun wi.run g).wires.get? j = some w →
      ∃ w₀, s.wires.get? j = some w₀ ∧ w.run = w₀.run := by
    intro j w hw
    rcases get?_move hw with ⟨-, w₀, hw₀, rfl⟩ | ⟨-, hw⟩
    · exact ⟨w₀, hw₀, (hf w₀).1⟩
    · exact ⟨w, hw, rfl⟩
  refine ⟨fun hw => ?_, fun hw hw' heq => ?_, fun hw hover => ?_⟩
  · obtain ⟨w₀, hw₀, hrun⟩ := hbefore hw
    rw [hrun]
    exact (hs.known hw₀).trans_eq (Table.size_modify ..).symm
  · obtain ⟨w₀, hw₀, hrun⟩ := hbefore hw
    obtain ⟨w₁, hw₁, hrun'⟩ := hbefore hw'
    exact hs.own hw₀ hw₁ (by rw [← hrun, ← hrun', heq])
  · rcases get?_move hw with ⟨rfl, w₀, hw₀, rfl⟩ | ⟨hij, hw⟩
    · obtain rfl := Option.some.inj (hwi.symm.trans hw₀)
      obtain ⟨r, hr⟩ : ∃ r, s.runs.get? wi.run = some r :=
        ⟨_, Array.getElem?_eq_getElem (hs.known hwi)⟩
      rw [(hf wi).1, run, modifyRun, Table.get?_modify_self,
        show (s.modifyWire i f).runs = s.runs from rfl, hr, Option.map_some, Option.getD_some,
        hg] at hover
      rw [(hf wi).2, hidle hover]
    · have hne : wi.run ≠ _ := fun heq => hij (hs.own hwi hw heq)
      rw [run_modifyRun_of_ne _ hne] at hover
      exact hs.idle hw hover

theorem renew (hs : s.Coherent) (i : Id .wire) (parent : Option (Id .scope)) :
    (s.readied i parent).2.Coherent := by
  have hnext : ∀ {j w}, s.wires.get? j = some w → w.run ≠ s.runs.next := fun hw heq =>
    Nat.lt_irrefl _ ((congrArg Id.row heq) ▸ hs.known hw)
  have hsize : (s.readied i parent).2.runs.size = s.runs.size + 1 := Table.size_push ..
  refine ⟨fun hw => ?_, fun hw hw' heq => ?_, fun hw hover => ?_⟩
  · obtain ⟨w₀, hw₀, -, -, ⟨-, hrun⟩ | ⟨-, hrun⟩⟩ := get?_readied hw <;> rw [hrun, hsize]
    · exact Nat.lt_succ_self _
    · exact Nat.lt_succ_of_lt (hs.known hw₀)
  · obtain ⟨w₀, hw₀, -, -, ⟨rfl, hrun⟩ | ⟨-, hrun⟩⟩ := get?_readied hw <;>
      obtain ⟨w₁, hw₁, -, -, ⟨rfl, hrun'⟩ | ⟨-, hrun'⟩⟩ := get?_readied hw'
    · rfl
    · exact absurd (hrun' ▸ heq ▸ hrun) (hnext hw₁)
    · exact absurd (hrun ▸ heq.symm ▸ hrun') (hnext hw₀)
    · exact hs.own hw₀ hw₁ (by rw [← hrun, ← hrun', heq])
  · obtain ⟨w₀, hw₀, hcursor, -, ⟨-, hrun⟩ | ⟨-, hrun⟩⟩ := get?_readied hw
    · rw [hrun, run, show (s.readied i parent).2.runs = s.runs.push {} from rfl,
        Table.get?_push_next] at hover
      cases hover
    · rw [hcursor]
      rw [hrun, run_readied _ _ _ (hs.known hw₀)] at hover
      exact hs.idle hw₀ hover

/-- Whatever is done, wires and records stay coherent. -/
theorem custody : Custody (H := H) Coherent (fun _ => True) Set.univ Set.univ where
  quiet hs hq := hs.of_standing hq.runs fun hw => run_of_quiet hq hw
  awake _ _ _ := trivial
  nested _ _ _ := trivial
  closed _ _ _ := trivial
  move _ hs hw _ hf hg hidle :=
    hs.move hw (fun w => ⟨congrArg (·.1) (hf w), congrArg (·.2.1) (hf w)⟩) hg hidle
  renew i parent hs := hs.renew i parent
  fresh _ := trivial
  stop := by
    intro s r hs
    refine ⟨fun hw => (hs.known hw).trans_eq (Table.size_modify ..).symm, hs.own, fun hw hover => ?_⟩
    rw [(run_stop s r _).1] at hover
    exact hs.idle hw hover
  roots _ _ _ := trivial

end Coherent

/-- Whatever is done, no other wire gets the record of a run. -/
theorem Issued.custody (h : Mesh.Handle) :
    Custody (H := H) (Issued h) (fun _ => True) Set.univ Set.univ where
  quiet hs hq := by
    refine ⟨by rw [hq.runs]; exact hs.known, fun hw heq => ?_⟩
    obtain ⟨w₀, hw₀, hrun, -⟩ := run_of_quiet hq hw
    exact hs.own hw₀ (hrun ▸ heq)
  awake _ _ _ := trivial
  nested _ _ _ := trivial
  closed _ _ _ := trivial
  move := by
    intro s i wi f g cursor state hs _ _ hf _ _
    refine ⟨hs.known.trans_eq (Table.size_modify ..).symm, fun hw heq => ?_⟩
    rcases get?_move hw with ⟨-, w₀, hw₀, rfl⟩ | ⟨-, hw⟩
    · exact hs.own hw₀ ((congrArg (·.1) (hf w₀)).symm.trans heq)
    · exact hs.own hw heq
  renew := by
    intro s i parent hs
    have hsize : (s.readied i parent).2.runs.size = s.runs.size + 1 := Table.size_push ..
    refine ⟨by rw [hsize]; exact Nat.lt_succ_of_lt hs.known, fun hw heq => ?_⟩
    obtain ⟨w₀, hw₀, -, -, ⟨-, hrun⟩ | ⟨-, hrun⟩⟩ := get?_readied hw
    · rw [hrun] at heq
      exact absurd hs.known (heq ▸ Nat.lt_irrefl _)
    · exact hs.own hw₀ (hrun ▸ heq)
  fresh _ := trivial
  stop r hs := ⟨hs.known.trans_eq (Table.size_modify ..).symm, hs.own⟩
  roots _ _ _ := trivial

/-- Wires run at most the wires that they run in another store. -/
def NestsWithin (s₀ s : Store H) : Prop := ∀ {i j}, s.Nests i j → s₀.Nests i j

namespace AtRest

variable {state : RunState}

theorem of_quiet (hs : AtRest h state result T s) (hq : Quiet s s') : AtRest h state result T s' := by
  have hrun : s'.run h.run = s.run h.run := by rw [run, run, hq.runs]
  refine ⟨by rw [hq.runs]; exact hs.known, by rw [hrun, hs.state], by rw [hrun, hs.result],
    fun hw heq => ?_, fun hj hw heq => ?_⟩
  · obtain ⟨w₀, hw₀, hrun, hcursor⟩ := run_of_quiet hq hw
    have hidle := hs.idle hw₀ (hrun ▸ heq)
    rwa [Wire.midRun, ← hcursor] at hidle
  · obtain ⟨w₀, hw₀, hrun, -⟩ := run_of_quiet hq hw
    exact hs.apart hj hw₀ (hrun ▸ heq)

/-- A wire with another record may move. -/
theorem move (hs : AtRest h state result T s) (hwi : s.wires.get? i = some wi)
    (hne : wi.run ≠ h.run) (hf : ∀ w, (f w).run = w.run) :
    AtRest h state result T ((s.modifyWire i f).modifyRun wi.run g) := by
  have hrun : ((s.modifyWire i f).modifyRun wi.run g).run h.run = s.run h.run :=
    run_modifyRun_of_ne _ hne g
  refine ⟨hs.known.trans_eq (Table.size_modify ..).symm, by rw [hrun, hs.state],
    by rw [hrun, hs.result], fun hw heq => ?_, fun hj hw heq => ?_⟩
  · rcases get?_move hw with ⟨rfl, w₀, hw₀, rfl⟩ | ⟨-, hw⟩
    · obtain rfl := Option.some.inj (hwi.symm.trans hw₀)
      exact absurd ((hf wi).symm.trans heq) hne
    · exact hs.idle hw heq
  · rcases get?_move hw with ⟨rfl, w₀, hw₀, rfl⟩ | ⟨-, hw⟩
    · exact hs.apart hj hw₀ ((hf w₀).symm.trans heq)
    · exact hs.apart hj hw heq

theorem renew (hs : AtRest h state result T s) (i : Id .wire) (parent : Option (Id .scope)) :
    AtRest h state result T (s.readied i parent).2 := by
  have hsize : (s.readied i parent).2.runs.size = s.runs.size + 1 := Table.size_push ..
  have hnext : s.runs.next ≠ h.run := fun heq => absurd hs.known (heq ▸ Nat.lt_irrefl _)
  have hrun := run_readied s i parent hs.known
  refine ⟨by rw [hsize]; exact Nat.lt_succ_of_lt hs.known, by rw [hrun, hs.state],
    by rw [hrun, hs.result], fun hw heq => ?_, fun hj hw heq => ?_⟩
  · obtain ⟨w₀, hw₀, hcursor, -, ⟨-, hrun⟩ | ⟨-, hrun⟩⟩ := get?_readied hw
    · exact absurd (hrun.symm.trans heq) hnext
    · have hidle := hs.idle hw₀ (hrun ▸ heq)
      rwa [Wire.midRun, ← hcursor] at hidle
  · obtain ⟨w₀, hw₀, -, -, ⟨-, hrun⟩ | ⟨-, hrun⟩⟩ := get?_readied hw
    · exact hnext (hrun.symm.trans heq)
    · exact hs.apart hj hw₀ (hrun ▸ heq)

/-- What drives wires in `R` leaves a run alone that is over, if no wire that wires in `R` run has
the record. -/
theorem custody (h : Mesh.Handle) (state : RunState) (result : Option Outcome) (s₀ : Store H)
    (R : Set (Id .wire)) :
    let T := {j | ∃ i ∈ R, Relation.TransGen s₀.Nests i j}
    Custody (fun s => AtRest h state result T s ∧ NestsWithin s₀ s) (· ≠ h.run) T R where
  quiet hs hq :=
    ⟨hs.1.of_quiet hq, fun hij => hs.2 (Tied.nests (Tied.of_quiet (fun _ => rfl) hq) hij)⟩
  awake := by
    rintro s j w ⟨hs, -⟩ hw hmid heq
    rw [hs.idle hw heq] at hmid
    cases hmid
  nested hs hj hw := hs.1.apart hj hw
  closed := by
    rintro s j k ⟨-, hs⟩ ⟨i, hi, hij⟩ hjk
    exact ⟨i, hi, hij.tail (hs hjk)⟩
  move := by
    rintro s i wi f g cursor state ⟨hs, hnests⟩ hwi hne hf - -
    refine ⟨hs.move hwi hne fun w => congrArg (·.1) (hf w), fun {j k} hjk => hnests ?_⟩
    obtain ⟨w, hw, hmem⟩ := hjk
    rcases get?_move hw with ⟨-, w₀, hw₀, rfl⟩ | ⟨-, hw⟩
    · have hlist : (f w₀).stages.map (·.stage.nested?) = w₀.stages.map (·.stage.nested?) :=
        congrArg (·.2.2) (hf w₀)
      exact ⟨w₀, hw₀, hlist ▸ hmem⟩
    · exact ⟨w, hw, hmem⟩
  renew := by
    rintro s i parent ⟨hs, hnests⟩
    refine ⟨hs.renew i parent, fun {j k} hjk => hnests ?_⟩
    obtain ⟨w, hw, hmem⟩ := hjk
    obtain ⟨w₀, hw₀, -, hstages, -⟩ := get?_readied hw
    exact ⟨w₀, hw₀, hstages ▸ hmem⟩
  fresh hs heq := absurd hs.1.known (heq ▸ Nat.lt_irrefl _)
  stop := by
    rintro s r ⟨hs, hnests⟩
    obtain ⟨hstate, hresult⟩ := run_stop s r h.run
    exact ⟨⟨hs.known.trans_eq (Table.size_modify ..).symm, hstate.trans hs.state,
      hresult.trans hs.result, hs.idle, hs.apart⟩, hnests⟩
  roots := by
    rintro s i j ⟨-, hs⟩ hi hij
    exact ⟨i, hi, .single (hs hij)⟩

end AtRest

end Store

/-! ### Finished runs -/

namespace Mesh

open Store

/-- No wire that has the record of a run is run inline by a wire that an operation drives. -/
def Operation.Spares (op : Operation) (h : Handle) (m : Mesh) (s : Store H) : Prop :=
  ∀ i ∈ op.drives m, ∀ j, Relation.TransGen s.Nests i j →
    ∀ w, s.wires.get? j = some w → w.run ≠ h.run

/-- Operations done one after the other spare the record of a run. -/
def Spared (h : Handle) : Mesh → Store H → List Operation → Prop
  | _, _, [] => True
  | m, s, op :: rest => op.Spares h m s ∧ Spared h (m.step s op).1 (m.step s op).2 rest

theorem after_kept {P : Store H → Prop} {A : Id .run → Prop} {T : Set (Id .wire)}
    (hc : Custody P A T Set.univ) (m : Mesh) (hs : P s) (ops : List Operation) :
    P (m.after s ops).2 := by
  induction ops generalizing m s with
  | nil => exact hs
  | cons op rest ih => exact ih _ (kept_step hc (Set.subset_univ _) hs)

/-- A run that is over stays at rest as long as it is spared. -/
theorem atRest_after {state : RunState} (m : Mesh) (hs : AtRest h state result ∅ s)
    (ops : List Operation) (hspared : Spared h m s ops) :
    AtRest h state result ∅ (m.after s ops).2 := by
  induction ops generalizing m s with
  | nil => exact hs
  | cons op rest ih =>
    obtain ⟨hop, hrest⟩ := hspared
    have hkept := kept_step (AtRest.custody h state result s (op.drives m)) Set.Subset.rfl
      (s := s) ⟨⟨hs.known, hs.state, hs.result, hs.idle, fun {j w} hj hw =>
        let ⟨i, hi, hij⟩ := hj
        hop i hi j hij w hw⟩, fun hij => hij⟩
    exact ih _ ⟨hkept.1.known, hkept.1.state, hkept.1.result, hkept.1.idle, fun hj => hj.elim⟩ hrest

/-- Only a wire that is there can be composed for a mesh, and that adds no record. -/
theorem exists_of_compose {wire : Id .wire} {input : Ty} {signature : Signature}
    (h : (m.compose wire input).run s = (.ok signature, s')) :
    (∃ w, s'.wires.get? wire = some w) ∧ s'.runs = s.runs := by
  have hget : (get : StateM (Store H) (Store H)).run s = (s, s) := rfl
  have hquiet := s.quiet_composeShared wire (m.site s wire input)
  simp only [compose, run_bind, hget, run_run] at h
  rcases hr : s.eval (composeShared wire (m.site s wire input)) with ⟨e | _, s₁⟩ <;>
    rw [hr] at h hquiet <;> cases h
  cases hw : s.wires.get? wire with
  | none =>
    simp only [composeShared, eval_bind, eval_get, depthBound, eval_composeWithin_succ,
      eval_composeLocked, hw] at hr
    cases hr
  | some w =>
    have hsame := hquiet.same wire
    rw [hw, Option.map_some] at hsame
    obtain ⟨w', hw', -⟩ := Option.map_eq_some_iff.1 hsame
    exact ⟨⟨w', hw'⟩, hquiet.runs⟩

/-- What scheduling a wire comes to. The handle names the wire and the record that it got, which is
new. Finished runs are dropped before the handle is added. -/
theorem schedule_spec {m' : Mesh} {wire : Id .wire}
    (hs : s.eval (m.schedule wire input) = (.ok (.ok h, m'), s')) :
    (h.wire = wire ∧ ∃ w, s'.wires.get? wire = some w ∧ w.run = h.run) ∧
      h.run = s.runs.next ∧ s.runs.size < s'.runs.size ∧
      m' = { m.prune s' with
        scheduled := (m.prune s').scheduled ++ [h], tasks := m.tasks ++ [{ handle := h }] } := by
  unfold schedule at hs
  split at hs
  · cases hs
  simp only [eval_bind, eval_get] at hs
  rw [eval_ite] at hs
  obtain ⟨-, hs⟩ | ⟨-, hs⟩ := ite_eq_iff.1 hs
  · cases hs
  simp only [eval_bind, eval_lift] at hs
  rcases hr : (m.compose wire input.ty).run s with ⟨e | signature, s₁⟩ <;> rw [hr] at hs
  · cases hs
  simp only [eval_bind, eval_modify] at hs
  obtain ⟨⟨w, hw⟩, hruns⟩ := exists_of_compose hr
  have hready : s.runs.size + 1 ≤ ((s₁.modifyWire wire fun w =>
      { w with collector := m.collector }).readied wire (some m.scope)).2.runs.size := by
    rw [← hruns]
    exact (Table.size_push ..).ge
  obtain ⟨hsize, htied⟩ := (upkeep_size (H := H) (s.runs.size + 1)).beginRun wire input (some m.scope)
    m.board hready fun _ _ _ _ => trivial
  rcases hb : (s₁.modifyWire wire fun w => { w with collector := m.collector }).eval
    (Store.beginRun wire input (some m.scope) m.board) with ⟨halt | e | _, s₂⟩ <;>
    rw [hb] at hs htied hsize <;> cases hs
  have hsame := htied wire
  rw [show ((s₁.modifyWire wire _).readied wire (some m.scope)).2.wires.get? wire = _ from
    get?_modifyWire_self .., get?_modifyWire_self, hw, Option.map_some, Option.map_some,
    Option.map_some] at hsame
  obtain ⟨w', hw', hbonds⟩ := Option.map_eq_some_iff.1 hsame
  have hrun : w'.run = s.runs.next := by
    rw [← hruns]
    exact congrArg (·.1) hbonds
  exact ⟨⟨rfl, w', hw', by simp [hw']⟩, by simp [hw', hrun], hsize, rfl⟩

/-- The handle of a scheduled run names the wire and the record that it got. -/
theorem schedule_ok {m' : Mesh} {wire : Id .wire}
    (hs : s.eval (m.schedule wire input) = (.ok (.ok h, m'), s')) :
    h.wire = wire ∧ ∃ w, s'.wires.get? wire = some w ∧ w.run = h.run :=
  (schedule_spec hs).1

/-- A wire that passes its input on, and one that runs it. -/
def echoing : Store Host.none :=
  let s := ((({} : Store Host.none).addWire "v" false).2.addWire "a" false).2
  let s := s.modifyWire ⟨0⟩ fun w => { w with stages := [{ stage := .pass }] }
  s.modifyWire ⟨1⟩ fun w => { w with stages := [{ stage := .inline { wire := some ⟨0⟩ } }] }

theorem coherent_echoing : (create {} echoing).2.Coherent := by
  have hadded := (Coherent.empty (H := Host.none).addWire "v" false).addWire "a" false
  refine .of_standing (.modifyWire (.modifyWire hadded ⟨0⟩ ?_) ⟨1⟩ ?_) rfl
    fun {j w} hw => ⟨w, hw, rfl, rfl⟩
  all_goals exact fun _ => ⟨rfl, rfl⟩

/-- What scheduling the first wire on a new mesh leads to. -/
def echoed : Except Halt (Except MeshError Handle × Mesh) × Store Host.none :=
  (create {} echoing).2.eval ((create {} echoing).1.schedule ⟨0⟩ (.int 5))

/-- The handle and the mesh that scheduling a wire has led to. -/
def issued? : Except Halt (Except MeshError Handle × Mesh) → Option (Handle × Mesh)
  | .ok (.ok h, m) => some (h, m)
  | _ => none

/-- The handle of the first wire. -/
def echo : Handle := { name := "v", wire := ⟨0⟩, run := ⟨2⟩ }

/-- The mesh on which the first wire was scheduled. -/
def echoMesh : Mesh := ((issued? echoed.1).map (·.2)).getD default

theorem echoed_eq : echoed = (.ok (.ok echo, echoMesh), echoed.2) := by
  have hissued : (issued? echoed.1).map (·.1) = some echo := by decide +kernel
  unfold echoMesh
  rcases hr : echoed with ⟨_ | ⟨_ | h, m⟩, s⟩ <;> rw [hr] at hissued <;> cases hissued
  rfl

/-- The type of the output that a run is reported to have. -/
def Handle.outputTy? (h : Handle) (s : Store H) : Option Ty :=
  (h.result? s).map fun outcome => outcome.output.ty

/-- A wire runs only wires of a list directly. -/
def runsOnly (s : Store H) (L : List (Id .wire)) (i : Id .wire) : Bool :=
  (s.wires.get? i).all fun w => w.stages.all fun p => p.stage.nested?.all (L.contains ·)

theorem mem_of_runsOnly {L : List (Id .wire)} (hi : runsOnly s L i = true) (hij : s.Nests i j) :
    j ∈ L := by
  obtain ⟨w, hw, hmem⟩ := hij
  obtain ⟨p, hp, hj⟩ := List.mem_map.1 hmem
  have hstage := List.all_eq_true.1 (by simpa [runsOnly, hw] using hi) p hp
  simpa [hj] using hstage

/-- The record of a run is spared by what drives a wire that runs only wires of a list at any depth,
if none of these has the record. -/
theorem spares_of_runsOnly {limit : Nat} (L : List (Id .wire)) (hi : runsOnly s L i = true)
    (hL : L.all (fun j => runsOnly s L j && (s.wires.get? j).all fun w => w.run != h.run) = true) :
    (Operation.runOnce limit i input).Spares h m s := by
  have hwire : ∀ j ∈ L, runsOnly s L j = true ∧ ∀ w, s.wires.get? j = some w → w.run ≠ h.run := by
    intro j hj
    have := List.all_eq_true.1 hL j hj
    simp only [Bool.and_eq_true] at this
    exact ⟨this.1, fun w hw => by simpa [hw] using this.2⟩
  rintro _ rfl j hij
  refine (hwire j ?_).2
  induction hij with
  | single hij => exact mem_of_runsOnly hi hij
  | tail _ hjk ih => exact mem_of_runsOnly (hwire _ ih).1 hjk

end Mesh

end Dataflow
