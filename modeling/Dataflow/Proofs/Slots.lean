import Dataflow.Proofs.Cleanup
import Dataflow.Proofs.Vetting
/-!
# The slots that names mean

A composition resolves a name at every path on which a stage is reached: the name means a variable
of the run if a stage before has published it, in the wire or in one of the wires around it, or if a
stage around it has bound it, and a variable of the parent scope otherwise. A warm-up resolves the
name once for each visit of the stage, in the one scope of the run, and the last visit counts.

The two agree as long as the tree declares no name that the parent shows. They need not agree
otherwise: where a wire that reads a variable of the parent is run again behind a stage that
publishes a variable of that name, the second visit links its stage to the new variable for the
first run, too.
-/

namespace Dataflow

variable {H : Host} {plans plans₀ : List (Option (Stage H))} {n depth : Nat} {st : Stage H}
  {i root j : Id .wire} {x : String} {path : List Nat} {E own : Set String} {o : Outlook}
  {s s' : Store H}

/-! ### Paths -/

namespace Code

/-- A wire publishes a name: one of its stages declares it, or runs a wire that publishes it. What a
stage binds for the wire that it runs is not published. -/
inductive Publishes (code : Code H) : Id .wire → String → Prop where
  | leaf {i : Id .wire} {plans : List (Option (Stage H))} {st : Stage H} {x : String}
      (hplans : code i = some plans) (hst : some st ∈ plans) (hn : st.nested? = none)
      (hx : x ∈ st.declares) : Publishes code i x
  | nest {i j : Id .wire} {x : String} (hchild : code.Child i j) (h : Publishes code j x) :
      Publishes code i x

/-- A stage publishes a name, itself or through the wire that it runs. -/
def StagePublishes (code : Code H) (st : Stage H) (x : String) : Prop :=
  (st.nested? = none ∧ x ∈ st.declares) ∨ ∃ j, st.nested? = some j ∧ code.Publishes j x

/-- The names that the stages before a position publish. -/
def before (code : Code H) (plans : List (Option (Stage H))) (n : Nat) : Set String :=
  {x | ∃ k < n, ∃ st, plans[k]? = some (some st) ∧ code.StagePublishes st x}

/-- A path of positions leads from a wire to one that is run at its end. With it go the names that
have been published or bound on the way. -/
inductive At (code : Code H) (root : Id .wire) : List Nat → Id .wire → Set String → Prop where
  | root : At code root [] root ∅
  | step {path : List Nat} {i j : Id .wire} {own : Set String} {plans : List (Option (Stage H))}
      {n : Nat} {st : Stage H} (h : At code root path i own) (hplans : code i = some plans)
      (hst : plans[n]? = some (some st)) (hj : st.nested? = some j) :
      At code root (path ++ [n]) j (own ∪ code.before plans n ∪ st.declared)

/-- No stage below a wire declares one of the names. -/
def Unshadowing (code : Code H) (root : Id .wire) (names : Set String) : Prop :=
  ∀ i, code.Below root i → ∀ plans, code i = some plans → ∀ st, some st ∈ plans →
    ∀ x ∈ st.declares, x ∉ names

variable {code : Code H}

/-! ### Visits on a path -/

theorem visitsFrom_append (nested : Id .wire → List (Visit H)) (i : Id .wire) (position : Nat)
    (as bs : List (Option (Stage H))) :
    visitsFrom nested i position (as ++ bs) =
      visitsFrom nested i position as ++ visitsFrom nested i (position + as.length) bs := by
  induction as generalizing position with
  | nil => rfl
  | cons plan rest ih =>
    have hposition : position + (plan :: rest).length = position + 1 + rest.length := by
      rw [List.length_cons]
      omega
    rw [hposition]
    cases plan with
    | none => exact ih (position + 1)
    | some st =>
      rw [List.cons_append, visitsFrom, visitsFrom, ih, List.append_assoc]

/-- The visit of a stage stands behind those of the stages before it. -/
theorem visitsFrom_split (nested : Id .wire → List (Visit H)) (i : Id .wire)
    (h : plans[n]? = some (some st)) :
    visitsFrom nested i 0 plans =
      visitsFrom nested i 0 (plans.take n) ++
        ⟨i, n, st⟩ :: (innerVisits nested st ++ visitsFrom nested i (n + 1) (plans.drop (n + 1))) := by
  obtain ⟨hn, hget⟩ := List.getElem?_eq_some_iff.1 h
  have hsplit : plans = plans.take n ++ some st :: plans.drop (n + 1) := by
    rw [← hget, ← List.drop_eq_getElem_cons hn, List.take_append_drop]
  have hlength : (plans.take n).length = n := by
    rw [List.length_take]
    omega
  conv_lhs => rw [hsplit]
  rw [visitsFrom_append, hlength, Nat.zero_add, visitsFrom, List.cons_append]

/-- What a stage declares, or the wire that it runs, is declared by the visits. -/
theorem mem_names_visitsFrom {nested : Id .wire → List (Visit H)} {position : Nat}
    (hst : some st ∈ plans)
    (hx : x ∈ st.declares ∨ ∃ j, st.nested? = some j ∧ x ∈ Visit.names (nested j)) :
    x ∈ Visit.names (visitsFrom nested i position plans) := by
  induction plans generalizing position with
  | nil => cases hst
  | cons plan rest ih =>
    rcases List.mem_cons.1 hst with rfl | htail
    · rw [visitsFrom, Visit.names_append, List.mem_append]
      refine .inl ?_
      rw [Visit.names, List.flatMap_cons, List.mem_append]
      rcases hx with hx | ⟨j, hj, hx⟩
      · exact .inl hx
      · refine .inr ?_
        rw [innerVisits, hj]
        exact hx
    · cases plan with
      | none => exact ih htail
      | some st' =>
        rw [visitsFrom, Visit.names_append, List.mem_append]
        exact .inr (ih htail)

theorem Publishes.mem_names (h : code.Publishes j x) (hheight : code.Height depth j) :
    x ∈ Visit.names (code.visits depth j) := by
  induction h generalizing depth with
  | leaf hplans hst _ hx =>
    cases depth with
    | zero => exact hheight.elim
    | succ depth =>
      rw [visits, hplans]
      exact mem_names_visitsFrom hst (.inl hx)
  | nest hchild _ ih =>
    cases depth with
    | zero => exact hheight.elim
    | succ depth =>
      have hinner := ih (hheight _ hchild)
      obtain ⟨plans, hplans, st, hst, hj⟩ := hchild
      rw [visits, hplans]
      exact mem_names_visitsFrom hst (.inr ⟨_, hj, hinner⟩)

/-- The names published before a position are declared by the visits before it. -/
theorem before_subset (hplans : code i = some plans) (hheight : code.Height (depth + 1) i) (n : Nat)
    :
    ∀ x ∈ code.before plans n,
      x ∈ Visit.names (visitsFrom (code.visits depth) i 0 (plans.take n)) := by
  rintro x ⟨k, hk, st, hst, hx⟩
  have hmem : some st ∈ plans.take n := by
    refine List.mem_of_getElem? (i := k) ?_
    rw [List.getElem?_take, if_pos hk, hst]
  refine mem_names_visitsFrom hmem ?_
  rcases hx with ⟨-, hx⟩ | ⟨j, hj, hx⟩
  · exact .inl hx
  · exact .inr ⟨j, hj, hx.mem_names (hheight j ⟨plans, hplans, st, List.mem_of_getElem? hst, hj⟩)⟩

/-- What is reached on a path is visited, behind the names that are known there. -/
theorem At.visits (h : code.At root path i own) (hheight : code.Height depth root) :
    ∃ depth' pre post, code.Height depth' i ∧
      code.visits depth root = pre ++ code.visits depth' i ++ post ∧
      ∀ x ∈ own, x ∈ Visit.names pre := by
  induction h with
  | root => exact ⟨depth, [], [], hheight, by simp, fun x hx => hx.elim⟩
  | @step path i j own plans n st _ hplans hst hj ih =>
    obtain ⟨depth', pre, post, hi, hvisits, hown⟩ := ih
    cases depth' with
    | zero => exact hi.elim
    | succ depth' =>
      have hchild : code.Child i j := ⟨plans, hplans, st, List.mem_of_getElem? hst, hj⟩
      refine ⟨depth', pre ++ visitsFrom (code.visits depth') i 0 (plans.take n) ++ [⟨i, n, st⟩],
        visitsFrom (code.visits depth') i (n + 1) (plans.drop (n + 1)) ++ post, hi j hchild, ?_,
        fun x hx => ?_⟩
      · rw [hvisits, Code.visits, hplans, Option.getD_some, visitsFrom_split _ _ hst, innerVisits, hj]
        simp [List.append_assoc]
      · rw [Visit.names_append, Visit.names_append, List.mem_append, List.mem_append]
        rcases hx with (hx | hx) | hx
        · exact .inl (.inl (hown x hx))
        · exact .inl (.inr (before_subset hplans hi n x hx))
        · exact .inr (by simpa [Visit.names, Stage.declared] using hx)

/-- A visited stage stands in the code where it is visited. -/
theorem code_of_mem_visits {v : Visit H} (hv : v ∈ code.visits depth root) :
    ∃ plans, code v.wire = some plans ∧ plans[v.position]? = some (some v.stage) := by
  induction depth generalizing root with
  | zero => cases hv
  | succ depth ih =>
    rw [visits] at hv
    cases hplans : code root with
    | none => simp [hplans, visitsFrom] at hv
    | some plans =>
      rw [hplans, Option.getD_some] at hv
      have hfrom : ∀ (rest : List (Option (Stage H))) (position : Nat),
          plans.drop position = rest → v ∈ visitsFrom (code.visits depth) root position rest →
            ∃ plans, code v.wire = some plans ∧ plans[v.position]? = some (some v.stage) := by
        intro rest
        induction rest with
        | nil =>
          intro position _ hv
          cases hv
        | cons plan rest ihrest =>
          intro position hdrop hv
          have htail : plans.drop (position + 1) = rest := by
            rw [← List.tail_drop, hdrop, List.tail_cons]
          cases plan with
          | none => exact ihrest (position + 1) htail hv
          | some st =>
            rw [visitsFrom, List.cons_append, List.mem_cons, List.mem_append] at hv
            rcases hv with rfl | hv | hv
            · refine ⟨plans, hplans, ?_⟩
              rw [← List.head?_drop, hdrop]
              rfl
            · unfold innerVisits at hv
              cases hj : st.nested? with
              | none => simp [hj] at hv
              | some j =>
                rw [hj] at hv
                exact ih hv
            · exact ihrest (position + 1) htail hv
      exact hfrom plans 0 plans.drop_zero hv

theorem Unshadowing.not_mem_names {names : Set String} (h : code.Unshadowing root names)
    (hx : x ∈ names) (depth : Nat) : x ∉ Visit.names (code.visits depth root) := by
  intro hmem
  obtain ⟨v, hv, hdeclares⟩ := List.mem_flatMap.1 hmem
  obtain ⟨plans, hplans, hat⟩ := code_of_mem_visits hv
  exact h v.wire (below_of_mem_visits hv) plans hplans v.stage (List.mem_of_getElem? hat) x
    hdeclares hx

end Code

/-! ### Names that are shown on a path -/

namespace Passes

variable {code : Code H}

/-- What stages declare for those behind them is what they publish. -/
theorem publishes (h : Passes code plans o E) :
    ∀ x ∈ E, ∃ st, some st ∈ plans ∧ code.StagePublishes st x := by
  induction h with
  | nil => exact fun x hx => hx.elim
  | leaf hn _ _ _ ih =>
    rintro x (hx | hx)
    · exact ⟨_, List.mem_cons_self, .inl ⟨hn, hx⟩⟩
    · obtain ⟨st, hst, hpub⟩ := ih x hx
      exact ⟨st, List.mem_cons_of_mem _ hst, hpub⟩
  | nest hn hj _ _ ihsub ihrest =>
    rintro x (hx | hx)
    · obtain ⟨st, hst, hpub⟩ := ihsub x hx
      refine ⟨_, List.mem_cons_self, .inr ⟨_, hn, ?_⟩⟩
      rcases hpub with ⟨hleaf, hx⟩ | ⟨j, hj', hx⟩
      · exact .leaf hj hst hleaf hx
      · exact .nest ⟨_, hj, st, hst, hj'⟩ hx
    · obtain ⟨st, hst, hpub⟩ := ihrest x hx
      exact ⟨st, List.mem_cons_of_mem _ hst, hpub⟩

/-- What is shown to a stage: what is shown to the wire, and what the stages before publish. -/
theorem at_position (h : Passes code plans o E) (hst : plans[n]? = some (some st)) :
    ∃ o' : Outlook, o'.shown ⊆ o.shown ∪ code.before plans n ∧
      (st.nested? = none → ∀ x, st.reads? = some x → x ∈ o'.shown) ∧
      ∀ j, st.nested? = some j → ∃ plans' D, code j = some plans' ∧
        Passes code plans' (o'.lend st.declared) D := by
  induction plans generalizing n o E with
  | nil => cases hst
  | cons plan rest ih =>
    cases n with
    | zero =>
      obtain rfl : plan = some st := Option.some.inj hst
      refine ⟨o, Set.subset_union_left, ?_⟩
      cases h with
      | leaf hn hreads _ _ =>
        refine ⟨fun _ => hreads, fun j hj => ?_⟩
        rw [hn] at hj
        cases hj
      | nest hn hj hsub _ =>
        refine ⟨fun hnone => ?_, fun j hj' => ?_⟩
        · rw [hn] at hnone
          cases hnone
        · rw [hn] at hj'
          cases hj'
          exact ⟨_, _, hj, hsub⟩
    | succ n =>
      -- The names of the first stage are published before all others.
      have hlater : ∀ {first : Stage H} {D : Set String} {o' : Outlook}, plan = some first →
          (∀ x ∈ D, code.StagePublishes first x) →
          o'.shown ⊆ (o.declare D).shown ∪ code.before rest n →
            o'.shown ⊆ o.shown ∪ code.before (plan :: rest) (n + 1) := by
        rintro first D o' rfl hD hsub x hx
        rcases hsub hx with (hx | hx) | ⟨k, hk, st', hst', hpub⟩
        · exact .inl hx
        · exact .inr ⟨0, Nat.succ_pos n, first, rfl, hD x hx⟩
        · exact .inr ⟨k + 1, Nat.succ_lt_succ hk, st', hst', hpub⟩
      cases h with
      | leaf hn _ _ hrest =>
        obtain ⟨o', hsub, hgoal⟩ := ih hrest hst
        exact ⟨o', hlater rfl (fun x hx => .inl ⟨hn, hx⟩) hsub, hgoal⟩
      | nest hn hj hsub hrest =>
        obtain ⟨o', hsub', hgoal⟩ := ih hrest hst
        refine ⟨o', hlater rfl (fun x hx => .inr ⟨_, hn, ?_⟩) hsub', hgoal⟩
        obtain ⟨st', hst', hpub⟩ := hsub.publishes x hx
        rcases hpub with ⟨hleaf, hx⟩ | ⟨k, hk, hx⟩
        · exact .leaf hj hst' hleaf hx
        · exact .nest ⟨_, hj, st', hst', hk⟩ hx

/-- What is shown to a wire on a path: what is shown to the whole tree, and what the path knows. -/
theorem at_path (h : Passes code plans₀ o E) (hroot : code root = some plans₀)
    (hpath : code.At root path i own) :
    ∃ plans o' E', code i = some plans ∧ Passes code plans o' E' ∧ o'.shown ⊆ o.shown ∪ own := by
  induction hpath with
  | root => exact ⟨plans₀, o, E, hroot, h, Set.subset_union_left⟩
  | step _ hplans hst hj ih =>
    obtain ⟨plans, o', E', hplans', hpass, hsub⟩ := ih
    rw [hplans] at hplans'
    cases hplans'
    obtain ⟨o₁, hsub₁, -, hnest⟩ := hpass.at_position hst
    obtain ⟨plans', D, hj', hinner⟩ := hnest _ hj
    refine ⟨plans', _, D, hj', hinner, ?_⟩
    rintro x (hx | hx)
    · rcases hsub₁ hx with hx | hx
      · rcases hsub hx with hx | hx
        · exact .inl hx
        · exact .inr (.inl (.inl hx))
      · exact .inr (.inl (.inr hx))
    · exact .inr (.inr hx)

end Passes

/-! ### The last visit -/

/-- Behind each visit, or at it, is the last visit of its stage. -/
theorem Visit.exists_last (pre : List (Visit H)) (v : Visit H) (post : List (Visit H)) :
    ∃ before u after, pre ++ v :: post = before ++ u :: after ∧ u.wire = v.wire ∧
      u.position = v.position ∧ (∀ w ∈ after, ¬ (w.wire = u.wire ∧ w.position = u.position)) ∧
      ∃ between, before = pre ++ between := by
  induction hlength : post.length using Nat.strong_induction_on generalizing pre v post with
  | _ length ih =>
    by_cases hlast : ∀ w ∈ post, ¬ (w.wire = v.wire ∧ w.position = v.position)
    · exact ⟨pre, v, post, rfl, rfl, rfl, hlast, [], (List.append_nil _).symm⟩
    · obtain ⟨w, hw⟩ := not_forall.1 hlast
      obtain ⟨hw, hplace⟩ := Classical.not_imp.1 hw
      obtain ⟨hwire, hposition⟩ := not_not.1 hplace
      obtain ⟨mid, rest, rfl⟩ := List.append_of_mem hw
      have hshorter : rest.length < length := by
        rw [← hlength, List.length_append, List.length_cons]
        omega
      obtain ⟨before, u, after, heq, huw, hup, hafter, between, rfl⟩ :=
        ih rest.length hshorter (pre ++ v :: mid) w rest rfl
      refine ⟨pre ++ v :: mid ++ between, u, after, ?_, huw.trans hwire, hup.trans hposition, hafter,
        v :: mid ++ between, ?_⟩
      · rw [← heq, List.append_assoc, List.cons_append]
      · rw [List.append_assoc]

/-! ### Both resolutions agree -/

theorem Stage.uses?_of_reads? (h : st.reads? = some x) : st.uses? = some x ∧ st.nested? = none := by
  cases st <;> first | exact ⟨h, rfl⟩ | cases h

namespace Store

/-- A stage keeps its plan and its slot. -/
theorem stageAt?_of_frame {T : Set (Id .wire)} (h : Keeps Wire.frame T s s')
    (hst : s.stageAt? j n = some st) :
    ∃ st', s'.stageAt? j n = some st' ∧ st'.plan? = st.plan? ∧ st'.slot? = st.slot? := by
  rw [stageAt?_eq] at hst ⊢
  obtain ⟨w, hw, hst⟩ := Option.bind_eq_some_iff.1 hst
  obtain ⟨p, hp, rfl⟩ := Option.map_eq_some_iff.1 hst
  obtain ⟨w', hw', hframe⟩ := h.get? hw
  have hat : w'.frame.1[n]? = w.frame.1[n]? := by rw [hframe]
  simp only [Wire.frame, List.getElem?_map, hp, Option.map_some] at hat
  obtain ⟨p', hp', heq⟩ := Option.map_eq_some_iff.1 hat
  simp only [Prod.mk.injEq] at heq
  exact ⟨p'.stage, by simp [hw', hp'], heq.1, heq.2.1⟩

/-- Whatever is done to a run, stages keep their plans and slots. -/
theorem keeps_frame_turns (id : Id .wire) (turns : List Turn) (s : Store H) :
    Keeps Wire.frame Set.univ s (turns.foldl (attend id) s) := by
  induction turns generalizing s with
  | nil => exact .refl s
  | cons turn rest ih =>
    refine Keeps.trans ?_ (ih _)
    cases turn with
    | resume => exact (s.steady_resume id).keeps.mono (Set.subset_univ _)
    | requestStop j => exact .of_wires_eq (s.wires_requestStop j)

/-- What a warm-up links a stage to, if the tree declares none of the names that it is shown: its
own variable where the path to the stage knows the name, and the outer one elsewhere. -/
theorem linked_of_settles {σ : Id .scope} (hheight : s.code.Height depth root)
    (h : Settles σ s s' (s.code.visits depth root)) (hnew : ∀ x, s.vars.own σ x = none)
    (hroot : s.code root = some plans₀) (hpass : Passes s.code plans₀ o E)
    (hfree : s.code.Unshadowing root o.shown) (hpath : s.code.At root path i own)
    (hplans : s.code i = some plans) (hst : plans[n]? = some (some st)) (hx : st.reads? = some x) :
    ∃ stage slot, s'.stageAt? i n = some stage ∧ stage.bare = st ∧ stage.slot? = some slot ∧
      (x ∈ own ∪ s.code.before plans n → s'.vars.own σ x = some slot) ∧
      (x ∉ own ∪ s.code.before plans n → s.vars.outer σ x = some slot) := by
  obtain ⟨huses, hleaf⟩ := Stage.uses?_of_reads? hx
  -- The visit on this path, and the last visit of the stage.
  obtain ⟨depth', pre, post, hi, hvisits, hown⟩ := hpath.visits hheight
  cases depth' with
  | zero => exact hi.elim
  | succ depth' =>
    rw [Code.visits, hplans, Option.getD_some, Code.visitsFrom_split _ _ hst] at hvisits
    have hsplit : s.code.visits depth root =
        (pre ++ Code.visitsFrom (s.code.visits depth') i 0 (plans.take n)) ++ ⟨i, n, st⟩ ::
          (Code.innerVisits (s.code.visits depth') st ++
            Code.visitsFrom (s.code.visits depth') i (n + 1) (plans.drop (n + 1)) ++ post) := by
      rw [hvisits]
      simp
    obtain ⟨before, u, after, heq, hwire, hposition, hlast, between, hbefore⟩ :=
      Visit.exists_last (pre ++ Code.visitsFrom (s.code.visits depth') i 0 (plans.take n))
        ⟨i, n, st⟩ (Code.innerVisits (s.code.visits depth') st ++
          Code.visitsFrom (s.code.visits depth') i (n + 1) (plans.drop (n + 1)) ++ post)
    rw [← hsplit] at heq
    dsimp only at hwire hposition
    obtain ⟨stage, hstage, hbare, -, hlinked⟩ := h.visited before u after heq hlast
    have hu : u.stage = st := by
      have hmem : u ∈ s.code.visits depth root := by
        rw [heq]
        exact List.mem_append_right _ List.mem_cons_self
      obtain ⟨plans', hplans', hat⟩ := Code.code_of_mem_visits hmem
      rw [hwire, hplans] at hplans'
      cases hplans'
      rw [hposition, hst] at hat
      exact (Option.some.inj (Option.some.inj hat)).symm
    rw [hwire, hposition] at hstage
    rw [hu] at hbare
    obtain ⟨slot, hslot, hmeans⟩ := hlinked x (by rw [← Stage.uses?_bare, hbare, huses])
    refine ⟨stage, slot, hstage, hbare, hslot, fun hknown => ?_, fun hunknown => ?_⟩
    · rw [if_pos] at hmeans
      · exact hmeans
      · refine .inr ?_
        rw [Visit.names_append, List.mem_append, hbefore, Visit.names_append, List.mem_append,
          Visit.names_append, List.mem_append]
        rcases hknown with hx | hx
        · exact .inl (.inl (.inl (hown x hx)))
        · exact .inl (.inl (.inr (Code.before_subset hplans hi n x hx)))
    · rw [if_neg] at hmeans
      · exact hmeans
      · -- What the path does not know is shown from outside, and so declared nowhere in the tree.
        obtain ⟨plans', o', E', hplans', hpass', hsub⟩ := hpass.at_path hroot hpath
        rw [hplans] at hplans'
        cases hplans'
        obtain ⟨o₁, hsub₁, hreads, -⟩ := hpass'.at_position hst
        have hshown : x ∈ o.shown := by
          rcases hsub₁ (hreads hleaf x hx) with hx' | hx'
          · exact (hsub hx').resolve_right fun hx'' => hunknown (.inl hx'')
          · exact absurd (.inr hx') hunknown
        have hnever := hfree.not_mem_names hshown depth
        rintro (hold | hdeclared)
        · rw [hnew] at hold
          cases hold
        · refine hnever ?_
          rw [heq, Visit.names_append, List.mem_append]
          rw [Visit.names_append, List.mem_append] at hdeclared
          rcases hdeclared with hx' | hx'
          · exact .inl hx'
          · refine .inr ?_
            simp only [Visit.names, List.flatMap_cons, List.flatMap_nil, List.append_nil] at hx' ⊢
            exact List.mem_append_left _ hx'

/-- What a run that begins comes to: its wire is visited in a new scope. -/
theorem settles_beginRun {code : Code H} {T : Set (Id .wire)}
    (hclosed : code.Closed (·.isBuiltIn = true) T) {i : Id .wire} (hi : i ∈ T)
    (hcode : s.code = code) {parent : Option (Id .scope)}
    (hscoped : (s.vars.addScope parent).2.Scoped (s.vars.addScope parent).1) {input : Value}
    {board : Id .board} (h : s.eval (beginRun i input parent board) = (.ok (.ok ()), s')) :
    ∃ s₀ s₁ : Store H, s₀.code = code ∧ s₀.vars = (s.vars.addScope parent).2 ∧
      s' = s₁.start i input ∧ code.Height s₀.depthBound i ∧
      Settles (s.vars.addScope parent).1 s₀ s₁ (code.visits s₀.depthBound i) := by
  have hready : (s.readied i parent).2.code = code := by
    rw [← hcode]
    exact s.code_modifyWire i fun _ => rfl
  rw [eval_beginRun] at h
  rcases hwarm : (s.readied i parent).2.eval (warmupWithin (s.readied i parent).2.depthBound i input
    (s.readied i parent).1 board) with ⟨halt | e | _, s₁⟩ <;> rw [hwarm] at h <;> cases h
  exact ⟨_, s₁, hready, rfl, rfl, settles_warmupWithin hclosed hi hready hscoped hwarm⟩

/-- When a tree of built-in stages has been composed against the variables of a parent scope, and
declares no name that the parent shows, both resolutions agree all along a run with that parent: on
each path to a stage that reads or overwrites a variable, the stage is linked to the run's own slot
if the name is published or bound on that path, and to the slot of the parent otherwise. -/
theorem slots_agree {T : Set (Id .wire)} {L : List Request} {s s₁ s₂ : Store H}
    (hhistory : History T L s) (hclosed : s.code.Closed (·.isBuiltIn = true) T) {id : Id .wire}
    (hid : id ∈ T) {site : Site} {parent : Option (Id .scope)} (hv : s.vars.WellFormed)
    (hparent : ∀ P, parent = some P → P.row < s.vars.scopes.size)
    (hshared : site.shared = s.vars.inherited parent)
    (hL : NoCollision (L ++ ownedRequests id site s)) {signature : Signature}
    (hcompose : s.eval (composeOwned id site) = (.ok signature, s₁))
    (hfree : s.code.Unshadowing id (Outlook.names (s.vars.inherited parent)))
    {input : Value} {board : Id .board}
    (hbegin : s₁.eval (beginRun id input parent board) = (.ok (.ok ()), s₂)) (turns : List Turn)
    {path : List Nat} {i : Id .wire} {own : Set String} (hpath : s.code.At id path i own)
    {plans : List (Option (Stage H))} (hplans : s.code i = some plans) {n : Nat} {st : Stage H}
    (hst : plans[n]? = some (some st)) {x : String} (hx : st.reads? = some x) :
    ∃ stage slot, (turns.foldl (attend id) s₂).stageAt? i n = some stage ∧ stage.bare = st ∧
      stage.slot? = some slot ∧
      (x ∈ own ∪ s.code.before plans n →
        s₂.vars.own (s.vars.addScope parent).1 x = some slot) ∧
      (x ∉ own ∪ s.code.before plans n →
        (parent.bind fun P => s.vars.find? P x) = some slot) := by
  have hs := hhistory.vouched hclosed hL fun r hr => List.mem_append_left _ hr
  obtain ⟨hharm, hvets⟩ := vets_composeOwned hclosed hL hid
    (fun r hr => List.mem_append_right _ hr) rfl hs
  rw [hcompose] at hharm hvets
  obtain ⟨plans₀, hroot, hpass⟩ := (hvets signature rfl).passes
  rw [hshared] at hpass
  -- The run begins in a new scope, with the code as it was composed.
  have hvars : s₁.vars = s.vars := hharm.vars
  obtain ⟨s₀, s', hcode, hvars', rfl, hheight, hsettles⟩ := settles_beginRun hclosed hid hharm.code
    (by rw [hvars]; exact hv.scoped_addScope hparent) hbegin
  rw [hvars] at hvars' hsettles
  rw [← hcode] at hheight hsettles hroot hpass hfree hpath hplans ⊢
  obtain ⟨stage, slot, hstage, hbare, hslot, hown, houter⟩ := linked_of_settles hheight hsettles
    (fun y => by rw [hvars', Variables.own, Variables.scope_addScope]; rfl) hroot hpass hfree hpath
    hplans hst hx
  -- From then on the stage keeps its plan and its slot.
  have hkeep : Keeps Wire.frame Set.univ s' (turns.foldl (attend id) (s'.start id input)) :=
    (steady_start (Set.mem_univ id) s' input).keeps.trans (keeps_frame_turns id turns _)
  obtain ⟨stage', hstage', hplan, hslot'⟩ := stageAt?_of_frame hkeep hstage
  have hbuilt : stage.isBuiltIn = true := by
    rw [← Stage.isBuiltIn_bare, hbare]
    cases st <;> first | rfl | cases hx
  obtain ⟨-, hbare'⟩ := Stage.plan?_eq_some_iff.1 (hplan.trans
    (Stage.plan?_eq_some_iff.2 ⟨hbuilt, rfl⟩))
  refine ⟨stage', slot, hstage', hbare'.trans hbare, hslot'.trans hslot, fun hknown => ?_,
    fun hunknown => ?_⟩
  · have hstart : (s'.start id input).vars = s'.vars := by
      unfold start
      split <;> rfl
    rw [hstart]
    exact hown hknown
  · have hout := houter hunknown
    rw [hvars', Variables.outer, hv.around_addScope hparent] at hout
    rw [← hout]
    cases parent <;> rfl

/-- Names that no stage of a store declares. -/
theorem unshadowing_of_rows {decls : List VarDecl}
    (h : ∀ w ∈ s.wires.rows.toList, ∀ p ∈ w.stages, ∀ x ∈ p.stage.declares, ∀ d ∈ decls, d.name ≠ x)
    (id : Id .wire) : s.code.Unshadowing id (Outlook.names decls) := by
  rintro i - plans hplans st hst x hx ⟨d, hd, rfl⟩
  obtain ⟨w, hw, rfl⟩ := exists_of_code hplans
  obtain ⟨p, hp, hplan⟩ := List.mem_map.1 hst
  obtain ⟨-, rfl⟩ := Stage.plan?_eq_some_iff.1 hplan
  rw [Stage.declares_bare] at hx
  exact h w (Array.mem_toList_iff.2 (Array.mem_of_getElem? hw)) p hp d.name hx d hd rfl

/-- On the first path to the inner wire nothing is known of its variable. -/
theorem at_reading (published : String) :
    ∃ own, (reading published).code.At ⟨1⟩ [0] ⟨0⟩ own ∧
      "x" ∉ own ∪ (reading published).code.before [some (.get "x" none)] 0 := by
  have hplans : (reading published).code ⟨1⟩ = some [some (.inline ⟨some ⟨0⟩, false⟩),
      some (.set published .nothing none), some (.inline ⟨some ⟨0⟩, false⟩)] := rfl
  refine ⟨_, .step .root hplans rfl rfl, ?_⟩
  rintro (((hx | ⟨k, hk, -⟩) | hx) | ⟨k, hk, -⟩)
  · exact hx
  · exact absurd hk (Nat.not_lt_zero k)
  · cases hx
  · exact absurd hk (Nat.not_lt_zero k)

/-- Where the outer wire publishes another name, the inner wire reads the variable of the parent. -/
theorem reading_agrees :
    ∃ signature s₁ s₂ stage,
      (reading "y").eval (composeOwned ⟨1⟩ readingSite) = (.ok signature, s₁) ∧
      s₁.eval (beginRun ⟨1⟩ (.int 1) (some ⟨0⟩) ⟨0⟩) = (.ok (.ok ()), s₂) ∧
      (s₂.eval (resume ⟨1⟩)).2.stageAt? ⟨0⟩ 0 = some stage ∧
      stage.slot? = (reading "y").vars.find? ⟨0⟩ "x" := by
  have hok : ((reading "y").eval (composeOwned ⟨1⟩ readingSite)).1.isOk = true := by decide +kernel
  have hbegun : (((reading "y").eval (composeOwned ⟨1⟩ readingSite)).2.eval
      (beginRun ⟨1⟩ (.int 1) (some ⟨0⟩) ⟨0⟩)).1 = .ok (.ok ()) := by decide +kernel
  rcases heval : (reading "y").eval (composeOwned ⟨1⟩ readingSite) with ⟨_ | signature, s₁⟩
  · rw [heval] at hok
    cases hok
  · rw [heval] at hbegun
    obtain ⟨own, hpath, hunknown⟩ := at_reading "y"
    obtain ⟨stage, slot, hstage, -, hslot, -, hparent⟩ := slots_agree
      (.fresh (fresh_of_rows (by decide +kernel))) (closed_of_rows (by decide +kernel)) (by decide +kernel)
      (wellFormed_reading "y") (fun P hP => by cases hP; decide +kernel) rfl (by decide +kernel) heval
      (unshadowing_of_rows (by decide +kernel) _) (Prod.ext hbegun rfl) [.resume] hpath rfl
      (n := 0) rfl rfl
    refine ⟨signature, s₁, _, stage, rfl, Prod.ext hbegun rfl, hstage, ?_⟩
    rw [hslot, ← hparent hunknown]
    rfl

/-- Where the outer wire publishes a variable of the same name, the inner wire is linked to it for
its first run, too, although the path to that run does not know it. -/
theorem reading_rebinds :
    (∃ own, (reading "x").code.At ⟨1⟩ [0] ⟨0⟩ own ∧
        "x" ∉ own ∪ (reading "x").code.before [some (.get "x" none)] 0) ∧
      let s₁ := ((reading "x").eval (composeOwned ⟨1⟩ readingSite)).2
      let s₂ := (s₁.eval (beginRun ⟨1⟩ (.int 1) (some ⟨0⟩) ⟨0⟩)).2
      ((reading "x").eval (composeOwned ⟨1⟩ readingSite)).1.isOk = true ∧
        (s₁.eval (beginRun ⟨1⟩ (.int 1) (some ⟨0⟩) ⟨0⟩)).1 = .ok (.ok ()) ∧
        (s₂.stageAt? ⟨0⟩ 0).bind Stage.slot? =
          s₂.vars.own ((reading "x").vars.addScope (some ⟨0⟩)).1 "x" ∧
        (s₂.stageAt? ⟨0⟩ 0).bind Stage.slot? ≠ (reading "x").vars.find? ⟨0⟩ "x" := by
  exact ⟨at_reading "x", by decide +kernel⟩

end Store

end Dataflow
