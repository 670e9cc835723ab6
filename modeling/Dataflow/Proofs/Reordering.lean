import Dataflow.Proofs.Equivariance
import Dataflow.Proofs.Programs
import Mathlib.Data.String.Basic
/-!
# Declarations in another order

All wires of a program are declared before the first one is filled, so their order should not matter.
It does show in the store: the declared wires are in other rows, and behind them so are the wires of
their pipelines. This file shows that nothing else shows.

The argument is by transpositions. Two neighbouring declarations that change places swap two blocks
of new wires, whose sizes are known from the first evaluation. Evaluation then follows along this
renaming: the two declarations are filled on different stores than before, and those behind them on
stores of the same size. The rows of the declared wires are renamed first, for all declarations at
once, so that the names mean the same wires while blocks are swapped.
-/

namespace Dataflow

variable {H : Host} {declared declared' : List (Program.WireDecl × Id .wire)}
  {decls decls' : List Program.WireDecl} {drafts : List (Draft H)} {placed : List (Placed H)}
  {m n : Nat} {env : Environment H} {s' s t : Store H} {p : Program}
  {decl : Program.WireDecl} {f g : Renaming}

/-! ### Names in another order -/

/-- Different names can be bound in any order. -/
theorem upsert_comm {α : Type} {key key' : String} (h : key ≠ key') (a b : α)
    (entries : List (String × α)) :
    upsert key a (upsert key' b entries) = upsert key' b (upsert key a entries) := by
  induction entries with
  | nil =>
    rcases lt_or_gt_of_ne h with hlt | hlt
    · simp [upsert, h, h.symm, hlt, hlt.not_gt]
    · simp [upsert, h, h.symm, hlt, hlt.not_gt]
  | cons e rest ih =>
    -- by the places of both names before, at or behind the first entry
    grind [upsert]

theorem Environment.bindAll_perm (h : declared.Perm declared')
    (hnodup : (declared.map (·.1.name)).Nodup) (env : Environment H) :
    env.bindAll declared = env.bindAll declared' := by
  induction h generalizing env with
  | nil => rfl
  | cons e _ ih => exact ih (List.nodup_cons.1 hnodup).2 (env.bindWire e.1.name e.2)
  | swap x y declared =>
    have hne : x.1.name ≠ y.1.name := fun heq => (List.nodup_cons.1 hnodup).1 (by simp [heq])
    have hswap : (env.bindWire y.1.name y.2).bindWire x.1.name x.2 =
        (env.bindWire x.1.name x.2).bindWire y.1.name y.2 := by
      simp only [bindWire, upsert_comm hne]
    exact congrArg (bindAll · declared) hswap
  | trans h _ ih ih' => exact (ih hnodup env).trans (ih' ((h.map _).nodup_iff.1 hnodup) env)

/-! ### Constants and wires of a program -/

/-- Whether a declaration is that of a constant. -/
def Program.Item.isDefine : Item → Bool
  | .wire _ => false
  | .define .. => true

/-- The constants that a program declares, in order. -/
def Program.defines (p : Program) : List Item := p.items.filter Item.isDefine

theorem Program.mem_wires : decl ∈ p.wires ↔ .wire decl ∈ p.items := by
  rw [wires, List.mem_filterMap]
  constructor
  · rintro ⟨item, hitem, hdecl⟩
    cases item with
    | wire decl' =>
      cases hdecl
      exact hitem
    | define => cases hdecl
  · exact fun h => ⟨_, h, rfl⟩

namespace Environment

/-- Wires do not matter for constants. -/
theorem evalDefines_filter (items : List Program.Item) (env : Environment H) :
    evalDefines (items.filter Program.Item.isDefine) env = evalDefines items env := by
  induction items generalizing env with
  | nil => rfl
  | cons item items ih =>
    cases item with
    | wire decl =>
      rw [List.filter_cons_of_neg (by simp [Program.Item.isDefine]), evalDefines, ih]
    | define name value span =>
      rw [List.filter_cons_of_pos rfl, evalDefines, evalDefines]
      exact congrArg _ (funext fun v => ih (env.define name v))

theorem unclaimed_perm (h : decls.Perm decls') (hnames : Unclaimed [] decls) :
    Unclaimed [] decls' :=
  ⟨(h.map _).nodup_iff.1 hnames.1, fun _ _ => List.not_mem_nil⟩

end Environment

/-! ### Blocks of identities -/

/-- Where a row goes when the `p` rows from row `o` on and the `q` rows behind them change places. -/
def swapRow (o p q row : Nat) : Nat :=
  if row < o then row
  else if row < o + p then row + q
  else if row < o + p + q then row - p
  else row

theorem swapRow_swapRow (o p q row : Nat) : swapRow o q p (swapRow o p q row) = row := by
  simp only [swapRow]
  split_ifs <;> omega

/-- Two blocks of wires change places. -/
def Renaming.swapBlocks (o p q : Nat) : Renaming where
  toFun id := ⟨swapRow o p q id.row⟩
  invFun id := ⟨swapRow o q p id.row⟩
  left_inv id := congrArg Id.mk (swapRow_swapRow o p q id.row)
  right_inv id := congrArg Id.mk (swapRow_swapRow o q p id.row)

namespace Renaming

variable {o p q k : Nat}

theorem fixesBelow_swapBlocks (o p q : Nat) : (swapBlocks o p q).FixesBelow o :=
  fun _ hid => congrArg Id.mk (if_pos hid)

theorem swapBlocks_first (hk : k < p) : swapBlocks o p q ⟨o + k⟩ = ⟨o + q + k⟩ := by
  refine congrArg Id.mk ?_
  simp only [swapRow]
  split_ifs <;> omega

theorem swapBlocks_second (hk : k < q) : swapBlocks o p q ⟨o + p + k⟩ = ⟨o + k⟩ := by
  refine congrArg Id.mk ?_
  simp only [swapRow]
  split_ifs <;> omega

theorem swapBlocks_behind {id : Id .wire} (h : o + p + q ≤ id.row) : swapBlocks o p q id = id := by
  refine congrArg Id.mk ?_
  simp only [swapRow]
  split_ifs <;> omega

end Renaming

/-! ### Stores up to renaming -/

variable [H.Naming]

namespace Store

/-- The wires from a row on are those of another store, renamed. -/
structure Renamed (n : Nat) (f : Renaming) (s t : Store H) : Prop where
  size : t.wires.size = s.wires.size
  drafts : ∀ id : Id .wire, n ≤ id.row → t.draft? (f id) = (s.draft? id).map (Draft.rename f)

/-- The wires from a row on mention wires of the store only. -/
def SettledFrom (n : Nat) (s : Store H) : Prop :=
  ∀ id : Id .wire, n ≤ id.row → ∀ d, s.draft? id = some d → Settled Draft.rename s.wires.size d

namespace Renamed

variable {u : Store H}

theorem refl (n : Nat) (s : Store H) : s.Renamed n 1 s := by
  have hid : Draft.rename 1 = (id : Draft H → Draft H) := funext Draft.rename_one
  exact ⟨rfl, fun id _ => by simp [hid]⟩

theorem of_settled (hs : s.SettledFrom n) (hf : f.FixesBelow s.wires.size) : s.Renamed n f s := by
  refine ⟨rfl, fun id hid => ?_⟩
  cases hd : s.draft? id with
  | none =>
    exact draft?_eq_none_iff.2 (hf.le_row (draft?_eq_none_iff.1 hd))
  | some d =>
    rw [hf id (row_lt_of_draft? hd), hd, Option.map_some, hs id hid d hd f hf]

theorem trans (hst : s.Renamed n f t) (hf : f.FixesBelow n) (htu : t.Renamed n g u) :
    s.Renamed n (g * f) u := by
  refine ⟨htu.size.trans hst.size, fun id hid => ?_⟩
  rw [Equiv.Perm.mul_apply, htu.drafts (f id) (hf.le_row hid), hst.drafts id hid, Option.map_map]
  exact congrArg (Option.map · _) (funext fun d => (d.rename_mul g f).symm)

theorem fill (hst : s.Renamed n f t) (id : Id .wire) (placed : List (Placed H)) :
    (s.fill id placed).Renamed n f (t.fill (f id) (placed.map (Placed.rename f))) := by
  refine ⟨by simp [hst.size], fun id' hid' => ?_⟩
  rw [draft?_fill, draft?_fill, hst.drafts id' hid']
  by_cases h : id = id'
  · rw [if_pos (congrArg f h), if_pos h, Option.map_map, Option.map_map]
    exact congrArg (Option.map · _) (funext fun d => (d.rename_fill f placed).symm)
  · rw [if_neg (f.injective.ne h), if_neg h]

/-- New wires are those of the drafts that the renaming puts in their places. -/
theorem installAll (hst : s.Renamed n f t) {drafts' : List (Draft H)}
    (hlength : drafts'.length = drafts.length)
    (hdrafts : ∀ k j, f ⟨s.wires.size + k⟩ = ⟨t.wires.size + j⟩ →
      drafts'[j]? = drafts[k]?.map (Draft.rename f)) :
    (s.installAll drafts).Renamed n f (t.installAll drafts') := by
  refine ⟨by rw [size_installAll, size_installAll, hst.size, hlength], fun id hid => ?_⟩
  have hdraft := hst.drafts id hid
  -- a wire that was not there in one store was not there in the other
  cases hd : s.draft? id with
  | none =>
    rw [hd, Option.map_none] at hdraft
    obtain ⟨k, rfl⟩ := exists_eq_of_le_row (draft?_eq_none_iff.1 hd)
    obtain ⟨j, hj⟩ := exists_eq_of_le_row (draft?_eq_none_iff.1 hdraft)
    rw [hj, draft?_installAll, draft?_installAll, hdrafts k j hj]
  | some d =>
    rw [hd, Option.map_some] at hdraft
    rw [draft?_installAll_of_lt t drafts' (row_lt_of_draft? hdraft),
      draft?_installAll_of_lt s drafts (row_lt_of_draft? hd), hdraft, hd, Option.map_some]

/-- New wires are added in two blocks, in either order. -/
theorem installAll_swap (hs : s.SettledFrom n) (drafts drafts' : List (Draft H)) :
    (s.installAll (drafts ++ drafts')).Renamed n
      (.swapBlocks s.wires.size drafts.length drafts'.length)
      (s.installAll ((drafts' ++ drafts).map
        (Draft.rename (.swapBlocks s.wires.size drafts.length drafts'.length)))) := by
  refine (of_settled hs (Renaming.fixesBelow_swapBlocks _ _ _)).installAll ?_ fun k j hkj => ?_
  · simp [Nat.add_comm]
  rw [List.getElem?_map]
  refine congrArg (Option.map _) ?_
  rcases Nat.lt_or_ge k drafts.length with hk | hk
  · rw [Renaming.swapBlocks_first hk] at hkj
    have hrow := congrArg Id.row hkj
    obtain rfl : j = drafts'.length + k := by simp only at hrow; omega
    rw [List.getElem?_append_left hk, List.getElem?_append_right (Nat.le_add_right _ _),
      Nat.add_sub_cancel_left]
  obtain ⟨k, rfl⟩ := Nat.exists_eq_add_of_le hk
  rw [List.getElem?_append_right (Nat.le_add_right _ _), Nat.add_sub_cancel_left]
  rcases Nat.lt_or_ge k drafts'.length with hk | hk
  · rw [← Nat.add_assoc, Renaming.swapBlocks_second hk] at hkj
    obtain rfl : k = j := Nat.add_left_cancel (congrArg Id.row hkj)
    rw [List.getElem?_append_left hk]
  · rw [Renaming.swapBlocks_behind (by simp only; omega)] at hkj
    obtain rfl : _ = j := Nat.add_left_cancel (congrArg Id.row hkj)
    rw [List.getElem?_eq_none hk, List.getElem?_eq_none (by rw [List.length_append]; omega)]

end Renamed

namespace SettledFrom

theorem installAll (hs : s.SettledFrom n)
    (hdrafts : ∀ d ∈ drafts, Settled Draft.rename (s.installAll drafts).wires.size d) :
    (s.installAll drafts).SettledFrom n := by
  intro id hid d hd
  by_cases hrow : id.row < s.wires.size
  · rw [draft?_installAll_of_lt s drafts hrow] at hd
    refine (hs id hid d hd).mono ?_
    rw [size_installAll]
    exact Nat.le_add_right _ _
  · obtain ⟨k, rfl⟩ := exists_eq_of_le_row (Nat.le_of_not_lt hrow)
    rw [draft?_installAll] at hd
    exact hdrafts d (List.mem_of_getElem? hd)

theorem fill (hs : s.SettledFrom n) (id : Id .wire)
    (hplaced : Settled (fun f => List.map (Placed.rename f)) s.wires.size placed) :
    (s.fill id placed).SettledFrom n := by
  intro id' hid' d hd
  rw [size_fill]
  rw [draft?_fill] at hd
  split at hd
  · obtain ⟨d, hdraft, rfl⟩ := Option.map_eq_some_iff.1 hd
    intro f hf
    have hsame : placed.map (Placed.rename f) = placed := hplaced f hf
    rw [Draft.rename_fill, hs id' hid' d hdraft f hf, hsame]
  · exact hs id' hid' d hd

end SettledFrom

end Store

namespace Environment

/-! ### Filling in another order -/

/-- A declared wire under another identity. -/
def renamePair (f : Renaming) (e : Program.WireDecl × Id .wire) : Program.WireDecl × Id .wire :=
  (e.1.rename f, f e.2)

/-- A declared wire is before a row, and so are all that its calls mention. -/
structure Within (m : Nat) (e : Program.WireDecl × Id .wire) : Prop where
  row : e.2.row < m
  calls : Settled Program.Call.renameAll m e.1.calls

theorem map_renamePair_eq (h : ∀ e ∈ declared, Within m e) (hf : f.FixesBelow m) :
    declared.map (renamePair f) = declared := by
  refine map_eq_self_iff.2 fun e he => ?_
  rw [renamePair, Program.WireDecl.rename, (h e he).calls f hf, hf e.2 (h e he).row]

/-- Filling commutes with a renaming of wires that are there. -/
theorem fillWires_renamed (hst : s.Renamed n f t)
    (hf : ∀ id : Id .wire, s.wires.size ≤ id.row → f id = id)
    (h : s.eval (fillWires env declared) = (.ok (), s')) :
    ∃ t', t.eval (fillWires (env.rename f) (declared.map (renamePair f))) = (.ok (), t') ∧
      s'.Renamed n f t' := by
  induction declared generalizing s t with
  | nil =>
    cases h
    exact ⟨t, rfl, hst⟩
  | cons e declared ih =>
    obtain ⟨decl, id⟩ := e
    obtain ⟨placed, drafts, hplaced, hrest⟩ := fillWires_cons_ok h
    have hmove (k : Nat) : f ⟨s.wires.size + k⟩ = ⟨t.wires.size + k⟩ := by
      rw [hf _ (Nat.le_add_right _ k), hst.size]
    have hplaced' := (tracks_placeAll f env decl.calls).eval hplaced fun k _ => hmove k
    have hst' : (s.installAll drafts).Renamed n f (t.installAll (drafts.map (Draft.rename f))) := by
      refine hst.installAll (List.length_map _) fun k j hkj => ?_
      rw [hmove] at hkj
      rw [← Nat.add_left_cancel (congrArg Id.row hkj), List.getElem?_map]
    obtain ⟨t', ht', hst'⟩ := ih (hst'.fill id placed) (fun id' hid' => hf id' (by
      rw [Store.size_fill, Store.size_installAll] at hid'
      omega)) hrest
    refine ⟨t', ?_, hst'⟩
    rw [List.map_cons, renamePair, eval_fillWires_cons hplaced']
    exact ht'

/-- What the calls of a declaration make somewhere else. -/
theorem placeAll_moved {calls : List Program.Call} (henv : Settled rename m env)
    (hcalls : Settled Program.Call.renameAll m calls) (hf : f.FixesBelow m)
    (h : s.eval (placeAll env calls) = (.ok placed, s.installAll drafts))
    (hmove : ∀ k < drafts.length, f ⟨s.wires.size + k⟩ = ⟨t.wires.size + k⟩) :
    t.eval (placeAll env calls) =
      (.ok (placed.map (Placed.rename f)), t.installAll (drafts.map (Draft.rename f))) := by
  have htracks := (tracks_placeAll f env calls).eval h hmove
  rwa [henv f hf, hcalls f hf] at htracks

/-- The calls of a declaration mention what they were given and what they have made. -/
theorem placeAll_settled {calls : List Program.Call} (henv : Settled rename m env)
    (hcalls : Settled Program.Call.renameAll m calls) (hm : m ≤ s.wires.size)
    (h : s.eval (placeAll env calls) = (.ok placed, s.installAll drafts)) :
    Settled (fun f => List.map (Placed.rename f)) (s.installAll drafts).wires.size placed ∧
      ∀ d ∈ drafts, Settled Draft.rename (s.installAll drafts).wires.size d := by
  have htracks (f : Renaming) (hf : f.FixesBelow m) :
      Tracks f (List.map (Placed.rename f)) (placeAll env calls) (placeAll env calls) := by
    have htracks := tracks_placeAll f env calls
    rwa [henv f hf, hcalls f hf] at htracks
  obtain ⟨drafts', heq, hsettled⟩ := settled_of_tracks htracks hm h
  obtain rfl := Store.installAll_inj heq
  exact hsettled

/-- The two blocks of new wires that two declarations make change places. -/
theorem fillWires_swap (henv : Settled rename m env) {x y : Program.WireDecl × Id .wire}
    (hdeclared : ∀ e ∈ x :: y :: declared, Within m e) (hxy : x.2 ≠ y.2) (hs : s.SettledFrom n)
    (hm : m ≤ s.wires.size) (h : s.eval (fillWires env (x :: y :: declared)) = (.ok (), s')) :
    ∃ (f : Renaming) (t' : Store H), f.FixesBelow s.wires.size ∧
      s.eval (fillWires env (y :: x :: declared)) = (.ok (), t') ∧ s'.Renamed n f t' := by
  obtain ⟨xdecl, xid⟩ := x
  obtain ⟨ydecl, yid⟩ := y
  obtain ⟨hx, hy, hdeclared⟩ : Within m (xdecl, xid) ∧ Within m (ydecl, yid) ∧
      ∀ e ∈ declared, Within m e := by simpa using hdeclared
  obtain ⟨px, dx, hpx, hrest⟩ := fillWires_cons_ok h
  obtain ⟨py, dy, hpy, hrest⟩ := fillWires_cons_ok hrest
  let f : Renaming := .swapBlocks s.wires.size dx.length dy.length
  have hf : f.FixesBelow s.wires.size := Renaming.fixesBelow_swapBlocks _ _ _
  -- the second declaration is filled where the first one was
  have hpy' : s.eval (placeAll env ydecl.calls) = _ :=
    placeAll_moved henv hy.calls (hf.mono hm) hpy fun k hk => by
      rw [Store.size_fill, Store.size_installAll]
      exact Renaming.swapBlocks_second hk
  -- and the first one behind it
  let sy := (s.installAll (dy.map (Draft.rename f))).fill yid (py.map (Placed.rename f))
  have hpx' : sy.eval (placeAll env xdecl.calls) = _ :=
    placeAll_moved henv hx.calls (hf.mono hm) hpx fun k hk => by
      rw [Store.size_fill, Store.size_installAll, List.length_map]
      exact Renaming.swapBlocks_first hk
  have hrenamed : ((((s.installAll dx).fill xid px).installAll dy).fill yid py).Renamed n f
      ((sy.installAll (dx.map (Draft.rename f))).fill xid (px.map (Placed.rename f))) := by
    have hswap := ((Store.Renamed.installAll_swap hs dx dy).fill xid px).fill yid py
    have hxs : xid.row < s.wires.size := Nat.lt_of_lt_of_le hx.row hm
    have hys : yid.row < s.wires.size := Nat.lt_of_lt_of_le hy.row hm
    rw [hf xid hxs, hf yid hys, List.map_append, Store.installAll_append,
      Store.installAll_append] at hswap
    rw [Store.installAll_fill _ _ (by rw [Store.size_installAll]; omega),
      Store.installAll_fill _ _ (by rw [Store.size_installAll]; omega), Store.fill_comm _ hxy.symm]
    exact hswap
  obtain ⟨t', ht', hst'⟩ := fillWires_renamed hrenamed (fun id hid => by
    rw [Store.size_fill, Store.size_installAll, Store.size_fill, Store.size_installAll] at hid
    exact Renaming.swapBlocks_behind hid) hrest
  rw [henv f (hf.mono hm), map_renamePair_eq hdeclared (hf.mono hm)] at ht'
  refine ⟨f, t', hf, ?_, hst'⟩
  rw [eval_fillWires_cons hpy', eval_fillWires_cons hpx', ht']

/-- Declared wires can be filled in any order: the wires of their pipelines then have other
identities. -/
theorem fillWires_perm (henv : Settled rename m env) (hperm : declared.Perm declared')
    (hdeclared : ∀ e ∈ declared, Within m e) (hnodup : (declared.map (·.2)).Nodup)
    (hs : s.SettledFrom n) (hn : n ≤ m) (hm : m ≤ s.wires.size)
    (h : s.eval (fillWires env declared) = (.ok (), s')) :
    ∃ (f : Renaming) (t' : Store H), f.FixesBelow s.wires.size ∧
      s.eval (fillWires env declared') = (.ok (), t') ∧ s'.Renamed n f t' := by
  induction hperm generalizing s s' with
  | nil =>
    cases h
    exact ⟨1, s', Renaming.fixesBelow_one _, rfl, .refl n s'⟩
  | cons e _ ih =>
    obtain ⟨decl, id⟩ := e
    obtain ⟨he, hdeclared⟩ := List.forall_mem_cons.1 hdeclared
    obtain ⟨placed, drafts, hplaced, hrest⟩ := fillWires_cons_ok h
    obtain ⟨hsplaced, hsdrafts⟩ := placeAll_settled henv he.calls hm hplaced
    have hsize : s.wires.size ≤ ((s.installAll drafts).fill id placed).wires.size := by
      rw [Store.size_fill, Store.size_installAll]
      omega
    obtain ⟨f, t', hf, ht', hst'⟩ := ih hdeclared (List.nodup_cons.1 hnodup).2
      ((hs.installAll hsdrafts).fill id hsplaced) (hm.trans hsize) hrest
    refine ⟨f, t', hf.mono hsize, ?_, hst'⟩
    rw [eval_fillWires_cons hplaced, ht']
  | swap x y declared =>
    refine fillWires_swap henv hdeclared (fun heq => ?_) hs hm h
    exact (List.nodup_cons.1 hnodup).1 (by simp [heq])
  | trans hperm _ ih ih' =>
    obtain ⟨f, t, hf, ht, hst⟩ := ih hdeclared hnodup hs hm h
    obtain ⟨g, u, hg, hu, htu⟩ := ih' (fun e he => hdeclared e (hperm.mem_iff.2 he))
      ((hperm.map _).nodup_iff.1 hnodup) hs hm ht
    exact ⟨g * f, u, hg.mul hf, hu, hst.trans (hf.mono (hn.trans hm)) htu⟩

/-! ### Declaring in another order -/

theorem rename_bindAll (f : Renaming) (env : Environment H)
    (declared : List (Program.WireDecl × Id .wire)) :
    (env.bindAll declared).rename f =
      (env.rename f).bindAll (declared.map fun e => (e.1, f e.2)) := by
  induction declared generalizing env with
  | nil => rfl
  | cons e declared ih =>
    refine (ih (env.bindWire e.1.name e.2)).trans ?_
    rw [rename_bindWire]
    rfl

/-- Declarations in another order get their identities in another order. -/
theorem numbered_perm (h : decls.Perm decls') (n : Nat) :
    ∃ g : Renaming, g.FixesBelow n ∧
      (∀ id : Id .wire, n + decls.length ≤ id.row → g id = id) ∧
      ((numbered n decls).map fun e => (e.1, g e.2)).Perm (numbered n decls') := by
  induction h generalizing n with
  | nil => exact ⟨1, Renaming.fixesBelow_one n, fun _ _ => rfl, .nil⟩
  | cons decl _ ih =>
    obtain ⟨g, hg, hbehind, hperm⟩ := ih (n + 1)
    refine ⟨g, hg.mono (Nat.le_succ n), fun id hid => hbehind id ?_, ?_⟩
    · rw [List.length_cons] at hid
      omega
    · rw [numbered, numbered, List.map_cons, hg ⟨n⟩ (Nat.lt_succ_self n)]
      exact hperm.cons _
  | swap x y decls =>
    have hbehind (id : Id .wire) (hid : n + 2 ≤ id.row) : Renaming.swapBlocks n 1 1 id = id :=
      Renaming.swapBlocks_behind hid
    refine ⟨.swapBlocks n 1 1, Renaming.fixesBelow_swapBlocks n 1 1, fun id hid => hbehind id ?_, ?_⟩
    · simp only [List.length_cons] at hid
      omega
    · have hfirst : Renaming.swapBlocks n 1 1 ⟨n⟩ = ⟨n + 1⟩ :=
        Renaming.swapBlocks_first (Nat.zero_lt_one)
      have hsecond : Renaming.swapBlocks n 1 1 ⟨n + 1⟩ = ⟨n⟩ :=
        Renaming.swapBlocks_second (Nat.zero_lt_one)
      have hrest : (numbered (n + 1 + 1) decls).map (fun e => (e.1, Renaming.swapBlocks n 1 1 e.2)) =
          numbered (n + 1 + 1) decls := by
        refine map_eq_self_iff.2 fun e he => ?_
        obtain ⟨k, -, hk⟩ := mem_numbered he
        rw [hbehind e.2 (by rw [hk]; exact Nat.le_add_right _ k)]
      simp only [numbered, List.map_cons, hfirst, hsecond, hrest]
      exact .swap _ _ _
  | trans h _ ih ih' =>
    obtain ⟨g, hg, hbehind, hperm⟩ := ih n
    obtain ⟨g', hg', hbehind', hperm'⟩ := ih' n
    refine ⟨g' * g, hg'.mul hg, fun id hid => ?_, ?_⟩
    · rw [Equiv.Perm.mul_apply, hbehind id hid, hbehind' id (by rwa [← h.length_eq])]
    · have hmap := (hperm.map fun e => (e.1, g' e.2)).trans hperm'
      rwa [List.map_map] at hmap

/-- The declared wires before they are filled. -/
theorem renamed_blank (hdecls : decls.Perm decls') (hs : s.SettledFrom n)
    (hg : g.FixesBelow s.wires.size)
    (hbehind : ∀ id : Id .wire, s.wires.size + decls.length ≤ id.row → g id = id)
    (hperm : ((numbered s.wires.size decls).map fun e => (e.1, g e.2)).Perm
      (numbered s.wires.size decls')) :
    (s.installAll (decls.map blank)).Renamed n g (s.installAll (decls'.map blank)) := by
  refine (Store.Renamed.of_settled hs hg).installAll (by simp [hdecls.length_eq]) fun k j hkj => ?_
  have hdecl : decls'[j]? = decls[k]? := by
    cases hk : decls[k]? with
    | none =>
      have hlength := List.getElem?_eq_none_iff.1 hk
      rw [hbehind _ (Nat.add_le_add_left hlength _)] at hkj
      rw [← Nat.add_left_cancel (congrArg Id.row hkj)]
      exact List.getElem?_eq_none (hdecls.length_eq ▸ hlength)
    | some decl =>
      have hmem := hperm.mem_iff.1 (List.mem_map_of_mem (mem_numbered_of_getElem? s.wires.size hk))
      rw [hkj] at hmem
      obtain ⟨j', hj', hid⟩ := mem_numbered hmem
      rw [Nat.add_left_cancel (congrArg Id.row hid), hj']
  rw [List.getElem?_map, List.getElem?_map, hdecl, Option.map_map]
  rfl

/-- Declared wires come directly behind the wires that there were. -/
theorem within_numbered (hcalls : ∀ decl ∈ decls, Settled Program.Call.renameAll n decl.calls)
    {e : Program.WireDecl × Id .wire} (he : e ∈ numbered n decls) :
    Within (n + decls.length) e := by
  obtain ⟨k, hk, hid⟩ := mem_numbered he
  refine ⟨?_, (hcalls e.1 (List.mem_of_getElem? hk)).mono (Nat.le_add_right _ _)⟩
  rw [hid]
  exact Nat.add_lt_add_left (List.getElem?_eq_some_iff.1 hk).1 n

theorem settled_bindAll (henv : Settled rename n env) (hn : n ≤ m)
    (hdeclared : ∀ e ∈ declared, Within m e) : Settled rename m (env.bindAll declared) := by
  intro f hf
  rw [rename_bindAll, henv f (hf.mono hn)]
  refine congrArg env.bindAll (map_eq_self_iff.2 fun e he => ?_)
  rw [hf e.2 (hdeclared e he).row]

/-- Names mean the same wires if a renaming puts these in their places. -/
theorem rename_bindAll_numbered (hnames : Unclaimed [] decls) (henv : Settled rename n env)
    (hf : f.FixesBelow n)
    (hperm : ((numbered n decls).map fun e => (e.1, f e.2)).Perm (numbered n decls')) :
    (env.bindAll (numbered n decls)).rename f = env.bindAll (numbered n decls') := by
  have hnodup : (((numbered n decls).map fun e => (e.1, f e.2)).map (·.1.name)).Nodup := by
    have hnames := hnames.1
    rw [← map_fst_numbered n decls, List.map_map] at hnames
    rw [List.map_map]
    exact hnames
  rw [rename_bindAll, henv f hf, bindAll_perm hperm hnodup]

/-- Wires that are declared and filled in another order are the same up to their identities. -/
theorem declared_perm (hdecls : decls.Perm decls') (hnames : Unclaimed [] decls)
    (hn : n ≤ s.wires.size) (hs : s.SettledFrom n) (henv : Settled rename s.wires.size env)
    (hcalls : ∀ decl ∈ decls, Settled Program.Call.renameAll s.wires.size decl.calls)
    (h : (s.installAll (decls.map blank)).eval
      (fillWires (env.bindAll (numbered s.wires.size decls)) (numbered s.wires.size decls)) =
        (.ok (), s')) :
    ∃ (f : Renaming) (t' : Store H), f.FixesBelow s.wires.size ∧
      (env.bindAll (numbered s.wires.size decls)).rename f =
        env.bindAll (numbered s.wires.size decls') ∧
      (s.installAll (decls'.map blank)).eval
        (fillWires (env.bindAll (numbered s.wires.size decls')) (numbered s.wires.size decls')) =
          (.ok (), t') ∧ s'.Renamed n f t' := by
  obtain ⟨g, hg, hbehind, hperm⟩ := numbered_perm hdecls s.wires.size
  have hsize : (s.installAll (decls'.map blank)).wires.size = s.wires.size + decls'.length := by
    rw [Store.size_installAll, List.length_map]
  have hwithin (e : Program.WireDecl × Id .wire) (he : e ∈ numbered s.wires.size decls') :
      Within (s.wires.size + decls'.length) e :=
    within_numbered (fun decl hdecl => hcalls decl (hdecls.mem_iff.2 hdecl)) he
  -- first the declared wires change places, then the wires of their pipelines
  obtain ⟨t, ht, hst⟩ := fillWires_renamed (renamed_blank hdecls hs hg hbehind hperm)
    (fun id hid => hbehind id (by rwa [Store.size_installAll, List.length_map] at hid)) h
  have hpairs : (numbered s.wires.size decls).map (renamePair g) =
      (numbered s.wires.size decls).map fun e => (e.1, g e.2) := by
    refine List.map_congr_left fun e he => ?_
    obtain ⟨k, hk, -⟩ := mem_numbered he
    rw [renamePair, Program.WireDecl.rename, hcalls e.1 (List.mem_of_getElem? hk) g hg]
  rw [rename_bindAll_numbered hnames henv hg hperm, hpairs] at ht
  obtain ⟨f, t', hf, ht', htt'⟩ := fillWires_perm
    (settled_bindAll henv (Nat.le_add_right _ _) hwithin) hperm
    (fun e he => hwithin e (hperm.mem_iff.1 he))
    ((hperm.map _).nodup_iff.2 (nodup_numbered _ decls'))
    (hs.installAll fun d hd => by
      obtain ⟨decl, -, rfl⟩ := List.mem_map.1 hd
      exact fun _ _ => rfl)
    (hn.trans (Nat.le_add_right _ _)) hsize.ge ht
  have hf' : f.FixesBelow s.wires.size := hf.mono (hsize ▸ Nat.le_add_right _ _)
  have hplaces : (numbered s.wires.size decls).map (fun e => (e.1, (f * g) e.2)) =
      (numbered s.wires.size decls).map fun e => (e.1, g e.2) := by
    refine List.map_congr_left fun e he => ?_
    have hrow := (hwithin _ (hperm.mem_iff.1 (List.mem_map_of_mem he))).row
    rw [Equiv.Perm.mul_apply, hf (g e.2) (by rwa [hsize])]
  exact ⟨f * g, t', hf'.mul hg, rename_bindAll_numbered hnames henv (hf'.mul hg) (hplaces ▸ hperm),
    ht', hst.trans (hg.mono hn) htt'⟩

end Environment

/-! ### Programs -/

/-- All that a settled program declares is settled. -/
theorem Program.rename_of_mem (hp : Settled rename n p) {item : Item} (h : item ∈ p.items) :
    Settled Item.rename n item := by
  intro f hf
  have hitems : p.items.map (Item.rename f) = p.items := congrArg Program.items (hp f hf)
  exact map_eq_self_iff.1 hitems item h

theorem Program.settled_of_perm {q : Program} (h : p.items.Perm q.items) (hp : Settled rename n p) :
    Settled rename n q := by
  intro f hf
  refine congrArg Program.mk (map_eq_self_iff.2 fun item hitem => ?_)
  exact rename_of_mem hp (h.mem_iff.2 hitem) f hf

theorem Program.settled_calls (hp : Settled rename n p) (h : decl ∈ p.wires) :
    Settled Call.renameAll n decl.calls := by
  intro f hf
  have hitem : Item.rename f (.wire decl) = .wire decl := rename_of_mem hp (mem_wires.1 h) f hf
  exact congrArg WireDecl.calls (Item.wire.inj hitem)

namespace Environment

/-- The constants of a program mention only wires that there are. -/
theorem settled_evalDefines {env₁ : Environment H} {s₁ : Store H}
    (henv : Settled rename s.wires.size env) (hp : Settled Program.rename s.wires.size p)
    (h : s.eval (evalDefines p.items env) = (.ok env₁, s₁)) :
    s.wires.size ≤ s₁.wires.size ∧ Settled rename s₁.wires.size env₁ ∧
      s₁.SettledFrom s.wires.size := by
  have htracks (f : Renaming) (hf : f.FixesBelow s.wires.size) :
      Tracks f (rename f) (evalDefines p.items env) (evalDefines p.items env) := by
    have hsame : p.items.map (Program.Item.rename f) = p.items := congrArg Program.items (hp f hf)
    have htracks := tracks_evalDefines f p.items env
    rwa [henv f hf, hsame] at htracks
  obtain ⟨drafts, rfl, hsettled, hdrafts⟩ := settled_of_tracks htracks (Nat.le_refl _) h
  have hempty : s.SettledFrom s.wires.size := fun id hid d hd =>
    absurd (Store.row_lt_of_draft? hd) (Nat.not_lt_of_le hid)
  refine ⟨?_, hsettled, hempty.installAll hdrafts⟩
  rw [Store.size_installAll]
  exact Nat.le_add_right _ _

/-- A program whose declarations come in another order, the constants in the same, makes the same
wires up to their identities. -/
theorem eval_reordered {envA : Environment H} {a b : Program} {tA : Store H}
    (hitems : a.items.Perm b.items) (hdefines : a.defines = b.defines)
    (henv : Settled rename s.wires.size env) (ha : Settled Program.rename s.wires.size a)
    (h : s.eval (env.eval a) = (.ok envA, tA)) :
    ∃ (f : Renaming) (tB : Store H), f.FixesBelow s.wires.size ∧
      s.eval (env.eval b) = (.ok (envA.rename f), tB) ∧ tA.Renamed s.wires.size f tB := by
  obtain ⟨env₁, s₁, hconstants, hnames, rfl, hfill⟩ := eval_eq_ok_iff.1 h
  obtain ⟨hsize, henv₁, hs₁⟩ := settled_evalDefines henv ha hconstants
  have hwires : a.wires.Perm b.wires := hitems.filterMap _
  obtain ⟨f, tB, hf, hnamesB, hfillB, hst⟩ := declared_perm hwires hnames hsize hs₁ henv₁
    (fun decl hdecl => (Program.settled_calls ha hdecl).mono hsize) hfill
  have hconstantsB : s.eval (evalDefines b.items env) = (.ok env₁, s₁) := by
    rw [← evalDefines_filter, ← Program.defines, ← hdefines, Program.defines, evalDefines_filter,
      hconstants]
  refine ⟨f, tB, hf.mono hsize, ?_, hst⟩
  exact eval_eq_ok_iff.2 ⟨env₁, s₁, hconstantsB, unclaimed_perm hwires hnames, hnamesB,
    by rw [hnamesB, hfillB]⟩

/-- Environments mention only wires that there are, and evaluation keeps it so. -/
theorem settled_evalInto (henv : Settled rename s.wires.size env)
    (hp : Settled Program.rename s.wires.size p) :
    Settled rename ((env.evalInto p).run s).2.wires.size ((env.evalInto p).run s).1.2 := by
  obtain ⟨r, drafts, hr, -⟩ := eval_program env p s
  cases r with
  | error e =>
    rw [evalInto_of_error hr, Store.size_installAll]
    exact henv.mono (Nat.le_add_right _ _)
  | ok env' =>
    rw [evalInto_of_ok hr]
    obtain ⟨env₁, s₁, hconstants, -, rfl, hfill⟩ := eval_eq_ok_iff.1 hr
    obtain ⟨hsize, henv₁, -⟩ := settled_evalDefines henv hp hconstants
    have hgrown := size_le_of_fillWires hfill
    rw [Store.size_installAll, List.length_map] at hgrown
    exact (settled_bindAll henv₁ (Nat.le_add_right _ _) fun e he => within_numbered
      (fun decl hdecl => (Program.settled_calls hp hdecl).mono hsize) he).mono hgrown

/-- Declarations may come in any order, as long as the constants stay in theirs. Where nothing that
is given mentions wires that there are not, one program can be evaluated if and only if the other
can, and they give the same environment and the same new wires up to the identities of these: the
names, the looped flags, the stages with their parameters, and which wire they refer to. -/
theorem declarations_in_any_order (env : Environment H) {a b : Program}
    (hitems : a.items.Perm b.items) (hdefines : a.defines = b.defines) (s : Store H)
    (henv : Settled rename s.wires.size env) (ha : Settled Program.rename s.wires.size a) :
    let outA := (env.evalInto a).run s
    let outB := (env.evalInto b).run s
    (outA.1.1 = .ok () ↔ outB.1.1 = .ok ()) ∧
      (outA.1.1 = .ok () → ∃ (f : Renaming) (drafts drafts' : List (Draft H)),
        f.FixesBelow s.wires.size ∧ outB.1.2 = outA.1.2.rename f ∧
        outA.2 = s.installAll drafts ∧ outB.2 = s.installAll drafts' ∧
        outA.2.Renamed s.wires.size f outB.2) := by
  intro outA outB
  refine ⟨⟨fun hok => ?_, fun hok => ?_⟩, fun hok => ?_⟩
  · obtain ⟨envA, drafts, hA⟩ := eval_of_evalInto_ok hok
    obtain ⟨f, tB, -, hB, -⟩ := eval_reordered hitems hdefines henv ha hA
    rw [show outB = _ from evalInto_of_ok hB]
  · obtain ⟨envB, drafts, hB⟩ := eval_of_evalInto_ok hok
    obtain ⟨f, tA, -, hA, -⟩ := eval_reordered hitems.symm hdefines.symm henv
      (Program.settled_of_perm hitems ha) hB
    rw [show outA = _ from evalInto_of_ok hA]
  · obtain ⟨envA, drafts, hA⟩ := eval_of_evalInto_ok hok
    obtain ⟨f, tB, hf, hB, hAB⟩ := eval_reordered hitems hdefines henv ha hA
    obtain ⟨r, drafts', hr, -⟩ := eval_program env b s
    obtain ⟨rfl, rfl⟩ := Prod.mk.inj (hB.symm.trans hr)
    rw [show outA = _ from evalInto_of_ok hA, show outB = _ from evalInto_of_ok hB]
    exact ⟨f, drafts, drafts', hf, rfl, rfl, rfl, hAB⟩

/-- An environment of the built-in stages and a unit that takes a wire. -/
def stocked : Environment Script.host :=
  { registry := Registry.standard.registerCore
      (.unit (.actor { params := some [(⟨"Target", "", [.wire]⟩, .nothing)] })) }

/-- A wire for others to refer to. -/
def groundwork : Program :=
  ⟨[.wire ⟨"base", false, [.mk "Const" [.mk none (.literal (.int 1))] {}], {}⟩]⟩

/-- A wire with two pipelines in it, one of which refers to a wire that is declared later. -/
def outer : Program.Item :=
  .wire ⟨"outer", false,
    [.mk "Do" [.mk none (.pipeline [.mk "Mock" [.mk (some "Target") (.wire "inner")] {}])] {},
      .mk "Do" [.mk none (.pipeline [.mk "Do" [.mk none (.wire "base")] {}])] {}], {}⟩

/-- A constant that is a pipeline. -/
def step : Program.Item :=
  .define "step" (.pipeline [.mk "Math.Add" [.mk none (.literal (.int 3))] {}]) {}

/-- A looped wire with a pipeline in it. -/
def inner : Program.Item :=
  .wire ⟨"inner", true,
    [.mk "Do" [.mk none (.pipeline [.mk "Do" [.mk none (.wire "outer")] {}])] {},
      .mk "Do" [.mk none (.constant "step")] {}], {}⟩

/-- What there is when the wires are declared. -/
def ready : (Except EvalError PUnit × Environment Script.host) × Store Script.host :=
  (stocked.evalInto groundwork).run {}

theorem settled_ready : Settled rename ready.2.wires.size ready.1.2 := by
  have hstocked : Settled rename 0 stocked := by
    intro f _
    have hregistry : stocked.registry.rename f = stocked.registry := by
      rw [stocked, Registry.rename_registerCore, Registry.rename_standard]
      rfl
    rw [rename, hregistry]
    rfl
  exact settled_evalInto hstocked fun _ _ => rfl

/-- The wires have other identities and are the same otherwise. -/
theorem knot_in_any_order :
    let outA := (ready.1.2.evalInto ⟨[outer, step, inner]⟩).run ready.2
    let outB := (ready.1.2.evalInto ⟨[inner, outer, step]⟩).run ready.2
    outA.1.1 = .ok () ∧ outB.1.1 = .ok () ∧
      outA.1.2.findWire? "outer" = some ⟨2⟩ ∧ outB.1.2.findWire? "outer" = some ⟨3⟩ ∧
      ∃ f : Renaming, f.FixesBelow ready.2.wires.size ∧ outB.1.2 = outA.1.2.rename f ∧
        outA.2.Renamed ready.2.wires.size f outB.2 := by
  have hperm : [outer, step, inner].Perm [inner, outer, step] :=
    (List.perm_append_comm : ([outer, step] ++ [inner]).Perm ([inner] ++ [outer, step]))
  have horder := declarations_in_any_order ready.1.2 (a := ⟨[outer, step, inner]⟩)
    (b := ⟨[inner, outer, step]⟩) hperm rfl ready.2 settled_ready fun _ _ => rfl
  have hok : ((ready.1.2.evalInto ⟨[outer, step, inner]⟩).run ready.2).1.1 = .ok () :=
    eq_ok_of_isOk (by decide +kernel)
  obtain ⟨f, -, -, hf, hnames, -, -, hwires⟩ := horder.2 hok
  exact ⟨hok, horder.1.1 hok, by decide +kernel, by decide +kernel, f, hf, hnames, hwires⟩

end Environment

end Dataflow
