import Dataflow.Proofs.Keys
import Dataflow.Proofs.Mirror
/-!
# Compositions that mirror each other

A wire that is composed by the caller who holds it, and one that is composed for a mesh, go through
the same stages with the same variables in sight, but resolve channels on different boards. The board
is part of every key, so the two compositions leave different keys in their memos. They answer the
same all the same: a memo that answers a request of the one answers that of the other, unless hashes
collide, and also if no wire is asked for twice.

The caller who holds a wire has not entered it, and a mesh has. That makes a difference only to wires
that run the wire itself.
-/

namespace Dataflow

variable {H : Host} {q r q' r' : Request} {site site' : Site} {st : Stage H} {w w' : Wire H}
  {asked asked' : List Request} {j : Id .wire} {m m' : Option Memo} {wireInput : Ty} {b : Dataflow.Bound}

/-- The plan of a stage tells its kin. -/
theorem Stage.kin_of_plan? {st' : Stage H} (h : st.plan? = st'.plan?) : st.kin = st'.kin := by
  have hbuilt : ∀ st : Stage H, st.isBuiltIn = st.plan?.isSome := by
    intro st
    unfold plan?
    split <;> simp_all
  rw [kin, kin, hbuilt, hbuilt, nested?_eq, nested?_eq st', h]

/-- Where all wires have the same stages, they have the same content. -/
theorem Store.contentHash_of_stages {s t : Store H}
    (h : ∀ j, (t.wires.get? j).map (·.stages) = (s.wires.get? j).map (·.stages))
    (locked : List (Id .wire)) (depth : Nat) (visiting : List (Id .wire))
    (hw : w'.stages = w.stages) :
    t.contentHash locked depth visiting w' = s.contentHash locked depth visiting w := by
  induction depth generalizing visiting w w' with
  | zero => rfl
  | succ depth ih =>
    have hnested : t.nestedHash locked depth visiting = s.nestedHash locked depth visiting := by
      funext k
      have hk := h k
      unfold nestedHash
      cases hv : s.wires.get? k with
      | none =>
        rw [hv, Option.map_none, Option.map_eq_none_iff] at hk
        simp only [hk, Option.bind_eq_bind, Option.bind_none]
      | some v =>
        rw [hv, Option.map_some] at hk
        obtain ⟨v', hv', hstages⟩ := Option.map_eq_some_iff.1 hk
        simp only [hv', Option.bind_eq_bind, Option.bind_some, ih (k :: visiting) hstages]
    rw [contentHash_succ, contentHash_succ, hnested, hw]

namespace Mirror

open Store

variable {π : Mirror} {V : Variables → Variables → Prop} {Q : Berths} {M : Memories}
  {s t : Store H}

/-! ### Sites -/

/-- The site at the image's board. -/
def image (π : Mirror) (site : Site) : Site := { site with board := π.board' }

/-- Sites of a run and of its image, the name of the wire apart. -/
structure Sites (π : Mirror) (site site' : Site) : Prop where
  input : site'.input = site.input
  shared : site'.shared = site.shared
  board : site.board = π.board
  board' : site'.board = π.board'

theorem sites_image (h : site.board = π.board) : π.Sites site (π.image site) :=
  ⟨rfl, rfl, h, rfl⟩

theorem Sites.hereSite (h : π.Sites site site') (wireName : String) (wireInput : Ty) (b : Bound)
    (position : Nat) :
    Store.hereSite wireName wireInput site' b position =
      π.image (Store.hereSite wireName wireInput site b position) := by
  rw [Store.hereSite, Store.hereSite, image, h.shared, h.board']

theorem Sites.inputAt (h : π.Sites site site') (hw : w'.stages = w.stages) :
    Store.inputAt w' site' = Store.inputAt w site := by
  rw [Store.inputAt, Store.inputAt, h.input, Wire.ignoresInput, Wire.ignoresInput, hw]

/-- What parameters refer to does not depend on the board. -/
theorem ownNeeds_image (st : Stage H) (position : Nat) (here : Site) :
    ownNeeds st position (π.image here) = ownNeeds st position here := by
  have hvalues : ∀ (params : List Param) (place : Place) (n : Nat),
      bindValues st place (π.image here) n params = bindValues st place here n params := by
    intro params place
    induction params with
    | nil => intro n; rfl
    | cons param rest ih =>
      intro n
      have hvalue : bindValue place (π.image here) param (st.getParam n) =
          bindValue place here param (st.getParam n) := by
        cases st.getParam n <;> rfl
      rw [bindValues, bindValues, hvalue, ih]
  rw [ownNeeds, ownNeeds, hvalues]

/-! ### Requests -/

/-- Requests for one wire at the sites of a run and of its image. -/
structure Mates (π : Mirror) (r r' : Request) : Prop where
  wire : r'.wire = r.wire
  sites : π.Sites r.site r'.site
  content : r'.content = r.content

/-- The image of a request has a key that depends on the request only. -/
theorem Mates.key_eq (h : π.Mates r r') (h' : π.Mates q q') (hrq : r = q) : r'.key = q'.key := by
  subst hrq
  have hwords : ∀ c, r'.site.keyWords c = q'.site.keyWords c := by
    intro c
    rw [Site.keyWords, Site.keyWords, h.sites.input, h'.sites.input, h.sites.shared,
      h'.sites.shared, h.sites.board', h'.sites.board']
  simp only [Request.key, h.content, h'.content, hwords]

/-- Requests are told apart by their keys on both sides, or there is nothing to tell apart. -/
def Distinct (asked asked' : List Request) : Prop :=
  (asked.map (·.wire)).Nodup ∨ NoCollision asked ∧ NoCollision asked'

/-- Keys of two requests for one wire fit on one side if they fit on the other. -/
theorem Distinct.key_iff (h : Distinct asked asked') (hr : r ∈ asked) (hq : q ∈ asked)
    (hr' : r' ∈ asked') (hq' : q' ∈ asked') (hwire : r.wire = q.wire) (hmates : π.Mates r r')
    (hmates' : π.Mates q q') :
    (∃ k, q'.key = some k ∧ r'.key = some k) ↔ ∃ k, q.key = some k ∧ r.key = some k := by
  have hboard : r.site.board.row.toUInt64 = q.site.board.row.toUInt64 := by
    rw [hmates.sites.board, hmates'.sites.board]
  have hboard' : r'.site.board.row.toUInt64 = q'.site.board.row.toUInt64 := by
    rw [hmates.sites.board', hmates'.sites.board']
  rcases h with hnodup | ⟨hapart, hapart'⟩
  · have hrq := List.inj_on_of_nodup_map hnodup hr hq hwire
    have hkey := hmates.key_eq hmates' hrq
    subst hrq
    rw [← hkey]
    have hsome : r'.key.isSome = r.key.isSome := by
      simp only [Request.key, hmates.content, Option.isSome_map]
    simp only [and_self, ← Option.isSome_iff_exists, hsome]
  · constructor
    · rintro ⟨k, hqk, hrk⟩
      obtain ⟨⟨k', hrk', hqk'⟩, -⟩ := hapart'.key_eq_of_key_eq hr' hq' hrk hqk (A := []) (B := [])
        rfl rfl hmates.sites.shared.symm hmates'.sites.shared.symm hmates.sites.input.symm
        hmates'.sites.input.symm (fun _ => hboard) hmates.content.symm hmates'.content.symm
      exact ⟨k', hqk', hrk'⟩
    · rintro ⟨k, hqk, hrk⟩
      obtain ⟨⟨k', hrk', hqk'⟩, -⟩ := hapart.key_eq_of_key_eq hr hq hrk hqk (A := []) (B := [])
        rfl rfl hmates.sites.shared hmates'.sites.shared hmates.sites.input
        hmates'.sites.input (fun _ => hboard') hmates.content hmates'.content
      exact ⟨k', hqk', hrk'⟩

/-- Memos that corresponding requests have left. -/
inductive Answered (π : Mirror) (asked asked' : List Request) : Memories where
  | untouched (j : Id .wire) : Answered π asked asked' j none none
  | made {r r' : Request} (g : Signature) (hr : r ∈ asked) (hr' : r' ∈ asked') (hmates : π.Mates r r') :
      Answered π asked asked' r.wire (some ⟨r.key, g⟩) (some ⟨r'.key, g⟩)

/-- Such memos answer corresponding requests the same. -/
theorem Answered.recall (hkeys : Distinct asked asked') (h : π.Answered asked asked' j m m')
    (hq : q ∈ asked) (hq' : q' ∈ asked') (hj : q.wire = j) (hmates : π.Mates q q') :
    recallBy q'.key m' = recallBy q.key m := by
  cases h with
  | untouched =>
    have hnone : ∀ key, recallBy key none = none := fun key => by cases key <;> rfl
    rw [hnone, hnone]
  | @made r r' g hr hr' hmade =>
    refine Option.ext fun g₀ => ?_
    have hfits := hkeys.key_iff hr hq hr' hq' hj.symm hmade hmates
    simp only [recallBy_eq_some_iff, Option.some.injEq, Memo.mk.injEq, ← and_assoc,
      exists_and_right, hfits]

theorem Answered.made_or_none (h : π.Answered asked asked' j m m') : Made j m m' := by
  unfold Made
  cases h with
  | untouched => rfl
  | made => rw [Option.isNone_some, Option.isNone_some]

/-! ### Hooks -/

theorem Stores.nestedOutput (h : π.Stores V Q M s t) (sub : Nested) :
    Stage.nestedOutput t sub = Stage.nestedOutput s sub := by
  unfold Stage.nestedOutput
  cases sub.wire with
  | none => rfl
  | some j =>
    dsimp only
    cases hw : s.wires.get? j with
    | none => rw [h.get?_none hw]
    | some w =>
      obtain ⟨w', hw', hpair⟩ := h.get?_some hw
      obtain ⟨g, rfl⟩ := hpair.guise
      rw [hw']
      rfl

theorem Stores.stageAt? (h : π.Stores V Q M s t) (j : Id .wire) (n : Nat) :
    t.stageAt? j n = s.stageAt? j n := by
  cases hw : s.wires.get? j with
  | none => simp only [Store.stageAt?, hw, h.get?_none hw]
  | some w =>
    obtain ⟨w', hw', hpair⟩ := h.get?_some hw
    simp only [Store.stageAt?, hw, hw', Option.bind_eq_bind, Option.bind_some, hpair.stages]

theorem agrees_hook (h : π.Stores V Q M s t) {stage : Stage H} (hb : stage.isBuiltIn = true)
    (hsite : site.board = π.board) :
    Agrees (π.Stores V Q M) ((stage.compose site).run s) ((stage.compose (π.image site)).run t) := by
  cases hclaim : stage.claim? site with
  | some claim =>
    have hclaim' : stage.claim? (π.image site) = some claim := hclaim
    obtain ⟨u, hu, hrun⟩ := Stage.run_compose_of_claim? hclaim
    obtain ⟨u', hu', hrun'⟩ := Stage.run_compose_of_claim? hclaim'
    obtain rfl : { u with board := π.board' } = u' := by
      rw [Stage.use?_board site.board, hu] at hu'
      exact Option.some.inj hu'
    have hboards : π.Boards u.board π.board' := by
      rw [Stage.board_of_use? hu, hsite]
      exact π.boards_self
    obtain ⟨hanswer, hexchange⟩ := h.exchange.use hboards
    rw [hrun, hrun', hanswer]
    exact .intro _ (h.with_exchange hexchange)
  | none =>
    cases stage with
    | set name ty slot =>
      unfold Stage.compose
      dsimp only
      split <;> exact .intro _ h
    | update name ty slot =>
      have htarget : Stage.updateTarget name (π.image site) = Stage.updateTarget name site := rfl
      simp only [Stage.compose, htarget]
      split <;> exact .intro _ h
    | pause time paused =>
      simp only [Stage.compose]
      split <;> exact .intro _ h
    | inline sub =>
      simp only [Stage.compose, run_bind, run_getThe, h.nestedOutput]
      exact .intro _ h
    | bound name sub slot =>
      have houtput : Stage.boundOutput t name sub (π.image site) =
          Stage.boundOutput s name sub site := by
        unfold Stage.boundOutput
        rw [h.nestedOutput]
        rfl
      simp only [Stage.compose, run_bind, run_getThe, houtput]
      exact .intro _ h
    | produce | broadcast =>
      simp only [Stage.claim?] at hclaim
      split at hclaim <;> cases hclaim
      rw [Stage.compose, Stage.compose, if_pos ‹_›, if_pos ‹_›]
      exact .intro _ h
    | consume | listen =>
      simp only [Stage.claim?] at hclaim
      split at hclaim <;> cases hclaim
      rename_i hout
      rw [Stage.compose, Stage.compose, hout]
      exact .intro _ h
    | unit u => cases hb
    | _ => exact .intro _ h

/-! ### Stages -/

variable {asked asked' : List Request} {T : Set (Id .wire)} {nested nested' : NestedCompose H}
  {requests requests' : NestedRequests H} {id : Id .wire} {position : Nat}

/-- Compositions of nested wires in `T` that agree, as long as they ask for what is expected. -/
def Composes (π : Mirror) (V : Variables → Variables → Prop) (Q : Berths)
    (asked asked' : List Request) (T : Set (Id .wire)) (nested nested' : NestedCompose H)
    (requests requests' : NestedRequests H) : Prop :=
  ∀ (s t : Store H) (j : Id .wire) (here : Site), j ∈ T → here.board = π.board →
    requests j here s ⊆ asked → requests' j (π.image here) t ⊆ asked' →
    π.Stores V Q (π.Answered asked asked') s t →
      Agrees (π.Stores V Q (π.Answered asked asked')) (s.eval (nested j here))
        (t.eval (nested' j (π.image here)))

/-- The parameters of a stage, on both sides. -/
theorem agrees_composeParams (hn : π.Composes V Q asked asked' T nested nested' requests requests')
    (h : π.Stores V Q (π.Answered asked asked') s t) (hb : st.isBuiltIn = true)
    (hT : ∀ k, st.nested? = some k → k ∈ T) (here : Site) (hboard : here.board = π.board)
    (hasked : st.capabilities.parameters = true →
      paramRequests nested requests st ⟨st.name, position⟩ here 0 st.params s ⊆ asked)
    (hasked' : st.capabilities.parameters = true →
      paramRequests nested' requests' st ⟨st.name, position⟩ (π.image here) 0 st.params t ⊆ asked')
    :
    Agrees (π.Stores V Q (π.Answered asked asked')) (s.eval (composeParams nested st position here))
      (t.eval (composeParams nested' st position (π.image here))) := by
  rw [eval_composeParams s nested hb, eval_composeParams t nested' hb, ownNeeds_image]
  cases ownNeeds st position here with
  | error e => exact .intro _ h
  | ok needs =>
    cases hj : st.nested? with
    | none => exact .intro _ h
    | some j =>
      have hparam := Stage.parameters_of_nested? hj
      have hnested := hn s t j (here.nested (st.lent here.input)) (hT j hj) hboard
        (fun r hr => hasked hparam (nested_subset_paramRequests nested requests hj _ _ s hr))
        (fun r hr => hasked' hparam (nested_subset_paramRequests nested' requests' hj _ _ t hr)) h
      dsimp only
      rw [show (π.image here).nested (st.lent (π.image here).input) =
        π.image (here.nested (st.lent here.input)) from rfl]
      refine hnested.elim fun a s t h => ?_
      cases a <;> exact .intro _ h

/-- The output type of a stage, on both sides. -/
theorem agrees_stageOutput (h : π.Stores V Q M s t) (hb : st.isBuiltIn = true)
    (hat : id ∈ π.members → (π.shape id)[position]? = some st.kin) (here : Site)
    (hboard : here.board = π.board) (wireName name : String) :
    Agrees (π.Stores V Q M) (s.eval (stageOutput id wireName st ⟨name, position⟩ here))
      (t.eval (stageOutput id wireName st ⟨name, position⟩ (π.image here))) := by
  rw [eval_stageOutput, eval_stageOutput]
  split
  · have hplan := (st.compose_keeps here s).1
    revert hplan
    refine (agrees_hook h hb hboard).elim fun a s t h hplan => ?_
    exact .intro _ (h.setStage a.1 fun hid => by rw [hat hid, Stage.kin_of_plan? hplan])
  · exact .intro _ h

/-- One stage, on both sides. -/
theorem agrees_composeStage (hn : π.Composes V Q asked asked' T nested nested' requests requests')
    (h : π.Stores V Q (π.Answered asked asked') s t) (hb : st.isBuiltIn = true)
    (hat : id ∈ π.members → (π.shape id)[position]? = some st.kin)
    (hT : ∀ k, st.nested? = some k → k ∈ T) (hsites : π.Sites site site') {wireName : String}
    (hasked : (st.takes b.previous && st.capabilities.parameters) = true →
      paramRequests nested requests st ⟨st.name, position⟩
        (hereSite wireName wireInput site b position) 0 st.params s ⊆ asked)
    (hasked' : (st.takes b.previous && st.capabilities.parameters) = true →
      paramRequests nested' requests' st ⟨st.name, position⟩
        (hereSite wireName wireInput site' b position) 0 st.params t ⊆ asked') :
    Agrees (π.Stores V Q (π.Answered asked asked'))
      (s.eval (composeStage nested id wireName wireInput site b position st))
      (t.eval (composeStage nested' id wireName wireInput site' b position st)) := by
  rw [hsites.hereSite] at hasked'
  rw [eval_composeStage, eval_composeStage, hsites.hereSite, hsites.shared]
  dsimp only
  split
  · rename_i htakes
    simp only [htakes, Bool.true_and] at hasked hasked'
    refine (agrees_composeParams hn h hb hT (hereSite wireName wireInput site b position)
      hsites.board hasked hasked').elim fun a s t h => ?_
    cases a with
    | error e => exact .intro _ h
    | ok found =>
      dsimp only
      refine (agrees_stageOutput h hb hat (hereSite wireName wireInput site b position)
        hsites.board wireName st.name).elim fun a s t h => ?_
      cases a with
      | error e => exact .intro _ h
      | ok output =>
        dsimp only
        rw [h.stageAt?]
        exact .intro _ h
  · exact .intro _ h

/-- Stages one after the other, on both sides. -/
theorem agrees_composeStages (hn : π.Composes V Q asked asked' T nested nested' requests requests')
    (h : π.Stores V Q (π.Answered asked asked') s t) (hid : id ∈ π.members)
    (hT : ∀ e ∈ π.shape id, ∀ k, e.2 = some k → k ∈ T) (hsites : π.Sites site site')
    {wireName : String} {stages : List (Placed H)}
    (hat : (π.shape id).drop position = stages.map (·.stage.kin))
    (hasked : stagesRequests nested requests id wireName wireInput site position stages b s ⊆ asked)
    (hasked' : stagesRequests nested' requests' id wireName wireInput site' position stages b t ⊆
      asked') :
    Agrees (π.Stores V Q (π.Answered asked asked'))
      (s.eval (composeStages nested id wireName wireInput site position stages b))
      (t.eval (composeStages nested' id wireName wireInput site' position stages b)) := by
  induction stages generalizing s t position b with
  | nil => exact .intro _ h
  | cons p rest ih =>
    have hhere : (π.shape id)[position]? = some p.stage.kin := by
      rw [← List.head?_drop, hat]
      rfl
    have hmem := List.mem_of_getElem? hhere
    rw [stagesRequests] at hasked hasked'
    obtain ⟨hown, hrest⟩ := List.append_subset.1 hasked
    obtain ⟨hown', hrest'⟩ := List.append_subset.1 hasked'
    rw [composeStages, composeStages, eval_bind, eval_bind]
    have hstage := agrees_composeStage hn h (π.builtIn id hid _ hmem) (fun _ => hhere)
      (fun k hk => hT _ hmem k hk) hsites
      (fun hc => by rwa [if_pos hc] at hown) (fun hc => by rwa [if_pos hc] at hown')
    revert hrest hrest'
    refine hstage.elim fun a s t h hrest hrest' => ?_
    cases a with
    | error e => exact .intro _ h
    | ok b' =>
      refine ih h ?_ hrest hrest'
      rw [← List.tail_drop, hat, List.map_cons, List.tail_cons]

/-! ### Wires -/

theorem Stores.forget (h : π.Stores V Q (π.Answered asked asked') s t) (id : Id .wire) :
    π.Stores V Q (π.Answered asked asked') (s.modifyWire id forget) (t.modifyWire id forget) := by
  refine h.modify_pair id (fun w w' _ hpair => ?_) fun _ _ _ _ hp => hp
  obtain ⟨⟨g, rfl⟩, hlooped, hstraight, -, hberth, hkin⟩ := hpair
  exact ⟨⟨{ g with composed := none }, rfl⟩, hlooped, hstraight, fun _ => .untouched id, hberth, hkin⟩

/-- The memos that corresponding requests for a wire leave. -/
theorem Stores.remember (h : π.Stores V Q (π.Answered asked asked') s t) (hr : r ∈ asked)
    (hr' : r' ∈ asked') (hmates : π.Mates r r') (g : Signature) :
    π.Stores V Q (π.Answered asked asked') (s.modifyWire r.wire (remember r.key g))
      (t.modifyWire r.wire (remember r'.key g)) := by
  refine h.modify_pair r.wire (fun w w' _ hpair => ?_) fun _ _ _ _ hp => hp
  obtain ⟨⟨g', rfl⟩, hlooped, hstraight, -, hberth, hkin⟩ := hpair
  exact ⟨⟨{ g' with composed := some ⟨r'.key, g⟩ }, rfl⟩, hlooped, hstraight,
    fun _ => .made g hr hr' hmates, hberth, hkin⟩

/-- A wire that takes part, on both sides. -/
theorem agrees_composeLocked (hkeys : Distinct asked asked')
    (hn : π.Composes V Q asked asked' T nested nested' requests requests')
    (h : π.Stores V Q (π.Answered asked asked') s t) (hid : id ∈ π.members)
    (hT : ∀ e ∈ π.shape id, ∀ k, e.2 = some k → k ∈ T) (hw : s.wires.get? id = some w)
    (hsites : π.Sites site site') (locked : List (Id .wire))
    (hasked : lockedRequests nested requests locked id site s ⊆ asked)
    (hasked' : lockedRequests nested' requests' locked id site' t ⊆ asked') :
    Agrees (π.Stores V Q (π.Answered asked asked')) (s.eval (composeLocked nested locked id site))
      (t.eval (composeLocked nested' locked id site')) := by
  obtain ⟨w', hw', hpair⟩ := h.get?_some hw
  have hstages := hpair.stages
  have hcontent : t.contentHash locked t.depthBound [] w' =
      s.contentHash locked s.depthBound [] w := by
    rw [h.depthBound]
    exact contentHash_of_stages (fun j => h.map_get? j fun _ _ => rfl) locked _ [] hstages
  have hmates : ∀ recalled recalled',
      π.Mates ⟨id, site, s.contentHash locked s.depthBound [] w, recalled⟩
        ⟨id, site', t.contentHash locked t.depthBound [] w', recalled'⟩ :=
    fun _ _ => ⟨rfl, hsites, hcontent⟩
  have hown := hasked (own_mem_lockedRequests hw nested requests locked site)
  have hown' := hasked' (own_mem_lockedRequests hw' nested' requests' locked site')
  have hrecall := (hpair.composed hid).recall hkeys hown hown' rfl (hmates _ _)
  rw [← recalled?_eq, ← recalled?_eq] at hrecall
  rw [eval_composeLocked, eval_composeLocked, hw, hw']
  dsimp only
  rw [hrecall] at hown' ⊢
  cases hknown : s.recalled? locked w site with
  | some g => exact .intro _ h
  | none =>
    unfold lockedRequests at hasked hasked'
    simp only [hw, hknown] at hasked
    simp only [hw', hrecall, hknown] at hasked'
    rw [hknown] at hown hown'
    have hname : w'.name = w.name := by obtain ⟨g, rfl⟩ := hpair.guise; rfl
    have hinput := hsites.inputAt hstages
    rw [hname, hinput, hstages] at hasked'
    dsimp only
    rw [eval_composeFresh, eval_composeFresh, hinput, hstages, hname]
    dsimp only
    have hat : (π.shape id).drop 0 = w.stages.map (·.stage.kin) := (hpair.kin hid).symm
    refine (agrees_composeStages hn (h.forget id) hid hT hsites hat
      (List.cons_subset.1 hasked).2 (List.cons_subset.1 hasked').2).elim fun a s₁ t₁ h₁ => ?_
    cases a with
    | error e => exact .intro _ h₁
    | ok b =>
      have hsignature : signatureOf w' (inputAt w site) b = signatureOf w (inputAt w site) b := by
        obtain ⟨g, rfl⟩ := hpair.guise
        rfl
      have htyped := h₁.modifyWire id (f := typed (inputAt w site) b.previous) (fun _ _ => rfl)
        fun _ _ _ => rfl
      dsimp only
      rw [hsignature, composeKey_eq, composeKey_eq]
      exact .intro _ (htyped.remember hown hown' (hmates _ _) _)

/-- The wires below the wire of a run, among which it is not itself. -/
structure Inside (π : Mirror) (T : Set (Id .wire)) : Prop where
  members : T ⊆ π.members
  closed : ∀ j ∈ T, ∀ e ∈ π.shape j, ∀ k, e.2 = some k → k ∈ T
  first : ∀ e ∈ π.shape π.root, ∀ k, e.2 = some k → k ∈ T
  root : π.root ∉ T

/-- A nested wire, on both sides. In the image the wire of the run has been entered, which leaves one
level of nesting less. -/
theorem agrees_composeWithin (hkeys : Distinct asked asked') (hT : π.Inside T) (depth : Nat)
    {trail trail' : Trail} (hentered : trail'.entered = trail.entered ++ [π.root])
    (hlocked : trail'.locked = trail.locked) (hnodup : trail'.entered.Nodup)
    (hrows : ∀ v ∈ trail'.entered, v.row < π.size)
    (hdepth : π.size < depth + trail'.entered.length) :
    π.Composes (H := H) V Q asked asked' T (composeWithin (depth + 1) trail)
      (composeWithin depth trail') (requestsWithin (depth + 1) trail)
      (requestsWithin depth trail') := by
  have hlength := length_le_of_rows hnodup hrows
  induction depth generalizing trail trail' with
  | zero => omega
  | succ depth ih =>
    intro s t j here hj hboard hasked hasked' h
    have hcontains : trail'.entered.contains j = trail.entered.contains j := by
      rw [Bool.eq_iff_iff, List.contains_iff_mem, List.contains_iff_mem, hentered, List.mem_append,
        List.mem_singleton, or_iff_left_iff_imp]
      rintro rfl
      exact absurd hj hT.root
    rw [eval_composeWithin_succ, eval_composeWithin_succ, hcontains, hlocked]
    rw [requestsWithin] at hasked hasked'
    rw [hcontains, hlocked] at hasked'
    split
    · exact .intro _ h
    rename_i hfresh
    split
    · exact .intro _ h
    rename_i hfree
    simp only [hfresh, hfree, Bool.or_false, Bool.false_eq_true, if_false] at hasked hasked'
    cases hw : s.wires.get? j with
    | none =>
      rw [eval_composeLocked, eval_composeLocked, hw, h.get?_none hw]
      exact .intro _ h
    | some w =>
      have hnodup' : (j :: trail'.entered).Nodup := by
        refine List.nodup_cons.2 ⟨fun hmem => hfresh ?_, hnodup⟩
        rwa [← hcontains, List.contains_iff_mem]
      have hrows' : ∀ v ∈ j :: trail'.entered, v.row < π.size := by
        rintro v (_ | ⟨_, hv⟩)
        · exact h.size ▸ row_lt_of_get? hw
        · exact hrows v hv
      have hdepth' : π.size < depth + (j :: trail'.entered).length := by
        rw [List.length_cons]
        omega
      have hinner : π.Composes V Q asked asked' T
          (composeWithin (depth + 1) ⟨j :: trail.entered, j :: trail.locked⟩)
          (composeWithin depth ⟨j :: trail'.entered, j :: trail.locked⟩)
          (requestsWithin (depth + 1) ⟨j :: trail.entered, j :: trail.locked⟩)
          (requestsWithin depth ⟨j :: trail'.entered, j :: trail.locked⟩) :=
        ih (congrArg (j :: ·) hentered) rfl hnodup' hrows' hdepth' (length_le_of_rows hnodup' hrows')
      exact agrees_composeLocked hkeys hinner h (hT.members hj) (hT.closed j hj) hw
        (sites_image hboard) _ hasked hasked'

/-- A wire is composed by the caller who holds it as it is composed for others who share it, unless it
runs itself. -/
theorem agrees_compose (hkeys : Distinct asked asked') (hT : π.Inside T)
    (hroot : π.root ∈ π.members) (h : π.Stores V Q (π.Answered asked asked') s t)
    (hw : s.wires.get? π.root = some w) (hsites : π.Sites site site')
    (hasked : ownedRequests π.root site s ⊆ asked)
    (hasked' : sharedRequests π.root site' t ⊆ asked') :
    Agrees (π.Stores V Q (π.Answered asked asked')) (s.eval (composeOwned π.root site))
      (t.eval (composeShared π.root site')) := by
  rw [eval_composeOwned, eval_composeShared]
  rw [ownedRequests] at hasked
  rw [sharedRequests] at hasked'
  have hrow : π.root.row < π.size := h.size ▸ row_lt_of_get? hw
  rw [depthBound] at hasked hasked' ⊢
  rw [h.size] at hasked ⊢
  rw [depthBound]
  rw [h.size'] at hasked' ⊢
  rw [eval_composeWithin_succ]
  have hinner : π.Composes (H := H) V Q asked asked' T (composeWithin (π.size + 1) ⟨[], [π.root]⟩)
      (composeWithin π.size ⟨[π.root], [π.root]⟩) (requestsWithin (π.size + 1) ⟨[], [π.root]⟩)
      (requestsWithin π.size ⟨[π.root], [π.root]⟩) :=
    agrees_composeWithin hkeys hT π.size rfl rfl (List.nodup_singleton _) (by simp [hrow])
      (Nat.lt_succ_self _)
  exact agrees_composeLocked hkeys hinner h hroot hT.first hw hsites _ hasked hasked'

end Mirror

end Dataflow
