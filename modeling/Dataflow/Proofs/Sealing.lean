import Dataflow.Proofs.Discipline
import Dataflow.Proofs.Vetting
/-!
# Compositions keep bindings from being written

A stage that binds its input object to a name composes its wire with a protected variable of that
name. So no stage below may set, update or publish the name: composing such a stage looks the name
up and finds the protected variable. The last descriptor of a name counts, so this fails only where
an unprotected variable of the name is listed behind the protected one, and no composition lists
variables so unless it is asked to.

A memo knows the names of the protected variables that it was made with, but not where they were
listed. That is why no composition, the earlier ones included, may be asked with a list in which an
unprotected variable follows a protected one of its name.
-/

namespace Dataflow

variable {H : Host} {vars : List VarDecl} {b b' : Bound} {s s' : Store H} {wireInput : Ty}
  {position : Nat} {L : List Request}

/-! ### Guarded lists of variables -/

namespace VarDecl

/-- The names that have a protected descriptor. -/
def sealedNames (decls : List VarDecl) : Set String :=
  {x | ∃ d ∈ decls, d.name = x ∧ d.isProtected = true}

/-- No unprotected descriptor stands behind a protected one of its name. -/
def Guarded (decls : List VarDecl) : Prop :=
  ∀ d ∈ decls, d.isProtected = true → ∀ e ∈ find? d.name decls, e.isProtected = true

instance (decls : List VarDecl) : Decidable (Guarded decls) :=
  inferInstanceAs (Decidable (∀ d ∈ decls, d.isProtected = true → ∀ e ∈ find? d.name decls, _))

theorem sealedNames_append (as bs : List VarDecl) :
    sealedNames (as ++ bs) = sealedNames as ∪ sealedNames bs := by
  ext x
  simp [sealedNames, or_and_right, exists_or]

namespace Guarded

variable {decls : List VarDecl}

/-- A name that is not found, or whose variable is not protected, is not sealed. -/
theorem not_sealed (h : Guarded decls) {x : String}
    (hfree : ∀ d, find? x decls = some d → d.isProtected = false) : x ∉ sealedNames decls := by
  rintro ⟨d, hd, rfl, hprotected⟩
  obtain ⟨e, he⟩ := find?_isSome_of_mem hd
  have := h d hd hprotected e he
  rw [hfree e he] at this
  cases this

theorem concat (h : Guarded decls) {d : VarDecl} (hd : d.name ∉ sealedNames decls) :
    Guarded (decls ++ [d]) := by
  intro e he hprotected f hf
  have hf : find? e.name (decls ++ [d]) = some f := hf
  rw [find?_append, find?_singleton] at hf
  rcases List.mem_append.1 he with he | he
  · have hne : d.name ≠ e.name := fun heq => hd ⟨e, he, heq.symm, hprotected⟩
    rw [if_neg hne, Option.none_or] at hf
    exact h e he hprotected f hf
  · obtain rfl := List.mem_singleton.1 he
    rw [if_pos rfl, Option.some_or] at hf
    obtain rfl := Option.some.inj hf
    exact hprotected

theorem concat_sealed (h : Guarded decls) (x : String) (ty : Ty) :
    Guarded (decls ++ [.sealed x ty]) := by
  intro e he hprotected f hf
  have hf : find? e.name (decls ++ [.sealed x ty]) = some f := hf
  rw [find?_append, find?_singleton] at hf
  by_cases hx : (VarDecl.sealed x ty).name = e.name
  · rw [if_pos hx, Option.some_or] at hf
    obtain rfl := Option.some.inj hf
    rfl
  · rw [if_neg hx, Option.none_or] at hf
    rcases List.mem_append.1 he with he | he
    · exact h e he hprotected f hf
    · obtain rfl := List.mem_singleton.1 he
      exact absurd rfl hx

end Guarded

end VarDecl

/-! ### What wires write -/

namespace Code

variable {code : Code H} {i j : Id .wire} {names : Set String}

/-- No stage of a wire, or of a wire below it, writes one of the names. -/
def Spares (code : Code H) (i : Id .wire) (names : Set String) : Prop :=
  ∀ k, code.Below i k → ∀ plans, code k = some plans → ∀ st, some st ∈ plans →
    ∀ x, st.writes? = some x → x ∉ names

/-- Wherever a stage of a wire, or of a wire below it, binds a name, the wire that it runs spares
the name. -/
def Airtight (code : Code H) (i : Id .wire) : Prop :=
  ∀ k, code.Below i k → ∀ plans, code k = some plans → ∀ x sub slot,
    some (.bound x sub slot) ∈ plans → ∀ j, sub.wire = some j → code.Spares j {x}

theorem Spares.mono (h : code.Spares i names) {names' : Set String} (hsub : names' ⊆ names) :
    code.Spares i names' :=
  fun k hk plans hplans st hst x hx hmem => h k hk plans hplans st hst x hx (hsub hmem)

theorem Spares.below (h : code.Spares i names) (hj : code.Below i j) : code.Spares j names :=
  fun k hk => h k (hj.trans hk)

theorem Airtight.below (h : code.Airtight i) (hj : code.Below i j) : code.Airtight j :=
  fun k hk => h k (hj.trans hk)

end Code

/-! ### Stages that were composed -/

namespace Bound

/-- The list of variables that a stage sees is guarded, and the wire publishes no protected one. -/
structure Guards (inherited : List VarDecl) (b : Bound) : Prop where
  guarded : VarDecl.Guarded (inherited ++ b.exposed)
  free : ∀ d ∈ b.exposed, d.isProtected = false

variable {inherited : List VarDecl} {place : Place}

theorem Guards.expose (hb : b.Guards inherited) {var : VarDecl}
    (h : b.expose inherited place var = .ok b') (hfree : var.isProtected = false) :
    b'.Guards inherited ∧ var.name ∉ VarDecl.sealedNames inherited := by
  obtain ⟨hfits, rfl⟩ := expose_eq_ok_iff.1 h
  have hopen : var.name ∉ VarDecl.sealedNames (inherited ++ b.exposed) :=
    hb.guarded.not_sealed fun found hfound => (hfits found hfound).1
  refine ⟨⟨?_, free_shown hb.free hfree⟩,
    fun hsealed => hopen (VarDecl.sealedNames_append .. ▸ .inl hsealed)⟩
  unfold shown
  split_ifs
  · exact hb.guarded
  all_goals
    rw [← List.append_assoc]
    exact hb.guarded.concat hopen

theorem Guards.exposes (hb : b.Guards inherited)
    (h : vars.foldlM (fun b var => b.expose inherited place var) b = .ok b')
    (hvars : ∀ d ∈ vars, d.isProtected = false) :
    b'.Guards inherited ∧ ∀ d ∈ vars, d.name ∉ VarDecl.sealedNames inherited := by
  induction vars generalizing b with
  | nil =>
    cases h
    exact ⟨hb, by simp⟩
  | cons var rest ih =>
    rw [List.foldlM_cons] at h
    obtain ⟨b₁, hb₁, h⟩ := exists_of_bind_ok h
    obtain ⟨hguards, hopen⟩ := hb.expose hb₁ (hvars var List.mem_cons_self)
    obtain ⟨hguards', hrest⟩ := ih hguards h fun d hd => hvars d (List.mem_cons_of_mem _ hd)
    exact ⟨hguards', List.forall_mem_cons.2 ⟨hopen, hrest⟩⟩

theorem Guards.add (hb : b.Guards inherited) {needs : List VarDecl}
    (h : b.add inherited place needs vars = .ok b') (hvars : ∀ d ∈ vars, d.isProtected = false) :
    b'.Guards inherited ∧ (∀ d ∈ vars, d.name ∉ VarDecl.sealedNames inherited) ∧
      ∀ need ∈ needs, need.isMutable = true → need.name ∉ VarDecl.sealedNames inherited := by
  unfold Bound.add at h
  obtain ⟨b₁, hb₁, h⟩ := exists_of_bind_ok h
  obtain ⟨hexposed, hneeds⟩ := requires_ok hb₁
  obtain ⟨hguards, hvars'⟩ :=
    Guards.exposes ⟨hexposed ▸ hb.guarded, hexposed ▸ hb.free⟩ h hvars
  refine ⟨hguards, hvars', fun need hneed hmutable hsealed => ?_⟩
  obtain ⟨found, hfound, hopen⟩ := hneeds need hneed
  refine hb.guarded.not_sealed (fun d hd => ?_)
    (VarDecl.sealedNames_append .. ▸ Set.mem_union_left _ hsealed)
  obtain rfl := Option.some.inj (hfound.symm.trans hd)
  exact hopen hmutable

end Bound

namespace Store

/-- A stage that runs no wire writes no sealed name, and leaves what the next stage sees guarded. -/
theorem guards_composeStage {nested : NestedCompose H} {id : Id .wire} {wireName : String}
    {site : Site} {stage : Stage H} (hb : b.Guards site.shared)
    (h : s.eval (composeStage nested id wireName wireInput site b position stage) =
      (.ok b', s')) (hat : s.PlannedAt id position stage) (hbuilt : stage.isBuiltIn = true)
    (hn : stage.nested? = none) :
    b'.Guards site.shared ∧
      ∀ x, stage.writes? = some x → x ∉ VarDecl.sealedNames site.shared := by
  obtain ⟨needs, vars, b₁, hadd, hsame, hvars, -, -, hwrites⟩ := composeStage_leaf h hat hbuilt hn
  obtain ⟨hguards, hopen, hneeds⟩ := hb.add hadd hvars
  refine ⟨⟨hsame ▸ hguards.guarded, hsame ▸ hguards.free⟩, fun x hx => ?_⟩
  obtain ⟨d, hd, rfl⟩ | ⟨need, hneed, rfl, hmutable⟩ := hwrites x hx
  · exact hopen d hd
  · exact hneeds need hneed hmutable

/-! ### The discipline -/

/-- What the composition of a wire at a site has made sure of. -/
structure Shielded (code : Code H) (i : Id .wire) (site : Site) (signature : Signature) : Prop where
  spares : code.Spares i (VarDecl.sealedNames site.shared)
  airtight : code.Airtight i
  free : ∀ d ∈ signature.exposed, d.isProtected = false

section Shielded

variable {code : Code H} {id : Id .wire} {site : Site}

/-- What the stages of a wire have been checked for. -/
theorem Composes.guards {wireName : String} {stages : List (Placed H)}
    (h : Composes (fun j σ g _ => Shielded code j σ g) id wireName wireInput site position stages b b')
    (hb : b.Guards site.shared) :
    b'.Guards site.shared ∧ ∀ p ∈ stages,
      (∀ x, p.stage.writes? = some x → x ∉ VarDecl.sealedNames site.shared) ∧
      ∀ j, p.stage.nested? = some j → code.Airtight j ∧
        ∃ ty, code.Spares j (VarDecl.sealedNames site.shared ∪
          VarDecl.sealedNames (p.stage.lent ty)) := by
  induction h with
  | nil => exact ⟨hb, by simp⟩
  | leaf hbuilt hn hat hstage _ ih =>
    obtain ⟨hb₁, hopen⟩ := guards_composeStage hb hstage hat hbuilt hn
    obtain ⟨hb', hrest⟩ := ih hb₁
    refine ⟨hb', List.forall_mem_cons.2 ⟨⟨hopen, fun j hj => ?_⟩, hrest⟩⟩
    rw [hn] at hj
    cases hj
  | @nest position p rest b b₁ b' j signature needs output hj _ hgood hadd _ ih =>
    obtain ⟨hb₁, -⟩ := hb.add hadd hgood.free
    obtain ⟨hb', hrest⟩ := ih ⟨hb₁.guarded, hb₁.free⟩
    refine ⟨hb', List.forall_mem_cons.2 ⟨⟨fun x hx => ?_, fun j' hj' => ?_⟩, hrest⟩⟩
    · cases hstage : p.stage <;> simp [hstage, Stage.nested?, Stage.writes?] at hj hx
    · obtain rfl := Option.some.inj (hj.symm.trans hj')
      refine ⟨hgood.airtight, b.previous, hgood.spares.mono ?_⟩
      rw [show ((hereSite wireName wireInput site b position).nested
        (p.stage.lent b.previous)).shared = site.shared ++ b.exposed ++ p.stage.lent b.previous from
          rfl, VarDecl.sealedNames_append, VarDecl.sealedNames_append]
      exact Set.union_subset_union_left _ Set.subset_union_left

/-- A wire is shielded if its stages write no sealed name, and the wires that they run spare them
and the names that are bound for them. -/
theorem shielded_of_stages {wire : Wire H} {input : Ty} (hplans : code id = some wire.code)
    (hb : b.Guards site.shared) (h : ∀ p ∈ wire.stages,
      (∀ x, p.stage.writes? = some x → x ∉ VarDecl.sealedNames site.shared) ∧
      ∀ j, p.stage.nested? = some j → code.Airtight j ∧
        ∃ ty, code.Spares j (VarDecl.sealedNames site.shared ∪
          VarDecl.sealedNames (p.stage.lent ty))) :
    Shielded code id site (signatureOf wire input b) := by
  have hstage : ∀ plans, code id = some plans → ∀ st, some st ∈ plans →
      ∃ p ∈ wire.stages, st = p.stage.bare := by
    intro plans hplans' st hst
    obtain rfl := Option.some.inj (hplans.symm.trans hplans')
    obtain ⟨p, hp, hplan⟩ := List.mem_map.1 hst
    exact ⟨p, hp, (Stage.plan?_eq_some_iff.1 hplan).2.symm⟩
  have hchild : ∀ j, code.Child id j → code.Airtight j ∧
      code.Spares j (VarDecl.sealedNames site.shared) := by
    rintro j ⟨plans, hplans', st, hst, hnested⟩
    obtain ⟨p, hp, rfl⟩ := hstage plans hplans' st hst
    obtain ⟨hairtight, ty, hspares⟩ := (h p hp).2 j (by rwa [Stage.nested?_bare] at hnested)
    exact ⟨hairtight, hspares.mono Set.subset_union_left⟩
  refine ⟨fun k hk => ?_, fun k hk => ?_, hb.free⟩
  · rcases Relation.ReflTransGen.cases_head hk with rfl | ⟨j, hij, hjk⟩
    · intro plans hplans' st hst x hx
      obtain ⟨p, hp, rfl⟩ := hstage plans hplans' st hst
      exact (h p hp).1 x (by rwa [Stage.writes?_bare] at hx)
    · exact (hchild j hij).2 k hjk
  · rcases Relation.ReflTransGen.cases_head hk with rfl | ⟨j, hij, hjk⟩
    · intro plans hplans' x sub slot hst j hj
      obtain ⟨p, hp, hbare⟩ := hstage plans hplans' _ hst
      have hnested : p.stage.nested? = some j := by
        rw [← Stage.nested?_bare, ← hbare]
        exact hj
      obtain ⟨-, ty, hspares⟩ := (h p hp).2 j hnested
      refine hspares.mono (Set.singleton_subset_iff.2 (.inr ?_))
      cases hstage : p.stage <;> rw [hstage] at hbare <;> cases hbare
      exact ⟨_, List.mem_singleton_self _, rfl, rfl⟩
    · exact (hchild j hij).1 k hjk

/-- What one request has made sure of holds for another one with the same key. -/
theorem Shielded.of_key_eq (hL : NoCollision L) {r r' : Request} (hr : r ∈ L) (hr' : r' ∈ L)
    {k : UInt64} (hk : r.key = some k) (hk' : r'.key = some k) {signature : Signature}
    (h : Shielded code id r.site signature) :
    Shielded code id r'.site signature := by
  obtain ⟨-, -, hba⟩ := hL.of_key_eq hr hr' hk hk'
  refine ⟨h.spares.mono ?_, h.airtight, h.free⟩
  rintro x ⟨d, hd, rfl, hprotected⟩
  obtain ⟨e, he, hname, -, hsame⟩ := hba d hd
  exact ⟨e, he, hname, hsame.trans hprotected⟩

end Shielded

/-- The discipline by which compositions with guarded lists shield wires. -/
def sealing {code : Code H} {T : Set (Id .wire)} {L : List Request}
    (hclosed : code.Closed (·.isBuiltIn = true) T) (hL : NoCollision L) : Discipline code T where
  asked r := r ∈ L
  promise j k signature _ := ∃ r ∈ L, r.key = some k ∧ Shielded code j r.site signature
  fit site := VarDecl.Guarded site.shared
  known site _ b := b.Guards site.shared
  good _ j site signature _ := Shielded code j site signature
  lasting := True
  sort := (·.isBuiltIn = true)
  closed := hclosed
  start hfit := ⟨by simpa using hfit, by simp⟩
  inner := by
    intro site b stage wireName wireInput position hnest hb _
    change VarDecl.Guarded (site.shared ++ b.exposed ++ stage.lent b.previous)
    cases stage with
    | bound x sub slot => exact hb.guarded.concat_sealed x b.previous
    | inline sub => simpa [Stage.lent] using hb.guarded
    | _ => cases hnest
  leaf hb hbuilt _ hn hat h := (guards_composeStage hb h hat hbuilt hn).1
  nest hb hgood hadd := ⟨(hb.add hadd hgood.free).1.guarded, (hb.add hadd hgood.free).1.free⟩
  fresh := by
    intro id locked wire site b _ _ hplans hfit h
    obtain ⟨hb, hstages⟩ := h.guards ⟨by simpa using hfit, by simp⟩
    exact shielded_of_stages hplans hb hstages
  revive := by
    rintro s id locked wire site k signature _ recalled _ _ _ _ _ hasked hk ⟨r, hr, hkey, h⟩
    exact h.of_key_eq hL hr hasked hkey ((composeKey_eq ..).symm.trans hk)
  keep _ _ _ _ _ hasked hk hgood := ⟨_, hasked, (composeKey_eq ..).symm.trans hk, hgood⟩

/-! ### Earlier compositions -/

/-- What may have happened to the wires in `T` since none of them was composed: compositions with
guarded lists, with these requests, whether they succeeded or not, and anything that leaves code and
memos alone. -/
inductive Careful (T : Set (Id .wire)) : List Request → Store H → Prop where
  | fresh {s : Store H} (h : ∀ j ∈ T, s.isComposed j = false) : Careful T [] s
  | compose {L : List Request} {s : Store H} (h : Careful T L s) (owned : Bool) {id : Id .wire}
      (hid : id ∈ T) {site : Site} (hsite : VarDecl.Guarded site.shared) :
      Careful T (L ++ requestsAs owned id site s) (s.eval (composeAs owned id site)).2
  | other {L : List Request} {s s' : Store H} (h : Careful T L s) (hcode : s'.code = s.code)
      (hmemos : ∀ j ∈ T, (s'.wires.get? j).map Wire.composed = (s.wires.get? j).map Wire.composed) :
      Careful T L s'

variable {T : Set (Id .wire)}

/-- Whatever has happened, all memos keep their promise. -/
theorem Careful.kept (h : Careful T L s) {code : Code H} (hcode : s.code = code)
    (hclosed : code.Closed (·.isBuiltIn = true) T) {L' : List Request} (hL : NoCollision L')
    (hsub : L ⊆ L') : (sealing hclosed hL).Kept s := by
  induction h with
  | fresh hfresh => exact ⟨hcode, .of_fresh hfresh⟩
  | @compose L s h owned id hid site hsite ih =>
    have hs := ih ((code_composeAs s owned id site).symm.trans hcode) fun r hr =>
      hsub (List.mem_append_left _ hr)
    exact (Discipline.lasts owned trivial (fun _ _ => hid) hsite
      (fun r hr => hsub (List.mem_append_right _ hr)) hs).1
  | other h hcode' hmemos ih =>
    have hs := ih (hcode'.symm.trans hcode) hsub
    exact ⟨hcode, hs.2.of_composed_eq hmemos⟩

/-- A wire that composes with a guarded list, after compositions with guarded lists, is airtight. -/
theorem airtight_of_composed (hcareful : Careful T L s)
    (hclosed : s.code.Closed (·.isBuiltIn = true) T) {owned : Bool} {id : Id .wire} (hid : id ∈ T)
    {site : Site} (hsite : VarDecl.Guarded site.shared)
    (hL : NoCollision (L ++ requestsAs owned id site s)) {signature : Signature}
    (h : s.eval (composeAs owned id site) = (.ok signature, s')) : s.code.Airtight id := by
  have hs := hcareful.kept rfl hclosed hL (List.subset_append_left _ _)
  obtain ⟨-, hgood⟩ := Discipline.lasts owned trivial (fun _ _ => hid) hsite
    (fun r hr => List.mem_append_right _ hr) hs
  rw [h] at hgood
  obtain ⟨_, hshielded⟩ := hgood signature rfl
  exact hshielded.airtight

end Store

end Dataflow
