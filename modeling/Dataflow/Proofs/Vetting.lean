import Dataflow.Proofs.Discipline
import Dataflow.Proofs.Resolution
/-!
# Compositions vet the names that wires use

A composition that succeeds has checked that every name is there where a stage uses it, and that no
protected variable is changed or published again. So the wire passes under what its site shows, and a
warm-up in a scope below the one that the site describes runs into no trouble about variables. This
holds for what a memo answers, too: the requests with one key show the same names, unless hashes
collide.
-/

namespace Dataflow

variable {H : Host} {b b' : Bound} {needs vars : List VarDecl} {position : Nat} {s : Store H}
  {id : Id .wire} {wireInput : Ty} {L : List Request}

/-! ### Needs and publications -/

namespace Bound

/-- What a stage sees. -/
def outlook (inherited : List VarDecl) (b : Bound) : Outlook :=
  Outlook.ofDecls (inherited ++ b.exposed)

/-- Publishing a variable declares its name. -/
theorem outlook_expose {inherited : List VarDecl} {place : Place} {var : VarDecl}
    (h : b.expose inherited place var = .ok b') (hfree : var.isProtected = false) :
    var.name ∉ (b.outlook inherited).barred ∧
      b'.outlook inherited = (b.outlook inherited).declare {var.name} ∧
      Outlook.names b'.exposed = Outlook.names b.exposed ∪ {var.name} ∧
      ((∀ d ∈ b.exposed, d.isProtected = false) → ∀ d ∈ b'.exposed, d.isProtected = false) := by
  obtain ⟨hfits, rfl⟩ := expose_eq_ok_iff.1 h
  have hnot : var.name ∉ (b.outlook inherited).barred := by
    intro hbarred
    cases hfound : VarDecl.find? var.name (inherited ++ b.exposed) with
    | none => exact Outlook.not_shown_of_find? hfound hbarred.1
    | some found => exact (Outlook.of_find? hfound).2 (hfits found hfound).1 hbarred
  refine ⟨hnot, ?_, ?_, fun hb => free_shown hb hfree⟩
  · unfold shown
    split_ifs with hmem
    · obtain ⟨d, hd, hname⟩ := List.mem_map.1 hmem
      have hown : var.name ∈ (b.outlook inherited).shown := ⟨d, List.mem_append_right _ hd, hname⟩
      refine Outlook.ext ?_ (Set.sdiff_singleton_eq_self hnot).symm
      exact (Set.union_eq_self_of_subset_right (Set.singleton_subset_iff.2 hown)).symm
    all_goals
      rw [outlook, ← List.append_assoc, Outlook.ofDecls_append_free _ (by simpa using hfree),
        Outlook.names_singleton]
      rfl
  · unfold shown
    split_ifs with hmem
    · have hown : var.name ∈ Outlook.names b.exposed := List.mem_map.1 hmem
      exact (Set.union_eq_self_of_subset_right (Set.singleton_subset_iff.2 hown)).symm
    all_goals rw [Outlook.names_append, Outlook.names_singleton]

theorem outlook_exposes {inherited : List VarDecl} {place : Place}
    (h : vars.foldlM (fun b var => b.expose inherited place var) b = .ok b')
    (hvars : ∀ d ∈ vars, d.isProtected = false) :
    (∀ d ∈ vars, d.name ∉ (b.outlook inherited).barred) ∧
      b'.outlook inherited = (b.outlook inherited).declare (Outlook.names vars) ∧
      Outlook.names b'.exposed = Outlook.names b.exposed ∪ Outlook.names vars ∧
      ((∀ d ∈ b.exposed, d.isProtected = false) → ∀ d ∈ b'.exposed, d.isProtected = false) := by
  induction vars generalizing b with
  | nil =>
    cases h
    rw [Outlook.names_nil]
    exact ⟨by simp, (Outlook.declare_empty _).symm, (Set.union_empty _).symm, fun hb => hb⟩
  | cons var rest ih =>
    rw [List.foldlM_cons] at h
    obtain ⟨b₁, hb, h⟩ := exists_of_bind_ok h
    obtain ⟨hvar, houtlook, hnames, hfree⟩ := outlook_expose hb (hvars var List.mem_cons_self)
    obtain ⟨hrest, houtlook', hnames', hfree'⟩ := ih h fun d hd => hvars d (List.mem_cons_of_mem _ hd)
    refine ⟨fun d hd hbarred => ?_, ?_, ?_, fun hb => hfree' (hfree hb)⟩
    · rcases List.mem_cons.1 hd with rfl | hd
      · exact hvar hbarred
      · by_cases hname : d.name = var.name
        · exact hvar (hname ▸ hbarred)
        · refine hrest d hd ?_
          rw [houtlook]
          exact ⟨hbarred, hname⟩
    · rw [houtlook', houtlook, Outlook.declare_declare, Outlook.names_cons]
    · rw [hnames', hnames, Outlook.names_cons, Set.union_assoc]

/-- What the needs and publications of a stage come to. -/
theorem outlook_add {inherited : List VarDecl} {place : Place}
    (h : b.add inherited place needs vars = .ok b') (hvars : ∀ d ∈ vars, d.isProtected = false) :
    (∀ need ∈ needs, need.name ∈ (b.outlook inherited).shown ∧
        (need.isMutable = true → need.name ∉ (b.outlook inherited).barred)) ∧
      (∀ d ∈ vars, d.name ∉ (b.outlook inherited).barred) ∧
      b'.outlook inherited = (b.outlook inherited).declare (Outlook.names vars) ∧
      Outlook.names b'.exposed = Outlook.names b.exposed ∪ Outlook.names vars ∧
      ((∀ d ∈ b.exposed, d.isProtected = false) → ∀ d ∈ b'.exposed, d.isProtected = false) := by
  unfold add at h
  obtain ⟨b₁, hb, h⟩ := exists_of_bind_ok h
  obtain ⟨hexposed, hneeds⟩ := requires_ok hb
  have houtlook : b₁.outlook inherited = b.outlook inherited := by rw [outlook, outlook, hexposed]
  have hvars' := outlook_exposes h hvars
  rw [houtlook, hexposed] at hvars'
  refine ⟨fun need hneed => ?_, hvars'⟩
  obtain ⟨found, hfound, hfree⟩ := hneeds need hneed
  obtain ⟨hshown, hopen⟩ := Outlook.of_find? hfound
  exact ⟨hshown, fun hmut => hopen (hfree hmut)⟩

end Bound

/-! ### Stages that run no wire -/

namespace Store

/-- An operand that refers to a variable is checked as a parameter. -/
theorem find?_of_ownNeeds {operand : Operand} {x : String} (href : operand.referent? = some x)
    {here : Site} (h : ownNeeds (.add operand : Stage H) position here = .ok needs) :
    ∃ found, VarDecl.find? x here.shared = some found := by
  have hvalue : (Stage.add operand : Stage H).getParam 0 = .ref x := by
    unfold Operand.referent? at href
    change operand.value = .ref x
    split at href <;> simp_all
  have hbind : ∃ d, bindReference ⟨"Math.Add", position⟩ here Stage.operandParam x = .ok d := by
    simp only [ownNeeds, Stage.capabilities, if_true, Stage.params, bindValues, hvalue, bindValue,
      Stage.name] at h
    cases hd : bindReference ⟨"Math.Add", position⟩ here Stage.operandParam x with
    | ok d => exact ⟨d, rfl⟩
    | error e => simp [hd, Except.map, bind, Except.bind] at h
  obtain ⟨d, hd⟩ := hbind
  unfold bindReference at hd
  dsimp only at hd
  split at hd
  · cases hd
  · cases hx : here.find? x with
    | none => simp [hx] at hd
    | some found => exact ⟨found, hx⟩

section Leaf

variable {s' : Store H} {nested : NestedCompose H} {wireName : String} {site : Site}
  {stage : Stage H}

/-- A stage that composes and runs no wire sees what it reads, publishes what it declares, and
publishes what it writes or needs it to be mutable. -/
theorem composeStage_leaf
    (h : s.eval (composeStage nested id wireName wireInput site b position stage) = (.ok b', s'))
    (hat : s.PlannedAt id position stage) (hb : stage.isBuiltIn = true) (hn : stage.nested? = none) :
    ∃ needs vars b₁, b.add site.shared ⟨stage.name, position⟩ needs vars = .ok b₁ ∧
      b'.exposed = b₁.exposed ∧ (∀ d ∈ vars, d.isProtected = false) ∧
      Outlook.names vars = stage.declared ∧
      (∀ x, stage.reads? = some x → x ∈ (b.outlook site.shared).shown) ∧
      ∀ x, stage.writes? = some x →
        x ∈ Outlook.names vars ∨ ∃ need ∈ needs, need.name = x ∧ need.isMutable = true := by
  obtain ⟨-, needs, vars, s₁, output, b₁, hparams, hout, hadd, rfl⟩ := composeStage_ok h
  have hparams' := hparams
  obtain ⟨rfl, hvars⟩ := composeParams_ok hb hn hparams
  dsimp only at hvars
  subst hvars
  -- A stage without publications declares nothing.
  have hquiet : ∀ {stage : Stage H}, stage.declares = [] → Outlook.names [] = stage.declared :=
    fun h => by simp [Stage.declared, h]
  cases stage with
  | set name ty slot =>
    obtain ⟨stage', s₂, hrun, hstage'⟩ := stageAt?_stageOutput hat rfl hout
    rw [hstage'] at hadd
    simp only [Stage.compose] at hrun
    split at hrun <;> cases hrun
    have hnames : Outlook.names [.assignable name b.previous] =
        (Stage.set name ty slot : Stage H).declared := by
      rw [Outlook.names_singleton]
      ext x
      exact List.mem_singleton.symm
    refine ⟨_, [.assignable name b.previous], b₁, hadd, rfl, fun d hd => ?_, hnames,
      by simp [Stage.reads?], fun x hx => ?_⟩
    · rw [List.mem_singleton.1 hd]
      rfl
    · cases hx
      exact .inl ⟨_, List.mem_cons_self, rfl⟩
  | get name slot =>
    obtain ⟨stage', s₂, hrun, hstage'⟩ := stageAt?_stageOutput hat rfl hout
    rw [hstage'] at hadd
    obtain rfl : Stage.get name slot = stage' := congrArg (·.1.1) hrun
    refine ⟨_, [], b₁, hadd, rfl, by simp, hquiet rfl, fun x hx => ?_, by simp [Stage.writes?]⟩
    cases hx
    exact ((Bound.outlook_add hadd (by simp [ownVars, Stage.capabilities, Stage.exposed])).1
      (.readOnly name .any) List.mem_cons_self).1
  | update name ty slot =>
    obtain ⟨stage', s₂, hrun, hstage'⟩ := stageAt?_stageOutput hat rfl hout
    rw [hstage'] at hadd
    simp only [Stage.compose] at hrun
    cases htarget : Stage.updateTarget name (hereSite wireName wireInput site b position) <;>
      rw [htarget] at hrun <;> cases hrun
    rename_i target
    refine ⟨_, [], b₁, hadd, rfl, by simp, hquiet rfl, fun x hx => ?_, fun x hx => ?_⟩ <;> cases hx
    · exact ((Bound.outlook_add hadd (by simp [ownVars, Stage.capabilities, Stage.exposed])).1
        (.assignable name target) List.mem_cons_self).1
    · exact .inr ⟨.assignable name target, List.mem_cons_self, rfl, rfl⟩
  | add operand =>
    refine ⟨_, [], b₁, hadd, rfl, by simp, hquiet rfl, fun x hx => ?_, by simp [Stage.writes?]⟩
    rw [eval_composeParams _ nested hb, hn] at hparams'
    cases hown : ownNeeds (Stage.add operand : Stage H) position
      (hereSite wireName wireInput site b position) with
    | error e => simp [hown] at hparams'
    | ok own =>
      obtain ⟨found, hfound⟩ := find?_of_ownNeeds hx hown
      exact (Outlook.of_find? hfound).1
  | inline sub | bound name sub slot =>
    obtain ⟨-, -, ⟨j, w, hj, -⟩, -⟩ := stageOutput_nesting_ok rfl hout
    rw [hn] at hj
    cases hj
  | unit u => cases hb
  | _ => exact ⟨_, [], b₁, hadd, rfl, by simp, hquiet rfl, by simp [Stage.reads?],
      by simp [Stage.writes?]⟩

/-- A stage that composes and runs no wire uses names as permitted, and declares its own. -/
theorem outlook_composeStage
    (h : s.eval (composeStage nested id wireName wireInput site b position stage) = (.ok b', s'))
    (hat : s.PlannedAt id position stage) (hb : stage.isBuiltIn = true) (hn : stage.nested? = none) :
    (∀ x, stage.reads? = some x → x ∈ (b.outlook site.shared).shown) ∧
      (∀ x, stage.writes? = some x → x ∉ (b.outlook site.shared).barred) ∧
      b'.outlook site.shared = (b.outlook site.shared).declare stage.declared ∧
      Outlook.names b'.exposed = Outlook.names b.exposed ∪ stage.declared ∧
      ((∀ d ∈ b.exposed, d.isProtected = false) → ∀ d ∈ b'.exposed, d.isProtected = false) := by
  obtain ⟨needs, vars, b₁, hadd, hsame, hvars, hdeclared, hreads, hwrites⟩ :=
    composeStage_leaf h hat hb hn
  obtain ⟨hneeds, hopen, houtlook, hnames, hfree⟩ := Bound.outlook_add hadd hvars
  rw [hdeclared] at houtlook hnames
  rw [show b'.outlook site.shared = b₁.outlook site.shared by rw [Bound.outlook, hsame]; rfl, hsame]
  refine ⟨hreads, fun x hx => ?_, houtlook, hnames, hfree⟩
  obtain ⟨d, hd, rfl⟩ | ⟨need, hneed, rfl, hmutable⟩ := hwrites x hx
  · exact hopen d hd
  · exact (hneeds need hneed).2 hmutable

end Leaf

end Store

/-! ### Signatures and memos -/

/-- What a signature says about a wire at a site: the wire passes under what the site shows, and
declares the variables that the signature publishes. -/
structure Vetted (code : Code H) (j : Id .wire) (site : Site) (signature : Signature) : Prop where
  passes : ∃ plans, code j = some plans ∧
    Passes code plans (Outlook.ofDecls site.shared) (Outlook.names signature.exposed)
  free : ∀ d ∈ signature.exposed, d.isProtected = false

namespace Store

/-- The memo of every wire in `T` was left by a request that was vetted. -/
def Vouched (code : Code H) (L : List Request) (T : Set (Id .wire)) (s : Store H) : Prop :=
  ∀ j ∈ T, ∀ w m k, s.wires.get? j = some w → w.composed = some m → m.key = some k →
    ∃ r ∈ L, r.key = some k ∧ Vetted code j r.site m.signature

/-- A composition leaves variables and code alone and memos that are vouched for. -/
structure Harmless (code : Code H) (L : List Request) (T : Set (Id .wire)) (s s' : Store H) :
    Prop where
  vouched : s'.Vouched code L T
  vars : s'.vars = s.vars
  code : s'.code = code

section Vetted

variable {code : Code H} {site : Site}

/-- The wire that a stage runs sees what the stage sees and what is lent to it. -/
theorem outlook_lent {stage : Stage H} {j : Id .wire} (hj : stage.nested? = some j) (b : Bound) :
    Outlook.ofDecls ((site.shared ++ b.exposed) ++ stage.lent b.previous) =
      (b.outlook site.shared).lend stage.declared := by
  cases stage with
  | inline sub =>
    have hdeclared : (Stage.inline sub : Stage H).declared = Outlook.names [] := by
      simp [Stage.declared, Stage.declares]
    rw [hdeclared]
    exact Outlook.ofDecls_append_sealed _ (by simp [Stage.lent])
  | bound x sub slot =>
    have hdeclared : (Stage.bound x sub slot : Stage H).declared =
        Outlook.names [.sealed x b.previous] := by
      rw [Outlook.names_singleton]
      ext y
      exact List.mem_singleton
    rw [hdeclared]
    exact Outlook.ofDecls_append_sealed _ (by simp [Stage.lent, VarDecl.sealed])
  | _ => cases hj

/-- Stages that were composed one after the other pass, if the wires that they run were vetted. -/
theorem Composes.passes {wireName : String} {stages : List (Placed H)}
    (h : Composes (fun j σ g _ => Vetted code j σ g) id wireName wireInput site position stages b b')
    (hfree : ∀ d ∈ b.exposed, d.isProtected = false) :
    (∀ d ∈ b'.exposed, d.isProtected = false) ∧
      ∃ E, Outlook.names b'.exposed = Outlook.names b.exposed ∪ E ∧
        Passes code (stages.map fun p => some p.stage.bare) (b.outlook site.shared) E := by
  induction h with
  | nil => exact ⟨hfree, ∅, (Set.union_empty _).symm, .nil⟩
  | leaf hb hn hat hstage _ ih =>
    obtain ⟨hreads, hwrites, houtlook, hnames, hfree₁⟩ := outlook_composeStage hstage hat hb hn
    obtain ⟨hfree', E, hnames', hpass⟩ := ih (hfree₁ hfree)
    rw [hnames, Set.union_assoc, ← Stage.declared_bare] at hnames'
    rw [houtlook, ← Stage.declared_bare] at hpass
    refine ⟨hfree', _, hnames', ?_⟩
    exact .leaf (by simpa using hn) (by simpa using hreads) (by simpa using hwrites) hpass
  | @nest position p rest b b₁ b' j signature needs output hj _ hvetted hadd _ ih =>
    obtain ⟨-, -, houtlook, hnames, hfree₁⟩ := Bound.outlook_add hadd hvetted.free
    obtain ⟨hfree', E, hnames', hpass⟩ := ih (hfree₁ hfree)
    obtain ⟨plans, hplans, hinner⟩ := hvetted.passes
    refine ⟨hfree', _, by rw [hnames', hnames, Set.union_assoc], ?_⟩
    refine .nest (by simpa using hj) hplans ?_ (houtlook ▸ hpass)
    rw [Stage.declared_bare, ← outlook_lent hj b]
    exact hinner

/-- A wire that was vetted for one request is vetted for another one with the same key. -/
theorem Vetted.of_key_eq (hL : NoCollision L) {r r' : Request} (hr : r ∈ L) (hr' : r' ∈ L)
    {k : UInt64} (hk : r.key = some k) (hk' : r'.key = some k) {signature : Signature}
    (h : Vetted code id r.site signature) :
    Vetted code id r'.site signature := by
  obtain ⟨-, hab, hba⟩ := hL.of_key_eq hr hr' hk hk'
  have houtlook : Outlook.ofDecls r.site.shared = Outlook.ofDecls r'.site.shared :=
    Outlook.ofDecls_congr
      (fun d hd => (hab d hd).imp fun e he => ⟨he.1, he.2.1, he.2.2.2⟩)
      (fun d hd => (hba d hd).imp fun e he => ⟨he.1, he.2.1, he.2.2.2⟩)
  exact ⟨houtlook ▸ h.passes, h.free⟩

end Vetted

section Vetting

variable {code : Code H} {L : List Request} {T : Set (Id .wire)}
  (hclosed : code.Closed (·.isBuiltIn = true) T) (hL : NoCollision L)

/-- The discipline by which compositions vet wires. -/
def vetting : Discipline code T where
  asked r := r ∈ L
  promise j k signature _ := ∃ r ∈ L, r.key = some k ∧ Vetted code j r.site signature
  fit _ := True
  known _ _ b := ∀ d ∈ b.exposed, d.isProtected = false
  good _ j site signature _ := Vetted code j site signature
  lasting := True
  sort := (·.isBuiltIn = true)
  closed := hclosed
  start _ := by simp
  inner _ _ _ := trivial
  leaf hfree hb _ hn hat h := (outlook_composeStage h hat hb hn).2.2.2.2 hfree
  nest hfree hgood hadd := (Bound.outlook_add hadd hgood.free).2.2.2.2 hfree
  fresh := by
    intro id locked wire site b hid _ hplans _ h
    obtain ⟨hfree, E, hnames, hpass⟩ := h.passes (by simp)
    have hbare : wire.code = wire.stages.map fun p => some p.stage.bare :=
      List.map_congr_left fun p hp => (hclosed.stage hid hplans hp).1
    rw [Outlook.names_nil, Set.empty_union] at hnames
    rw [← hbare, Bound.outlook, List.append_nil, ← hnames] at hpass
    exact ⟨⟨wire.code, hplans, hpass⟩, hfree⟩
  revive := by
    rintro s id locked wire site k signature _ recalled _ _ _ _ _ hasked hk ⟨r, hr, hkey, h⟩
    exact Vetted.of_key_eq hL hr hasked hkey ((composeKey_eq ..).symm.trans hk) h
  keep _ _ _ _ _ hasked hk hgood := ⟨_, hasked, (composeKey_eq ..).symm.trans hk, hgood⟩

include hclosed hL

/-- What composing a wire vets. -/
theorem vets_composeOwned {site : Site} (hid : id ∈ T) (hasked : ownedRequests id site s ⊆ L)
    (hcode : s.code = code) (hs : s.Vouched code L T) :
    Harmless code L T s (s.eval (composeOwned id site)).2 ∧
      ∀ signature, (s.eval (composeOwned id site)).1 = .ok signature →
        Vetted code id site signature := by
  obtain ⟨⟨hcode', hvouched⟩, hgood⟩ := Discipline.lasts true (D := vetting hclosed hL) trivial
    (fun _ _ => hid) trivial hasked ⟨hcode, hs⟩
  exact ⟨⟨hvouched, (still_composeAs s true id site).vars, hcode'⟩, fun signature h =>
    (hgood signature h).elim fun _ h => h⟩

end Vetting

/-! ### After a composition -/

/-- What may have happened to the wires in `T` since none of them was composed: compositions, with
these requests, whether they succeeded or not, and anything that leaves code and memos alone. -/
inductive History (T : Set (Id .wire)) : List Request → Store H → Prop where
  | fresh {s : Store H} (h : ∀ j ∈ T, s.isComposed j = false) : History T [] s
  | compose {L : List Request} {s : Store H} (h : History T L s) {id : Id .wire} (hid : id ∈ T)
      (site : Site) :
      History T (L ++ ownedRequests id site s) (s.eval (composeOwned id site)).2
  | other {L : List Request} {s s' : Store H} (h : History T L s) (hcode : s'.code = s.code)
      (hmemos : ∀ j ∈ T, (s'.wires.get? j).map Wire.composed = (s.wires.get? j).map Wire.composed) :
      History T L s'

/-- Whatever has happened, all memos are vouched for. -/
theorem History.vouched {T : Set (Id .wire)} {L' : List Request} (h : History T L s)
    (hclosed : s.code.Closed (·.isBuiltIn = true) T) (hL : NoCollision L') (hsub : L ⊆ L') :
    s.Vouched s.code L' T := by
  induction h with
  | fresh hfresh =>
    have hs : Remembers (vetting hclosed hL).promise T _ := .of_fresh hfresh
    exact hs
  | @compose L s h id hid site ih =>
    have hcode : (s.eval (composeOwned id site)).2.code = s.code :=
      code_composeAs s true id site
    rw [hcode] at hclosed ⊢
    have hs := ih hclosed fun r hr => hsub (List.mem_append_left _ hr)
    exact (vets_composeOwned hclosed hL hid (fun r hr => hsub (List.mem_append_right _ hr)) rfl
      hs).1.vouched
  | other h hcode hmemos ih =>
    rw [hcode] at hclosed ⊢
    have hs : Remembers (vetting hclosed hL).promise T _ := ih hclosed hsub
    exact hs.of_composed_eq hmemos

/-- When a wire of built-in stages has been composed against the variables of a scope, or without
any, warming it up in a new scope below never fails on account of a variable: no stage of the wire or
of a wire below it misses a variable or finds it protected. -/
theorem composed_finds_variables {T : Set (Id .wire)} {L : List Request} {s s' : Store H}
    (hhistory : History T L s) (hclosed : s.code.Closed (·.isBuiltIn = true) T) {id : Id .wire}
    (hid : id ∈ T) {site : Site} {parent : Option (Id .scope)} (hv : s.vars.WellFormed)
    (hparent : ∀ P, parent = some P → P.row < s.vars.scopes.size)
    (hshared : site.shared = s.vars.inherited parent)
    (hL : NoCollision (L ++ ownedRequests id site s)) {signature : Signature}
    (h : s.eval (composeOwned id site) = (.ok signature, s')) (input : Value) (board : Id .board) :
    (∀ c ∈ openCalls id input parent board s', c.missesVariable = false) ∧
      ∀ e, (s'.eval (warmup id input parent board)).1 = .ok (.error e) →
        e.isAboutVariable = false := by
  have hs := hhistory.vouched hclosed hL fun r hr => List.mem_append_left _ hr
  obtain ⟨hharm, hvets⟩ := vets_composeOwned hclosed hL hid
    (fun r hr => List.mem_append_right _ hr) rfl hs
  rw [h] at hharm hvets
  obtain ⟨plans, hplans, hpass⟩ := (hvets signature rfl).passes
  rw [hshared] at hpass
  -- What the site shows is what the new scope shows.
  have hvars : s'.vars = s.vars := hharm.vars
  have hscoped : (s'.opened parent).2.vars.Scoped (s'.opened parent).1 := by
    simp only [opened, hvars]
    exact hv.scoped_addScope hparent
  have hle : Outlook.ofDecls (s.vars.inherited parent) ≤
      (s'.opened parent).2.vars.outlook (s'.opened parent).1 := by
    simp only [opened, hvars]
    exact Variables.ofDecls_inherited_le hv hparent
  have hcalls : ∀ c ∈ openCalls id input parent board s', c.missesVariable = false :=
    (unhindered_warmupWithin hclosed (s'.opened parent).1 (s'.opened parent).2.depthBound
      (s'.opened parent).2 id input board plans _ _ hid hharm.code hscoped hplans hpass hle).1
  refine ⟨hcalls, fun e he => ?_⟩
  rw [eval_warmup] at he
  rcases mem_warmupCalls_of_error (Prod.ext he rfl) with ⟨name, rfl, -⟩ | ⟨x, hx⟩
  · rfl
  · exact hcalls _ hx

/-- All wires of a store are made of built-in stages of some sort, and run only wires of the store. -/
theorem closed_of_rows {sort : Stage H → Prop}
    (h : ∀ w ∈ s.wires.rows.toList, ∀ p ∈ w.stages, p.stage.isBuiltIn = true ∧ sort p.stage.bare ∧
      ∀ j ∈ p.stage.nested?, j.row < s.wires.size) :
    s.code.Closed sort {i | i.row < s.wires.size} := by
  have hrow : ∀ {i : Id .wire} {w : Wire H}, s.wires.get? i = some w → w ∈ s.wires.rows.toList :=
    fun hw => Array.mem_toList_iff.2 (Array.mem_of_getElem? hw)
  refine ⟨fun i hi => ?_, fun i hi j hj => ?_⟩
  · have hw : s.wires.get? i = some s.wires.rows[i.row] := Array.getElem?_eq_getElem hi
    refine ⟨s.wires.rows[i.row].stages.map (·.stage.bare), ?_, fun st hst => ?_⟩
    · rw [Store.code, hw, Option.map_some, Wire.code, List.map_map]
      refine congrArg some (List.map_congr_left fun p hp => ?_)
      exact Stage.plan?_eq_some_iff.2 ⟨(h _ (hrow hw) p hp).1, rfl⟩
    · obtain ⟨p, hp, rfl⟩ := List.mem_map.1 hst
      exact (h _ (hrow hw) p hp).2.1
  · obtain ⟨plans, hplans, st, hst, hnested⟩ := hj
    obtain ⟨w, hw, rfl⟩ := exists_of_code hplans
    obtain ⟨p, hp, hplan⟩ := List.mem_map.1 hst
    obtain ⟨-, rfl⟩ := Stage.plan?_eq_some_iff.1 hplan
    rw [Stage.nested?_bare] at hnested
    exact (h w (hrow hw) p hp).2.2 j hnested

/-- No wire of a store was ever composed. -/
theorem fresh_of_rows (h : ∀ w ∈ s.wires.rows.toList, w.composed = none) :
    ∀ j ∈ {i : Id .wire | i.row < s.wires.size}, s.isComposed j = false := by
  intro j hj
  have hw : s.wires.get? j = some s.wires.rows[j.row] := Array.getElem?_eq_getElem hj
  have hnone := h _ (Array.mem_toList_iff.2 (Array.mem_of_getElem? hw))
  rw [isComposed, hw, Option.bind_some, hnone]
  rfl

/-- A scope with a variable, and a wire that reads it twice, through a wire that it runs, before and
after it publishes a variable. -/
def reading (published : String) : Store Host.none :=
  let (P, vars) := ({} : Variables).addScope none
  let vars := (vars.insert P "x" (.int 5) false).2
  let (v, s) := ({ vars } : Store Host.none).addWire "inner" false
  let (w, s) := s.addWire "outer" false
  let runs : Placed Host.none := { stage := .inline { wire := some v } }
  let s := s.modifyWire v fun x => { x with stages := [{ stage := .get "x" none }] }
  s.modifyWire w fun x => { x with stages := [runs, { stage := .set published .nothing none }, runs] }

theorem wellFormed_reading (published : String) : (reading published).vars.WellFormed :=
  ((Variables.WellFormed.insert (Variables.wellFormed_empty.addScope (by simp)) ⟨0⟩ "x" (.int 5)
    false).addScope (by simp)).addScope (by simp)

/-- The site that describes the scope. -/
def readingSite : Site := { plainSite .int with shared := (reading "x").vars.visible ⟨0⟩ }

/-- The wire finds its variables in a scope below the one that it was composed against. -/
theorem reading_finds_variables :
    ∃ signature s', (reading "x").eval (composeOwned ⟨1⟩ readingSite) = (.ok signature, s') ∧
      (openCalls ⟨1⟩ (.int 1) (some ⟨0⟩) ⟨0⟩ s').length = 5 ∧
      ∀ c ∈ openCalls ⟨1⟩ (.int 1) (some ⟨0⟩) ⟨0⟩ s', c.missesVariable = false := by
  have hok : ((reading "x").eval (composeOwned ⟨1⟩ readingSite)).1.isOk = true := by decide +kernel
  have hlength : (openCalls ⟨1⟩ (.int 1) (some ⟨0⟩) ⟨0⟩
      ((reading "x").eval (composeOwned ⟨1⟩ readingSite)).2).length = 5 := by decide +kernel
  rcases heval : (reading "x").eval (composeOwned ⟨1⟩ readingSite) with ⟨_ | signature, s'⟩
  · rw [heval] at hok
    cases hok
  · rw [heval] at hlength
    refine ⟨signature, s', rfl, hlength, ?_⟩
    exact (composed_finds_variables (.fresh (fresh_of_rows (by decide +kernel)))
      (closed_of_rows (by decide +kernel)) (by decide +kernel) (wellFormed_reading "x")
      (fun P hP => by cases hP; decide +kernel) rfl (by decide +kernel) heval _ _).1

end Store

end Dataflow
