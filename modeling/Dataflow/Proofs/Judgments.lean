import Dataflow.Proofs.Discipline
/-!
# Composed wires are typed

A composition that succeeds leads to a typing of the wire, whichever of the requests in it were
answered from a memo. What is proved of a fresh composition is kept with the memo: some request with
its key has led to a typing. When the memo answers another request with that key, the two requests
agree on all that the typing depends on, unless hashes collide. That is a discipline, which does not
outlast failures: a stage that fails to bind its input may have composed its wire at a site without
order.
-/

namespace Dataflow

variable {H : Host} {code : Code H} {site : Site} {signature : Signature} {s s' : Store H}

/-- What a signature says about a wire at a site is a typing of the wire. -/
structure Judged (code : Code H) (j : Id .wire) (site : Site) (signature : Signature) : Prop where
  typed : ∃ plans, code j = some plans ∧
    Typed code (inputTag plans site.input.tag) plans (inputTag plans site.input.tag)
      (Env.ofDecls site.shared) signature.output.tag
      ((Env.ofDecls site.shared).overlay signature.exposed)
  free : ∀ d ∈ signature.exposed, d.isProtected = false ∧ d.ty ≠ .any
  known : signature.output ≠ .any

/-- A typing depends on no more of a site than tags. -/
theorem Judged.of_site_eq {j : Id .wire} {site' : Site}
    (h : Judged code j site signature) (hinput : site.input.tag = site'.input.tag)
    (hshared : Env.ofDecls site.shared = Env.ofDecls site'.shared) :
    Judged code j site' signature := by
  refine ⟨?_, h.free, h.known⟩
  have htyped := h.typed
  rwa [hinput, hshared] at htyped

/-- Hiding a variable while others are published, and then showing it again, comes to publishing
them. -/
theorem Env.update_overlay (Γ : Env) (x : String) (e : Option (UInt8 × Bool))
    {decls : List VarDecl} (h : ofDecls decls x = none) :
    Function.update (overlay (Function.update Γ x e) decls) x (Γ x) = overlay Γ decls := by
  funext y
  by_cases hy : y = x
  · subst hy
    simp [overlay, h]
  · simp [overlay, hy]

namespace Store

/-- The tag that a wire begins with is that of the type it is composed with. -/
theorem tag_inputAt {wire : Wire H} (h : wire.code = wire.stages.map fun p => some p.stage.bare)
    (site : Site) : (inputAt wire site).tag = inputTag wire.code site.input.tag := by
  rw [h]
  unfold inputAt Wire.ignoresInput inputTag
  cases wire.stages with
  | nil => rfl
  | cons first rest =>
    simp only [List.map_cons, Stage.ignoresInput_bare]
    split <;> rfl

theorem inputAt_ne_any {wire : Wire H} (h : site.input ≠ .any) : inputAt wire site ≠ .any := by
  unfold inputAt
  split
  · simp
  · exact h

section Stages

variable {wireName : String} {wireInput : Ty} {b b' : Bound} {position : Nat} {stage : Stage H}
  {id : Id .wire}

/-- A stage that composes and has no wire to run is typed. -/
theorem stageTyped_leaf {nested : NestedCompose H}
    (h : s.eval (composeStage nested id wireName wireInput site b position stage) = (.ok b', s'))
    (hat : s.PlannedAt id position stage) (hplain : stage.bare.isPlain = true)
    (hnone : stage.nested? = none) (ht : b.Tidy site.shared) (hprev : b.previous ≠ .any)
    (hwire : wireInput ≠ .any) :
    StageTyped wireInput.tag stage.bare b.previous.tag (b.env site.shared) b'.previous.tag
        (b'.env site.shared) ∧
      b'.Tidy site.shared ∧ b'.previous ≠ .any := by
  refine stageTyped_composeStage h hat hplain (Bool.eq_false_iff.2 fun hnest => ?_) ht hprev hwire
  obtain ⟨-, _, _, _, _, _, -, hout, -, -⟩ := composeStage_ok h
  obtain ⟨-, -, ⟨j, -, hj, -⟩, -⟩ := stageOutput_nesting_ok hnest hout
  rw [hnone] at hj
  cases hj

/-- A stage that runs a typed wire continues a typing backwards. -/
theorem typed_nest {j : Id .wire} (hj : stage.nested? = some j)
    (hobject : ∀ x sub slot, stage = .bound x sub slot → b.previous.tag = objectTag)
    (hjudged : Judged code j ((hereSite wireName wireInput site b position).nested
      (stage.lent b.previous)) signature) {rest : List (Option (Stage H))} {k' : UInt8} {Γ' : Env}
    (hrest : Typed code wireInput.tag rest signature.output.tag
      ((b.env site.shared).overlay signature.exposed) k' Γ') :
    Typed code wireInput.tag (some stage.bare :: rest) b.previous.tag (b.env site.shared) k' Γ' := by
  obtain ⟨plans, hplans, htyped⟩ := hjudged.typed
  cases stage with
  | inline sub =>
    obtain ⟨wire, running⟩ := sub
    obtain rfl : wire = some j := hj
    refine .inline hplans ?_ hrest
    simpa [Bound.env, Site.nested, hereSite, Stage.lent] using htyped
  | bound x sub slot =>
    obtain ⟨wire, running⟩ := sub
    obtain rfl : wire = some j := hj
    have htag := hobject x _ slot rfl
    have hinner : Env.ofDecls ((site.shared ++ b.exposed) ++ [.sealed x b.previous]) =
        Function.update (b.env site.shared) x (some (objectTag, true)) := by
      rw [Env.ofDecls_append, Env.overlay_singleton, ← htag]
      rfl
    change Typed code (inputTag plans b.previous.tag) plans (inputTag plans b.previous.tag)
      (Env.ofDecls ((site.shared ++ b.exposed) ++ [.sealed x b.previous])) _
      ((Env.ofDecls ((site.shared ++ b.exposed) ++ [.sealed x b.previous])).overlay _) at htyped
    rw [hinner, htag] at htyped
    rw [htag]
    refine .bound hplans htyped ?_
    -- The wire cannot publish the name of the object that is bound for it.
    have hhidden : Env.ofDecls signature.exposed x = none := by
      have hkept := htyped.extends x _ (Function.update_self ..)
      cases hfound : VarDecl.find? x signature.exposed with
      | none => simp [Env.ofDecls, hfound]
      | some d =>
        have hfree := (hjudged.free d (VarDecl.mem_of_find? hfound).1).1
        simp [Env.overlay, Env.ofDecls, hfound, hfree] at hkept
    rwa [Env.update_overlay _ _ _ hhidden]
  | _ => cases hj

/-- Stages that were composed one after the other are typed, if the wires that they run are. -/
theorem Composes.typed {stages : List (Placed H)}
    (h : Composes (fun j σ g output => Judged code j σ g ∧ output = some g.output) id wireName
      wireInput site position stages b b')
    (hplain : ∀ p ∈ stages, p.stage.bare.isPlain = true) (ht : b.Tidy site.shared)
    (hprev : b.previous ≠ .any) (hwire : wireInput ≠ .any) :
    b'.Tidy site.shared ∧ b'.previous ≠ .any ∧
      Typed code wireInput.tag (stages.map fun p => some p.stage.bare) b.previous.tag
        (b.env site.shared) b'.previous.tag (b'.env site.shared) := by
  induction h with
  | nil => exact ⟨ht, hprev, .nil⟩
  | leaf _ hn hat hstage _ ih =>
    obtain ⟨hplain, hplains⟩ := List.forall_mem_cons.1 hplain
    obtain ⟨htyped, ht₁, hprev₁⟩ := stageTyped_leaf hstage hat hplain hn ht hprev hwire
    obtain ⟨ht', hprev', hrest⟩ := ih hplains ht₁ hprev₁
    exact ⟨ht', hprev', .stage htyped hrest⟩
  | nest hj hobject hgood hadd _ ih =>
    obtain ⟨hjudged, houtput⟩ := hgood
    obtain rfl := Option.some.inj houtput
    obtain ⟨ht₁, henv, -⟩ := Bound.add_ok hadd ht hjudged.free
    obtain ⟨ht', hprev', hrest⟩ := ih (List.forall_mem_cons.1 hplain).2 ⟨ht₁.orderly, ht₁.free⟩
      hjudged.known
    refine ⟨ht', hprev', typed_nest hj hobject hjudged ?_⟩
    rwa [← henv]

end Stages

/-- The discipline by which compositions lead to typings. -/
def judging {L : List Request} {T : Set (Id .wire)} (hclosed : code.Closed (·.isPlain = true) T)
    (hL : NoCollision L) : Discipline code T where
  asked r := r ∈ L
  promise j k g output := ∃ r ∈ L, r.key = some k ∧ Orderly r.site.shared ∧
    Judged code j r.site g ∧ output = some g.output
  fit site := Orderly site.shared ∧ site.input ≠ .any
  known site wireInput b := b.Tidy site.shared ∧ b.previous ≠ .any ∧ wireInput ≠ .any
  good _ j site g output := Judged code j site g ∧ output = some g.output
  lasting := False
  sort := (·.isPlain = true)
  closed := hclosed
  start := by
    intro site wire hfit
    have hany : inputAt wire site ≠ .any := inputAt_ne_any hfit.2
    exact ⟨⟨by simpa using hfit.1, by simp⟩, hany, hany⟩
  inner := by
    intro site b stage wireName wireInput position hnest hknown hobject
    refine ⟨?_, hknown.2.1⟩
    change Orderly ((site.shared ++ b.exposed) ++ stage.lent b.previous)
    cases stage with
    | inline sub => simpa [Stage.lent] using hknown.1.orderly
    | bound x sub slot =>
      exact hknown.1.orderly.concat_sealed x ((hobject.resolve_left id) x sub slot rfl)
    | _ => cases hnest
  leaf := by
    intro site b b₁ stage nested s s' id wireName wireInput position hknown _ hplain hn hat h
    obtain ⟨-, ht, hprev⟩ := stageTyped_leaf h hat hplain hn hknown.1 hknown.2.1 hknown.2.2
    exact ⟨ht, hprev, hknown.2.2⟩
  nest := by
    rintro site site' wireInput b b₁ locked j g place needs output hknown ⟨hjudged, houtput⟩ hadd
    obtain rfl := Option.some.inj houtput
    obtain ⟨ht, -⟩ := Bound.add_ok hadd hknown.1 hjudged.free
    exact ⟨⟨ht.orderly, ht.free⟩, hjudged.known, hknown.2.2⟩
  fresh := by
    intro id locked wire site b hid _ hplans hfit h
    have hstage := fun p hp => hclosed.stage hid hplans (p := p) hp
    have hbare : wire.code = wire.stages.map fun p => some p.stage.bare :=
      List.map_congr_left fun p hp => (hstage p hp).1
    have hany : inputAt wire site ≠ .any := inputAt_ne_any hfit.2
    obtain ⟨ht, hprev, htyped⟩ := h.typed (fun p hp => (hstage p hp).2.1)
      ⟨by simpa using hfit.1, by simp⟩ hany hany
    refine ⟨⟨⟨wire.code, hplans, ?_⟩, fun d hd => ?_, hprev⟩, rfl⟩
    · rw [tag_inputAt hbare, ← hbare] at htyped
      simpa [Bound.env, signatureOf, Env.ofDecls_append, Env.overlay_nil] using htyped
    · exact ⟨ht.free d hd, ht.orderly.known d (List.mem_append_right _ hd)⟩
  revive := by
    rintro s id locked wire site k g _ recalled _ _ _ _ hfit hasked hk ⟨r, hr, hkey, horder, h⟩
    obtain ⟨hinput, hshared⟩ := hL.site_eq hr hasked hkey ((composeKey_eq ..).symm.trans hk) horder
      hfit.1
    exact ⟨h.1.of_site_eq hinput hshared, h.2⟩
  keep _ _ _ _ hfit hasked hk hgood := ⟨_, hasked, (composeKey_eq ..).symm.trans hk, hfit.1, hgood⟩

/-- A wire of plain stages that composes at an orderly site is typed there. -/
theorem judged_composeOwned {T : Set (Id .wire)} (hclosed : s.code.Closed (·.isPlain = true) T)
    (hfresh : ∀ j ∈ T, s.isComposed j = false) {id : Id .wire} (hid : id ∈ T)
    (horder : Orderly site.shared) (hinput : site.input ≠ .any)
    (hL : NoCollision (ownedRequests id site s))
    (h : s.eval (composeOwned id site) = (.ok signature, s')) :
    Judged s.code id site signature ∧ s'.code = s.code := by
  have hends := Discipline.composeAs true (D := judging hclosed hL) (fun _ _ => hid)
    ⟨horder, hinput⟩ (fun r hr => hr) ⟨rfl, .of_fresh hfresh⟩
  change (judging hclosed hL).Ends (s.eval (composeOwned id site)) _ at hends
  rw [h] at hends
  obtain ⟨hkept, _, hgood, -⟩ := hends
  exact ⟨hgood.1, hkept.1⟩

end Store

end Dataflow
