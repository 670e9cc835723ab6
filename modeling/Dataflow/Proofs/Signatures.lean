import Dataflow.Proofs.Discipline
/-!
# Variables of a signature

A composition that is not answered from a memo collects the variables that the wire publishes and
those that it needs, stage by stage, from the stages themselves and from the wires that they run. Of
what the stages ask for nothing is assumed: units of the host may publish, need and lend any
variables. Whatever the order, each name is listed once, what the wire needs is described as it is
around the wire, what it publishes may take the place of what it hides, and there is one warning for
each hidden variable.
-/

namespace Dataflow

variable {H : Host} {b b' : Bound} {x : String} {var : VarDecl} {needs vars : List VarDecl}
  {s s' : Store H} {places : List Place}

namespace Bound

variable {inherited : List VarDecl} {places : List Place} {b : Bound}

/-- What is known of the variables of a wire up to some stage. The places are those that published the
variables, in the order of publication. -/
structure WellFormed (inherited : List VarDecl) (places : List Place) (b : Bound) : Prop where
  exposed_once : (b.exposed.map (·.name)).Nodup
  required_once : (b.required.map (·.name)).Nodup
  /-- What is needed is described as it is around the wire, and is changed only if it may be. -/
  described : ∀ d ∈ b.required, ∃ e, VarDecl.find? d.name inherited = some e ∧ d.ty = e.ty ∧
    d.isProtected = e.isProtected ∧ (d.isMutable = true → e.isMutable = true)
  /-- What is hidden may be hidden. -/
  hidden : ∀ d ∈ b.exposed, ∀ e, VarDecl.find? d.name inherited = some e →
    e.isProtected = false ∧ (e.ty = d.ty ∨ e.ty.accepts d.ty = true)
  length : places.length = b.exposed.length
  /-- There is a warning for each variable that hides another one, and none else. -/
  warned : b.findings.issues =
    ((b.exposed.zip places).filter fun e => e.1.hidesIn inherited).map fun e =>
      .warning (shadowWarning e.2 e.1.name)

theorem WellFormed.initial (previous : Ty) : WellFormed inherited [] { previous } where
  exposed_once := .nil
  required_once := .nil
  described := by simp
  hidden := by simp
  length := rfl
  warned := rfl

theorem WellFormed.with_previous (h : b.WellFormed inherited places) (previous : Ty) :
    WellFormed inherited places { b with previous } :=
  ⟨h.exposed_once, h.required_once, h.described, h.hidden, h.length, h.warned⟩

/-- A need that is met from outside is noted once, as it is described there. -/
theorem WellFormed.require (h : b.WellFormed inherited places) {place : Place} {need : VarDecl}
    (hb : b.require inherited place need = .ok b') : b'.WellFormed inherited places := by
  obtain ⟨found, hfound, -, hchanged, rfl⟩ := require_eq_ok_iff.1 hb
  unfold noted
  split_ifs with hknown
  · exact h
  · rw [not_or] at hknown
    refine ⟨h.exposed_once, ?_, ?_, h.hidden, h.length, h.warned⟩
    · rw [List.map_append, List.map_singleton, List.nodup_append']
      exact ⟨h.required_once, List.nodup_singleton _, List.disjoint_singleton.2 hknown.2⟩
    · intro d hd
      rcases List.mem_append.1 hd with hd | hd
      · exact h.described d hd
      · obtain rfl := List.mem_singleton.1 hd
        rw [VarDecl.find?_append_of_notMem hknown.1] at hfound
        exact ⟨found, hfound, rfl, rfl, fun hmutable => (hchanged hmutable).2⟩

/-- A publication adds a variable with a new name, or nothing. -/
theorem WellFormed.expose (h : b.WellFormed inherited places) {place : Place}
    (hb : b.expose inherited place var = .ok b') :
    b'.WellFormed inherited places ∨ b'.WellFormed inherited (places ++ [place]) := by
  obtain ⟨hfits, rfl⟩ := expose_eq_ok_iff.1 hb
  unfold shown
  split_ifs with hnew hhides
  · exact .inl h
  all_goals
    refine .inr ⟨?_, h.required_once, h.described, fun d hd => ?_, ?_, ?_⟩
    · rw [List.map_append, List.map_singleton, List.nodup_append']
      exact ⟨h.exposed_once, List.nodup_singleton _, List.disjoint_singleton.2 hnew⟩
    · rcases List.mem_append.1 hd with hd | hd
      · exact h.hidden d hd
      · obtain rfl := List.mem_singleton.1 hd
        rwa [VarDecl.find?_append_of_notMem hnew] at hfits
    · simp [h.length]
    · rw [List.zip_append h.length.symm, List.filter_append, List.map_append, ← h.warned]
      simp [hhides, Findings.warn, Findings.add]

theorem WellFormed.exposes {place : Place} (h : b.WellFormed inherited places)
    (hb : vars.foldlM (fun b var => b.expose inherited place var) b = .ok b') :
    ∃ n, b'.WellFormed inherited (places ++ List.replicate n place) := by
  induction vars generalizing b places with
  | nil =>
    cases hb
    exact ⟨0, by simpa using h⟩
  | cons var vars ih =>
    rw [List.foldlM_cons] at hb
    obtain ⟨b₁, hfirst, hb⟩ := exists_of_bind_ok hb
    rcases h.expose hfirst with h | h
    · exact ih h hb
    · obtain ⟨n, hn⟩ := ih h hb
      exact ⟨n + 1, by rwa [List.append_assoc, List.singleton_append, ← List.replicate_succ] at hn⟩

theorem WellFormed.requires {place : Place} (h : b.WellFormed inherited places)
    (hb : needs.foldlM (fun b need => b.require inherited place need) b = .ok b') :
    b'.WellFormed inherited places := by
  induction needs generalizing b with
  | nil =>
    cases hb
    exact h
  | cons need needs ih =>
    rw [List.foldlM_cons] at hb
    obtain ⟨b₁, hfirst, hb⟩ := exists_of_bind_ok hb
    exact ih (h.require hfirst) hb

theorem WellFormed.add {place : Place} (h : b.WellFormed inherited places)
    (hb : b.add inherited place needs vars = .ok b') :
    ∃ n, b'.WellFormed inherited (places ++ List.replicate n place) := by
  unfold Bound.add at hb
  obtain ⟨b₁, hneeds, hb⟩ := exists_of_bind_ok hb
  exact (h.requires hneeds).exposes hb

end Bound

namespace Store

/-- The place of a stage in a row of stages. -/
def IsPlaceIn (stages : List (Placed H)) (place : Place) : Prop :=
  (stages[place.position]?).map (·.stage.name) = some place.stage

variable {nested : NestedCompose H} {id : Id .wire} {wireName : String} {wireInput : Ty} {site : Site}

theorem wellFormed_composeStage {position : Nat} {stage : Stage H}
    (hb : b.WellFormed site.shared places)
    (h : s.eval (composeStage nested id wireName wireInput site b position stage) = (.ok b', s')) :
    ∃ n, b'.WellFormed site.shared (places ++ List.replicate n ⟨stage.name, position⟩) := by
  obtain ⟨-, needs, vars, s₁, output, b₁, -, -, hadd, rfl⟩ := composeStage_ok h
  obtain ⟨n, hn⟩ := hb.add hadd
  exact ⟨n, hn.with_previous output⟩

/-- Stages that follow others publish behind them. -/
theorem wellFormed_composeStages {all rest : List (Placed H)} (before : List (Placed H))
    (hall : all = before ++ rest) (hb : b.WellFormed site.shared places)
    (hin : ∀ p ∈ places, IsPlaceIn all p ∧ p.position < before.length)
    (horder : places.Pairwise fun p q => p.position ≤ q.position)
    (h : s.eval (composeStages nested id wireName wireInput site before.length rest b) =
      (.ok b', s')) :
    ∃ places', b'.WellFormed site.shared places' ∧ (∀ p ∈ places', IsPlaceIn all p) ∧
      places'.Pairwise fun p q => p.position ≤ q.position := by
  induction rest generalizing before s b places with
  | nil =>
    simp only [composeStages, eval_pure, Prod.mk.injEq, Except.ok.injEq] at h
    obtain ⟨rfl, -⟩ := h
    exact ⟨places, hb, fun p hp => (hin p hp).1, horder⟩
  | cons p rest ih =>
    rw [composeStages] at h
    obtain ⟨b₁, s₁, hstage, h⟩ := eval_bind_ok h
    obtain ⟨n, hn⟩ := wellFormed_composeStage hb hstage
    have hplace : ∀ q ∈ List.replicate n (⟨p.stage.name, before.length⟩ : Place),
        IsPlaceIn all q ∧ q.position = before.length := by
      intro q hq
      obtain rfl := List.eq_of_mem_replicate hq
      exact ⟨by simp [IsPlaceIn, hall], rfl⟩
    refine ih (before ++ [p]) (by simpa using hall) hn (fun q hq => ?_) ?_
      (by simpa using h)
    · rw [List.length_append, List.length_singleton]
      rcases List.mem_append.1 hq with hq | hq
      · exact ⟨(hin q hq).1, Nat.lt_succ_of_lt (hin q hq).2⟩
      · exact ⟨(hplace q hq).1, by rw [(hplace q hq).2]; exact Nat.lt_succ_self _⟩
    · refine List.pairwise_append.2 ⟨horder, List.pairwise_replicate.2 (.inr (Nat.le_refl _)), ?_⟩
      intro q hq r hr
      rw [(hplace r hr).2]
      exact (hin q hq).2.le

/-- Composing a wire afresh, however the wires that it runs are composed. -/
theorem wellFormed_composeLocked {locked : List (Id .wire)} {wire : Wire H} {signature : Signature}
    (hw : s.wires.get? id = some wire) (hfresh : s.recalled? locked wire site = none)
    (h : s.eval (composeLocked nested locked id site) = (.ok signature, s')) :
    ∃ b places, signature = signatureOf wire (inputAt wire site) b ∧ b.WellFormed site.shared places ∧
      (∀ p ∈ places, IsPlaceIn wire.stages p) ∧
      places.Pairwise fun p q => p.position ≤ q.position := by
  rw [eval_composeLocked, hw] at h
  simp only [hfresh, eval_composeFresh] at h
  rcases hb : (s.modifyWire id forget).eval (composeStages nested id wire.name
    (inputAt wire site) site 0 wire.stages { previous := inputAt wire site }) with ⟨_ | b, s₁⟩
  · simp [hb] at h
  · simp only [hb, Prod.mk.injEq, Except.ok.injEq] at h
    obtain ⟨places, hformed, hin, horder⟩ := wellFormed_composeStages [] rfl
      (Bound.WellFormed.initial _) (by simp) .nil hb
    exact ⟨b, places, h.1.symm, hformed, hin, horder⟩

theorem eval_composeAs (s : Store H) (owned : Bool) (id : Id .wire) (site : Site) :
    ∃ nested : NestedCompose H,
      s.eval (composeAs owned id site) = s.eval (composeLocked nested [id] id site) := by
  cases owned with
  | true =>
    refine ⟨composeWithin s.depthBound ⟨[], [id]⟩, ?_⟩
    change s.eval (composeOwned id site) = _
    exact eval_composeOwned s id site
  | false =>
    refine ⟨composeWithin s.wires.size ⟨[id], [id]⟩, ?_⟩
    change s.eval (composeShared id site) = _
    rw [eval_composeShared, depthBound, eval_composeWithin_succ]
    rfl

/-- In the signature of a wire that was not answered from a memo each published and each needed name
is listed once. A needed variable has the type and the protection of the one that the name means
around the wire. A published variable that hides another one hides an unprotected one that takes its
type. For each of these, in the order of publication, there is one warning, at the place of a stage of
the wire, and there are no other findings. -/
theorem composed_variables_wellFormed (owned : Bool) {s s' : Store H} {id : Id .wire} {wire : Wire H}
    {site : Site} {signature : Signature} (hw : s.wires.get? id = some wire)
    (hfresh : s.recalled? [id] wire site = none)
    (h : s.eval (composeAs owned id site) = (.ok signature, s')) :
    (signature.exposed.map (·.name)).Nodup ∧ (signature.required.map (·.name)).Nodup ∧
      (∀ d ∈ signature.required, ∃ e, VarDecl.find? d.name site.shared = some e ∧ d.ty = e.ty ∧
        d.isProtected = e.isProtected) ∧
      (∀ d ∈ signature.exposed, ∀ e, VarDecl.find? d.name site.shared = some e →
        e.isProtected = false ∧ (e.ty = d.ty ∨ e.ty.accepts d.ty = true)) ∧
      ∃ places : List Place, places.length = signature.exposed.length ∧
        (∀ p ∈ places, IsPlaceIn wire.stages p) ∧
        places.Pairwise (fun p q => p.position ≤ q.position) ∧
        signature.findings.errors = [] ∧ signature.findings.warnings =
          ((signature.exposed.zip places).filter fun e => e.1.hidesIn site.shared).map fun e =>
            Bound.shadowWarning e.2 e.1.name := by
  obtain ⟨nested, hnested⟩ := eval_composeAs s owned id site
  rw [hnested] at h
  obtain ⟨b, places, rfl, hformed, hin, horder⟩ := wellFormed_composeLocked hw hfresh h
  refine ⟨hformed.exposed_once, hformed.required_once, fun d hd => ?_, hformed.hidden, places,
    hformed.length, hin, horder, ?_, ?_⟩
  · obtain ⟨e, he, hty, hprotected, -⟩ := hformed.described d hd
    exact ⟨e, he, hty, hprotected⟩
  · simp [signatureOf, Findings.errors, hformed.warned, Finding.error?, List.filterMap_map,
      Function.comp_def]
  · simp [signatureOf, Findings.warnings, hformed.warned, Finding.warning?, List.filterMap_map,
      Function.comp_def]

/-- A wire that reads and hides variables from outside, some of them through a wire that it runs. -/
def veiling : Store Host.none :=
  let (v, s) := ({} : Store Host.none).addWire "inner" false
  let (w, s) := s.addWire "outer" false
  let s := s.modifyWire v fun x =>
    { x with stages := [{ stage := .get "y" none }, { stage := .set "y" .nothing none }] }
  s.modifyWire w fun x => { x with stages :=
    [{ stage := .set "x" .nothing none }, { stage := .add { value := .ref "z" } },
      { stage := .inline { wire := some v } }, { stage := .get "x" none }] }

/-- The site of the wire. -/
def veilingSite : Site :=
  { input := .int, wireInput := .int, board := ⟨0⟩
    shared := [.readOnly "z" .int, .assignable "x" .int, .assignable "y" .string] }

/-- The wire needs two variables and hides two. -/
theorem veiling_variables_wellFormed :
    ∃ signature s', veiling.eval (composeAs true ⟨1⟩ veilingSite) = (.ok signature, s') ∧
      signature.exposed.map (·.name) = ["x", "y"] ∧ signature.required.map (·.name) = ["z", "y"] ∧
      signature.findings.warnings = ["Set (position 0) shadows inherited variable x",
        "Do (position 2) shadows inherited variable y"] ∧
      (∀ d ∈ signature.required, ∃ e, VarDecl.find? d.name veilingSite.shared = some e ∧
        d.ty = e.ty ∧ d.isProtected = e.isProtected) ∧
      ∀ d ∈ signature.exposed, ∀ e, VarDecl.find? d.name veilingSite.shared = some e →
        e.isProtected = false ∧ (e.ty = d.ty ∨ e.ty.accepts d.ty = true) := by
  have hfound : ((veiling.eval (composeAs true ⟨1⟩ veilingSite)).1.toOption.map fun signature =>
      (signature.exposed.map (·.name), signature.required.map (·.name),
        signature.findings.warnings)) =
      some (["x", "y"], ["z", "y"], ["Set (position 0) shadows inherited variable x",
        "Do (position 2) shadows inherited variable y"]) := by decide +kernel
  obtain ⟨wire, hw⟩ : ∃ wire, veiling.wires.get? ⟨1⟩ = some wire :=
    Option.isSome_iff_exists.1 (by decide +kernel)
  have hfresh :
      ((veiling.wires.get? ⟨1⟩).bind fun w => veiling.recalled? [⟨1⟩] w veilingSite) = none := by
    decide +kernel
  rw [hw, Option.bind_some] at hfresh
  rcases heval : veiling.eval (composeAs true ⟨1⟩ veilingSite) with ⟨_ | signature, s'⟩
  · rw [heval] at hfound
    cases hfound
  · rw [heval] at hfound
    obtain ⟨hexposed, hrequired, hwarnings⟩ := Prod.mk.inj (Option.some.inj hfound) |>.imp id Prod.mk.inj
    obtain ⟨-, -, hdescribed, hhidden, -⟩ := composed_variables_wellFormed true hw hfresh heval
    exact ⟨signature, s', rfl, hexposed, hrequired, hwarnings, hdescribed, hhidden⟩

end Store

end Dataflow
