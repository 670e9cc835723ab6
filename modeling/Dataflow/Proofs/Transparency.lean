import Dataflow.Proofs.Content
import Dataflow.Proofs.Cycles
/-!
# Memos are transparent

A composition reuses what the memo of a wire holds if the key is the same. The key is made of hashes,
and of what an earlier composition was asked. So a memo answers rightly as long as hashes tell apart
what an answer depends on: the sketch of the code, the input type, and what names mean. The first is a
matter of collisions. The other two are not, for the fingerprint of a sequence forgets the order of
element types, and that of a list of variables forgets which one hides another.
-/

namespace Dataflow

variable {H : Host} {s s₀ : Store H} {L : List (Query H)} {depth position : Nat}
  {requests : Store.NestedRequests H} {w : Wire H} {trail : Trail}

open Relation (TransGen)

/-! ### Sites that are told apart -/

/-- The fingerprints of two sites show whether they give a wire the same input type, and whether each
name means the same variable. -/
structure Site.Discerned (σ σ' : Site) : Prop where
  input : σ'.input.fingerprint = σ.input.fingerprint → σ'.input = σ.input
  shared : VarDecl.fingerprints σ'.shared = VarDecl.fingerprints σ.shared →
    ∀ d ∈ σ.shared ++ σ'.shared, VarDecl.find? d.name σ'.shared = VarDecl.find? d.name σ.shared

instance (σ σ' : Site) : Decidable (σ.Discerned σ') :=
  decidable_of_iff ((σ'.input.fingerprint = σ.input.fingerprint → σ'.input = σ.input) ∧
      (VarDecl.fingerprints σ'.shared = VarDecl.fingerprints σ.shared →
        ∀ d ∈ σ.shared ++ σ'.shared, VarDecl.find? d.name σ'.shared = VarDecl.find? d.name σ.shared))
    ⟨fun h => ⟨h.1, h.2⟩, fun h => ⟨h.input, h.shared⟩⟩

/-- Sites with the same fingerprints look alike, if fingerprints tell them apart. -/
theorem Site.Discerned.like {σ σ' : Site} (h : σ.Discerned σ') {c : UInt64}
    (hwords : σ.keyWords c = σ'.keyWords c) : σ.Like σ' := by
  simp only [keyWords, List.cons.injEq, and_true] at hwords
  refine ⟨h.input hwords.1.symm, fun x => ?_⟩
  by_cases hx : ∃ d ∈ σ.shared ++ σ'.shared, d.name = x
  · obtain ⟨d, hd, rfl⟩ := hx
    exact h.shared hwords.2.1.symm d hd
  · have hnone : ∀ decls, decls ⊆ σ.shared ++ σ'.shared → VarDecl.find? x decls = none := by
      intro decls hsub
      refine List.find?_eq_none.2 fun d hd hname => hx ⟨d, hsub (List.mem_reverse.1 hd), ?_⟩
      exact beq_iff_eq.1 hname
    rw [hnone _ (List.subset_append_right _ _), hnone _ (List.subset_append_left _ _)]

/-- The fingerprints of all sites at which a wire was asked for tell them apart. -/
def Query.Discernible (queries : List (Query H)) : Prop :=
  ∀ q ∈ queries, ∀ q' ∈ queries, q.request.wire = q'.request.wire →
    q.request.site.Discerned q'.request.site

instance (queries : List (Query H)) : Decidable (Query.Discernible queries) :=
  inferInstanceAs (Decidable (∀ q ∈ _, ∀ q' ∈ _, _))

namespace Store

/-! ### Memos that can be trusted -/

/-- All wires are made of pure stages and run only wires of the store. All lengths are machine
words. -/
structure IsPlain (s : Store H) : Prop where
  closed : s.code.Closed (fun st => st.isPure = true ∧ st.fits = true) {i | i.row < s.wires.size}
  size : s.wires.size ≤ UInt64.size

theorem IsPlain.isHeap (h : s.IsPlain) : s.IsHeap :=
  ⟨h.closed.imp fun _ hst => Stage.isBuiltIn_of_isPure hst.1, h.size⟩

theorem IsPlain.of_code_eq (h : s₀.IsPlain) (hcode : s.code = s₀.code) : s.IsPlain := by
  have hsize : s.wires.size = s₀.wires.size := size_of_code_eq hcode
  exact ⟨by rw [hcode, hsize]; exact h.closed, by rw [hsize]; exact h.size⟩

/-- A signature that was rightly answered to one of the queries, and kept under a key. -/
def Warranted (L : List (Query H)) (j : Id .wire) (k : UInt64) (signature : Signature) : Prop :=
  ∃ q ∈ L, q.Attests j k ∧
    q.code.Closed (fun st => st.isPure = true ∧ st.fits = true) {i | i.row < q.size} ∧
    ∃ names depth trail,
      q.code.answer names (q.code.signature names depth trail) j q.request.site = .ok signature

/-- The memo of a wire holds a signature that is warranted, and the output type is that of the
signature. -/
def Honest (L : List (Query H)) (j : Id .wire) (w : Wire H) : Prop :=
  ∀ m, w.composed = some m → w.outputTy = some m.signature.output ∧
    ∀ k, m.key = some k → Warranted L j k m.signature

/-- A store with the code of another one and these names, whose memos are honest. -/
structure Trusted (s s₀ : Store H) (names : Id .wire → String) (L : List (Query H)) : Prop where
  code : s.code = s₀.code
  named : ∀ j w, s.wires.get? j = some w → w.name = names j
  honest : ∀ j w, s.wires.get? j = some w → Honest L j w

namespace Trusted

variable {s' : Store H} {names : Id .wire → String} {id : Id .wire}

theorem size (h : s.Trusted s₀ names L) : s.wires.size = s₀.wires.size := size_of_code_eq h.code

/-- What is left alone by the composition of a stage is all that counts. -/
theorem of_same (h : s.Trusted s₀ names L) (hcode : s'.code = s.code)
    (hsame : ∀ j, (s'.wires.get? j).map (fun w => (w.name, w.composed, w.outputTy)) =
      (s.wires.get? j).map fun w => (w.name, w.composed, w.outputTy)) :
    s'.Trusted s₀ names L := by
  have hback : ∀ j w', s'.wires.get? j = some w' → ∃ w, s.wires.get? j = some w ∧
      w.name = w'.name ∧ w.composed = w'.composed ∧ w.outputTy = w'.outputTy := by
    intro j w' hw'
    have hj := hsame j
    rw [hw', Option.map_some] at hj
    obtain ⟨w, hw, heq⟩ := Option.map_eq_some_iff.1 hj.symm
    simp only [Prod.mk.injEq] at heq
    exact ⟨w, hw, heq⟩
  refine ⟨hcode.trans h.code, fun j w' hw' => ?_, fun j w' hw' m hm => ?_⟩
  · obtain ⟨w, hw, hname, -⟩ := hback j w' hw'
    rw [← hname]
    exact h.named j w hw
  · obtain ⟨w, hw, -, hcomposed, houtput⟩ := hback j w' hw'
    rw [← houtput]
    exact h.honest j w hw m (hcomposed.trans hm)

/-- A change of one wire that keeps the name and the code, and leaves an honest memo. -/
theorem modifyWire (h : s.Trusted s₀ names L) {f : Wire H → Wire H} (hcode : ∀ w, (f w).code = w.code)
    (hname : ∀ w, (f w).name = w.name) (hhonest : ∀ w, Honest L id w → Honest L id (f w)) :
    (s.modifyWire id f).Trusted s₀ names L := by
  refine ⟨(s.code_modifyWire id hcode).trans h.code, fun j w' hw' => ?_, fun j w' hw' => ?_⟩
  · obtain ⟨-, w, hw, rfl⟩ | ⟨-, hw⟩ := get?_of_modifyWire hw'
    · rw [hname]
      exact h.named j w hw
    · exact h.named j w' hw
  · obtain ⟨rfl, w, hw, rfl⟩ | ⟨-, hw⟩ := get?_of_modifyWire hw'
    · exact hhonest w (h.honest id w hw)
    · exact h.honest j w' hw

theorem forget (h : s.Trusted s₀ names L) : (s.modifyWire id forget).Trusted s₀ names L :=
  h.modifyWire (fun _ => rfl) (fun _ => rfl) fun _ _ _ hm => nomatch hm

/-- A memo that holds what is warranted can be trusted. -/
theorem remember (h : s.Trusted s₀ names L) {key : Option UInt64} (signature : Signature)
    (hkey : ∀ k, key = some k → Warranted L id k signature) (input : Ty) :
    ((s.modifyWire id (typed input signature.output)).modifyWire id
      (remember key signature)).Trusted s₀ names L := by
  rw [modifyWire_modifyWire]
  refine h.modifyWire (fun _ => rfl) (fun _ => rfl) fun w _ m hm => ?_
  cases hm
  exact ⟨rfl, hkey⟩

theorem stageOutput (h : s.Trusted s₀ names L) {stage : Stage H}
    (hat : s.PlannedAt id position stage) (wireName : String) (here : Site) :
    (s.eval (stageOutput id wireName stage ⟨stage.name, position⟩ here)).2.Trusted s₀ names L :=
  h.of_same (code_stageOutput hat wireName stage.name here)
    (same_stageOutput (fun _ _ _ => rfl) s id wireName stage _ here)

end Trusted

/-! ### Following the function -/

/-- Composing a wire beneath the trail follows the function, and leaves memos that can be trusted. -/
def Agrees (s₀ : Store H) (names : Id .wire → String) (L : List (Query H)) (answers : Answers)
    (nested : NestedCompose H) (requests : NestedRequests H) : Prop :=
  ∀ (s : Store H) (j : Id .wire) (site : Site), j.row < s₀.wires.size →
    (∀ r ∈ requests j site s, ⟨s₀.code, s₀.wires.size, r⟩ ∈ L) → s.Trusted s₀ names L →
      AnswersAs answers nested s j site ∧ (s.eval (nested j site)).2.Trusted s₀ names L

section Stages

variable {names : Id .wire → String} {answers : Answers} {nested : NestedCompose H}
  (hn : Agrees s₀ names L answers nested requests) {id : Id .wire} {wireName : String}
  {wireInput : Ty} {site : Site} {b : Bound}

include hn

/-- A pure stage composes as the function says, and leaves memos that can be trusted. -/
theorem agrees_composeStage {stage : Stage H} (hpure : stage.isPure = true)
    (hat : s.PlannedAt id position stage)
    (hsub : ∀ j, stage.nested? = some j → j.row < s₀.wires.size)
    (hasked : stage.takes b.previous = true → stage.capabilities.parameters = true →
      ∀ r ∈ paramRequests nested requests stage ⟨stage.name, position⟩
        (hereSite wireName wireInput site b position) 0 stage.params s,
        ⟨s₀.code, s₀.wires.size, r⟩ ∈ L) (hs : s.Trusted s₀ names L) :
    (s.eval (composeStage nested id wireName wireInput site b position stage)).1 =
        Code.composeStage answers wireName wireInput site b position stage.sketch ∧
      (s.eval (composeStage nested id wireName wireInput site b position stage)).2.Trusted s₀ names
        L := by
  have hinner : stage.takes b.previous = true → ∀ j, stage.nested? = some j →
      AnswersAs answers nested s j ((hereSite wireName wireInput site b position).nested
          (stage.lent (hereSite wireName wireInput site b position).input)) ∧
        (s.eval (nested j ((hereSite wireName wireInput site b position).nested
          (stage.lent (hereSite wireName wireInput site b position).input)))).2.Trusted s₀ names
            L := by
    intro htakes j hj
    exact hn s j _ (hsub j hj) (fun r hr => hasked htakes (Stage.parameters_of_nested? hj) r
      (nested_subset_paramRequests nested requests hj _ _ s hr)) hs
  refine ⟨composeStage_agrees hpure hat fun htakes j hj => ?_, ?_⟩
  · obtain ⟨hanswers, htrusted⟩ := hinner htakes j hj
    exact ⟨hanswers, hat.of_code_eq (htrusted.code.trans hs.code.symm)⟩
  · rw [eval_composeStage]
    dsimp only
    split
    · rename_i htakes
      have hparams : (s.eval (composeParams nested stage position
          (hereSite wireName wireInput site b position))).2.Trusted s₀ names L := by
        rw [eval_composeParams s nested (Stage.isBuiltIn_of_isPure hpure)]
        cases ownNeeds stage position (hereSite wireName wireInput site b position) with
        | error e => exact hs
        | ok needs =>
          cases hj : stage.nested? with
          | none => exact hs
          | some j =>
            have htrusted := (hinner htakes j hj).2
            dsimp only
            rcases heval : s.eval (nested j ((hereSite wireName wireInput site b position).nested
              (stage.lent (hereSite wireName wireInput site b position).input))) with ⟨_ | _, s₁⟩ <;>
              (rw [heval] at htrusted; exact htrusted)
      rcases hp : s.eval (composeParams nested stage position
        (hereSite wireName wireInput site b position)) with ⟨_ | ⟨needs, vars⟩, s₁⟩ <;>
        rw [hp] at hparams <;> dsimp only at hparams ⊢
      · exact hparams
      · have hout := hparams.stageOutput (hat.of_code_eq (hparams.code.trans hs.code.symm)) wireName
          (hereSite wireName wireInput site b position)
        rcases ho : s₁.eval (Store.stageOutput id wireName stage ⟨stage.name, position⟩
          (hereSite wireName wireInput site b position)) with ⟨_ | output, s₂⟩ <;>
          (rw [ho] at hout; exact hout)
    · exact hs

/-- Pure stages compose one after the other as the function says. -/
theorem agrees_composeStages {stages : List (Placed H)} (hat : s.PlannedFrom id position stages)
    (hpure : ∀ p ∈ stages, p.stage.isPure = true)
    (hsub : ∀ p ∈ stages, ∀ j, p.stage.nested? = some j → j.row < s₀.wires.size)
    (hasked : ∀ r ∈ stagesRequests nested requests id wireName wireInput site position stages b s,
      ⟨s₀.code, s₀.wires.size, r⟩ ∈ L) (hs : s.Trusted s₀ names L) :
    (s.eval (composeStages nested id wireName wireInput site position stages b)).1 =
        Code.composeStages answers wireName wireInput site position
          (stages.map fun p => some p.stage.sketch) b ∧
      (s.eval (composeStages nested id wireName wireInput site position stages b)).2.Trusted s₀
        names L := by
  induction stages generalizing s position b with
  | nil => exact ⟨rfl, hs⟩
  | cons p rest ih =>
    rw [stagesRequests] at hasked
    have hasked' : p.stage.takes b.previous = true → p.stage.capabilities.parameters = true →
        ∀ r ∈ paramRequests nested requests p.stage ⟨p.stage.name, position⟩
          (hereSite wireName wireInput site b position) 0 p.stage.params s,
          ⟨s₀.code, s₀.wires.size, r⟩ ∈ L := by
      intro htakes hparams r hr
      exact hasked r (List.mem_append_left _ (by simpa [htakes, hparams] using hr))
    obtain ⟨hanswer, htrusted⟩ := agrees_composeStage hn (hpure p List.mem_cons_self) hat.head
      (hsub p List.mem_cons_self) hasked' hs
    rw [composeStages, eval_bind, List.map_cons, Code.composeStages, ← hanswer]
    rcases hstage : s.eval (composeStage nested id wireName wireInput site b position p.stage) with
      ⟨_ | b₁, s₁⟩ <;> rw [hstage] at htrusted <;> dsimp only at htrusted ⊢
    · exact ⟨rfl, htrusted⟩
    · refine ih (hat.tail (htrusted.code.trans hs.code.symm))
        (fun q hq => hpure q (List.mem_cons_of_mem _ hq))
        (fun q hq => hsub q (List.mem_cons_of_mem _ hq)) (fun r hr => hasked r ?_) htrusted
      refine List.mem_append_right _ ?_
      simpa only [hstage] using hr

end Stages

/-- The input type and the signature of a wire, from the sketches of its stages. -/
theorem signature_of_sketches (w : Wire H) (site : Site) :
    Code.inputTy (w.stages.map fun p => some p.stage.sketch) site = inputAt w site ∧
      Code.signatureOf (w.stages.map fun p => some p.stage.sketch) = signatureOf w := by
  refine ⟨?_, funext₂ fun input b => ?_⟩
  · rw [inputAt, Wire.ignoresInput]
    cases w.stages with
    | nil => rfl
    | cons p rest => simp only [List.map_cons, Code.inputTy, Stage.ignoresInput_sketch]
  · rw [Code.signatureOf, signatureOf, Wire.stopsFlow, List.getLast?_map]
    cases w.stages.getLast? with
    | none => rfl
    | some last => simp only [Option.map_some, Stage.stopsFlow_sketch]

/-- There is room below a trail for all wires that are not on it. -/
structure Roomy (n depth : Nat) (trail : Trail) : Prop where
  entered : trail.entered ⊆ trail.locked
  nodup : trail.locked.Nodup
  rows : ∀ v ∈ trail.locked, v.row < n
  room : n ≤ trail.locked.length + depth

section Wires

variable (hplain : s₀.IsPlain) {names : Id .wire → String} (hL : Query.Distinct L)
  (hD : Query.Discernible L)

include hplain hL hD

/-- What the memo of a wire answers is what the function answers. -/
theorem Warranted.answer {id : Id .wire} {k : UInt64} {signature : Signature}
    (h : Warranted L id k signature) (hcode : s.code = s₀.code) {wire : Wire H}
    (hw : s.wires.get? id = some wire) (hroom : Roomy s₀.wires.size (depth + 1) trail)
    (hid : id ∉ trail.locked) {site : Site} {recalled : Bool}
    (hq : ⟨s₀.code, s₀.wires.size, ⟨id, site,
      s.contentHash (id :: trail.locked) s.depthBound [] wire, recalled⟩⟩ ∈ L)
    (hk : s.composeKey (id :: trail.locked) wire site = some k) {entered : List (Id .wire)}
    (hentered : entered ⊆ id :: trail.locked) :
    s₀.code.answer names (s₀.code.signature names depth ⟨entered, id :: trail.locked⟩) id site =
      .ok signature := by
  have hs := hplain.of_code_eq hcode
  have hsize := size_of_code_eq hcode
  rw [← hcode, ← hsize] at hq
  obtain ⟨q, hqL, hattests, hclosed, names', depth', trail', hanswer⟩ := h
  have hclears := Attested.clears ⟨q, hqL, hattests⟩ hL hs.isHeap hw hq hk hid
  obtain ⟨hhash, c, hwords⟩ := oneHash_of_attests hqL hattests hL hs.isHeap hw hq hk
  have hlike := (hD q hqL _ hq hattests.wire).like hwords
  have hcomparable : q.code.Comparable s.code (fun st => st.isPure = true ∧ st.fits = true)
      (L.flatMap Query.streams) q.size s.wires.size :=
    ⟨fun _ hst => Stage.isBuiltIn_of_isPure hst.1, hclosed, hs.closed, hattests.size, hs.size, hL.1,
      fun x hx row hrow => hL.2 x hx _ hq row hrow⟩
  have hagree : ∀ l, q.code.Below id l → s.code.sketch l = q.code.sketch l := fun l hl =>
    hcomparable.sketch_of_hash_eq hhash hl
  have hbelow : ∀ l, TransGen q.code.Child id l → TransGen s.code.Child id l := by
    intro l hl
    induction hl with
    | single hstep => exact .single (Code.child_of_sketch_eq (hagree _ .refl) hstep)
    | tail hprev hstep ih =>
      exact ih.tail (Code.child_of_sketch_eq (hagree _ hprev.to_reflTransGen) hstep)
  have hrows : ∀ j, s.code.Below id j → j.row < s.wires.size := fun j hj =>
    hs.closed.below (row_lt_of_get? hw) hj
  rw [← hcode]
  refine Code.answer_transfer (hclosed.imp fun _ hst => hst.1) hattests.row hagree hattests.acyclic
    (fun l hl => ?_) ?_ hlike hanswer
  · have hl' := hbelow l hl
    have hnot : l ∉ id :: trail.locked := by
      rintro (_ | ⟨_, hmem⟩)
      · exact hclears.1 id .refl hl'
      · exact hclears.2 l hmem hl'.to_reflTransGen
    exact ⟨fun h => hnot (hentered h), hnot⟩
  · rw [← hsize] at hroom
    exact hclears.1.height hrows hroom.nodup (fun v hv => ⟨hroom.rows v hv, hclears.2 v hv⟩)
      hroom.room

/-- Composing a wire follows the function and leaves memos that can be trusted. -/
theorem agrees_composeLocked {entered : List (Id .wire)} {id : Id .wire} {nested : NestedCompose H}
    (hn : Agrees s₀ names L (s₀.code.signature names depth ⟨entered, id :: trail.locked⟩) nested
      requests) (hroom : Roomy s₀.wires.size (depth + 1) trail) (hid : id ∉ trail.locked)
    (hentered : entered ⊆ id :: trail.locked) {site : Site} (hrow : id.row < s₀.wires.size)
    (hasked : ∀ r ∈ lockedRequests nested requests (id :: trail.locked) id site s,
      ⟨s₀.code, s₀.wires.size, r⟩ ∈ L) (hs : s.Trusted s₀ names L) :
    AnswersAs (s₀.code.answer names (s₀.code.signature names depth ⟨entered, id :: trail.locked⟩))
        (composeLocked nested (id :: trail.locked)) s id site ∧
      (s.eval (composeLocked nested (id :: trail.locked) id site)).2.Trusted s₀ names L := by
  obtain ⟨stages, hstages, -⟩ := hplain.closed.known id hrow
  obtain ⟨wire, hw, hwcode⟩ := exists_of_code (hs.code ▸ hstages)
  have hplans : s₀.code id = some wire.code := by rw [hwcode, hstages]
  have hstage := fun p hp => hplain.closed.stage hrow hplans (p := p) hp
  rw [AnswersAs, eval_composeLocked]
  rw [lockedRequests] at hasked
  simp only [hw] at hasked ⊢
  cases hrecall : s.recalled? (id :: trail.locked) wire site with
  | some known =>
    simp only [hrecall] at hasked ⊢
    unfold recalled? at hrecall
    split at hrecall
    · rename_i k known' signature hk hcomposed
      split at hrecall
      · rename_i hknown
        obtain rfl := Option.some.inj hrecall
        obtain ⟨houtput, hwarranted⟩ := hs.honest id wire hw _ hcomposed
        have hanswer : s₀.code.answer names
            (s₀.code.signature names depth ⟨entered, id :: trail.locked⟩) id site = .ok signature :=
          Warranted.answer hplain hL hD (hwarranted k (by rw [hknown])) hs.code hw hroom hid
            (hasked _ List.mem_cons_self) hk hentered
        refine ⟨⟨hanswer.symm, fun signature' h => ?_⟩, hs⟩
        cases h
        rw [hw, Option.bind_some, houtput]
      · cases hrecall
    · cases hrecall
  | none =>
    simp only [hrecall, eval_composeFresh] at hasked ⊢
    have hpure : ∀ p ∈ wire.stages, p.stage.isPure = true := fun p hp => by
      simpa [Stage.isPure_bare] using (hstage p hp).2.1.1
    have hsketch : s₀.code.sketch id = some (wire.stages.map fun p => some p.stage.sketch) := by
      rw [Code.sketch, hplans, Option.map_some, Wire.code, List.map_map]
      refine congrArg some (List.map_congr_left fun p hp => ?_)
      rw [Function.comp, (hstage p hp).1, Option.map_some, Stage.sketch_bare (hpure p hp)]
    obtain ⟨hinput, hsignature⟩ := signature_of_sketches wire site
    obtain ⟨hanswer, htrusted⟩ := agrees_composeStages hn (s := s.modifyWire id forget)
      (plannedFrom_zero (by rw [code_forget, hs.code, hplans]))
      hpure (fun p hp => (hstage p hp).2.2) (fun r hr => hasked r (List.mem_cons_of_mem _ hr)) hs.forget
    have hfunction := Code.answer_of_plans names
      (s₀.code.signature names depth ⟨entered, id :: trail.locked⟩) hsketch site
    rw [hinput, hsignature, ← hs.named id wire hw, ← hanswer] at hfunction
    rcases hb : (s.modifyWire id forget).eval (composeStages nested id wire.name (inputAt wire site)
      site 0 wire.stages { previous := inputAt wire site }) with ⟨_ | b, s₁⟩ <;>
      rw [hb] at htrusted hanswer <;> dsimp only
    · rw [hb] at hfunction
      exact ⟨⟨hfunction.symm, by simp⟩, htrusted⟩
    · rw [hb] at hfunction
      replace hfunction : s₀.code.answer names
          (s₀.code.signature names depth ⟨entered, id :: trail.locked⟩) id site =
            .ok (signatureOf wire (inputAt wire site) b) := hfunction
      obtain ⟨w₁, hw₁, -⟩ := exists_of_code (htrusted.code ▸ hplans)
      have hclears := Code.clears_of_answer hid hfunction
      refine ⟨⟨hfunction.symm, fun signature h => ?_⟩,
        htrusted.remember (signatureOf wire (inputAt wire site) b) (fun k hk => ?_) _⟩
      · cases h
        rw [get?_modifyWire_self, get?_modifyWire_self, hw₁]
        rfl
      · have hq := hasked _ List.mem_cons_self
        rw [← hs.code, ← hs.size] at hq
        rw [← hs.code] at hclears
        refine ⟨_, hq, attests_of_clears (hplain.of_code_eq hs.code).isHeap hw false hk hclears,
          (hplain.of_code_eq hs.code).closed, names, depth, ⟨entered, id :: trail.locked⟩, ?_⟩
        rw [hs.code]
        exact hfunction

/-- Composing wires beneath a trail follows the function. -/
theorem agrees_composeWithin (depth : Nat) (trail : Trail) (hroom : Roomy s₀.wires.size depth trail) :
    Agrees s₀ names L (s₀.code.signature names depth trail) (composeWithin depth trail)
      (requestsWithin depth trail) := by
  induction depth generalizing trail with
  | zero => exact fun s j site _ _ hs => ⟨⟨rfl, fun _ h => nomatch h⟩, hs⟩
  | succ depth ih =>
    intro s j site hrow hasked hs
    rw [AnswersAs, eval_composeWithin_succ, Code.signature_succ]
    split
    · exact ⟨⟨rfl, fun _ h => nomatch h⟩, hs⟩
    · split
      · exact ⟨⟨rfl, fun _ h => nomatch h⟩, hs⟩
      · rename_i hentered hlocked
        have hid : j ∉ trail.locked := by simpa using hlocked
        have hroom' : Roomy s₀.wires.size depth (trail.push j) := by
          refine ⟨List.cons_subset_cons j hroom.entered, List.nodup_cons.2 ⟨hid, hroom.nodup⟩, ?_, ?_⟩
          · rintro v (_ | ⟨_, hv⟩)
            · exact hrow
            · exact hroom.rows v hv
          · have := hroom.room
            rw [Trail.push, List.length_cons]
            omega
        simp only [requestsWithin, hentered, hlocked, Bool.or_false, Bool.false_eq_true,
          if_false] at hasked
        exact agrees_composeLocked hplain hL hD (ih _ hroom') hroom hid hroom'.entered hrow hasked hs

end Wires

/-- The answer of a wire that is owned or shared, without memos. -/
def answerAs (s : Store H) (owned : Bool) (id : Id .wire) (site : Site) :
    Except ComposeError Signature :=
  if owned then
    s.code.answer s.wireName (s.code.signature s.wireName s.depthBound ⟨[], [id]⟩) id site
  else s.code.signature s.wireName s.depthBound {} id site

/-- Composing a wire with memos that can be trusted answers as if there were none. -/
theorem agrees_composeAs (hplain : s₀.IsPlain) (hL : Query.Distinct L) (hD : Query.Discernible L)
    (owned : Bool) {id : Id .wire} (hid : id.row < s₀.wires.size) {site : Site}
    (hasked : s₀.queries (requestsAs owned id site s) ⊆ L) (hs : s.Trusted s₀ s₀.wireName L) :
    (s.eval (composeAs owned id site)).1 = s₀.answerAs owned id site ∧
      (s.eval (composeAs owned id site)).2.Trusted s₀ s₀.wireName L := by
  have hdepth : s.depthBound = s₀.depthBound := congrArg (· + 1) hs.size
  have hasked' : ∀ r ∈ requestsAs owned id site s, ⟨s₀.code, s₀.wires.size, r⟩ ∈ L := fun r hr =>
    hasked (List.mem_map.2 ⟨r, hr, rfl⟩)
  cases owned with
  | true =>
    have hroom : Roomy s₀.wires.size s₀.depthBound ⟨[], [id]⟩ := by
      refine ⟨by simp, by simp, by simpa using hid, ?_⟩
      rw [depthBound, List.length_singleton]
      omega
    have hroom' : Roomy s₀.wires.size (s₀.depthBound + 1) {} := by
      refine ⟨by simp, by simp, by simp, ?_⟩
      rw [depthBound, List.length_nil]
      omega
    rw [requestsAs, if_pos rfl, ownedRequests, hdepth] at hasked'
    obtain ⟨hanswer, htrusted⟩ := agrees_composeLocked hplain hL hD
      (agrees_composeWithin hplain hL hD _ _ hroom) hroom' (by simp) (by simp) hid hasked' hs
    rw [← hdepth] at hanswer htrusted
    rw [composeAs, if_pos rfl, eval_composeOwned, answerAs, if_pos rfl, ← hdepth]
    exact ⟨hanswer.1, htrusted⟩
  | false =>
    have hroom : Roomy s₀.wires.size s₀.depthBound {} := by
      refine ⟨by simp, by simp, by simp, ?_⟩
      rw [depthBound, List.length_nil]
      omega
    rw [requestsAs, if_neg (by simp), sharedRequests, hdepth] at hasked'
    obtain ⟨hanswer, htrusted⟩ := agrees_composeWithin hplain hL hD _ _ hroom s id site hid hasked' hs
    rw [← hdepth] at hanswer htrusted
    rw [composeAs, if_neg (by simp), eval_composeShared, answerAs, if_neg (by simp), ← hdepth]
    exact ⟨hanswer.1, htrusted⟩

/-! ### Forgetting -/

/-- What may have happened to the wires of a store since none of them was composed: compositions, of
shared or of owned wires, whether they succeeded or not, and edits of any kind, which drop the memos
of some wires. The queries are those of all compositions. -/
inductive Career : List (Query H) → Store H → Prop where
  | fresh {s : Store H} (h : ∀ j w, s.wires.get? j = some w → w.composed = none) : Career [] s
  | compose {L : List (Query H)} {s : Store H} (h : Career L s) (hs : s.IsPlain) (owned : Bool)
      (id : Id .wire) (hid : id.row < s.wires.size) (site : Site) :
      Career (L ++ s.queries (requestsAs owned id site s)) (s.eval (composeAs owned id site)).2
  | edit {L : List (Query H)} {s s' : Store H} (h : Career L s)
      (hmemos : ∀ j w', s'.wires.get? j = some w' → w'.composed = none ∨
        ∃ w, s.wires.get? j = some w ∧ w'.composed = w.composed ∧ w'.outputTy = w.outputTy) :
      Career L s'

theorem trusted_self (h : ∀ j w, s.wires.get? j = some w → Honest L j w) :
    s.Trusted s s.wireName L :=
  ⟨rfl, fun j w hw => by rw [wireName, hw, Option.map_some, Option.getD_some], h⟩

/-- Whatever has happened, all memos are honest. -/
theorem Career.honest {L' : List (Query H)} (h : Career L s) (hL : Query.Distinct L')
    (hD : Query.Discernible L') (hsub : L ⊆ L') {j : Id .wire} (hw : s.wires.get? j = some w) :
    Honest L' j w := by
  induction h generalizing j w with
  | fresh hfresh =>
    intro m hm
    rw [hfresh j w hw] at hm
    cases hm
  | compose h hs owned id hid site ih =>
    exact (agrees_composeAs hs hL hD owned hid
      (fun q hq => hsub (List.mem_append_right _ hq))
      (trusted_self fun j w hw => ih (fun q hq => hsub (List.mem_append_left _ hq)) hw)).2.honest j w
        hw
  | edit h hmemos ih =>
    intro m hm
    rcases hmemos j w hw with hnone | ⟨w₀, hw₀, hcomposed, houtput⟩
    · rw [hnone] at hm
      cases hm
    · rw [houtput]
      exact ih hsub hw₀ m (hcomposed.symm.trans hm)

/-- The store without the memos of some wires. -/
def forgetting (s : Store H) (T : List (Id .wire)) : Store H :=
  T.foldl (fun s j => s.modifyWire j forget) s

theorem Trusted.forgetting {names : Id .wire → String} (h : s.Trusted s₀ names L)
    (T : List (Id .wire)) : (s.forgetting T).Trusted s₀ names L := by
  induction T generalizing s with
  | nil => exact h
  | cons j T ih => exact ih h.forget

theorem isPlain_of_rows (hsize : s.wires.size ≤ UInt64.size)
    (h : ∀ w ∈ s.wires.rows.toList, ∀ p ∈ w.stages, p.stage.isBuiltIn = true ∧
      (p.stage.bare.isPure = true ∧ p.stage.bare.fits = true) ∧
        ∀ j ∈ p.stage.nested?, j.row < s.wires.size) : s.IsPlain where
  closed := closed_of_rows h
  size := hsize

theorem career_circlingEdited :
    Career (circling.queries (requestsAs false ⟨2⟩ (plainSite .int) circling)) circlingEdited := by
  have hfresh : ∀ w ∈ circling.wires.rows.toList, w.composed.isNone = true := by decide +kernel
  have hplain : circling.IsPlain := isPlain_of_rows (by decide +kernel) (by decide +kernel)
  have hcareer : Career [] circling := .fresh fun j w hw => by
    simpa using hfresh w (Array.mem_toList_iff.2 (Array.mem_of_getElem? hw))
  refine .edit (hcareer.compose hplain false ⟨2⟩ (by decide +kernel) (plainSite .int))
    fun j w' hw' => ?_
  unfold circlingEdited at hw'
  obtain ⟨rfl, w, -, rfl⟩ | ⟨-, hw'⟩ := get?_of_modifyWire hw'
  · exact .inl rfl
  · exact .inr ⟨w', hw', rfl, rfl⟩

/-- A wire that passes its input on. -/
def passing : Store Host.none :=
  let (wire, s) := ({} : Store Host.none).addWire "wire" false
  s.modifyWire wire fun x => { x with stages := [{ stage := .pass }] }

/-- The wire after it was composed for a sequence of numbers of two kinds. -/
def passingComposed : Store Host.none :=
  (passing.eval (composeAs true ⟨0⟩ (plainSite (.seq [.int, .float])))).2

end Store

end Dataflow
