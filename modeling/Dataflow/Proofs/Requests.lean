import Dataflow.Proofs.Composition
import Dataflow.Proofs.Streams
/-!
# The requests of a composition

Composing a wire asks for the composition of the wires that it runs, these ask for theirs, and so
on. Each request names a wire and a site, and is answered from the memo of the wire or afresh. The
list of all requests is what statements about memos speak of: which keys were computed, which
octets were hashed for them, and which wires the composition has been to.

The functions here follow those that compose, on the same stores. Nothing of them is used when a
wire is composed.
-/

namespace Dataflow

variable {H : Host} {stage : Stage H} {j id : Id .wire} {s s' : Store H} {place : Place}
  {here site : Site} {decls : List VarDecl} {d : VarDecl} {param : Param} {position : Nat}
  {wireInput : Ty} {b b' : Bound}

/-- The wire that a stage runs is one of its parameters. -/
theorem Stage.param_of_nested? (h : stage.nested? = some j) :
    ∃ n < stage.params.length, stage.getParam n = .wire j := by
  cases stage with
  | inline sub => exact ⟨0, Nat.zero_lt_one, by simp_all [nested?, getParam, nestedValue]⟩
  | bound name sub slot => exact ⟨1, Nat.one_lt_two, by simp_all [nested?, getParam, nestedValue]⟩
  | _ => simp [nested?] at h

theorem Stage.parameters_of_nested? (h : stage.nested? = some j) :
    stage.capabilities.parameters = true := by
  cases stage with
  | inline sub | bound name sub slot => rfl
  | _ => simp [nested?] at h

/-! ### Requests -/

/-- What a composition key is made of, given the hash of the wire's content. -/
def Site.keyWords (site : Site) (content : UInt64) : List UInt64 :=
  [site.input.fingerprint, VarDecl.fingerprints site.shared, site.board.row.toUInt64, content]

/-- The hashes of descriptors, in ascending order. -/
def VarDecl.hashes (decls : List VarDecl) : List UInt64 :=
  sortBy (fun a b => a ≤ b) (decls.map fun d => Sip.digest (d.octets Sip.digest))

/-- The octets that are hashed for a list of descriptors: those of the list, then those of each
descriptor and of its type. -/
def VarDecl.streams (decls : List VarDecl) : List (List UInt8) :=
  (octetsLength (hashes decls).length ++ (hashes decls).flatMap octets64) ::
    (decls.map (·.octets Sip.digest) ++ decls.map (·.ty.octets Sip.digest))

theorem VarDecl.octets_mem_streams (h : d ∈ decls) : d.octets Sip.digest ∈ streams decls := by
  simp only [streams, List.mem_cons, List.mem_append, List.mem_map]
  exact .inr (.inl ⟨d, h, rfl⟩)

theorem VarDecl.ty_octets_mem_streams (h : d ∈ decls) : d.ty.octets Sip.digest ∈ streams decls := by
  simp only [streams, List.mem_cons, List.mem_append, List.mem_map]
  exact .inr (.inr ⟨d, h, rfl⟩)

/-- The hash of a descriptor. -/
def VarDecl.hash (d : VarDecl) : UInt64 := Sip.digest (d.octets Sip.digest)

/-- Unless hashes collide, lists of descriptors with one fingerprint have the same hashes. -/
theorem VarDecl.perm_of_fingerprints {as bs : List VarDecl} {hashed : List (List UInt8)}
    (hinj : ∀ a ∈ hashed, ∀ b ∈ hashed, Sip.digest a = Sip.digest b → a = b)
    (ha : streams as ⊆ hashed) (hb : streams bs ⊆ hashed) (h : fingerprints as = fingerprints bs) :
    (as.map hash).Perm (bs.map hash) := by
  have hlists : octetsLength (hashes as).length ++ (hashes as).flatMap octets64 =
      octetsLength (hashes bs).length ++ (hashes bs).flatMap octets64 :=
    hinj _ (ha List.mem_cons_self) _ (hb List.mem_cons_self) h
  exact sortBy_eq_iff.1 (flatMap_octets64_injective (List.append_inj hlists rfl).2)

/-- A request to compose a wire at a site. -/
structure Request where
  wire : Id .wire
  site : Site
  /-- The hash of the wire's content, unless it could not be read. -/
  content : Option UInt64
  /-- The memo of the wire answered. -/
  recalled : Bool

namespace Request

/-- The key of the request. -/
def key (r : Request) : Option UInt64 :=
  r.content.map fun content => combine Sip.digest (r.site.keyWords content)

/-- The octets that are hashed for the key and for what it knows of the site. -/
def streams (r : Request) : List (List UInt8) :=
  match r.content with
  | none => []
  | some content =>
    (r.site.keyWords content).flatMap octets64 :: r.site.input.octets Sip.digest ::
      VarDecl.streams r.site.shared

/-- Unless hashes collide, requests with one key have one content, and the same words make their
key. -/
theorem words_eq {r r' : Request} {k : UInt64} {hashed : List (List UInt8)}
    (hinj : ∀ a ∈ hashed, ∀ b ∈ hashed, Sip.digest a = Sip.digest b → a = b)
    (hr : r.streams ⊆ hashed) (hr' : r'.streams ⊆ hashed) (hk : r.key = some k)
    (hk' : r'.key = some k) :
    ∃ c, r.content = some c ∧ r'.content = some c ∧ r.site.keyWords c = r'.site.keyWords c := by
  obtain ⟨c, hc, hkey⟩ := Option.map_eq_some_iff.1 hk
  obtain ⟨c', hc', hkey'⟩ := Option.map_eq_some_iff.1 hk'
  rw [streams, hc] at hr
  rw [streams, hc'] at hr'
  have hwords := flatMap_octets64_injective
    (hinj _ (hr List.mem_cons_self) _ (hr' List.mem_cons_self) (hkey.trans hkey'.symm))
  obtain rfl : c = c' := by
    simp only [Site.keyWords, List.cons.injEq, and_true] at hwords
    exact hwords.2.2.2
  exact ⟨c, hc, hc', hwords⟩

theorem shared_subset {r : Request} {c : UInt64} (hc : r.content = some c) :
    VarDecl.streams r.site.shared ⊆ r.streams := by
  rw [streams, hc]
  exact fun a ha => List.mem_cons_of_mem _ (List.mem_cons_of_mem _ ha)

theorem streams_subset {r : Request} {requests : List Request} (hr : r ∈ requests) :
    r.streams ⊆ requests.flatMap streams := fun _ ha => List.mem_flatMap.2 ⟨r, hr, ha⟩

end Request

/-- The digest tells apart the octets that are hashed for the keys of the requests. -/
def NoCollision (requests : List Request) : Prop :=
  ∀ a ∈ requests.flatMap Request.streams, ∀ b ∈ requests.flatMap Request.streams,
    Sip.digest a = Sip.digest b → a = b

instance (requests : List Request) : Decidable (NoCollision requests) :=
  inferInstanceAs (Decidable (∀ a ∈ _, ∀ b ∈ _, _))

namespace Store

/-- The requests of nested compositions. -/
abbrev NestedRequests (H : Host) := Id .wire → Site → Store H → List Request

/-- The requests of the parameters from `index` on. -/
def paramRequests (nested : NestedCompose H) (requests : NestedRequests H) (stage : Stage H)
    (place : Place) (here : Site) : Nat → List Param → Store H → List Request
  | _, [], _ => []
  | index, param :: rest, s =>
    let own :=
      match stage.getParam index with
      | .wire sub =>
        if param.types.contains .wire then
          requests sub (here.nested (stage.lent here.input)) s
        else []
      | _ => []
    own ++
      match s.eval (bindParam nested stage place here param (stage.getParam index)) with
      | (.ok _, s') => paramRequests nested requests stage place here (index + 1) rest s'
      | (.error _, _) => []

/-- The requests of the stages from a position on. -/
def stagesRequests (nested : NestedCompose H) (requests : NestedRequests H) (id : Id .wire)
    (wireName : String) (wireInput : Ty) (site : Site) :
    Nat → List (Placed H) → Bound → Store H → List Request
  | _, [], _, _ => []
  | position, p :: rest, b, s =>
    let own :=
      if p.stage.takes b.previous && p.stage.capabilities.parameters then
        paramRequests nested requests p.stage ⟨p.stage.name, position⟩
          (hereSite wireName wireInput site b position) 0 p.stage.params s
      else []
    own ++
      match s.eval (composeStage nested id wireName wireInput site b position p.stage) with
      | (.ok b', s') =>
        stagesRequests nested requests id wireName wireInput site (position + 1) rest b' s'
      | (.error _, _) => []

/-- The requests of composing a locked wire, its own first. -/
def lockedRequests (nested : NestedCompose H) (requests : NestedRequests H)
    (locked : List (Id .wire)) (id : Id .wire) (site : Site) (s : Store H) : List Request :=
  match s.wires.get? id with
  | none => []
  | some wire =>
    let own (recalled : Bool) : Request :=
      ⟨id, site, s.contentHash locked s.depthBound [] wire, recalled⟩
    match s.recalled? locked wire site with
    | some _ => [own true]
    | none =>
      own false ::
        stagesRequests nested requests id wire.name (inputAt wire site) site 0 wire.stages
          { previous := inputAt wire site } (s.modifyWire id forget)

/-- The requests of composing a shared wire, nested so deep. -/
def requestsWithin : Nat → Trail → NestedRequests H
  | 0, _, _, _, _ => []
  | depth + 1, trail, id, site, s =>
    if trail.entered.contains id || trail.locked.contains id then []
    else
      lockedRequests (composeWithin depth ⟨id :: trail.entered, id :: trail.locked⟩)
        (requestsWithin depth ⟨id :: trail.entered, id :: trail.locked⟩) (id :: trail.locked) id
        site s

/-- The requests of composing a wire that others share. -/
def sharedRequests (id : Id .wire) (site : Site) (s : Store H) : List Request :=
  requestsWithin s.depthBound {} id site s

/-- The requests of composing a wire that the caller holds. -/
def ownedRequests (id : Id .wire) (site : Site) (s : Store H) : List Request :=
  lockedRequests (composeWithin s.depthBound ⟨[], [id]⟩) (requestsWithin s.depthBound ⟨[], [id]⟩)
    [id] id site s

theorem composeKey_eq (s : Store H) (locked : List (Id .wire)) (wire : Wire H) (site : Site) :
    s.composeKey locked wire site =
      (s.contentHash locked s.depthBound [] wire).map fun content =>
        combine Sip.digest (site.keyWords content) := by
  unfold composeKey
  cases s.contentHash locked s.depthBound [] wire <;> rfl

/-! ### Wires that were asked for -/

/-- Whether a wire counts as composed. -/
def isComposed (s : Store H) (id : Id .wire) : Bool :=
  ((s.wires.get? id).bind (·.composed)).isSome

theorem isComposed_modifyWire (s : Store H) (id : Id .wire) {f : Wire H → Wire H}
    (hf : ∀ w, (f w).composed = w.composed) (j : Id .wire) :
    (s.modifyWire id f).isComposed j = s.isComposed j := by
  unfold isComposed
  by_cases h : id = j
  · subst h
    rw [get?_modifyWire_self]
    cases s.wires.get? id <;> simp [hf]
  · rw [get?_modifyWire_of_ne _ h]

@[simp] theorem isComposed_typed (s : Store H) (id : Id .wire) (input output : Ty)
    (j : Id .wire) : (s.modifyWire id (typed input output)).isComposed j = s.isComposed j :=
  s.isComposed_modifyWire id (f := typed input output) (fun _ => rfl) j

theorem isComposed_remember (s : Store H) (hid : (s.wires.get? id).isSome) (key : Option UInt64)
    (signature : Signature) (j : Id .wire) :
    (s.modifyWire id (remember key signature)).isComposed j ↔ s.isComposed j ∨ id = j := by
  unfold isComposed
  by_cases h : id = j
  · subst h
    obtain ⟨w, hw⟩ := Option.isSome_iff_exists.1 hid
    simp [hw, remember]
  · simp [get?_modifyWire_of_ne _ h, h]

theorem isComposed_forget (s : Store H) (h : id ≠ j) :
    (s.modifyWire id forget).isComposed j = s.isComposed j := by
  simp [isComposed, get?_modifyWire_of_ne _ h]

/-- What requests that were all answered have led to: the wires asked for are composed now, all
others are as they were, and a wire composed afresh has asked for every wire that it runs. -/
structure Answered (s s' : Store H) (requests : List Request) : Prop where
  code : s'.code = s.code
  composed : ∀ j, s'.isComposed j ↔ s.isComposed j ∨ ∃ r ∈ requests, r.wire = j
  child : ∀ r ∈ requests, r.recalled = false → ∀ j, s.code.Child r.wire j →
    ∃ r' ∈ requests, r'.wire = j

namespace Answered

theorem of_composed_eq (hcode : s'.code = s.code) (h : ∀ j, s'.isComposed j = s.isComposed j) :
    Answered s s' [] where
  code := hcode
  composed j := by simp [h]
  child := by simp

theorem refl (s : Store H) : Answered s s [] := of_composed_eq rfl fun _ => rfl

theorem append {s₁ s₂ : Store H} {before after : List Request} (h : Answered s s₁ before)
    (h' : Answered s₁ s₂ after) : Answered s s₂ (before ++ after) where
  code := h'.code.trans h.code
  composed j := by
    rw [h'.composed, h.composed, or_assoc]
    simp [List.mem_append, or_and_right, exists_or]
  child r hr hfresh j hj := by
    rcases List.mem_append.1 hr with hr | hr
    · obtain ⟨r', hr', hw⟩ := h.child r hr hfresh j hj
      exact ⟨r', List.mem_append_left _ hr', hw⟩
    · obtain ⟨r', hr', hw⟩ := h'.child r hr hfresh j (h.code ▸ hj)
      exact ⟨r', List.mem_append_right _ hr', hw⟩

/-- Where a wire was asked for, each wire below it was asked for too, or lies below one that its
memo answered. -/
theorem below {requests : List Request} (h : Answered s s' requests) {i : Id .wire}
    (hi : ∃ r ∈ requests, r.wire = i) (hij : s.code.Below i j) :
    (∃ r ∈ requests, r.wire = j) ∨
      ∃ r ∈ requests, r.recalled = true ∧ s.code.Below r.wire j := by
  induction hij using Relation.ReflTransGen.head_induction_on with
  | refl => exact .inl hi
  | head hstep hrest ih =>
    obtain ⟨r, hr, rfl⟩ := hi
    cases hrecalled : r.recalled with
    | true => exact .inr ⟨r, hr, hrecalled, .head hstep hrest⟩
    | false => exact ih (h.child r hr hrecalled _ hstep)

end Answered

/-- A parameter that is no wire asks for nothing. -/
theorem bindParam_literal {nested : NestedCompose H} {value : Value}
    {found : Except ComposeError (List VarDecl × List VarDecl)} (hv : ∀ sub, value ≠ .wire sub)
    (h : s.eval (bindParam nested stage place here param value) = (found, s')) : s' = s := by
  rw [eval_bindParam] at h
  cases value with
  | wire sub => exact absurd rfl (hv sub)
  | _ => split at h <;> simp_all

theorem isComposed_stageOutput (s : Store H) (id : Id .wire) (wireName : String) (stage : Stage H)
    (place : Place) (here : Site) (j : Id .wire) :
    (s.eval (stageOutput id wireName stage place here)).2.isComposed j = s.isComposed j := by
  have h := same_stageOutput (π := Wire.composed) (fun _ _ _ => rfl) s id wireName stage place here j
  unfold isComposed
  generalize (s.eval (stageOutput id wireName stage place here)).2.wires.get? j = after at h ⊢
  generalize s.wires.get? j = before at h ⊢
  cases after <;> cases before <;> simp_all

section Answered

variable {nested : NestedCompose H} {requests : NestedRequests H}
  (hn : ∀ (s s' : Store H) (j : Id .wire) (site : Site) (signature : Signature),
    s.eval (nested j site) = (.ok signature, s') →
      Answered s s' (requests j site s) ∧ ∃ r ∈ requests j site s, r.wire = j)

include hn

theorem answered_bindParam_wire {sub : Id .wire} {found : List VarDecl × List VarDecl}
    (h : s.eval (bindParam nested stage place here param (.wire sub)) = (.ok found, s')) :
    let site := here.nested (stage.lent here.input)
    param.types.contains .wire = true ∧ Answered s s' (requests sub site s) ∧
      ∃ r ∈ requests sub site s, r.wire = sub := by
  rw [eval_bindParam] at h
  simp only [bindValue] at h
  cases hw : param.types.contains .wire with
  | false =>
    rw [hw] at h
    simp at h
  | true =>
    simp only [hw, if_true] at h
    rcases hs : s.eval (nested sub (here.nested (stage.lent here.input))) with ⟨_ | sig, s₁⟩
    · simp [hs] at h
    · simp only [hs, Prod.mk.injEq] at h
      obtain ⟨-, rfl⟩ := h
      exact ⟨rfl, hn _ _ _ _ _ hs⟩

theorem answered_bindParams {index : Nat} {params : List Param}
    {found : List VarDecl × List VarDecl}
    (h : s.eval (bindParams nested stage place here index params) = (.ok found, s')) :
    let asked := paramRequests nested requests stage place here index params s
    Answered s s' asked ∧
      ∀ n < params.length, ∀ j, stage.getParam (index + n) = .wire j → ∃ r ∈ asked, r.wire = j := by
  induction params generalizing s index found with
  | nil =>
    simp only [bindParams, eval_pure, Prod.mk.injEq] at h
    obtain ⟨-, rfl⟩ := h
    exact ⟨Answered.refl s, by simp⟩
  | cons param rest ih =>
    rw [bindParams] at h
    obtain ⟨first, s₁, hfirst, h⟩ := eval_bind_ok h
    obtain ⟨others, s₂, hothers, h⟩ := eval_bind_ok h
    simp only [eval_pure, Prod.mk.injEq] at h
    obtain ⟨-, rfl⟩ := h
    obtain ⟨hrest, hchildren⟩ := ih hothers
    have hlater : ∀ n, ∀ j, stage.getParam (index + (n + 1)) = .wire j → n < rest.length →
        ∃ r ∈ paramRequests nested requests stage place here (index + 1) rest s₁, r.wire = j := by
      intro n j hj hlt
      exact hchildren n hlt j (by rw [← hj, Nat.add_assoc, Nat.add_comm 1 n])
    simp only [paramRequests, hfirst]
    by_cases hwire : ∃ sub, stage.getParam index = .wire sub
    · obtain ⟨sub, hv⟩ := hwire
      rw [hv] at hfirst
      obtain ⟨hw, hsub, r, hr, hrw⟩ := answered_bindParam_wire hn hfirst
      simp only [hv, hw, if_true]
      refine ⟨hsub.append hrest, fun n hlt j hj => ?_⟩
      cases n with
      | zero =>
        rw [Nat.add_zero, hv] at hj
        cases hj
        exact ⟨r, List.mem_append_left _ hr, hrw⟩
      | succ n =>
        obtain ⟨r', hr', hw'⟩ := hlater n j hj (by simpa using hlt)
        exact ⟨r', List.mem_append_right _ hr', hw'⟩
    · have hnone : ∀ sub, stage.getParam index ≠ .wire sub := fun sub hv => hwire ⟨sub, hv⟩
      obtain rfl := bindParam_literal hnone hfirst
      split
      · exact absurd ‹_› (hnone _)
      · refine ⟨hrest, fun n hlt j hj => ?_⟩
        cases n with
        | zero => exact absurd hj (hnone j)
        | succ n => exact hlater n j hj (by simpa using hlt)

theorem answered_composeStage (hat : s.PlannedAt id position stage) {wireName : String}
    (h : s.eval (composeStage nested id wireName wireInput site b position stage) = (.ok b', s')) :
    let asked :=
      if stage.takes b.previous && stage.capabilities.parameters then
        paramRequests nested requests stage ⟨stage.name, position⟩
          (hereSite wireName wireInput site b position) 0 stage.params s
      else []
    Answered s s' asked ∧ ∀ j, stage.nested? = some j → ∃ r ∈ asked, r.wire = j := by
  rw [eval_composeStage] at h
  by_cases ht : stage.takes b.previous
  · simp only [ht, if_true, Bool.true_and] at h ⊢
    rcases hp : s.eval (composeParams nested stage position
      (hereSite wireName wireInput site b position)) with ⟨_ | ⟨needs, vars⟩, s₁⟩
    · simp [hp] at h
    simp only [hp] at h
    rcases ho : s₁.eval (stageOutput id wireName stage ⟨stage.name, position⟩
      (hereSite wireName wireInput site b position)) with ⟨_ | output, s₂⟩
    · simp [ho] at h
    simp only [ho, Prod.mk.injEq] at h
    obtain ⟨-, rfl⟩ := h
    have hout : s₁.code = s.code → Answered s₁ s₂ [] := fun hcode => by
      have hkeep := code_stageOutput (hat.of_code_eq hcode) wireName stage.name
        (hereSite wireName wireInput site b position)
      have hsame := isComposed_stageOutput s₁ id wireName stage ⟨stage.name, position⟩
        (hereSite wireName wireInput site b position)
      rw [ho] at hkeep hsame
      exact .of_composed_eq hkeep hsame
    unfold composeParams at hp
    by_cases hparams : stage.capabilities.parameters
    · simp only [hparams, if_true] at hp ⊢
      obtain ⟨hanswered, hchildren⟩ := answered_bindParams hn hp
      refine ⟨by simpa using hanswered.append (hout hanswered.code), fun j hj => ?_⟩
      obtain ⟨n, hlt, hn'⟩ := Stage.param_of_nested? hj
      exact hchildren n hlt j (by simpa using hn')
    · simp only [hparams, Bool.false_eq_true, if_false, eval_pure, Prod.mk.injEq] at hp ⊢
      obtain ⟨-, rfl⟩ := hp
      refine ⟨hout rfl, fun j hj => ?_⟩
      exact absurd (Stage.parameters_of_nested? hj) hparams
  · simp [ht] at h

theorem answered_composeStages {stages : List (Placed H)} {wireName : String}
    (hat : s.PlannedFrom id position stages)
    (h : s.eval (composeStages nested id wireName wireInput site position stages b) =
      (.ok b', s')) :
    let asked := stagesRequests nested requests id wireName wireInput site position stages b s
    Answered s s' asked ∧
      ∀ p ∈ stages, ∀ j, p.stage.nested? = some j → ∃ r ∈ asked, r.wire = j := by
  induction stages generalizing s position b with
  | nil =>
    simp only [composeStages, eval_pure, Prod.mk.injEq] at h
    obtain ⟨-, rfl⟩ := h
    exact ⟨Answered.refl s, by simp⟩
  | cons p rest ih =>
    rw [composeStages] at h
    obtain ⟨b₁, s₁, hstage, h⟩ := eval_bind_ok h
    obtain ⟨hfirst, hown⟩ := answered_composeStage hn hat.head hstage
    obtain ⟨hrest, hchildren⟩ := ih (hat.tail hfirst.code) h
    simp only [stagesRequests, hstage]
    refine ⟨hfirst.append hrest, fun q hq j hj => ?_⟩
    rcases List.mem_cons.1 hq with rfl | hq
    · obtain ⟨r, hr, hw⟩ := hown j hj
      exact ⟨r, List.mem_append_left _ hr, hw⟩
    · obtain ⟨r, hr, hw⟩ := hchildren q hq j hj
      exact ⟨r, List.mem_append_right _ hr, hw⟩

theorem answered_composeLocked {locked : List (Id .wire)} {signature : Signature}
    (h : s.eval (composeLocked nested locked id site) = (.ok signature, s')) :
    let asked := lockedRequests nested requests locked id site s
    Answered s s' asked ∧ ∃ r ∈ asked, r.wire = id := by
  rw [eval_composeLocked] at h
  simp only [lockedRequests]
  cases hw : s.wires.get? id with
  | none => simp [hw] at h
  | some wire =>
    simp only [hw] at h
    cases hr : s.recalled? locked wire site with
    | some known =>
      simp only [hr, Prod.mk.injEq] at h ⊢
      obtain ⟨-, rfl⟩ := h
      refine ⟨⟨rfl, fun j => ?_, by simp⟩, by simp⟩
      have hcomposed : s.isComposed id := by
        unfold recalled? at hr
        unfold isComposed
        split at hr <;> simp_all
      simp only [List.mem_singleton, exists_eq_left]
      refine ⟨.inl, ?_⟩
      rintro (h | rfl)
      · exact h
      · exact hcomposed
    | none =>
      simp only [hr, eval_composeFresh] at h ⊢
      rcases hb : (s.modifyWire id forget).eval (composeStages nested id wire.name
        (inputAt wire site) site 0 wire.stages { previous := inputAt wire site }) with ⟨_ | b, s₁⟩
      · simp [hb] at h
      simp only [hb, Prod.mk.injEq] at h
      obtain ⟨-, rfl⟩ := h
      have hplans : s.code id = some wire.code := by simp [code, hw]
      obtain ⟨hstages, hchildren⟩ := answered_composeStages hn
        (plannedFrom_zero (by rw [code_forget, hplans])) hb
      have hcode : s₁.code = s.code := hstages.code.trans (code_forget s id)
      obtain ⟨w₁, hw₁, -⟩ := Option.map_eq_some_iff.1 ((congrFun hcode id).trans hplans)
      refine ⟨⟨?_, fun j => ?_, fun r hr hfresh j hj => ?_⟩, _, List.mem_cons_self, rfl⟩
      · simp [hcode]
      · rw [isComposed_remember _ (by simp [hw₁]), isComposed_typed, hstages.composed]
        by_cases hj : id = j
        · simp [hj]
        · simp [hj, isComposed_forget _ hj]
      · rcases List.mem_cons.1 hr with rfl | hr
        · obtain ⟨plans, hplans', st, hst, hnested⟩ := hj
          rw [hplans] at hplans'
          cases hplans'
          obtain ⟨p, hp, hplan⟩ := List.mem_map.1 hst
          obtain ⟨-, rfl⟩ := Stage.plan?_eq_some_iff.1 hplan
          obtain ⟨r', hr', hw'⟩ := hchildren p hp j (by simpa using hnested)
          exact ⟨r', List.mem_cons_of_mem _ hr', hw'⟩
        · obtain ⟨r', hr', hw'⟩ := hstages.child r hr hfresh j (by simpa using hj)
          exact ⟨r', List.mem_cons_of_mem _ hr', hw'⟩

end Answered

theorem answered_composeWithin {depth : Nat} {trail : Trail} {signature : Signature}
    (h : s.eval (composeWithin depth trail id site) = (.ok signature, s')) :
    Answered s s' (requestsWithin depth trail id site s) ∧
      ∃ r ∈ requestsWithin depth trail id site s, r.wire = id := by
  induction depth generalizing s s' trail id site signature with
  | zero => simp [composeWithin] at h
  | succ depth ih =>
    rw [eval_composeWithin_succ] at h
    split at h
    · simp at h
    · split at h
      · simp at h
      · rename_i he hl
        simp only [requestsWithin, he, hl, Bool.or_false, Bool.false_eq_true, if_false]
        exact answered_composeLocked (fun _ _ _ _ _ => ih) h

end Store

end Dataflow
