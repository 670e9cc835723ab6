import Dataflow.Proofs.Requests
import Dataflow.Proofs.Streams
import Mathlib.Logic.Function.Basic
/-!
# Tags of types, and what wires do to them

Composition checks full types, but a run only depends on their outermost kind: whether a value is a
number, an object, or something else. The *tag* of a type is the octet that its hashed form begins
with. This is exactly as much as survives a memo: two requests with one key agree on tags even
where they disagree on the order of element types.

A wire is *typed* if each stage finds the tags that it needs, in the current value and in the
variables. Variables live in one environment that all nested wires share. A stage that binds its
input object hides a variable of the same name while the nested wire lasts.
-/

namespace Dataflow

variable {H : Host} {decls as bs : List VarDecl} {d : VarDecl} (Γ : Env) {k' wireTag : UInt8}
  {k : UInt64} {requests : List Request} {r r' : Request}

/-! ### Tags -/

/-- The tag of every object type. -/
def objectTag : UInt8 := 9

/-- The octet that the hashed form of a type begins with. -/
def Ty.tag : Ty → UInt8
  | nothing => 0
  | any => 1
  | bool => 2
  | int => 3
  | float => 4
  | string => 5
  | bytes => 6
  | seq _ => 7
  | table _ _ => 8
  | object _ _ => objectTag
  | ref _ => 10
  | wire => 11
  | type => 12

namespace Ty

theorem head?_octets (digest : Digest) (t : Ty) : (t.octets digest).head? = some t.tag := by
  cases t <;> simp [octets, tag, objectTag]

/-- A type takes only its own kind, unless it takes everything. -/
theorem tag_eq_of_accepts {receiver input : Ty} (h : receiver.accepts input)
    (hany : receiver ≠ any) : receiver.tag = input.tag := by
  cases receiver with
  | any => exact absurd rfl hany
  | table keys types => cases keys <;> cases input <;> first | rfl | exact Bool.noConfusion h
  | _ => cases input <;> first | rfl | exact Bool.noConfusion h

theorem isObject_iff_tag {t : Ty} : t.isObject = true ↔ t.tag = objectTag := by
  cases t <;> simp [isObject, tag, objectTag]

end Ty

/-- A value has the kind that a tag says. Of a value with the tag of no value nothing is known: the
input of a wire whose first stage ignores it is composed as no value, whatever it is. -/
def Fits (v : Value) (tag : UInt8) : Prop := tag = Ty.nothing.tag ∨ v.ty.tag = tag

theorem Fits.self (v : Value) : Fits v v.ty.tag := .inr rfl

/-- Copying a value into storage gives its kind to what is stored. -/
theorem Value.tag_overwrite (dst src : Value) : (dst.overwrite src).ty.tag = src.ty.tag := by
  cases src <;> cases dst <;> simp [overwrite, copyOver, ty, tyBy, Ty.tag]

/-! ### Environments -/

namespace VarDecl

theorem find?_append (x : String) (as bs : List VarDecl) :
    find? x (as ++ bs) = (find? x bs).or (find? x as) := by
  simp [find?, List.find?_append]

theorem find?_singleton (x : String) (d : VarDecl) :
    find? x [d] = if d.name = x then some d else none := by
  by_cases h : d.name = x <;> simp [find?, h]

theorem mem_of_find? {x : String} (h : find? x decls = some d) : d ∈ decls ∧ d.name = x := by
  refine ⟨by simpa using List.mem_of_find?_eq_some h, ?_⟩
  simpa using List.find?_some h

theorem find?_eq_none_iff {x : String} : find? x decls = none ↔ x ∉ decls.map (·.name) := by
  rw [find?, List.find?_eq_none]
  simp only [List.mem_reverse, beq_iff_eq, List.mem_map, not_exists, not_and]

theorem find?_isSome_iff {x : String} : (find? x decls).isSome = true ↔ x ∈ decls.map (·.name) := by
  rw [← not_iff_not, Bool.not_eq_true, Option.isSome_eq_false_iff, Option.isNone_iff_eq_none,
    find?_eq_none_iff]

theorem find?_isSome_of_mem (h : d ∈ decls) : ∃ e, find? d.name decls = some e :=
  Option.isSome_iff_exists.1 (find?_isSome_iff.2 (List.mem_map.2 ⟨d, h, rfl⟩))

theorem find?_append_of_mem {x : String} (h : x ∈ decls.map (·.name)) (outer : List VarDecl) :
    find? x (outer ++ decls) = find? x decls := by
  obtain ⟨d, hd⟩ := Option.isSome_iff_exists.1 (find?_isSome_iff.2 h)
  rw [find?_append, hd, Option.some_or]

theorem find?_append_of_notMem {x : String} (h : x ∉ decls.map (·.name)) (outer : List VarDecl) :
    find? x (outer ++ decls) = find? x outer := by
  rw [find?_append, find?_eq_none_iff.2 h, Option.none_or]

end VarDecl

/-- What is known of variables: the tag of each, and whether it is protected. -/
abbrev Env := String → Option (UInt8 × Bool)

namespace Env

/-- What a list of descriptors says. -/
def ofDecls (decls : List VarDecl) : Env := fun x =>
  (VarDecl.find? x decls).map fun d => (d.ty.tag, d.isProtected)

/-- What descriptors say, and otherwise what was known before. -/
def overlay (Γ : Env) (decls : List VarDecl) : Env := fun x => (ofDecls decls x).or (Γ x)

/-- What is known in one environment is known in the other. -/
def Extends (Γ Γ' : Env) : Prop := ∀ x e, Γ x = some e → Γ' x = some e

theorem ofDecls_append (as bs : List VarDecl) : ofDecls (as ++ bs) = overlay (ofDecls as) bs := by
  funext x
  simp only [ofDecls, overlay, VarDecl.find?_append]
  cases VarDecl.find? x bs <;> rfl

theorem overlay_nil : overlay Γ [] = Γ := rfl

theorem overlay_cons (d : VarDecl) (decls : List VarDecl) :
    overlay Γ (d :: decls) =
      overlay (Function.update Γ d.name (some (d.ty.tag, d.isProtected))) decls := by
  funext x
  have hcons : VarDecl.find? x (d :: decls) =
      (VarDecl.find? x decls).or (if d.name = x then some d else none) := by
    rw [← VarDecl.find?_singleton, ← VarDecl.find?_append]
    rfl
  simp only [overlay, ofDecls, hcons]
  cases VarDecl.find? x decls with
  | some e => rfl
  | none =>
    by_cases h : d.name = x
    · subst h
      simp
    · simp [h, Function.update_of_ne (Ne.symm h)]

theorem overlay_singleton (d : VarDecl) :
    overlay Γ [d] = Function.update Γ d.name (some (d.ty.tag, d.isProtected)) := by
  rw [overlay_cons, overlay_nil]

theorem Extends.refl : Γ.Extends Γ := fun _ _ h => h

theorem Extends.trans {Γ Γ₁ Γ₂ : Env} (h : Γ.Extends Γ₁) (h' : Γ₁.Extends Γ₂) : Γ.Extends Γ₂ :=
  fun x e hx => h' x e (h x e hx)

end Env

/-! ### Typed wires -/

/-- Whether a stage is one of those that compute, keep variables, wait, fail or run wires, as
opposed to those that use channels or end a run early. An operand has no slot yet. -/
def Stage.isPlain : Stage H → Bool
  | .const _ | .pass | .input | .set .. | .get .. | .update .. | .pause .. | .buffer _ | .fail _
  | .inline _ | .bound .. => true
  | .add operand => operand.slot.isNone
  | _ => false

/-- A stage that runs no wire is typed: given the tag of the wire's input, it takes a value and an
environment to a value and an environment. -/
inductive StageTyped (wireTag : UInt8) : Stage H → UInt8 → Env → UInt8 → Env → Prop where
  | const {k : UInt8} {Γ : Env} (v : Value) : StageTyped wireTag (.const v) k Γ v.ty.tag Γ
  | pass {k : UInt8} {Γ : Env} : StageTyped wireTag .pass k Γ k Γ
  | input {k : UInt8} {Γ : Env} : StageTyped wireTag .input k Γ wireTag Γ
  | addLiteral {k : UInt8} {Γ : Env} {o : Operand} (hnumber : k = Ty.int.tag ∨ k = Ty.float.tag)
      (hslot : o.slot = none) (hliteral : o.referent? = none) (htag : o.value.ty.tag = k) :
      StageTyped wireTag (.add o) k Γ k Γ
  | addVariable {k : UInt8} {Γ : Env} {o : Operand} {x : String} {b : Bool}
      (hnumber : k = Ty.int.tag ∨ k = Ty.float.tag) (href : o.referent? = some x)
      (hx : Γ x = some (k, b)) : StageTyped wireTag (.add o) k Γ k Γ
  | set {k : UInt8} {Γ : Env} {x : String} (hx : Γ x = none ∨ Γ x = some (k, false)) :
      StageTyped wireTag (.set x .nothing none) k Γ k (Function.update Γ x (some (k, false)))
  | get {k k' : UInt8} {Γ : Env} {x : String} {b : Bool} (hx : Γ x = some (k', b)) :
      StageTyped wireTag (.get x none) k Γ k' Γ
  | update {k : UInt8} {Γ : Env} {x : String} (hx : Γ x = some (k, false)) :
      StageTyped wireTag (.update x .nothing none) k Γ k Γ
  | pause {k : UInt8} {Γ : Env} {time : Value} {delay : Option Delay}
      (h : Stage.pauseDelay time = .ok delay) : StageTyped wireTag (.pause time false) k Γ k Γ
  | buffer {k : UInt8} {Γ : Env} (size : Nat) :
      StageTyped wireTag (.buffer { size }) k Γ objectTag Γ
  | fail {k : UInt8} {Γ : Env} (message : String) : StageTyped wireTag (.fail message) k Γ k Γ

/-- The tag that a wire with these plans begins with: a first stage that ignores its input hides
the tag of the input. -/
def inputTag (plans : List (Option (Stage H))) (k : UInt8) : UInt8 :=
  match plans with
  | some first :: _ => if first.ignoresInput then Ty.nothing.tag else k
  | _ => k

/-- The stages of a wire are typed one after the other. A nested wire starts with what its stage
gets; one that binds the input object sees the object in place of the variable. -/
inductive Typed (code : Code H) :
    UInt8 → List (Option (Stage H)) → UInt8 → Env → UInt8 → Env → Prop where
  | nil {wireTag k : UInt8} {Γ : Env} : Typed code wireTag [] k Γ k Γ
  | stage {wireTag k k₁ k' : UInt8} {Γ Γ₁ Γ' : Env} {st : Stage H} {rest : List (Option (Stage H))}
      (hstage : StageTyped wireTag st k Γ k₁ Γ₁) (hrest : Typed code wireTag rest k₁ Γ₁ k' Γ') :
      Typed code wireTag (some st :: rest) k Γ k' Γ'
  | inline {wireTag k k₁ k' : UInt8} {Γ Γ₁ Γ' : Env} {j : Id .wire}
      {plans rest : List (Option (Stage H))} (hj : code j = some plans)
      (hsub : Typed code (inputTag plans k) plans (inputTag plans k) Γ k₁ Γ₁)
      (hrest : Typed code wireTag rest k₁ Γ₁ k' Γ') :
      Typed code wireTag (some (.inline ⟨some j, false⟩) :: rest) k Γ k' Γ'
  | bound {wireTag k₁ k' : UInt8} {Γ Γ₁ Γ' : Env} {x : String} {j : Id .wire}
      {plans rest : List (Option (Stage H))} (hj : code j = some plans)
      (hsub : Typed code (inputTag plans objectTag) plans (inputTag plans objectTag)
        (Function.update Γ x (some (objectTag, true))) k₁ Γ₁)
      (hrest : Typed code wireTag rest k₁ (Function.update Γ₁ x (Γ x)) k' Γ') :
      Typed code wireTag (some (.bound x ⟨some j, false⟩ none) :: rest) objectTag Γ k' Γ'

theorem StageTyped.extends {k : UInt8} {Γ Γ' : Env} {st : Stage H}
    (h : StageTyped wireTag st k Γ k' Γ') : Γ.Extends Γ' := by
  cases h with
  | set hx =>
    rename_i x
    intro y e hy
    by_cases hxy : y = x
    · subst hxy
      rw [Function.update_self]
      rcases hx with hx | hx
      · rw [hx] at hy
        cases hy
      · rw [← hx, hy]
    · rwa [Function.update_of_ne hxy]
  | _ => exact Env.Extends.refl _

/-- What is known of a variable stays. -/
theorem Typed.extends {code : Code H} {k : UInt8} {Γ Γ' : Env} {plans : List (Option (Stage H))}
    (h : Typed code wireTag plans k Γ k' Γ') : Γ.Extends Γ' := by
  induction h with
  | nil => exact Env.Extends.refl _
  | stage hstage _ ih => exact hstage.extends.trans ih
  | inline _ _ _ ihsub ihrest => exact ihsub.trans ihrest
  | @bound _ _ _ Γ Γ₁ _ x _ _ _ _ _ _ ihsub ihrest =>
    refine Env.Extends.trans (fun y e hy => ?_) ihrest
    by_cases hxy : y = x
    · subst hxy
      rwa [Function.update_self]
    · rw [Function.update_of_ne hxy]
      exact ihsub y e (by rwa [Function.update_of_ne hxy])

/-! ### Order of descriptors -/

/-- Descriptors of which the later ones never disagree with the earlier ones of their name, except
that sealed objects hide variables. Then the order of the list does not matter. -/
structure Orderly (decls : List VarDecl) : Prop where
  known : ∀ d ∈ decls, d.ty ≠ .any
  sealed : ∀ d ∈ decls, d.isProtected = true → d.ty.tag = objectTag
  same : ∀ d ∈ decls, ∀ e ∈ decls, d.name = e.name → d.isProtected = e.isProtected →
    d.ty.tag = e.ty.tag
  last : ∀ d ∈ decls, d.isProtected = true → ∀ e, VarDecl.find? d.name decls = some e →
    e.isProtected = true

namespace Orderly

theorem nil : Orderly [] := ⟨by simp, by simp, by simp, by simp⟩

/-- A new variable comes to the list, or one that agrees with what its name means. -/
theorem concat (h : Orderly decls) (hd : d.ty ≠ .any) (hfree : d.isProtected = false)
    (hfound : ∀ e, VarDecl.find? d.name decls = some e →
      e.isProtected = false ∧ e.ty.tag = d.ty.tag) : Orderly (decls ++ [d]) := by
  -- No descriptor of the name is protected, since the last one would be too.
  have hname : ∀ e ∈ decls, e.name = d.name → e.isProtected = false ∧ e.ty.tag = d.ty.tag := by
    intro e he hed
    obtain ⟨f, hf⟩ := VarDecl.find?_isSome_of_mem he
    obtain ⟨hfprot, hftag⟩ := hfound f (hed ▸ hf)
    have heprot : e.isProtected = false := by
      by_contra hprot
      have := h.last e he (by simpa using hprot) f hf
      simp [hfprot] at this
    have hmem := VarDecl.mem_of_find? hf
    exact ⟨heprot, by rw [h.same e he f hmem.1 hmem.2.symm (by rw [heprot, hfprot]), hftag]⟩
  refine ⟨?_, ?_, ?_, ?_⟩
  · simpa [or_imp, forall_and] using ⟨h.known, hd⟩
  · intro e he hprot
    rcases List.mem_append.1 he with he | he
    · exact h.sealed e he hprot
    · simp_all
  · intro e he f hf hef hprot
    rcases List.mem_append.1 he with he | he <;> rcases List.mem_append.1 hf with hf | hf
    · exact h.same e he f hf hef hprot
    · rw [List.mem_singleton.1 hf] at hef ⊢
      exact (hname e he hef).2
    · rw [List.mem_singleton.1 he] at hef ⊢
      exact (hname f hf hef.symm).2.symm
    · rw [List.mem_singleton.1 he, List.mem_singleton.1 hf]
  · intro e he hprot f hf
    rcases List.mem_append.1 he with he | he
    · have hne : d.name ≠ e.name := fun hde => by simp [(hname e he hde.symm).1] at hprot
      rw [VarDecl.find?_append, VarDecl.find?_singleton, if_neg hne, Option.none_or] at hf
      exact h.last e he hprot f hf
    · simp_all

/-- A sealed object hides whatever its name meant. -/
theorem concat_sealed (h : Orderly decls) (x : String) {ty : Ty} (hty : ty.tag = objectTag) :
    Orderly (decls ++ [.sealed x ty]) := by
  have hany : ty ≠ .any := by
    rintro rfl
    simp [Ty.tag, objectTag] at hty
  refine ⟨?_, ?_, ?_, ?_⟩
  · simpa [or_imp, forall_and] using ⟨h.known, hany⟩
  · intro e he hprot
    rcases List.mem_append.1 he with he | he
    · exact h.sealed e he hprot
    · rw [List.mem_singleton.1 he]
      exact hty
  · intro e he f hf hef hprot
    rcases List.mem_append.1 he with he | he <;> rcases List.mem_append.1 hf with hf | hf
    · exact h.same e he f hf hef hprot
    · rw [List.mem_singleton.1 hf] at hprot ⊢
      exact (h.sealed e he hprot).trans hty.symm
    · rw [List.mem_singleton.1 he] at hprot ⊢
      exact hty.trans (h.sealed f hf hprot.symm).symm
    · rw [List.mem_singleton.1 he, List.mem_singleton.1 hf]
  · intro e he hprot f hf
    rw [VarDecl.find?_append, VarDecl.find?_singleton] at hf
    by_cases hx : (VarDecl.sealed x ty).name = e.name
    · rw [if_pos hx] at hf
      cases hf
      rfl
    · rw [if_neg hx, Option.none_or] at hf
      rcases List.mem_append.1 he with he | he
      · exact h.last e he hprot f hf
      · exact absurd (by rw [List.mem_singleton.1 he]) hx

/-- Two orderly lists that show the same variables with the same tags mean the same. -/
theorem ofDecls_eq (ha : Orderly as) (hb : Orderly bs)
    (hab : ∀ d ∈ as, ∃ e ∈ bs, e.name = d.name ∧ e.ty.tag = d.ty.tag ∧
      e.isProtected = d.isProtected)
    (hba : ∀ d ∈ bs, ∃ e ∈ as, e.name = d.name ∧ e.ty.tag = d.ty.tag ∧
      e.isProtected = d.isProtected) : Env.ofDecls as = Env.ofDecls bs := by
  funext x
  unfold Env.ofDecls
  cases hx : VarDecl.find? x as with
  | none =>
    cases hy : VarDecl.find? x bs with
    | none => rfl
    | some e =>
      obtain ⟨hmem, rfl⟩ := VarDecl.mem_of_find? hy
      obtain ⟨d, hd, hname, -⟩ := hba e hmem
      obtain ⟨f, hf⟩ := VarDecl.find?_isSome_of_mem hd
      rw [hname, hx] at hf
      cases hf
  | some d =>
    obtain ⟨hd, rfl⟩ := VarDecl.mem_of_find? hx
    obtain ⟨d', hd', hname, htag, hprot⟩ := hab d hd
    obtain ⟨e, he⟩ := VarDecl.find?_isSome_of_mem hd'
    rw [hname] at he
    obtain ⟨hmem, hename⟩ := VarDecl.mem_of_find? he
    obtain ⟨e', he', hname', htag', hprot'⟩ := hba e hmem
    -- Each of the two that are meant is protected if the other one is.
    have hsame : d.isProtected = e.isProtected := by
      cases hd0 : d.isProtected with
      | true =>
        exact (hb.last d' hd' (by rw [hprot, hd0]) e (by rw [hname, he])).symm
      | false =>
        cases he0 : e.isProtected with
        | false => rfl
        | true =>
          have := ha.last e' he' (by rw [hprot', he0]) d (by rw [hname', hename, hx])
          rw [hd0] at this
          cases this
    rw [he, Option.map_some, Option.map_some, hsame, ← htag,
      hb.same d' hd' e hmem (by rw [hname, hename]) (by rw [hprot, hsame])]

end Orderly

/-! ### What a key determines -/

namespace VarDecl

/-- Lists of descriptors with one hash show the same variables, as far as tags go. -/
theorem exists_of_fingerprints_eq {hashed : List (List UInt8)}
    (hinj : ∀ a ∈ hashed, ∀ b ∈ hashed, Sip.digest a = Sip.digest b → a = b)
    (ha : streams as ⊆ hashed) (hb : streams bs ⊆ hashed) (h : fingerprints as = fingerprints bs) :
    ∀ d ∈ as, ∃ e ∈ bs, e.name = d.name ∧ e.ty.tag = d.ty.tag ∧ e.isProtected = d.isProtected := by
  intro d hd
  obtain ⟨e, he, hdigest⟩ := List.mem_map.1
    ((perm_of_fingerprints hinj ha hb h).subset (List.mem_map.2 ⟨d, hd, rfl⟩))
  have hoctets := hinj _ (hb (octets_mem_streams he)) _ (ha (octets_mem_streams hd)) hdigest
  obtain ⟨hname, hty, -, hprot, -⟩ := octets_inj hoctets
  have htys := hinj _ (hb (ty_octets_mem_streams he)) _ (ha (ty_octets_mem_streams hd)) hty
  refine ⟨e, he, hname, ?_, hprot⟩
  have := Ty.head?_octets Sip.digest e.ty
  rw [htys, Ty.head?_octets] at this
  exact (Option.some.inj this).symm

end VarDecl

/-- Without collisions, requests with one key have the same input, as far as hashes go, and show the
same variables, as far as tags go. -/
theorem NoCollision.of_key_eq (h : NoCollision requests) (hr : r ∈ requests) (hr' : r' ∈ requests)
    (hk : r.key = some k) (hk' : r'.key = some k) :
    r.site.input.octets Sip.digest = r'.site.input.octets Sip.digest ∧
      (∀ d ∈ r.site.shared, ∃ e ∈ r'.site.shared, e.name = d.name ∧ e.ty.tag = d.ty.tag ∧
        e.isProtected = d.isProtected) ∧
      ∀ d ∈ r'.site.shared, ∃ e ∈ r.site.shared, e.name = d.name ∧ e.ty.tag = d.ty.tag ∧
        e.isProtected = d.isProtected := by
  have hsub := Request.streams_subset hr
  have hsub' := Request.streams_subset hr'
  obtain ⟨c, hc, hc', hwords⟩ := Request.words_eq h hsub hsub' hk hk'
  simp only [Site.keyWords, List.cons.injEq] at hwords
  obtain ⟨hinput, hshared, -⟩ := hwords
  have hdecls := List.Subset.trans (Request.shared_subset hc) hsub
  have hdecls' := List.Subset.trans (Request.shared_subset hc') hsub'
  rw [Request.streams, hc] at hsub
  rw [Request.streams, hc'] at hsub'
  exact ⟨h _ (hsub (by simp)) _ (hsub' (by simp)) hinput,
    VarDecl.exists_of_fingerprints_eq h hdecls hdecls' hshared,
    VarDecl.exists_of_fingerprints_eq h hdecls' hdecls hshared.symm⟩

/-- Without collisions, requests with one key agree on the tag of the input and on what is known of
the variables. -/
theorem NoCollision.site_eq (h : NoCollision requests) (hr : r ∈ requests) (hr' : r' ∈ requests)
    (hk : r.key = some k) (hk' : r'.key = some k) (horder : Orderly r.site.shared)
    (horder' : Orderly r'.site.shared) :
    r.site.input.tag = r'.site.input.tag ∧
      Env.ofDecls r.site.shared = Env.ofDecls r'.site.shared := by
  obtain ⟨hoctets, hab, hba⟩ := h.of_key_eq hr hr' hk hk'
  refine ⟨?_, Orderly.ofDecls_eq horder horder' hab hba⟩
  have := Ty.head?_octets Sip.digest r.site.input
  rw [hoctets, Ty.head?_octets] at this
  exact (Option.some.inj this).symm

end Dataflow
