import Dataflow.Proofs.Declarations
import Dataflow.Proofs.Reference
import Dataflow.Proofs.Resolution
import Dataflow.Proofs.Signatures
/-!
# Reported needs in place of the surroundings

A signature reports what a wire needs from outside: the name, the type and the protection of each
variable, and whether the first stage that asked for it changes it. Here the list of reported needs
takes the place of the variables that were around the wire. Both lists may be followed by variables
that wires publish and lend on the way down; those are the same on both sides.

Rules that look a variable up find it on both sides with the same type and protection, but on the
side of the reports it may be read-only where it was not. So what needs of stages come to is almost
the same, and `Kin` says in what it may differ.
-/

namespace Dataflow

variable {H : Host} {x : String} {vars decls needs needs' : List VarDecl} {α : Type} {d e : VarDecl}
  {param : Param} {st st₁ : Stage H}

/-! ### Answers up to some errors -/

/-- An answer is as wanted, or is an error of some kind. -/
def UpTo {α : Type} (short : ComposeError → Prop) (wanted : α → Prop) :
    Except ComposeError α → Prop
  | .ok a => wanted a
  | .error e => short e

theorem UpTo.imp {short : ComposeError → Prop} {P Q : α → Prop} {answer : Except ComposeError α}
    (h : UpTo short P answer) (hPQ : ∀ a, P a → Q a) :
    UpTo short Q answer := by
  cases answer with
  | ok a => exact hPQ a h
  | error e => exact h

/-- Why reported needs may fall short: a variable is reported as read-only although a stage changes it,
or a channel is declared with a type that does not take itself. -/
inductive Shortfall (changed : Set String) (reported : List VarDecl)
    (declared : String → Option Declaration) : ComposeError → Prop where
  | readOnly {x : String} {d : VarDecl} {place : Place} (hx : x ∈ changed)
      (hd : VarDecl.find? x reported = some d) (hreadOnly : d.isMutable = false) :
      Shortfall changed reported declared (.protectedVariable x place)
  | channel {name reason : String} {d : Declaration} (hd : declared name = some d)
      (hunsteady : ¬ d.Steady) : Shortfall changed reported declared (.channel name reason)
  | nested {place : Place} {param : String} {e : ComposeError}
      (h : Shortfall changed reported declared e) :
      Shortfall changed reported declared (.nestedWire place param e)

/-- These errors are not those of a stage. -/
theorem Shortfall.annotate {changed : Set String} {reported : List VarDecl}
    {declared : String → Option Declaration} {e : ComposeError}
    (h : Shortfall changed reported declared e) (place : Place) (wireName : String) :
    Shortfall changed reported declared (e.annotate place wireName) := by
  cases h with
  | readOnly hx hd hreadOnly => exact .readOnly hx hd hreadOnly
  | channel hd hunsteady => exact .channel hd hunsteady
  | nested h => exact .nested h

/-! ### Reports -/

/-- A list of needs reports variables that are around a wire. A variable that may be changed may be
reported as one that is only read. -/
def Reports (reported around : List VarDecl) : Prop :=
  ∀ x d, VarDecl.find? x reported = some d → ∃ e, VarDecl.find? x around = some e ∧ d.ty = e.ty ∧
    d.isProtected = e.isProtected ∧ (d.isMutable = true → e.isMutable = true)

/-- A name that is found among the inner variables or is reported. -/
def Covers (reported inner : List VarDecl) (x : String) : Prop :=
  x ∈ inner.map (·.name) ∨ x ∈ reported.map (·.name)

/-- Needs of one variable, with the surroundings and with the reports in their place. The second one
changes the variable only if the first one does, and if the variable is an inner one or is reported as
one that is changed. It is the first one, or else is reported. -/
structure Kin (reported inner : List VarDecl) (e d : VarDecl) : Prop where
  name : d.name = e.name
  ty : d.ty = e.ty
  isProtected : d.isProtected = e.isProtected
  weaker : d.isMutable = true → e.isMutable = true
  granted : d.isMutable = true → e.name ∈ inner.map (·.name) ∨
    ∃ r, VarDecl.find? e.name reported = some r ∧ r.isMutable = true
  same : d = e ∨ e.name ∉ inner.map (·.name) ∧ VarDecl.find? e.name reported = some d

variable {S R E : List VarDecl}

/-- A name that is covered means the same variable on both sides, up to what may differ. -/
theorem Reports.find? (hR : Reports R S) (hx : VarDecl.find? x (S ++ E) = some e)
    (hc : Covers R E x) : ∃ d, VarDecl.find? x (R ++ E) = some d ∧ Kin R E e d := by
  obtain ⟨-, hname⟩ := VarDecl.mem_of_find? hx
  subst hname
  by_cases hmem : e.name ∈ E.map (·.name)
  · rw [VarDecl.find?_append_of_mem hmem] at hx ⊢
    exact ⟨e, hx, rfl, rfl, rfl, id, fun _ => .inl hmem, .inl rfl⟩
  · rw [VarDecl.find?_append_of_notMem hmem] at hx ⊢
    obtain ⟨d, hd⟩ := Option.isSome_iff_exists.1 (VarDecl.find?_isSome_iff.2 (hc.resolve_left hmem))
    obtain ⟨e', he', hty, hprotected, hmutable⟩ := hR _ d hd
    obtain rfl := Option.some.inj (he'.symm.trans hx)
    exact ⟨d, hd, (VarDecl.mem_of_find? hd).2, hty, hprotected, hmutable,
      fun h => .inr ⟨d, hd, h⟩, .inr ⟨hmem, hd⟩⟩

/-- What a name means with the reports, it means with the surroundings. -/
theorem Reports.find?_back (hR : Reports R S) (hx : VarDecl.find? x (R ++ E) = some d) :
    ∃ e, VarDecl.find? x (S ++ E) = some e ∧ d.ty = e.ty ∧ d.isProtected = e.isProtected := by
  by_cases hmem : x ∈ E.map (·.name)
  · rw [VarDecl.find?_append_of_mem hmem] at hx ⊢
    exact ⟨d, hx, rfl, rfl⟩
  · rw [VarDecl.find?_append_of_notMem hmem] at hx ⊢
    obtain ⟨e, he, hty, hprotected, -⟩ := hR _ d hx
    exact ⟨e, he, hty, hprotected⟩

namespace Kin

/-- A need that is the same on both sides. -/
theorem of_eq (h : e.isMutable = true → e.name ∈ E.map (·.name) ∨
    ∃ r, VarDecl.find? e.name R = some r ∧ r.isMutable = true) : Kin R E e e :=
  ⟨rfl, rfl, rfl, id, h, .inl rfl⟩

/-- Fewer inner variables, not counting the needed one. -/
theorem outward {more : List VarDecl} (h : Kin R (E ++ more) e d)
    (hmore : e.name ∉ more.map (·.name)) : Kin R E e d := by
  have hmem : e.name ∈ (E ++ more).map (·.name) ↔ e.name ∈ E.map (·.name) := by
    rw [List.map_append, List.mem_append, or_iff_left hmore]
  refine ⟨h.name, h.ty, h.isProtected, h.weaker, fun hd => ?_, ?_⟩
  · rw [← hmem]
    exact h.granted hd
  · rw [← hmem]
    exact h.same

/-- Other inner variables of the same names. -/
theorem congr {E' : List VarDecl} (h : Kin R E e d)
    (hnames : ∀ x, x ∈ E'.map (·.name) ↔ x ∈ E.map (·.name)) : Kin R E' e d := by
  refine ⟨h.name, h.ty, h.isProtected, h.weaker, fun hd => ?_, ?_⟩
  · rw [hnames]
    exact h.granted hd
  · rw [hnames]
    exact h.same

theorem not_lent_iff {lent : List VarDecl} :
    (!lent.any fun l => l.name == x) = true ↔ x ∉ lent.map (·.name) := by
  simp only [Bool.not_eq_true', List.any_eq_false, beq_iff_eq, List.mem_map, not_exists, not_and]

/-- Needs that a stage does not meet itself by what it lends. -/
theorem not_lent {lent : List VarDecl} (h : List.Forall₂ (Kin R (E ++ lent)) needs needs') :
    List.Forall₂ (Kin R E) (needs.filter fun r => !lent.any fun l => l.name == r.name)
      (needs'.filter fun r => !lent.any fun l => l.name == r.name) := by
  induction h with
  | nil => exact .nil
  | @cons e d needs needs' hkin _ ih =>
    rw [List.filter_cons, List.filter_cons, hkin.name]
    split_ifs with hlent
    · exact .cons (hkin.outward (not_lent_iff.1 hlent)) ih
    · exact ih

end Kin

/-! ### Needs and publications -/

namespace Bound

variable {b b' b₁ : Bound} {inherited : List VarDecl} {place : Place} {need var found : VarDecl}

/-- What a wire needs so far is covered. -/
def Covered (R E : List VarDecl) (b : Bound) : Prop := ∀ d ∈ b.required, Covers R E d.name

/-- A need that was met is of a variable that the wire publishes, or is noted from then on. -/
theorem require_names (h : b.require inherited place need = .ok b₁) :
    b₁.exposed = b.exposed ∧ b.required ⊆ b₁.required ∧
      (need.name ∈ b.exposed.map (·.name) ∨ need.name ∈ b₁.required.map (·.name)) := by
  obtain ⟨found, -, -, -, rfl⟩ := require_eq_ok_iff.1 h
  unfold noted
  split_ifs with hknown
  · exact ⟨rfl, List.Subset.refl _, hknown⟩
  · exact ⟨rfl, List.subset_append_left _ _, .inr (by simp)⟩

theorem requires_names
    (h : needs.foldlM (fun b need => b.require inherited place need) b = .ok b₁) :
    b₁.exposed = b.exposed ∧ b.required ⊆ b₁.required ∧
      ∀ need ∈ needs, need.name ∈ b.exposed.map (·.name) ∨ need.name ∈ b₁.required.map (·.name) := by
  induction needs generalizing b with
  | nil =>
    cases h
    exact ⟨rfl, List.Subset.refl _, by simp⟩
  | cons need rest ih =>
    rw [List.foldlM_cons] at h
    obtain ⟨b₂, hb, h⟩ := exists_of_bind_ok h
    obtain ⟨hexposed, hsub, hneed⟩ := require_names hb
    obtain ⟨hexposed', hsub', hrest⟩ := ih h
    refine ⟨hexposed'.trans hexposed, List.Subset.trans hsub hsub', fun d hd => ?_⟩
    rcases List.mem_cons.1 hd with rfl | hd
    · exact hneed.imp id fun hmem => List.map_subset _ hsub' hmem
    · rw [← hexposed]
      exact hrest d hd

/-- What is known of a wire up to some stage, with the surroundings and with the reports in their
place. -/
structure Echo (R E : List VarDecl) (b b' : Bound) : Prop where
  previous : b'.previous = b.previous
  exposed : b'.exposed = b.exposed
  required : List.Forall₂ (Kin R E) b.required b'.required

namespace Echo

/-- The needs noted so far are of the same names. -/
theorem names_eq (h : Echo R E b b') : b'.required.map (·.name) = b.required.map (·.name) := by
  have hrequired := h.required
  generalize b.required = needs at hrequired
  generalize b'.required = needs' at hrequired
  induction hrequired with
  | nil => rfl
  | cons hkin _ ih => rw [List.map_cons, List.map_cons, hkin.name, ih]

/-- The variables that meet a need on both sides. -/
theorem find? (hR : Reports R S) (h : Echo R E b b')
    (hfound : VarDecl.find? x (S ++ E ++ b.exposed) = some found)
    (hc : Covers R (E ++ b.exposed) x) :
    ∃ found', VarDecl.find? x (R ++ E ++ b'.exposed) = some found' ∧
      Kin R (E ++ b.exposed) found found' := by
  rw [h.exposed]
  rw [List.append_assoc] at hfound ⊢
  exact hR.find? hfound hc

/-- A need is noted on both sides, unless the wire itself meets it. -/
theorem noted (h : Echo R E b b') {found' : VarDecl} (hneed : Kin R (E ++ b.exposed) need d)
    (hkin : Kin R (E ++ b.exposed) found found') (hname : found.name = need.name)
    (hfound' : VarDecl.find? need.name (R ++ E ++ b'.exposed) = some found') :
    Echo R E (b.noted need found) (b'.noted d found') := by
  have hsame : (d.name ∈ b'.exposed.map (·.name) ∨ d.name ∈ b'.required.map (·.name)) ↔
      (need.name ∈ b.exposed.map (·.name) ∨ need.name ∈ b.required.map (·.name)) := by
    rw [hneed.name, h.exposed, h.names_eq]
  unfold Bound.noted
  simp only [hsame]
  split_ifs with hknown
  · exact h
  · rw [not_or] at hknown
    replace hneed := hneed.outward hknown.1
    replace hkin := hkin.outward (hname ▸ hknown.1)
    refine ⟨h.previous, h.exposed, List.rel_append h.required (.cons ?_ .nil)⟩
    refine ⟨hneed.name, hkin.ty, hkin.isProtected, hneed.weaker, hneed.granted, ?_⟩
    rcases hneed.same with rfl | ⟨hnot, hreported⟩
    · exact .inl (by rw [hkin.ty, hkin.isProtected])
    · -- the need was found among the reports, and so is the variable that meets it
      rw [h.exposed, VarDecl.find?_append_of_notMem hknown.1, VarDecl.find?_append_of_notMem hnot,
        hreported] at hfound'
      obtain rfl := Option.some.inj hfound'
      exact .inr ⟨hnot, hreported⟩

theorem require (hR : Reports R S) (h : Echo R E b b') (hneed : Kin R (E ++ b.exposed) need d)
    (hc : Covers R (E ++ b.exposed) need.name) (hb : b.require (S ++ E) place need = .ok b₁) :
    ∃ b₁', b'.require (R ++ E) place d = .ok b₁' ∧ Echo R E b₁ b₁' := by
  obtain ⟨found, hfound, hty, hmutable, rfl⟩ := require_eq_ok_iff.1 hb
  obtain ⟨found', hfound', hkin⟩ := h.find? hR hfound hc
  have hname : found.name = need.name := (VarDecl.mem_of_find? hfound).2
  refine ⟨_, require_eq_ok_iff.2 ⟨found', hneed.name ▸ hfound', ?_, fun hd => ?_, rfl⟩,
    h.noted hneed hkin hname hfound'⟩
  · rwa [hneed.ty, hkin.ty]
  · obtain ⟨hprotected, hfree⟩ := hmutable (hneed.weaker hd)
    refine ⟨hkin.isProtected.trans hprotected, ?_⟩
    rcases hkin.same with rfl | ⟨hinner, hreported⟩
    · exact hfree
    · rw [hname] at hinner hreported
      rcases hneed.granted hd with hmem | ⟨r, hr, hrm⟩
      · exact absurd hmem hinner
      · rw [hreported] at hr
        rwa [Option.some.inj hr]

theorem requires (hR : Reports R S) {exposed : List VarDecl} (h : Echo R E b b')
    (hexposed : b.exposed = exposed) (hneeds : List.Forall₂ (Kin R (E ++ exposed)) needs needs')
    (hc : b₁.Covered R E)
    (hb : needs.foldlM (fun b need => b.require (S ++ E) place need) b = .ok b₁) :
    ∃ b₁', needs'.foldlM (fun b need => b.require (R ++ E) place need) b' = .ok b₁' ∧
      Echo R E b₁ b₁' := by
  induction hneeds generalizing b b' with
  | nil =>
    cases hb
    exact ⟨b', rfl, h⟩
  | @cons e d needs needs' hneed hrest ih =>
    subst hexposed
    rw [List.foldlM_cons] at hb
    obtain ⟨b₂, hfirst, hb⟩ := exists_of_bind_ok hb
    obtain ⟨hexposed, -, hnamed⟩ := require_names hfirst
    obtain ⟨-, hsub, -⟩ := requires_names hb
    have hcovers : Covers R (E ++ b.exposed) e.name := by
      rw [Covers, List.map_append, List.mem_append]
      rcases hnamed with hmem | hmem
      · exact .inl (.inr hmem)
      · obtain ⟨r, hr, hname⟩ := List.mem_map.1 hmem
        rw [← hname]
        exact (hc r (hsub hr)).imp .inl id
    obtain ⟨b₂', hfirst', h₂⟩ := h.require hR hneed hcovers hfirst
    obtain ⟨b₁', hb', h₁⟩ := ih h₂ hexposed hb
    refine ⟨b₁', ?_, h₁⟩
    rw [List.foldlM_cons, hfirst']
    exact hb'

/-- A variable that is changed is denied if it is reported as read-only. -/
theorem denied (hR : Reports R S) (h : Echo R E b b') (hb : b.require (S ++ E) place need = .ok b₁)
    (hmutable : need.isMutable = true) (hx : need.name ∉ (E ++ b.exposed).map (·.name))
    (hd : VarDecl.find? need.name R = some d) (hreadOnly : d.isMutable = false) :
    b'.require (R ++ E) place need = .error (.protectedVariable need.name place) := by
  obtain ⟨found, hfound, hty, -, -⟩ := require_eq_ok_iff.1 hb
  have hcovers : Covers R (E ++ b.exposed) need.name :=
    .inr (VarDecl.find?_isSome_iff.1 (Option.isSome_iff_exists.2 ⟨d, hd⟩))
  obtain ⟨found', hfound', hkin⟩ := h.find? hR hfound hcovers
  obtain rfl : d = found' := by
    rw [h.exposed, List.append_assoc, VarDecl.find?_append_of_notMem hx, hd] at hfound'
    exact Option.some.inj hfound'
  rw [← hkin.ty] at hty
  rw [Bound.require, find?_eq, hfound']
  simp [hty, hmutable, hreadOnly]

/-- A variable is published on both sides. With the reports it may hide none where it hides one with
the surroundings. -/
theorem expose (hR : Reports R S) (h : Echo R E b b') (hb : b.expose (S ++ E) place var = .ok b₁) :
    ∃ b₁', b'.expose (R ++ E) place var = .ok b₁' ∧ Echo R E b₁ b₁' := by
  obtain ⟨hfits, rfl⟩ := expose_eq_ok_iff.1 hb
  refine ⟨_, expose_eq_ok_iff.2 ⟨fun found' hfound' => ?_, rfl⟩, ?_⟩
  · rw [h.exposed, List.append_assoc] at hfound'
    obtain ⟨found, hfound, hty, hprotected⟩ := hR.find?_back hfound'
    rw [← List.append_assoc] at hfound
    obtain ⟨hfree, hfits⟩ := hfits found hfound
    exact ⟨hprotected.trans hfree, hty ▸ hfits⟩
  · unfold shown
    rw [h.exposed]
    split
    · exact h
    · exact ⟨h.previous, rfl, h.required⟩

theorem exposes (hR : Reports R S) (h : Echo R E b b')
    (hb : vars.foldlM (fun b var => b.expose (S ++ E) place var) b = .ok b₁) :
    ∃ b₁', vars.foldlM (fun b var => b.expose (R ++ E) place var) b' = .ok b₁' ∧
      Echo R E b₁ b₁' := by
  induction vars generalizing b b' with
  | nil =>
    cases hb
    exact ⟨b', rfl, h⟩
  | cons var rest ih =>
    rw [List.foldlM_cons] at hb
    obtain ⟨b₂, hfirst, hb⟩ := exists_of_bind_ok hb
    obtain ⟨b₂', hfirst', h₂⟩ := h.expose hR hfirst
    obtain ⟨b₁', hb', h₁⟩ := ih h₂ hb
    refine ⟨b₁', ?_, h₁⟩
    rw [List.foldlM_cons, hfirst']
    exact hb'

end Echo

theorem exists_of_add (h : b.add inherited place needs vars = .ok b₁) :
    ∃ b₂, needs.foldlM (fun b need => b.require inherited place need) b = .ok b₂ ∧
      vars.foldlM (fun b var => b.expose inherited place var) b₂ = .ok b₁ :=
  exists_of_bind_ok h

/-- Publishing variables leaves the needs alone. -/
theorem required_of_exposes
    (h : vars.foldlM (fun b var => b.expose inherited place var) b = .ok b₁) :
    b₁.required = b.required := by
  induction vars generalizing b with
  | nil =>
    cases h
    rfl
  | cons var rest ih =>
    rw [List.foldlM_cons] at h
    obtain ⟨b₂, hb, h⟩ := exists_of_bind_ok h
    rw [ih h]
    obtain ⟨-, rfl⟩ := expose_eq_ok_iff.1 hb
    unfold shown
    split <;> rfl

/-- The needs of a stage are of variables that the wire publishes, or are noted. -/
theorem add_names (h : b.add inherited place needs vars = .ok b₁) :
    b.required ⊆ b₁.required ∧ ∀ need ∈ needs, need.name ∈ b.exposed.map (·.name) ∨
      need.name ∈ b₁.required.map (·.name) := by
  obtain ⟨b₂, hneeds, hvars⟩ := exists_of_add h
  rw [required_of_exposes hvars]
  exact (requires_names hneeds).2

/-- Needs and publications of a stage, on both sides. -/
theorem Echo.add (hR : Reports R S) (h : Echo R E b b')
    (hneeds : List.Forall₂ (Kin R (E ++ b.exposed)) needs needs') (hc : b₁.Covered R E)
    (hb : b.add (S ++ E) place needs vars = .ok b₁) :
    ∃ b₁', b'.add (R ++ E) place needs' vars = .ok b₁' ∧ Echo R E b₁ b₁' := by
  obtain ⟨b₂, hb₂, hvars⟩ := exists_of_add hb
  have hc₂ : b₂.Covered R E := by
    rw [Covered, ← required_of_exposes hvars]
    exact hc
  obtain ⟨b₂', hb₂', h₂⟩ := h.requires hR rfl hneeds hc₂ hb₂
  obtain ⟨b₁', hvars', h₁⟩ := h₂.exposes hR hvars
  refine ⟨b₁', ?_, h₁⟩
  rw [Bound.add, hb₂']
  exact hvars'

/-- A stage that changes a variable first of all is denied if the variable is reported as read-only. -/
theorem Echo.add_denied (hR : Reports R S) (h : Echo R E b b') {vars' : List VarDecl}
    (hmutable : need.isMutable = true) (hx : need.name ∉ (E ++ b.exposed).map (·.name))
    (hd : VarDecl.find? need.name R = some d) (hreadOnly : d.isMutable = false)
    (hb : b.add (S ++ E) place ([need] ++ needs) vars = .ok b₁) :
    b'.add (R ++ E) place ([need] ++ needs') vars' = .error (.protectedVariable need.name place) := by
  obtain ⟨b₂, hneeds, -⟩ := exists_of_add hb
  rw [List.singleton_append, List.foldlM_cons] at hneeds
  cases hfirst : b.require (S ++ E) place need with
  | error e => simp [hfirst, bind, Except.bind] at hneeds
  | ok b₃ =>
    rw [Bound.add, List.singleton_append, List.foldlM_cons, h.denied hR hfirst hmutable hx hd hreadOnly]
    rfl

end Bound

/-! ### Sites -/

/-- The site with other variables around it. -/
def Site.showing (σ : Site) (shared : List VarDecl) : Site := { σ with shared }

/-- A site, and the same site with reports in place of the surroundings. Errors apart, what the wire
is called and where the stage stands makes no difference. -/
structure Site.Thinned (S R E : List VarDecl) (σ σ' : Site) : Prop where
  input : σ'.input = σ.input
  wireInput : σ'.wireInput = σ.wireInput
  board : σ'.board = σ.board
  shared : σ.shared = S ++ E
  shared' : σ'.shared = R ++ E

namespace Site.Thinned

variable {σ σ' : Site}

theorem nested (h : σ.Thinned S R E σ') (lent : List VarDecl) :
    (σ.nested lent).Thinned S R (E ++ lent) (σ'.nested lent) where
  input := h.input
  wireInput := h.input
  board := h.board
  shared := by rw [Site.nested, h.shared, List.append_assoc]
  shared' := by rw [Site.nested, h.shared', List.append_assoc]

theorem here (h : σ.Thinned S R E σ') {b b' : Bound} (hb : b.Echo R E b') (wireName wireName' : String)
    (wireInput : Ty) (position : Nat) :
    (Store.hereSite wireName wireInput σ b position).Thinned S R (E ++ b.exposed)
      (Store.hereSite wireName' wireInput σ' b' position) where
  input := hb.previous
  wireInput := rfl
  board := h.board
  shared := by rw [Store.hereSite, h.shared, List.append_assoc]
  shared' := by rw [Store.hereSite, h.shared', hb.exposed, List.append_assoc]

theorem find? (h : σ.Thinned S R E σ') (hR : Reports R S) (hx : σ.find? x = some e)
    (hc : Covers R E x) : ∃ d, σ'.find? x = some d ∧ Kin R E e d := by
  rw [Site.find?, h.shared] at hx
  rw [Site.find?, h.shared']
  exact hR.find? hx hc

/-- A name that is covered means a variable of the same type, if it means one. -/
theorem ty_find? (h : σ.Thinned S R E σ') (hR : Reports R S) (hc : Covers R E x) :
    (σ'.find? x).map (·.ty) = (σ.find? x).map (·.ty) := by
  cases hx : σ.find? x with
  | some e =>
    obtain ⟨d, hd, hkin⟩ := h.find? hR hx hc
    rw [hd, Option.map_some, Option.map_some, hkin.ty]
  | none =>
    cases hx' : σ'.find? x with
    | none => rfl
    | some d =>
      rw [Site.find?, h.shared'] at hx'
      obtain ⟨e, he, -⟩ := hR.find?_back hx'
      rw [Site.find?, h.shared, he] at hx
      cases hx

/-- A parameter that refers to a variable. -/
theorem bindReference (h : σ.Thinned S R E σ') (hR : Reports R S) {place : Place}
    (hx : Store.bindReference place σ param x = .ok e) (hc : Covers R E e.name) :
    ∃ d, Store.bindReference place σ' param x = .ok d ∧ Kin R E e d := by
  unfold Store.bindReference at hx ⊢
  dsimp only at hx ⊢
  split at hx
  · cases hx
  · rename_i haccepted
    rw [if_neg haccepted]
    cases hfound : σ.find? x with
    | none => simp [hfound] at hx
    | some found =>
      simp only [hfound] at hx
      split at hx
      · rename_i hfits
        cases hx
        have hname : e.name = x := (VarDecl.mem_of_find? hfound).2
        obtain ⟨d, hd, hkin⟩ := h.find? hR hfound (hname ▸ hc)
        refine ⟨d, ?_, hkin⟩
        simp only [hd, hkin.ty, hfits, if_true]
      · cases hx

theorem bindValue (h : σ.Thinned S R E σ') (hR : Reports R S) {place : Place} {value : Value}
    (hn : Store.bindValue place σ param value = .ok needs) (hc : ∀ e ∈ needs, Covers R E e.name) :
    ∃ needs', Store.bindValue place σ' param value = .ok needs' ∧
      List.Forall₂ (Kin R E) needs needs' := by
  cases value with
  | ref x =>
    simp only [Store.bindValue] at hn ⊢
    cases hx : Store.bindReference place σ param x with
    | error e => simp [hx, Except.map] at hn
    | ok e =>
      rw [hx] at hn
      cases hn
      obtain ⟨d, hd, hkin⟩ := h.bindReference hR hx (hc e (by simp))
      rw [hd]
      exact ⟨[d], rfl, .cons hkin .nil⟩
  | _ =>
    simp only [Store.bindValue] at hn ⊢
    split at hn
    · rename_i hfits
      cases hn
      exact ⟨[], by rw [if_pos hfits], .nil⟩
    · cases hn

/-- Needs that the parameters of a stage refer to. -/
theorem ownNeeds (h : σ.Thinned S R E σ') (hR : Reports R S) (st : Stage H) (position : Nat)
    (hn : Store.ownNeeds st position σ = .ok needs) (hc : ∀ e ∈ needs, Covers R E e.name) :
    ∃ needs', Store.ownNeeds st position σ' = .ok needs' ∧
      List.Forall₂ (Kin R E) needs needs' := by
  have hvalues : ∀ (params : List Param) (index : Nat) (place : Place) (needs : List VarDecl),
      Store.bindValues st place σ index params = .ok needs → (∀ e ∈ needs, Covers R E e.name) →
        ∃ needs', Store.bindValues st place σ' index params = .ok needs' ∧
          List.Forall₂ (Kin R E) needs needs' := by
    intro params
    induction params with
    | nil =>
      intro index place needs hn _
      cases hn
      exact ⟨[], rfl, .nil⟩
    | cons param rest ih =>
      intro index place needs hn hc
      rw [Store.bindValues] at hn ⊢
      cases hfirst : Store.bindValue place σ param (st.getParam index) with
      | error e => simp [hfirst, bind, Except.bind] at hn
      | ok first =>
        cases hothers : Store.bindValues st place σ (index + 1) rest with
        | error e => simp [hfirst, hothers, bind, Except.bind] at hn
        | ok others =>
          rw [hfirst, hothers] at hn
          cases hn
          obtain ⟨first', hfirst', hkin⟩ := h.bindValue hR hfirst fun e he =>
            hc e (List.mem_append_left _ he)
          obtain ⟨others', hothers', hkins⟩ := ih _ place others hothers fun e he =>
            hc e (List.mem_append_right _ he)
          rw [hfirst', hothers']
          exact ⟨first' ++ others', rfl, List.rel_append hkin hkins⟩
  unfold Store.ownNeeds at hn ⊢
  split at hn
  · rename_i hparams
    rw [if_pos hparams]
    exact hvalues _ _ _ _ hn hc
  · rename_i hparams
    rw [if_neg hparams]
    cases hn
    exact ⟨[], rfl, .nil⟩

end Site.Thinned

/-! ### Compose hooks -/

namespace Stage

/-- What a composition or a run has left in a built-in stage makes no difference to its hook. -/
theorem compose_bare (hb : st.isBuiltIn = true) (here : Site) (s : Store H) :
    ((st.compose here).run s).2 = ((st.bare.compose here).run s).2 ∧
      ((st.compose here).run s).1.2 = ((st.bare.compose here).run s).1.2 ∧
      ∀ ty, ((st.compose here).run s).1.2 = .ok ty →
        ((st.compose here).run s).1.1.exposed = ((st.bare.compose here).run s).1.1.exposed ∧
        ((st.compose here).run s).1.1.required = ((st.bare.compose here).run s).1.1.required := by
  cases st with
  | add operand =>
    refine ⟨rfl, ?_, fun _ _ => ⟨rfl, rfl⟩⟩
    change addOutput operand here = addOutput operand.bare here
    have hty : operandTy operand.bare here = operandTy operand here := by
      rw [operandTy, operandTy, Operand.referent?_bare, Operand.value_bare]
    rw [addOutput, addOutput, hty]
  | set x ty slot | update x ty slot =>
    simp only [compose, bare]
    split <;> exact ⟨rfl, rfl, fun _ h => by first | exact ⟨rfl, rfl⟩ | cases h⟩
  | pause time paused =>
    simp only [compose, bare]
    split <;> exact ⟨rfl, rfl, fun _ _ => ⟨rfl, rfl⟩⟩
  | produce sender queue | broadcast sender fan =>
    simp only [compose, bare]
    split <;> exact ⟨rfl, rfl, fun _ _ => ⟨rfl, rfl⟩⟩
  | consume r queue | listen r queue =>
    have hname : ∀ stage, receiverOutput stage { r with pending := [], last := none } =
        receiverOutput stage r := fun _ => rfl
    simp only [compose, bare, hname]
    split <;> exact ⟨rfl, rfl, fun _ _ => ⟨rfl, rfl⟩⟩
  | unit u => cases hb
  | _ => exact ⟨rfl, rfl, fun _ _ => ⟨rfl, rfl⟩⟩

end Stage

section Hook

variable {here here' : Site} {s s₁ t : Store H} {final : String → Option Declaration}
  (changed : Set String)

/-- A channel that was resolved is resolved again, once all declarations have settled, unless its
declared type does not take itself. -/
theorem resolved_again {u : Use} {c : Channel} {x : Exchange} (hs : s.exchange.Stocked u.board)
    (huse : s.exchange.use u = (.ok c, x)) (hx : x.Settling u.board final)
    (ht : t.exchange.Settled u.board final) :
    UpTo (Shortfall changed R final) (fun _ => (t.exchange.use u).2.Settled u.board final)
      (t.exchange.use u).1 := by
  have hfirst := s.exchange.used_use u
  rw [huse] at hfirst
  have hagain := Exchange.Used.again hfirst hs hx ht (t.exchange.used_use u)
  cases ha : (t.exchange.use u).1 with
  | error e =>
    rw [ha] at hagain
    rcases hagain with ⟨⟨c, hc⟩, -⟩ | ⟨reason, d, he, hd, hunsteady⟩
    · cases hc
    · cases he
      exact .channel hd hunsteady
  | ok c' =>
    rw [ha] at hagain
    rcases hagain with ⟨-, hsettled⟩ | ⟨reason, d, he, -⟩
    · exact hsettled
    · cases he

theorem Site.Thinned.claim? (h : here.Thinned S R E here') (st : Stage H) :
    st.claim? here' = st.claim? here := by
  cases st <;> simp only [Stage.claim?, h.input]

/-- The compose hook of a built-in stage answers the same with the reports, once all declarations of
channels have settled, unless a channel falls short. -/
theorem Site.Thinned.hook (h : here.Thinned S R E here') (hR : Reports R S)
    (hb : st.isBuiltIn = true) (hc : ∀ x, st.reads? = some x → Covers R E x)
    (hinner : st.innerTy? t = st.innerTy? s) (hs : s.exchange.Stocked here.board) {ty : Ty}
    (hrun : (st.compose here).run s = ((st₁, .ok ty), s₁))
    (hs₁ : s₁.exchange.Settling here.board final) (ht : t.exchange.Settled here.board final) :
    let again := (st.compose here').run t
    UpTo (Shortfall changed R final) (fun ty' => ty' = ty ∧ again.1.1.exposed = st₁.exposed ∧
      again.1.1.required = st₁.required ∧ again.2.exchange.Settled here.board final) again.1.2 := by
  intro again
  have hdone : ∀ {st₂ : Stage H} {ty' : Ty}, Stage.Composes here' t st st₂ ty' t → ty' = ty →
      st₂.exposed = st₁.exposed → st₂.required = st₁.required →
      UpTo (Shortfall changed R final) (fun ty' => ty' = ty ∧ again.1.1.exposed = st₁.exposed ∧
        again.1.1.required = st₁.required ∧ again.2.exchange.Settled here.board final) again.1.2 := by
    intro st₂ ty' hcomposes hty hexposed hrequired
    have hagain : again = ((st₂, .ok ty'), t) := hcomposes.run
    rw [hagain]
    exact ⟨hty, hexposed, hrequired, ht⟩
  have hnested : ∀ sub : Nested, st.nested? = sub.wire → Stage.nestedOutput s sub = .ok ty →
      Stage.nestedOutput t sub = .ok ty := by
    intro sub hsub hout
    rw [Stage.innerTy?, Stage.innerTy?, hsub] at hinner
    exact Stage.nestedOutput_eq_ok_iff.2 (hinner.trans (Stage.nestedOutput_eq_ok_iff.1 hout))
  cases Stage.composes_of_run hb hrun with
  | const v => exact hdone (.const v) rfl rfl rfl
  | input => exact hdone .input h.wireInput rfl rfl
  | @add operand hfits =>
    have hty : Stage.operandTy operand here' = Stage.operandTy operand here := by
      unfold Stage.operandTy
      cases hx : operand.referent? with
      | none => rfl
      | some x => dsimp only; rw [h.ty_find? hR (hc x hx)]
    exact hdone (.add (by rw [h.input, hty, hfits])) h.input rfl rfl
  | set hx => exact hdone (.set hx) h.input (by rw [h.input]) rfl
  | get hx hfound =>
    have hty := h.ty_find? hR (hc _ rfl)
    rw [hfound] at hty
    obtain ⟨d, hd, hdty⟩ := Option.map_eq_some_iff.1 hty
    exact hdone (.get hx hd) hdty rfl rfl
  | update hx hfound hfits =>
    have hty := h.ty_find? hR (hc _ rfl)
    rw [hfound] at hty
    obtain ⟨d, hd, hdty⟩ := Option.map_eq_some_iff.1 hty
    exact hdone (.update hx hd (by rw [hdty, h.input, hfits])) h.input rfl (by rw [hdty])
  | pause hdelay => exact hdone (.pause hdelay) h.input rfl rfl
  | @inline sub _ hsub => exact hdone (.inline (hnested sub rfl hsub)) rfl rfl rfl
  | @bound _ sub _ _ hx hobject hsub =>
    exact hdone (.bound hx (by rw [h.input, hobject]) (hnested sub rfl hsub)) rfl rfl rfl
  | channel hclaim hu huse =>
    obtain ⟨u, hu', hrun'⟩ := Stage.run_compose_of_claim? ((h.claim? st).trans hclaim)
    rw [h.board] at hu'
    obtain rfl := Option.some.inj (hu.symm.trans hu')
    have hboard := Stage.board_of_use? hu
    rw [← hboard] at hs hs₁ ht ⊢
    have hresolved := resolved_again (R := R) changed hs huse hs₁ ht
    have hagain : again = _ := hrun' t
    rw [hagain]
    rcases hx : t.exchange.use _ with ⟨_ | c, x⟩ <;> rw [hx] at hresolved
    · exact hresolved
    · exact ⟨rfl, rfl, rfl, hresolved⟩
  | idle hb hc => exact hdone (.idle hb hc) h.input rfl rfl

end Hook

end Dataflow
