import Dataflow.Proofs.Scopes
import Mathlib.Data.Set.Insert
import Mathlib.Data.String.Basic
/-!
# Visible names

Two things are to be known of a name before a stage may use it: whether there is a variable of that
name, and whether the variable is protected. A composition reads both off a list of descriptors, a
warm-up off a chain of scopes. An `Outlook` is what the two have in common.

Of a list of descriptors only the last one of a name counts, but a hash of the list does not tell in
which order they stand. So a name is *barred* by a list only if all its descriptors are protected:
that much a composition that goes on has checked in any case, and the order of the list is of no
importance for it.
-/

namespace Dataflow

variable {bs decls : List VarDecl} {x : String} {d : VarDecl} {v w : Variables} {id : Id .scope}
  {parent : Option (Id .scope)} {scopes : List Scope}

/-- What is known of names: which ones have a variable, and which of these are protected. -/
@[ext] structure Outlook where
  shown : Set String
  barred : Set String

namespace Outlook

/-- One outlook promises no more than the other: it shows no other names, and bars all that the
other one bars. -/
instance : LE Outlook := ⟨fun o o' => o.shown ⊆ o'.shown ∧ o'.barred ⊆ o.barred⟩

/-- Names are declared: they are shown, and not barred. -/
def declare (o : Outlook) (names : Set String) : Outlook := ⟨o.shown ∪ names, o.barred \ names⟩

/-- Names are lent by a stage to the wire that it runs. They are shown, and barred unless they mean
something else there already. -/
def lend (o : Outlook) (names : Set String) : Outlook :=
  ⟨o.shown ∪ names, o.barred ∪ (names \ o.shown)⟩

theorem declare_empty (o : Outlook) : o.declare ∅ = o := by
  refine Outlook.ext (Set.union_empty _) (Set.ext fun x => ⟨fun hx => hx.1, fun hx => ⟨hx, ?_⟩⟩)
  exact Set.notMem_empty x

theorem declare_declare (o : Outlook) (names names' : Set String) :
    (o.declare names).declare names' = o.declare (names ∪ names') := by
  refine Outlook.ext (Set.union_assoc ..) (Set.ext fun x => ?_)
  simp only [declare, Set.mem_sdiff, Set.mem_union, not_or, and_assoc]

theorem declare_mono {o o' : Outlook} (h : o ≤ o') (names : Set String) :
    o.declare names ≤ o'.declare names :=
  ⟨Set.union_subset_union_left _ h.1, fun _ hx => ⟨h.2 hx.1, hx.2⟩⟩

/-- What is lent may as well be declared. -/
theorem lend_le_declare {o o' : Outlook} (h : o ≤ o') (names : Set String) :
    o.lend names ≤ o'.declare names := by
  refine ⟨Set.union_subset_union_left _ h.1, fun x hx => ?_⟩
  exact .inl (h.2 hx.1)

/-- What descriptors show. A name is barred if all descriptors of that name are protected. -/
def ofDecls (decls : List VarDecl) : Outlook where
  shown := {x | ∃ d ∈ decls, d.name = x}
  barred := {x | (∃ d ∈ decls, d.name = x) ∧ ∀ d ∈ decls, d.name = x → d.isProtected = true}

/-- The names of descriptors. -/
def names (decls : List VarDecl) : Set String := {x | ∃ d ∈ decls, d.name = x}

theorem names_append (as bs : List VarDecl) : names (as ++ bs) = names as ∪ names bs := by
  ext x
  simp only [names, List.mem_append, Set.mem_ofPred_eq, Set.mem_union]
  constructor
  · rintro ⟨d, hd | hd, rfl⟩
    · exact .inl ⟨d, hd, rfl⟩
    · exact .inr ⟨d, hd, rfl⟩
  · rintro (⟨d, hd, rfl⟩ | ⟨d, hd, rfl⟩)
    · exact ⟨d, .inl hd, rfl⟩
    · exact ⟨d, .inr hd, rfl⟩

@[simp] theorem names_nil : names [] = ∅ :=
  Set.eq_empty_of_forall_notMem fun x ⟨_, hd, _⟩ => by simp at hd

@[simp] theorem names_singleton (d : VarDecl) : names [d] = {d.name} := by
  ext x
  simp only [names, List.mem_singleton, Set.mem_ofPred_eq, Set.mem_singleton_iff]
  constructor
  · rintro ⟨e, rfl, rfl⟩
    rfl
  · rintro rfl
    exact ⟨d, rfl, rfl⟩

theorem names_cons (d : VarDecl) (decls : List VarDecl) :
    names (d :: decls) = {d.name} ∪ names decls := by
  rw [← names_singleton, ← names_append]
  rfl

/-- Only which descriptors a list has matters, and only their names and protection. -/
theorem ofDecls_congr {as : List VarDecl}
    (hab : ∀ d ∈ as, ∃ e ∈ bs, e.name = d.name ∧ e.isProtected = d.isProtected)
    (hba : ∀ d ∈ bs, ∃ e ∈ as, e.name = d.name ∧ e.isProtected = d.isProtected) :
    ofDecls as = ofDecls bs := by
  have hshown : ∀ x, (∃ d ∈ as, d.name = x) ↔ ∃ d ∈ bs, d.name = x := by
    refine fun x => ⟨?_, ?_⟩
    · rintro ⟨d, hd, rfl⟩
      obtain ⟨e, he, hname, -⟩ := hab d hd
      exact ⟨e, he, hname⟩
    · rintro ⟨d, hd, rfl⟩
      obtain ⟨e, he, hname, -⟩ := hba d hd
      exact ⟨e, he, hname⟩
  refine Outlook.ext (Set.ext hshown) (Set.ext fun x => and_congr (hshown x) ⟨?_, ?_⟩)
  · intro h d hd hx
    obtain ⟨e, he, hname, hprot⟩ := hba d hd
    rw [← hprot]
    exact h e he (hname.trans hx)
  · intro h d hd hx
    obtain ⟨e, he, hname, hprot⟩ := hab d hd
    rw [← hprot]
    exact h e he (hname.trans hx)

/-- The descriptor that a name means tells that the name is shown, and not barred if it is not
protected. -/
theorem of_find? (h : VarDecl.find? x decls = some d) :
    x ∈ (ofDecls decls).shown ∧ (d.isProtected = false → x ∉ (ofDecls decls).barred) := by
  have hmem : d ∈ decls := by simpa using List.mem_of_find?_eq_some h
  have hname : d.name = x := by simpa using List.find?_some h
  refine ⟨⟨d, hmem, hname⟩, fun hfree hbarred => ?_⟩
  rw [hbarred.2 d hmem hname] at hfree
  cases hfree

theorem not_shown_of_find? (h : VarDecl.find? x decls = none) : x ∉ (ofDecls decls).shown := by
  rintro ⟨d, hd, rfl⟩
  have := List.find?_eq_none.1 h d (by simpa using hd)
  simp at this

/-- Descriptors that are not protected declare their names. -/
theorem ofDecls_append_free (as : List VarDecl) (h : ∀ d ∈ bs, d.isProtected = false) :
    ofDecls (as ++ bs) = (ofDecls as).declare (names bs) := by
  refine Outlook.ext (names_append as bs) (Set.ext fun x => ⟨?_, ?_⟩)
  · rintro ⟨⟨d, hd, hx⟩, hall⟩
    have hbs : x ∉ names bs := by
      rintro ⟨e, he, hex⟩
      have := hall e (List.mem_append_right _ he) hex
      rw [h e he] at this
      cases this
    have has : d ∈ as := (List.mem_append.1 hd).resolve_right fun hd => hbs ⟨d, hd, hx⟩
    exact ⟨⟨⟨d, has, hx⟩, fun e he => hall e (List.mem_append_left _ he)⟩, hbs⟩
  · rintro ⟨⟨⟨d, hd, hx⟩, hall⟩, hbs⟩
    refine ⟨⟨d, List.mem_append_left _ hd, hx⟩, fun e he hex => ?_⟩
    rcases List.mem_append.1 he with he | he
    · exact hall e he hex
    · exact absurd ⟨e, he, hex⟩ hbs

/-- Descriptors that are protected lend their names. -/
theorem ofDecls_append_sealed (as : List VarDecl) (h : ∀ d ∈ bs, d.isProtected = true) :
    ofDecls (as ++ bs) = (ofDecls as).lend (names bs) := by
  refine Outlook.ext (names_append as bs) (Set.ext fun x => ⟨?_, ?_⟩)
  · rintro ⟨⟨d, hd, hx⟩, hall⟩
    by_cases hshown : x ∈ (ofDecls as).shown
    · exact .inl ⟨hshown, fun e he => hall e (List.mem_append_left _ he)⟩
    · have hbs : d ∈ bs := (List.mem_append.1 hd).resolve_left fun hd => hshown ⟨d, hd, hx⟩
      exact .inr ⟨⟨d, hbs, hx⟩, hshown⟩
  · intro hx
    have hall : (∃ d ∈ as ++ bs, d.name = x) ∧ ∀ d ∈ as, d.name = x → d.isProtected = true := by
      rcases hx with ⟨⟨d, hd, hdx⟩, hall⟩ | ⟨⟨d, hd, hdx⟩, hnot⟩
      · exact ⟨⟨d, List.mem_append_left _ hd, hdx⟩, hall⟩
      · exact ⟨⟨d, List.mem_append_right _ hd, hdx⟩, fun e he hex => absurd ⟨e, he, hex⟩ hnot⟩
    refine ⟨hall.1, fun d hd hdx => ?_⟩
    rcases List.mem_append.1 hd with hd | hd
    · exact hall.2 d hd hdx
    · exact h d hd

end Outlook

/-! ### What scopes show -/

namespace Variables

/-- What a scope shows. -/
def outlook (v : Variables) (σ : Id .scope) : Outlook where
  shown := {x | (v.find? σ x).isSome = true}
  barred := {x | v.isProtected σ x = true}

variable {v' : Variables} {σ : Id .scope}

theorem mem_shown_outlook :
    x ∈ (v.outlook σ).shown ↔ (v.own σ x).isSome = true ∨ (v.around σ x).isSome = true := by
  simp only [outlook, Set.mem_ofPred_eq, find?_eq, Option.isSome_or, Bool.or_eq_true]
  simp [outer]

/-- A scope's own variables are not protected, so only those around it are. -/
theorem Scoped.mem_barred_outlook (h : v.Scoped σ) :
    x ∈ (v.outlook σ).barred ↔
      ¬ (v.own σ x).isSome = true ∧ ∃ b, v.around σ x = some b ∧ b.isProtected = true := by
  simp only [outlook, Set.mem_ofPred_eq, isProtected, binding?_eq, own]
  cases hx : lookup? x (v.scope σ).entries with
  | some b => simp [h.free x b hx]
  | none => cases v.around σ x <;> simp

/-- Declaring names in a scope shows them, and bars none of them. -/
theorem Declares.outlook {names : List String} (hv : v.Scoped σ) (h : Declares σ names v v') :
    v'.outlook σ = (v.outlook σ).declare {x | x ∈ names} := by
  refine Outlook.ext (Set.ext fun x => ?_) (Set.ext fun x => ?_)
  · rw [mem_shown_outlook, h.bound, h.around]
    simp only [Outlook.declare, Set.mem_union, mem_shown_outlook, Set.mem_ofPred_eq]
    tauto
  · rw [h.ready.mem_barred_outlook, h.bound, h.around]
    simp only [Outlook.declare, Set.mem_sdiff, hv.mem_barred_outlook, Set.mem_ofPred_eq]
    tauto

end Variables

/-! ### Sorted entries -/

section Entries

variable {α β : Type}

/-- Entries in ascending order of their keys, each key once. -/
def Ascending (entries : List (String × α)) : Prop := (entries.map (·.1)).Pairwise (· < ·)

theorem mem_upsert {key : String} {value : α} {entries : List (String × α)} (h : Ascending entries)
    {e : String × α} :
    e ∈ upsert key value entries ↔ e = (key, value) ∨ (e ∈ entries ∧ e.1 ≠ key) := by
  induction entries with
  | nil => simp [upsert]
  | cons first rest ih =>
    obtain ⟨k, v⟩ := first
    have hrest : Ascending rest := (List.pairwise_cons.1 h).2
    have hlt : ∀ e ∈ rest, k < e.1 := fun e he =>
      (List.pairwise_cons.1 h).1 e.1 (List.mem_map.2 ⟨e, he, rfl⟩)
    unfold upsert
    split
    · rename_i heq
      subst heq
      simp only [List.mem_cons]
      constructor
      · rintro (rfl | he)
        · exact .inl rfl
        · exact .inr ⟨.inr he, (hlt e he).ne'⟩
      · rintro (rfl | ⟨rfl | he, hne⟩)
        · exact .inl rfl
        · exact absurd rfl hne
        · exact .inr he
    · rename_i hne
      split
      · rename_i hkey
        simp only [List.mem_cons]
        constructor
        · rintro (rfl | rfl | he)
          · exact .inl rfl
          · exact .inr ⟨.inl rfl, Ne.symm hne⟩
          · exact .inr ⟨.inr he, (hkey.trans (hlt e he)).ne'⟩
        · rintro (rfl | ⟨he, -⟩)
          · exact .inl rfl
          · exact .inr he
      · simp only [List.mem_cons, ih hrest]
        constructor
        · rintro (rfl | rfl | ⟨he, hek⟩)
          · exact .inr ⟨.inl rfl, Ne.symm hne⟩
          · exact .inl rfl
          · exact .inr ⟨.inr he, hek⟩
        · rintro (rfl | ⟨rfl | he, hek⟩)
          · exact .inr (.inl rfl)
          · exact .inl rfl
          · exact .inr (.inr ⟨he, hek⟩)

theorem Ascending.upsert {entries : List (String × α)} (h : Ascending entries) (key : String)
    (value : α) : Ascending (upsert key value entries) := by
  induction entries with
  | nil => simp [Dataflow.upsert, Ascending]
  | cons first rest ih =>
    obtain ⟨k, v⟩ := first
    have hrest : Ascending rest := (List.pairwise_cons.1 h).2
    have hlt : ∀ e ∈ rest, k < e.1 := fun e he =>
      (List.pairwise_cons.1 h).1 e.1 (List.mem_map.2 ⟨e, he, rfl⟩)
    unfold Dataflow.upsert
    split
    · exact h
    · rename_i hne
      split
      · rename_i hkey
        refine List.pairwise_cons.2 ⟨fun k' hk' => ?_, h⟩
        rcases List.mem_cons.1 hk' with rfl | hk'
        · exact hkey
        · exact hkey.trans ((List.pairwise_cons.1 h).1 k' hk')
      · rename_i hkey
        refine List.pairwise_cons.2 ⟨fun k' hk' => ?_, ih hrest⟩
        obtain ⟨e, he, rfl⟩ := List.mem_map.1 hk'
        rcases (mem_upsert hrest).1 he with rfl | ⟨he, -⟩
        · exact lt_of_le_of_ne (not_lt.1 hkey) (Ne.symm hne)
        · exact hlt e he

theorem lookup?_eq_some_iff {entries : List (String × α)} (h : Ascending entries) {key : String}
    {value : α} : lookup? key entries = some value ↔ (key, value) ∈ entries := by
  induction entries with
  | nil => simp [lookup?]
  | cons first rest ih =>
    obtain ⟨k, v⟩ := first
    have hlt : ∀ e ∈ rest, k < e.1 := fun e he =>
      (List.pairwise_cons.1 h).1 e.1 (List.mem_map.2 ⟨e, he, rfl⟩)
    rw [lookup?]
    split
    · rename_i heq
      subst heq
      simp only [Option.some.injEq, List.mem_cons, Prod.mk.injEq, true_and]
      refine ⟨fun hv => .inl hv.symm, ?_⟩
      rintro (rfl | he)
      · rfl
      · exact absurd (hlt _ he) (lt_irrefl _)
    · rename_i hne
      rw [ih (List.pairwise_cons.1 h).2]
      simp [Ne.symm hne]

end Entries

namespace Variables

/-! ### New scopes -/

/-- Scopes bind each name once, and parents come before their children. -/
structure WellFormed (v : Variables) : Prop where
  names : ∀ id, Ascending (v.scope id).entries
  parents : ∀ id parent, (v.scope id).parent = some parent → parent.row < id.row

variable {v : Variables}

/-- No more steps are needed to find all ancestors than there are rows up to the scope. -/
theorem WellFormed.ancestry_eq_chain (hv : v.WellFormed) {n : Nat} (hn : id.row < n) :
    v.ancestry n id = v.chain id := by
  have hsteps : ∀ n m, ∀ id : Id .scope, id.row < n → id.row < m →
      v.ancestry n id = v.ancestry m id := by
    intro n
    induction n with
    | zero => omega
    | succ n ih =>
      intro m id hn hm
      cases m with
      | zero => omega
      | succ m =>
        rw [ancestry, ancestry]
        cases hp : (v.scope id).parent with
        | none => rfl
        | some parent =>
          have hlt := hv.parents id parent hp
          simp only [ih m parent (by omega) (by omega)]
  exact hsteps n (id.row + 1) id hn (Nat.lt_succ_self _)

/-- Ancestors depend only on scopes that come before. -/
theorem WellFormed.ancestry_congr (hv : v.WellFormed) {bound : Nat}
    (hw : ∀ id : Id .scope, id.row < bound → w.scope id = v.scope id) (n : Nat)
    (hid : id.row < bound) : w.ancestry n id = v.ancestry n id := by
  induction n generalizing id with
  | zero => rfl
  | succ n ih =>
    rw [ancestry, ancestry, hw id hid]
    cases hp : (v.scope id).parent with
    | none => rfl
    | some parent =>
      have hlt := hv.parents id parent hp
      simp only [ih (by omega : parent.row < bound)]

section AddScope

variable (v) (parent : Option (Id .scope))

theorem scope_addScope : (v.addScope parent).2.scope (v.addScope parent).1 = { parent } := by
  simp [addScope, scope]

theorem scope_addScope_of_lt {τ : Id .scope} (h : τ.row < v.scopes.size) :
    (v.addScope parent).2.scope τ = v.scope τ := by
  simp only [addScope, scope, Table.get?_push_of_lt _ _ h]

variable {v parent}

/-- The scopes around a new one are its parent with the ancestors. -/
theorem WellFormed.around_addScope (hv : v.WellFormed)
    (hparent : ∀ P, parent = some P → P.row < v.scopes.size) (x : String) :
    (v.addScope parent).2.around (v.addScope parent).1 x = parent.bind fun P => v.binding? P x := by
  unfold around
  rw [scope_addScope]
  cases hP : parent with
  | none => rfl
  | some P =>
    subst hP
    have hlt := hparent P rfl
    have hsame := hv.ancestry_congr (w := (v.addScope (some P)).2)
      (fun id hid => scope_addScope_of_lt v (some P) hid) (v.addScope (some P)).1.row hlt
    have hrow : P.row < (v.addScope (some P)).1.row := hlt
    dsimp only
    rw [hsame, hv.ancestry_eq_chain hrow]
    rfl

theorem WellFormed.scoped_addScope (hv : v.WellFormed)
    (hparent : ∀ P, parent = some P → P.row < v.scopes.size) :
    (v.addScope parent).2.Scoped (v.addScope parent).1 where
  exist := by
    rw [addScope, Table.size_push]
    exact Nat.lt_succ_self _
  above P hP w hw n := by
    rw [scope_addScope] at hP
    have hlt := hparent P hP
    have hne : ∀ id : Id .scope, id.row < v.scopes.size → id ≠ (v.addScope parent).1 := by
      rintro id hid rfl
      exact absurd hid (Nat.lt_irrefl _)
    rw [hv.ancestry_congr (fun id hid => scope_addScope_of_lt v parent hid) n hlt]
    refine hv.ancestry_congr (fun id hid => ?_) n hlt
    rw [hw id (hne id hid), scope_addScope_of_lt v parent hid]
  free x b hb := by
    rw [scope_addScope] at hb
    cases hb
  valid x slot hx := by
    rw [own, scope_addScope] at hx
    cases hx
  inj x y slot hx := by
    rw [own, scope_addScope] at hx
    cases hx

end AddScope

/-! ### Making scopes -/

section Make

/-- A new scope without a parent has nothing around it. -/
theorem scoped_addScope_none (v : Variables) :
    (v.addScope none).2.Scoped (v.addScope none).1 ∧
      ∀ x, (v.addScope none).2.outer (v.addScope none).1 x = none := by
  refine ⟨⟨?_, fun P hP => ?_, fun x b hb => ?_, fun x slot hx => ?_, fun x y slot hx => ?_⟩,
    fun x => ?_⟩
  · rw [addScope, Table.size_push]
    exact Nat.lt_succ_self _
  · rw [scope_addScope] at hP
    cases hP
  · rw [scope_addScope] at hb
    cases hb
  · rw [own, scope_addScope] at hx
    cases hx
  · rw [own, scope_addScope] at hx
    cases hx
  · rw [outer, around, scope_addScope]
    rfl

theorem WellFormed.of_scope_eq (h : v.WellFormed) (hw : ∀ id, w.scope id = v.scope id) :
    w.WellFormed :=
  ⟨fun id => hw id ▸ h.names id, fun id parent hp => h.parents id parent (hw id ▸ hp)⟩

theorem wellFormed_empty : WellFormed {} := by
  have hscope : ∀ id, ({} : Variables).scope id = {} := fun _ => rfl
  exact ⟨fun id => by rw [hscope]; exact .nil, fun id parent hp => by rw [hscope] at hp; cases hp⟩

theorem WellFormed.addScope (h : v.WellFormed)
    (hparent : ∀ P, parent = some P → P.row < v.scopes.size) :
    (v.addScope parent).2.WellFormed := by
  have hscope : ∀ id, (v.addScope parent).2.scope id = { parent } ∧ id.row = v.scopes.size ∨
      (v.addScope parent).2.scope id = v.scope id := by
    intro id
    rcases Nat.lt_trichotomy id.row v.scopes.size with hlt | heq | hgt
    · exact .inr (scope_addScope_of_lt v parent hlt)
    · obtain rfl : id = (v.addScope parent).1 := by
        cases id
        exact congrArg Id.mk heq
      exact .inl ⟨scope_addScope v parent, rfl⟩
    · refine .inr ?_
      have hnone : ∀ {t : Table .scope Scope}, t.size ≤ id.row → t.get? id = none := fun ht =>
        Array.getElem?_eq_none ht
      have hpush : (v.scopes.push { parent }).size ≤ id.row := by
        rw [Table.size_push]
        exact hgt
      simp only [Variables.addScope, scope, hnone hpush, hnone hgt.le]
  refine ⟨fun id => ?_, fun id P hP => ?_⟩
  · rcases hscope id with ⟨hid, -⟩ | hid <;> rw [hid]
    · exact .nil
    · exact h.names id
  · rcases hscope id with ⟨hid, hrow⟩ | hid <;> rw [hid] at hP
    · exact hrow ▸ hparent P hP
    · exact h.parents id P hP

theorem WellFormed.bind (h : v.WellFormed) (σ : Id .scope) (x : String) (b : Binding) :
    (v.bind σ x b).WellFormed := by
  have hscope : ∀ id, (v.bind σ x b).scope id = v.scope id ∨ (v.bind σ x b).scope id =
      { v.scope id with entries := upsert x b (v.scope id).entries } := by
    intro id
    by_cases hid : id = σ
    · subst hid
      by_cases hlt : id.row < v.scopes.size
      · exact .inr (v.scope_bind hlt x b)
      · have hnone : v.scopes.get? id = none := Array.getElem?_eq_none (Nat.le_of_not_lt hlt)
        exact .inl (by simp [Variables.bind, scope, hnone])
    · exact .inl (v.scope_bind_of_ne hid x b)
  refine ⟨fun id => ?_, fun id P hP => ?_⟩
  · rcases hscope id with hid | hid <;> rw [hid]
    · exact h.names id
    · exact (h.names id).upsert x b
  · rcases hscope id with hid | hid <;> rw [hid] at hP <;> exact h.parents id P hP

theorem WellFormed.declare (h : v.WellFormed) (σ : Id .scope) (x : String) :
    (v.declare σ x).2.WellFormed := by
  unfold Variables.declare
  split
  · exact h
  · have hslot : (v.addSlot .nothing).2.WellFormed := h.of_scope_eq fun _ => rfl
    exact hslot.bind σ x _

theorem WellFormed.insert (h : v.WellFormed) (σ : Id .scope) (x : String) (value : Value)
    (isProtected : Bool) : (v.insert σ x value isProtected).2.WellFormed :=
  ((h.declare σ x).bind σ x ⟨_, isProtected⟩).of_scope_eq fun _ => rfl

end Make

/-! ### Descriptors of a scope -/

section Visible

/-- The names of a scope go over those of its ancestors. -/
theorem visibleIn_cons (v : Variables) {s : Scope} (hs : Ascending s.entries) {outer : List Scope}
    (houter : Ascending (v.visibleIn outer)) :
    Ascending (v.visibleIn (s :: outer)) ∧ ∀ e, e ∈ v.visibleIn (s :: outer) ↔
      (∃ b, lookup? e.1 s.entries = some b ∧ e.2 = v.describe e.1 b) ∨
        (lookup? e.1 s.entries = none ∧ e ∈ v.visibleIn outer) := by
  rw [visibleIn]
  generalize v.visibleIn outer = shown at houter
  generalize s.entries = entries at hs
  induction entries generalizing shown with
  | nil => exact ⟨houter, by simp [lookup?]⟩
  | cons first rest ih =>
    obtain ⟨k, b⟩ := first
    have hlt : ∀ e ∈ rest, k < e.1 := fun e he =>
      (List.pairwise_cons.1 hs).1 e.1 (List.mem_map.2 ⟨e, he, rfl⟩)
    have hrest : Ascending rest := (List.pairwise_cons.1 hs).2
    have hnone : lookup? k rest = none := by
      cases hk : lookup? k rest with
      | none => rfl
      | some b' => exact absurd (hlt _ ((lookup?_eq_some_iff hrest).1 hk)) (lt_irrefl _)
    obtain ⟨hasc, hmem⟩ := ih _ (houter.upsert k (v.describe k b)) hrest
    refine ⟨hasc, fun e => ?_⟩
    obtain ⟨x, d⟩ := e
    rw [List.foldl_cons, hmem, mem_upsert houter, lookup?]
    dsimp only
    by_cases hkx : k = x
    · subst hkx
      simp [hnone]
    · simp [hkx, Ne.symm hkx]

theorem ascending_visibleIn (v : Variables) (h : ∀ s ∈ scopes, Ascending s.entries) :
    Ascending (v.visibleIn scopes) := by
  induction scopes with
  | nil => exact .nil
  | cons s outer ih =>
    exact (v.visibleIn_cons (h s List.mem_cons_self)
      (ih fun t ht => h t (List.mem_cons_of_mem _ ht))).1

/-- The descriptors that scopes show are those of the bindings that names mean. -/
theorem mem_visibleIn (v : Variables) (h : ∀ s ∈ scopes, Ascending s.entries) (e : String × VarDecl)
    :
    e ∈ v.visibleIn scopes ↔ ∃ b, (scopes.findSome? fun s => lookup? e.1 s.entries) = some b ∧
      e.2 = v.describe e.1 b := by
  induction scopes with
  | nil => simp [visibleIn]
  | cons s outer ih =>
    have houter : ∀ t ∈ outer, Ascending t.entries := fun t ht => h t (List.mem_cons_of_mem _ ht)
    rw [(v.visibleIn_cons (h s List.mem_cons_self) (v.ascending_visibleIn houter)).2, ih houter,
      List.findSome?_cons]
    cases lookup? e.1 s.entries <;> simp

theorem name_describe (v : Variables) (x : String) (b : Binding) : (v.describe x b).name = x := by
  unfold describe
  dsimp only
  split <;> rfl

theorem isProtected_describe (v : Variables) (x : String) (b : Binding) :
    (v.describe x b).isProtected = b.isProtected := by
  unfold describe
  dsimp only
  split <;> simp_all [VarDecl.sealed, VarDecl.assignable]

theorem WellFormed.ascending_of_mem_ancestry (hv : v.WellFormed) (n : Nat) (id : Id .scope) :
    ∀ s ∈ v.ancestry n id, Ascending s.entries := by
  induction n generalizing id with
  | zero => simp [ancestry]
  | succ n ih =>
    intro s hs
    rw [ancestry] at hs
    rcases List.mem_cons.1 hs with rfl | hs
    · exact hv.names id
    · cases hp : (v.scope id).parent with
      | none => simp [hp] at hs
      | some parent =>
        rw [hp] at hs
        exact ih parent s hs

/-- The descriptors of a scope are those of the bindings that names mean there. -/
theorem WellFormed.mem_visible (hv : v.WellFormed) {P : Id .scope} :
    d ∈ v.visible P ↔ ∃ b, v.binding? P d.name = some b ∧ d = v.describe d.name b := by
  have hmem := v.mem_visibleIn (hv.ascending_of_mem_ancestry (P.row + 1) P)
  unfold visible
  rw [List.mem_map]
  constructor
  · rintro ⟨e, he, rfl⟩
    obtain ⟨b, hb, he₂⟩ := (hmem e).1 he
    have hname : e.2.name = e.1 := by rw [he₂, name_describe]
    exact ⟨b, by rw [hname]; exact hb, by rw [hname]; exact he₂⟩
  · rintro ⟨b, hb, hd⟩
    exact ⟨(d.name, d), (hmem _).2 ⟨b, hb, hd⟩, rfl⟩

/-- The variables that a run with this parent inherits. -/
def inherited (v : Variables) : Option (Id .scope) → List VarDecl
  | none => []
  | some P => v.visible P

/-- The descriptors of a scope promise no more than what a new scope below it shows. -/
theorem ofDecls_inherited_le (hv : v.WellFormed)
    (hparent : ∀ P, parent = some P → P.row < v.scopes.size) :
    Outlook.ofDecls (v.inherited parent) ≤ (v.addScope parent).2.outlook (v.addScope parent).1 := by
  have hscoped := hv.scoped_addScope hparent
  have haround := hv.around_addScope hparent
  refine ⟨?_, fun x hx => ?_⟩
  · rintro x ⟨d, hd, rfl⟩
    rw [mem_shown_outlook, haround]
    cases parent with
    | none => simp [inherited] at hd
    | some P =>
      obtain ⟨b, hb, -⟩ := hv.mem_visible.1 hd
      exact .inr (by simp [hb])
  · obtain ⟨-, b, hb, hprot⟩ := hscoped.mem_barred_outlook.1 hx
    rw [haround] at hb
    cases parent with
    | none => cases hb
    | some P =>
      have hb' : v.binding? P x = some b := hb
      refine ⟨⟨v.describe x b, hv.mem_visible.2 ⟨b, ?_, ?_⟩, name_describe ..⟩, fun d hd hname => ?_⟩
      · rwa [name_describe]
      · rw [name_describe]
      · obtain ⟨b', hb₁, hd'⟩ := hv.mem_visible.1 hd
        rw [hname, hb', Option.some.injEq] at hb₁
        subst hb₁
        rw [hd', isProtected_describe, hprot]

end Visible

end Variables

end Dataflow
