import Dataflow.Proofs.Drafts
import Dataflow.Proofs.Scopes
import Mathlib.Data.List.Forall2
/-!
# What a program declares

Evaluation is a computation that makes wires. What it leaves behind is said here without it: an
expression stands for a value in an environment, where the value of a pipeline is a wire with the
stages that its calls stand for, and so on. Each function of the evaluator then makes what its input
stands for, and does nothing else to the store (`Makes`).

The wires of a program are declared together and filled one after the other. While that goes on, a
declared wire is in the store without its stages, so what is kept at all times is said only of the
wires behind the declared ones.
-/

namespace Dataflow

variable {H : Host} {name call : String} {decl : Program.WireDecl} {decls : List Program.WireDecl}
  {id : Id .wire} {placed : List (Placed H)} {s' s s₁ t : Store H} {p : Program}
  {m n position : Nat} {e : Program.WireDecl × Id .wire} {env' : Environment H}

/-- The wires from a row on are also in the other store, with their names and stages. -/
def Store.KeptIn (n : Nat) (s t : Store H) : Prop :=
  ∀ id d, n ≤ id.row → s.draft? id = some d → t.draft? id = some d

namespace Store.KeptIn

variable {u : Store H}

theorem trans (h : s.KeptIn n t) (h' : t.KeptIn n u) : s.KeptIn n u :=
  fun id d hid hd => h' id d hid (h id d hid hd)

theorem installAll (n : Nat) (s : Store H) (drafts : List (Draft H)) :
    s.KeptIn n (s.installAll drafts) := by
  intro id d _ hd
  rw [draft?_installAll_of_lt s drafts (row_lt_of_draft? hd), hd]

end Store.KeptIn

namespace Environment

/-! ### Meaning -/

mutual

/-- What an expression stands for, where the wires of pipelines are found from row `n` on. -/
inductive Denotes (env : Environment H) (s : Store H) (n : Nat) :
    String → Program.Expr → Value → Prop where
  | literal {owner : String} {v : Value} : Denotes env s n owner (.literal v) v
  | reference {owner name : String} : Denotes env s n owner (.reference name) (.ref name)
  | type {owner : String} {ty : Ty} : Denotes env s n owner (.type ty) (.type ty)
  | constant {owner name : String} {v : Value} (hfound : env.findDefine? name = some v) :
    Denotes env s n owner (.constant name) v
  | wire {owner name : String} {id : Id .wire} (hfound : env.findWire? name = some id) :
    Denotes env s n owner (.wire name) (.wire id)
  | pipeline {owner : String} {calls : List Program.Call} {id : Id .wire} {placed : List (Placed H)}
    (hnew : n ≤ id.row) (hdraft : s.draft? id = some ⟨owner ++ "-pipeline", false, placed⟩)
    (hplaced : Lays env s n calls placed) : Denotes env s n owner (.pipeline calls) (.wire id)

/-- Each call gives a stage, in order. -/
inductive Lays (env : Environment H) (s : Store H) (n : Nat) :
    List Program.Call → List (Placed H) → Prop where
  | nil : Lays env s n [] []
  | cons {c : Program.Call} {calls : List Program.Call} {p : Placed H} {placed : List (Placed H)}
    (hplace : Places env s n c p) (hplaced : Lays env s n calls placed) :
    Lays env s n (c :: calls) (p :: placed)

/-- The stage that a call gives: a fresh one of that name with the arguments of the call. -/
inductive Places (env : Environment H) (s : Store H) (n : Nat) : Program.Call → Placed H → Prop where
  | mk {name : String} {args : List Program.Arg} {span : Program.Span} {fresh stage : Stage H}
    (hfresh : env.registry.create? name = some fresh)
    (hparams : args ≠ [] → fresh.capabilities.parameters = true)
    (hgiven : Gives env s n name 0 fresh args stage) :
    Places env s n (.mk name args span)
      { stage, line := span.line.toNat, column := span.column.toNat }

/-- What a stage becomes when it is given arguments, from a position on. -/
inductive Gives (env : Environment H) (s : Store H) (n : Nat) :
    String → Nat → Stage H → List Program.Arg → Stage H → Prop where
  | nil {call : String} {position : Nat} {stage : Stage H} :
    Gives env s n call position stage [] stage
  | cons {call : String} {position index : Nat} {name : Option String} {value : Program.Expr}
    {v : Value} {args : List Program.Arg} {stage stage' stage'' : Stage H}
    (hindex : name.elim (some position) (paramIndex? stage.params) = some index)
    (hvalue : Denotes env s n call value v) (hset : stage.setParam index v = .ok stage')
    (hgiven : Gives env s n call (position + 1) stage' args stage'') :
    Gives env s n call position stage (.mk name value :: args) stage''

end

mutual

/-- Fewer wires count as old. -/
theorem Denotes.mono {env : Environment H} {s : Store H} {m n : Nat} (hn : n ≤ m) {owner : String}
    {e : Program.Expr} {v : Value} (h : Denotes env s m owner e v) : Denotes env s n owner e v := by
  cases h with
  | literal => exact .literal
  | reference => exact .reference
  | type => exact .type
  | constant hfound => exact .constant hfound
  | wire hfound => exact .wire hfound
  | pipeline hnew hdraft hplaced => exact .pipeline (hn.trans hnew) hdraft (hplaced.mono hn)

theorem Lays.mono {env : Environment H} {s : Store H} {m n : Nat} (hn : n ≤ m)
    {calls : List Program.Call} {placed : List (Placed H)} (h : Lays env s m calls placed) :
    Lays env s n calls placed := by
  cases h with
  | nil => exact .nil
  | cons hplace hplaced => exact .cons (hplace.mono hn) (hplaced.mono hn)

theorem Places.mono {env : Environment H} {s : Store H} {m n : Nat} (hn : n ≤ m)
    {c : Program.Call} {p : Placed H} (h : Places env s m c p) : Places env s n c p := by
  cases h with
  | mk hfresh hparams hgiven => exact .mk hfresh hparams (hgiven.mono hn)

theorem Gives.mono {env : Environment H} {s : Store H} {m n : Nat} (hn : n ≤ m) {call : String}
    {position : Nat} {stage stage' : Stage H} {args : List Program.Arg}
    (h : Gives env s m call position stage args stage') :
    Gives env s n call position stage args stage' := by
  cases h with
  | nil => exact .nil
  | cons hindex hvalue hset hgiven => exact .cons hindex (hvalue.mono hn) hset (hgiven.mono hn)

end

/-! ### Computations that make wires -/

/-- The computation adds wires and does nothing else to the store. If it succeeds, its answer is as
it should be in every store that keeps the wires from row `n` on. -/
def Makes {α : Type} (n : Nat) (P : Store H → α → Prop) (x : Build H α) : Prop :=
  ∀ s : Store H, n ≤ s.wires.size → ∃ r drafts, s.eval x = (r, s.installAll drafts) ∧
    ∀ a, r = .ok a → ∀ t, (s.installAll drafts).KeptIn n t → P t a

section Makes

variable {α β : Type}

theorem makes_pure {P : Store H → α → Prop} {a : α} (h : ∀ t, P t a) :
    Makes n P (pure a : Build H α) := fun _ _ =>
  ⟨.ok a, [], rfl, fun _ ha t _ => Except.ok.inj ha ▸ h t⟩

theorem makes_throw {P : Store H → α → Prop} (e : EvalError) :
    Makes n P (throw e : Build H α) := fun _ _ => ⟨.error e, [], rfl, fun _ ha => by cases ha⟩

theorem makes_throw_bind {P : Store H → β → Prop} (e : EvalError) (f : α → Build H β) :
    Makes n P ((throw e : Build H α) >>= f) := fun _ _ => ⟨.error e, [], rfl, fun _ ha => by cases ha⟩

theorem makes_except {P : Store H → α → Prop} {x : Except EvalError α}
    (h : ∀ a, x = .ok a → ∀ t, P t a) : Makes n P (liftM x : Build H α) := fun s _ =>
  ⟨x, [], s.eval_except x, fun a ha t _ => h a ha t⟩

theorem Makes.imp {P Q : Store H → α → Prop} {x : Build H α} (hx : Makes n P x)
    (h : ∀ t a, P t a → Q t a) : Makes n Q x := by
  intro s hn
  obtain ⟨r, drafts, hr, hP⟩ := hx s hn
  exact ⟨r, drafts, hr, fun a ha t ht => h t a (hP a ha t ht)⟩

theorem Makes.bind {P : Store H → α → Prop} {Q : Store H → β → Prop} {x : Build H α}
    {f : α → Build H β} (hx : Makes n P x) (hf : ∀ a, Makes n (fun t b => P t a → Q t b) (f a)) :
    Makes n Q (x >>= f) := by
  intro s hn
  obtain ⟨r, drafts, hr, hP⟩ := hx s hn
  rw [Store.eval_bind, hr]
  cases r with
  | error e => exact ⟨.error e, drafts, rfl, fun _ ha => by cases ha⟩
  | ok a =>
    have hn' : n ≤ (s.installAll drafts).wires.size := by
      rw [Store.size_installAll]
      omega
    obtain ⟨r', drafts', hr', hQ⟩ := hf a _ hn'
    refine ⟨r', drafts ++ drafts', ?_, fun b hb t ht => ?_⟩
    · rw [Store.installAll_append]
      exact hr'
    · rw [Store.installAll_append] at ht
      exact hQ b hb t ht (hP a rfl t ((Store.KeptIn.installAll n _ drafts').trans ht))

end Makes

theorem makes_found {α : Type} {P : Store H → α → Prop} {span : Program.Span} {message : String}
    {o : Option α} (h : ∀ a, o = some a → ∀ t, P t a) :
    Makes n P (liftM (found span message o) : Build H α) := by
  refine makes_except fun a ha => h a ?_
  cases o with
  | none => cases ha
  | some b => exact congrArg some (Except.ok.inj ha)

theorem makes_argIndex {P : Store H → Nat → Prop} {stage : Stage H} {span : Program.Span}
    {name : Option String}
    (h : ∀ index, name.elim (some position) (paramIndex? stage.params) = some index →
      ∀ t, P t index) :
    Makes n P (liftM (argIndex stage call span position name) : Build H Nat) := by
  refine makes_except fun index hindex => h index ?_
  cases name with
  | none => exact congrArg some (Except.ok.inj hindex)
  | some name =>
    rw [argIndex] at hindex
    change paramIndex? stage.params name = some index
    cases hp : paramIndex? stage.params name with
    | none => simp [hp] at hindex
    | some i =>
      rw [hp] at hindex
      exact congrArg some (Except.ok.inj hindex)

/-- A new wire is added, its stages are made, and it is filled. While that goes on, the wire itself
is not among those that are kept. -/
theorem makes_pipeline {P : Store H → List (Placed H) → Prop} {Q : Store H → Value → Prop}
    {calls : Build H (List (Placed H))} (hcalls : ∀ m, n ≤ m → Makes m P calls)
    (hQ : ∀ t id placed, n ≤ id.row → t.draft? id = some ⟨name, false, placed⟩ → P t placed →
      Q t (.wire id)) :
    Makes n Q (do
      let id ← modifyGet (·.addWire name false)
      let placed ← calls
      modify fun s => s.modifyWire id fun w => placed.foldl Wire.push w
      return .wire id) := by
  intro s hn
  have hsize : (s.installAll [⟨name, false, []⟩]).wires.size = s.wires.size + 1 :=
    s.size_installAll _
  obtain ⟨r, drafts, hr, hP⟩ := hcalls (s.wires.size + 1) (by omega) _ hsize.ge
  rw [← Store.installAll_append, List.singleton_append] at hr hP
  cases r with
  | error e =>
    simp only [Store.eval_bind, Store.eval_addWire, hr]
    exact ⟨.error e, _, rfl, fun _ ha => by cases ha⟩
  | ok placed =>
    simp only [Store.eval_bind, Store.eval_addWire, hr, Store.eval_fill, Store.eval_pure,
      Store.fill_installAll]
    refine ⟨_, _, rfl, fun v hv t ht => ?_⟩
    cases hv
    have hdraft := s.draft?_installAll (⟨name, false, placed⟩ :: drafts) 0
    refine hQ t s.wires.next placed hn (ht _ _ hn hdraft) (hP placed rfl t fun id d hid hd => ?_)
    refine ht id d (by omega) ?_
    obtain ⟨k, hk⟩ : ∃ k, id = ⟨s.wires.size + (k + 1)⟩ :=
      ⟨id.row - (s.wires.size + 1), by cases id; simp at hid ⊢; omega⟩
    rw [hk, Store.draft?_installAll, List.getElem?_cons_succ] at hd ⊢
    exact hd

mutual

/-- Expressions get their meaning. -/
theorem makes_resolve (env : Environment H) (n : Nat) (owner : String) (span : Program.Span)
    (e : Program.Expr) :
    Makes n (fun t v => Denotes env t n owner e v) (resolve env owner span e) := by
  cases e with
  | literal v =>
    rw [resolve]
    exact makes_pure fun _ => .literal
  | reference name =>
    rw [resolve]
    exact makes_pure fun _ => .reference
  | type ty =>
    rw [resolve]
    exact makes_pure fun _ => .type
  | constant name =>
    rw [resolve]
    exact makes_found fun _ hfound _ => .constant hfound
  | wire name =>
    rw [resolve]
    exact Makes.bind (makes_found fun id hfound _ => hfound)
      fun id => makes_pure fun _ hfound => .wire hfound
  | pipeline calls =>
    rw [resolve]
    exact makes_pipeline
      (fun m hm => (makes_placeAll env m calls).imp fun _ _ hplaced => hplaced.mono hm)
      fun _ _ _ hnew hdraft hplaced => .pipeline hnew hdraft hplaced

theorem makes_placeAll (env : Environment H) (n : Nat) (calls : List Program.Call) :
    Makes n (fun t placed => Lays env t n calls placed) (placeAll env calls) := by
  cases calls with
  | nil =>
    rw [placeAll]
    exact makes_pure fun _ => .nil
  | cons c calls =>
    rw [placeAll]
    exact Makes.bind (makes_place env n c) fun p =>
      Makes.bind (makes_placeAll env n calls) fun placed =>
        makes_pure fun _ hplaced hplace => .cons hplace hplaced

theorem makes_place (env : Environment H) (n : Nat) (c : Program.Call) :
    Makes n (fun t p => Places env t n c p) (place env c) := by
  cases c with
  | mk name args span =>
    rw [place]
    refine Makes.bind (makes_found fun fresh hfresh _ => hfresh) fun fresh => ?_
    split
    · exact makes_throw_bind _ _
    · rename_i hparams
      refine Makes.bind (makes_assign env n name span args 0 fresh) fun stage =>
        makes_pure fun _ hgiven hfresh => .mk hfresh (fun hargs => ?_) hgiven
      simpa [hargs] using hparams

theorem makes_assign (env : Environment H) (n : Nat) (call : String) (span : Program.Span)
    (args : List Program.Arg) (position : Nat) (stage : Stage H) :
    Makes n (fun t stage' => Gives env t n call position stage args stage')
      (assign env call span position stage args) := by
  cases args with
  | nil =>
    rw [assign]
    exact makes_pure fun _ => .nil
  | cons arg args =>
    obtain ⟨name, value⟩ := arg
    rw [assign]
    refine Makes.bind (makes_argIndex fun index hindex _ => hindex) fun index => ?_
    refine Makes.bind (makes_resolve env n call span value) fun v => ?_
    cases hset : stage.setParam index v with
    | error e => exact makes_throw _
    | ok stage' =>
      exact (makes_assign env n call span args (position + 1) stage').imp
        fun _ _ hgiven hvalue hindex => .cons hindex hvalue hset hgiven

end

/-! ### Constants -/

/-- The constants of a program are bound in order, each to what its expression stands for where those
before it are bound. -/
inductive Binds (s : Store H) (n : Nat) :
    Environment H → List Program.Item → Environment H → Prop where
  | nil {env : Environment H} : Binds s n env [] env
  | wire {env env' : Environment H} {decl : Program.WireDecl} {items : List Program.Item}
    (hitems : Binds s n env items env') : Binds s n env (.wire decl :: items) env'
  | define {env env' : Environment H} {name : String} {value : Program.Expr} {v : Value}
    {span : Program.Span} {items : List Program.Item} (hvalue : Denotes env s n name value v)
    (hitems : Binds s n (env.define name v) items env') :
    Binds s n env (.define name value span :: items) env'

theorem makes_evalDefines (n : Nat) (items : List Program.Item) (env : Environment H) :
    Makes n (fun t env' => Binds t n env items env') (evalDefines items env) := by
  induction items generalizing env with
  | nil =>
    rw [evalDefines]
    exact makes_pure fun _ => .nil
  | cons item items ih =>
    cases item with
    | wire decl =>
      rw [evalDefines]
      exact (ih env).imp fun _ _ => .wire
    | define name value span =>
      rw [evalDefines]
      exact Makes.bind (makes_resolve env n name span value) fun v =>
        (ih (env.define name v)).imp fun _ _ hitems hvalue => .define hvalue hitems

namespace Binds

variable {env : Environment H} {items : List Program.Item}

theorem registry (h : Binds s n env items env') : env'.registry = env.registry := by
  induction h with
  | nil => rfl
  | wire _ ih => exact ih
  | define _ _ ih => exact ih

theorem parents (h : Binds s n env items env') : env'.parents = env.parents := by
  induction h with
  | nil => rfl
  | wire _ ih => exact ih
  | define _ _ ih => exact ih

theorem wires (h : Binds s n env items env') : env'.names.wires = env.names.wires := by
  induction h with
  | nil => rfl
  | wire _ ih => exact ih
  | define _ _ ih => exact ih

/-- Other constants are as they were. -/
theorem lookup?_of_not_mem (h : Binds s n env items env')
    (hname : ∀ value span, .define name value span ∉ items) :
    lookup? name env'.names.defines = lookup? name env.names.defines := by
  induction h with
  | nil => rfl
  | wire _ ih => exact ih fun value span hmem => hname value span (List.mem_cons_of_mem _ hmem)
  | define hvalue _ ih =>
    rw [ih fun value span hmem => hname value span (List.mem_cons_of_mem _ hmem)]
    refine lookup?_upsert_of_ne ?_ _ _
    rintro rfl
    exact hname _ _ List.mem_cons_self

theorem lookup?_isSome (h : Binds s n env items env')
    (hname : (lookup? name env.names.defines).isSome = true ∨
      ∃ value span, .define name value span ∈ items) :
    (lookup? name env'.names.defines).isSome = true := by
  induction h with
  | nil => simpa using hname
  | wire _ ih => exact ih (by simpa using hname)
  | @define env env' x value v span items _ _ ih =>
    refine ih ?_
    by_cases hx : x = name
    · subst hx
      exact .inl (by simp [Environment.define])
    · rcases hname with hname | ⟨value, span, hmem⟩
      · exact .inl (by simpa [Environment.define, lookup?_upsert_of_ne hx] using hname)
      · refine .inr ⟨value, span, ?_⟩
        simpa [Ne.symm hx] using hmem

end Binds

/-! ### Declarations -/

/-- Declarations with the identities of their wires, from a row on. -/
def numbered : Nat → List Program.WireDecl → List (Program.WireDecl × Id .wire)
  | _, [] => []
  | n, decl :: decls => (decl, ⟨n⟩) :: numbered (n + 1) decls

/-- Binds the wires of declarations. -/
def bindAll (env : Environment H) (declared : List (Program.WireDecl × Id .wire)) : Environment H :=
  declared.foldl (fun env (decl, id) => env.bindWire decl.name id) env

/-- A declared wire before it is filled. -/
def blank (decl : Program.WireDecl) : Draft H := ⟨decl.name, decl.looped, []⟩

/-- No name is declared twice, nor was before. -/
def Unclaimed (declared : List String) (decls : List Program.WireDecl) : Prop :=
  (decls.map (·.name)).Nodup ∧ ∀ decl ∈ decls, decl.name ∉ declared

theorem unclaimed_cons {declared : List String} : Unclaimed declared (decl :: decls) ↔
      decl.name ∉ declared ∧ Unclaimed (decl.name :: declared) decls := by
  simp only [Unclaimed, List.map_cons, List.nodup_cons, List.mem_map, List.mem_cons,
    forall_eq_or_imp, not_or, not_exists, not_and]
  constructor
  · rintro ⟨⟨hdecl, hnodup⟩, hnew, hall⟩
    exact ⟨hnew, hnodup, fun d hd => ⟨hdecl d hd, hall d hd⟩⟩
  · rintro ⟨hnew, hnodup, hall⟩
    exact ⟨⟨fun d hd => (hall d hd).1, hnodup⟩, hnew, fun d hd => (hall d hd).2⟩

/-- Wires are declared one behind the other. -/
theorem eval_declareWires {declared : List String} (h : Unclaimed declared decls)
    (env : Environment H) (s : Store H) :
    s.eval (declareWires decls declared env) =
      (.ok (env.bindAll (numbered s.wires.size decls), numbered s.wires.size decls),
        s.installAll (decls.map blank)) := by
  induction decls generalizing declared env s with
  | nil => rfl
  | cons decl decls ih =>
    obtain ⟨hnew, hrest⟩ := unclaimed_cons.1 h
    have hrest := ih hrest (env.bindWire decl.name s.wires.next) (s.installAll [blank decl])
    rw [Store.size_installAll, blank] at hrest
    rw [declareWires, if_neg (by simpa using hnew)]
    simp only [Store.eval_bind, Store.eval_addWire, hrest]
    rfl

/-- A name that is declared twice is refused. -/
theorem declareWires_refused {declared : List String} (h : ¬ Unclaimed declared decls)
    (env : Environment H) (s : Store H) :
    ∃ e drafts, s.eval (declareWires decls declared env) = (.error e, s.installAll drafts) := by
  induction decls generalizing declared env s with
  | nil => exact absurd ⟨List.nodup_nil, by simp⟩ h
  | cons decl decls ih =>
    rw [declareWires]
    split
    · exact ⟨_, [], rfl⟩
    · rename_i hnew
      obtain ⟨e, drafts, he⟩ := ih (fun hrest => h (unclaimed_cons.2 ⟨by simpa using hnew, hrest⟩))
        (env.bindWire decl.name s.wires.next) (s.installAll [blank decl])
      rw [blank] at he
      refine ⟨e, blank decl :: drafts, ?_⟩
      simp only [Store.eval_bind, Store.eval_addWire, he]
      rfl

theorem mem_numbered (h : e ∈ numbered n decls) : ∃ k, decls[k]? = some e.1 ∧ e.2 = ⟨n + k⟩ := by
  induction decls generalizing n with
  | nil => cases h
  | cons decl decls ih =>
    rw [numbered] at h
    rcases List.mem_cons.1 h with rfl | h
    · exact ⟨0, rfl, rfl⟩
    · obtain ⟨k, hk, hid⟩ := ih h
      exact ⟨k + 1, hk, by rw [hid, Nat.add_right_comm, Nat.add_assoc]⟩

theorem mem_numbered_of_getElem? (n : Nat) {k : Nat} (h : decls[k]? = some decl) :
    (decl, ⟨n + k⟩) ∈ numbered n decls := by
  induction decls generalizing n k with
  | nil => cases h
  | cons first decls ih =>
    cases k with
    | zero =>
      cases h
      exact List.mem_cons_self
    | succ k =>
      have hmem := ih (n + 1) (k := k) h
      rw [Nat.add_assoc, Nat.add_comm 1 k] at hmem
      exact List.mem_cons_of_mem _ hmem

theorem nodup_numbered (n : Nat) (decls : List Program.WireDecl) :
    ((numbered n decls).map (·.2)).Nodup := by
  induction decls generalizing n with
  | nil => exact List.nodup_nil
  | cons decl decls ih =>
    rw [numbered, List.map_cons, List.nodup_cons]
    refine ⟨fun hmem => ?_, ih (n + 1)⟩
    obtain ⟨e, he, hid⟩ := List.mem_map.1 hmem
    obtain ⟨k, -, hk⟩ := mem_numbered he
    have hrow : n + 1 + k = n := congrArg Id.row (hk.symm.trans hid)
    omega

section BindAll

variable (env : Environment H) (declared : List (Program.WireDecl × Id .wire))

theorem bindAll_defines : (env.bindAll declared).names.defines = env.names.defines := by
  induction declared generalizing env with
  | nil => rfl
  | cons e declared ih => exact ih (env.bindWire e.1.name e.2)

theorem bindAll_registry : (env.bindAll declared).registry = env.registry := by
  induction declared generalizing env with
  | nil => rfl
  | cons e declared ih => exact ih (env.bindWire e.1.name e.2)

theorem bindAll_parents : (env.bindAll declared).parents = env.parents := by
  induction declared generalizing env with
  | nil => rfl
  | cons e declared ih => exact ih (env.bindWire e.1.name e.2)

theorem lookup?_bindAll_of_ne (h : ∀ e ∈ declared, e.1.name ≠ name) :
    lookup? name (env.bindAll declared).names.wires = lookup? name env.names.wires := by
  induction declared generalizing env with
  | nil => rfl
  | cons e declared ih =>
    refine (ih (env.bindWire e.1.name e.2) fun e' he' => h e' (List.mem_cons_of_mem _ he')).trans ?_
    exact lookup?_upsert_of_ne (h e List.mem_cons_self) _ _

variable {declared}

theorem lookup?_bindAll (hnodup : (declared.map (·.1.name)).Nodup) (h : e ∈ declared) :
    lookup? e.1.name (env.bindAll declared).names.wires = some e.2 := by
  induction declared generalizing env with
  | nil => cases h
  | cons first declared ih =>
    obtain ⟨hfirst, hnodup⟩ := List.nodup_cons.1 hnodup
    rcases List.mem_cons.1 h with rfl | h
    · refine (lookup?_bindAll_of_ne (env.bindWire e.1.name e.2) declared fun e' he' heq => ?_).trans
        (lookup?_upsert_self _ _ _)
      exact hfirst (List.mem_map.2 ⟨e', he', heq⟩)
    · exact ih (env.bindWire first.1.name first.2) hnodup h

end BindAll

theorem map_fst_numbered (n : Nat) (decls : List Program.WireDecl) :
    (numbered n decls).map (·.1) = decls := by
  induction decls generalizing n with
  | nil => rfl
  | cons decl decls ih => rw [numbered, List.map_cons, ih]

/-! ### Filling -/

theorem eval_fillWires_cons {env : Environment H}
    (h : s.eval (placeAll env decl.calls) = (.ok placed, s'))
    (declared : List (Program.WireDecl × Id .wire)) :
    s.eval (fillWires env ((decl, id) :: declared)) =
      (s'.fill id placed).eval (fillWires env declared) := by
  rw [fillWires]
  simp only [Store.eval_bind, h, Store.eval_fill]

/-- Filling succeeds only if the calls of the first declaration do and the others are filled. -/
theorem fillWires_cons_ok {env : Environment H} {declared : List (Program.WireDecl × Id .wire)}
    (h : s.eval (fillWires env ((decl, id) :: declared)) = (.ok (), s')) :
    ∃ placed drafts, s.eval (placeAll env decl.calls) = (.ok placed, s.installAll drafts) ∧
      ((s.installAll drafts).fill id placed).eval (fillWires env declared) = (.ok (), s') := by
  rw [fillWires] at h
  obtain ⟨placed, s₁, hplaced, h⟩ := Store.eval_bind_ok h
  obtain ⟨r, drafts, hr, -⟩ := makes_placeAll env 0 decl.calls s (Nat.zero_le _)
  rw [hplaced] at hr
  obtain ⟨rfl, rfl⟩ := Prod.mk.inj hr
  exact ⟨placed, drafts, hplaced, h⟩

theorem size_le_of_fillWires {env : Environment H} {declared : List (Program.WireDecl × Id .wire)}
    (h : s.eval (fillWires env declared) = (.ok (), s')) :
    s.wires.size ≤ s'.wires.size := by
  induction declared generalizing s with
  | nil =>
    cases h
    exact Nat.le_refl _
  | cons e declared ih =>
    obtain ⟨placed, drafts, -, hrest⟩ := fillWires_cons_ok h
    have hsize := ih hrest
    rw [Store.size_fill, Store.size_installAll] at hsize
    omega

/-- The declared wires of a list got their stages; other wires are as they were. -/
structure Fills (env : Environment H) (m : Nat) (declared : List (Program.WireDecl × Id .wire))
    (s t : Store H) : Prop where
  kept : ∀ id, (∀ e ∈ declared, e.2 ≠ id) → ∀ d, s.draft? id = some d → t.draft? id = some d
  filled : ∀ e ∈ declared, ∀ d, s.draft? e.2 = some d →
    ∃ placed, t.draft? e.2 = some (d.fill placed) ∧ Lays env t m e.1.calls placed

/-- The first wire of a list is filled, then the others. -/
theorem Fills.cons {env : Environment H} {declared : List (Program.WireDecl × Id .wire)}
    (hnodup : (((decl, id) :: declared).map (·.2)).Nodup)
    (hrows : ∀ e ∈ (decl, id) :: declared, e.2.row < m) (hgrown : s.KeptIn 0 s₁)
    (hlays : ∀ t, s₁.KeptIn m t → Lays env t m decl.calls placed)
    (hfills : Fills env m declared (s₁.fill id placed) t) :
    Fills env m ((decl, id) :: declared) s t := by
  obtain ⟨hid, -⟩ := List.nodup_cons.1 hnodup
  have hne : ∀ e ∈ declared, e.2 ≠ id := fun e he heq => hid (List.mem_map.2 ⟨e, he, heq⟩)
  -- a wire that is not in the list passes through
  have hkept : ∀ id', id ≠ id' → (∀ e ∈ declared, e.2 ≠ id') → ∀ d, s₁.draft? id' = some d →
      t.draft? id' = some d := by
    intro id' hid' hother d hd
    refine hfills.kept id' hother d ?_
    rwa [Store.draft?_fill, if_neg hid']
  refine ⟨fun id' hid' d hd => ?_, fun e he d hd => ?_⟩
  · obtain ⟨hid', hother⟩ := List.forall_mem_cons.1 hid'
    exact hkept id' hid' hother d (hgrown id' d (Nat.zero_le _) hd)
  · have hd := hgrown e.2 d (Nat.zero_le _) hd
    rcases List.mem_cons.1 he with rfl | he
    · refine ⟨placed, hfills.kept id hne _ ?_, hlays t fun id' d' hrow hd' => ?_⟩
      · rw [Store.draft?_fill, if_pos rfl, hd]
        rfl
      · have hrow : ∀ e ∈ (decl, id) :: declared, e.2 ≠ id' := fun e he heq =>
          absurd (hrows e he) (Nat.not_lt_of_le (heq ▸ hrow))
        obtain ⟨hid', hother⟩ := List.forall_mem_cons.1 hrow
        exact hkept id' hid' hother d' hd'
    · refine hfills.filled e he d ?_
      rwa [Store.draft?_fill, if_neg (Ne.symm (hne e he))]

/-- Filling wires adds the wires of their pipelines. -/
theorem eval_fillWires (env : Environment H) (s : Store H)
    {declared : List (Program.WireDecl × Id .wire)} (hnodup : (declared.map (·.2)).Nodup)
    (hlow : ∀ e ∈ declared, s.wires.size ≤ e.2.row) (hrows : ∀ e ∈ declared, e.2.row < m)
    (drafts : List (Draft H)) (hm : m ≤ s.wires.size + drafts.length) :
    ∃ r drafts', (s.installAll drafts).eval (fillWires env declared) = (r, s.installAll drafts') ∧
      (r = .ok () → Fills env m declared (s.installAll drafts) (s.installAll drafts')) := by
  induction declared generalizing drafts with
  | nil => exact ⟨.ok (), drafts, rfl, fun _ => ⟨fun _ _ _ hd => hd, by simp⟩⟩
  | cons e declared ih =>
    obtain ⟨decl, id⟩ := e
    obtain ⟨r, more, hr, hlays⟩ := makes_placeAll env m decl.calls (s.installAll drafts)
      (by rwa [Store.size_installAll])
    have hgrown := Store.KeptIn.installAll 0 (s.installAll drafts) more
    rw [← Store.installAll_append] at hr hlays hgrown
    cases r with
    | error e =>
      refine ⟨.error e, drafts ++ more, ?_, fun h => by cases h⟩
      rw [fillWires, Store.eval_bind, hr]
    | ok placed =>
      have hrow : id.row < s.wires.size + (drafts ++ more).length := by
        have hid : id.row < m := hrows _ List.mem_cons_self
        rw [List.length_append]
        omega
      obtain ⟨filled, hlength, hfill⟩ :=
        s.exists_fill_installAll (hlow _ List.mem_cons_self) hrow placed
      obtain ⟨r, drafts', hr', hfills⟩ := ih (List.nodup_cons.1 hnodup).2
        (fun e he => hlow e (List.mem_cons_of_mem _ he))
        (fun e he => hrows e (List.mem_cons_of_mem _ he)) filled
        (by rw [hlength, List.length_append]; omega)
      refine ⟨r, drafts', ?_, fun hok => ?_⟩
      · rw [eval_fillWires_cons hr, hfill]
        exact hr'
      · exact Fills.cons hnodup hrows hgrown (hlays placed rfl) (hfill ▸ hfills hok)

/-! ### Programs -/

/-- What a program has declared: its constants and its wires, and nothing else. Each wire is new. It
has the stages of its calls, in which the names of declared wires mean the new ones. -/
structure Declares (p : Program) (env env' : Environment H) (s t : Store H) : Prop where
  registry : env'.registry = env.registry
  parents : env'.parents = env.parents
  constants : ∃ bound, Binds t s.wires.size env p.items bound ∧
    env'.names.defines = bound.names.defines
  bound : ∀ name value span, .define name value span ∈ p.items →
    (lookup? name env'.names.defines).isSome = true
  unbound : ∀ name, (∀ value span, .define name value span ∉ p.items) →
    lookup? name env'.names.defines = lookup? name env.names.defines
  wires : ∀ decl ∈ p.wires, ∃ id placed, lookup? decl.name env'.names.wires = some id ∧
    env'.findWire? decl.name = some id ∧ s.wires.size ≤ id.row ∧
    t.draft? id = some ⟨decl.name, decl.looped, placed⟩ ∧
    List.Forall₂ (Places env' t s.wires.size) decl.calls placed
  others : ∀ name, (∀ decl ∈ p.wires, decl.name ≠ name) →
    lookup? name env'.names.wires = lookup? name env.names.wires

theorem Lays.forall₂ {env : Environment H} {calls : List Program.Call}
    (h : Lays env s n calls placed) : List.Forall₂ (Places env s n) calls placed := by
  induction calls generalizing placed with
  | nil =>
    cases h
    exact .nil
  | cons c calls ih =>
    cases h with
    | cons hplace hplaced => exact .cons hplace (ih hplaced)

theorem findWire?_of_lookup? {env : Environment H} (h : lookup? name env.names.wires = some id) :
    env.findWire? name = some id := by
  simp [findWire?, h]

/-- The wires that are declared behind all others and filled are those of the program. -/
theorem declares_of_fills {env env₁ : Environment H}
    (hbinds : Binds t s.wires.size env p.items env₁) (hnames : Unclaimed [] p.wires)
    (hsize : s.wires.size ≤ s₁.wires.size)
    (hfills : Fills (env₁.bindAll (numbered s₁.wires.size p.wires))
      (s₁.wires.size + p.wires.length) (numbered s₁.wires.size p.wires)
      (s₁.installAll (p.wires.map blank)) t) :
    Declares p env (env₁.bindAll (numbered s₁.wires.size p.wires)) s t := by
  have hnodup : ((numbered s₁.wires.size p.wires).map (·.1.name)).Nodup := by
    have hmap := hnames.1
    rwa [← map_fst_numbered s₁.wires.size p.wires, List.map_map] at hmap
  refine ⟨?_, ?_, ⟨env₁, hbinds, bindAll_defines _ _⟩, fun name value span hmem => ?_,
    fun name hname => ?_, fun decl hdecl => ?_, fun name hname => ?_⟩
  · rw [bindAll_registry, hbinds.registry]
  · rw [bindAll_parents, hbinds.parents]
  · rw [bindAll_defines]
    exact hbinds.lookup?_isSome (.inr ⟨value, span, hmem⟩)
  · rw [bindAll_defines, hbinds.lookup?_of_not_mem hname]
  · obtain ⟨k, hk⟩ := List.mem_iff_getElem?.1 hdecl
    have hmem := mem_numbered_of_getElem? s₁.wires.size hk
    have hlookup := lookup?_bindAll env₁ hnodup hmem
    have hblank : (s₁.installAll (p.wires.map blank)).draft? ⟨s₁.wires.size + k⟩ =
        some (blank decl) := by
      rw [Store.draft?_installAll, List.getElem?_map, hk]
      rfl
    obtain ⟨placed, hplaced, hlays⟩ := hfills.filled _ hmem _ hblank
    exact ⟨_, placed, hlookup, findWire?_of_lookup? hlookup, hsize.trans (Nat.le_add_right _ k),
      hplaced, (hlays.mono (hsize.trans (Nat.le_add_right _ _))).forall₂⟩
  · rw [lookup?_bindAll_of_ne, hbinds.wires]
    intro e he
    obtain ⟨k, hk, -⟩ := mem_numbered he
    exact hname e.1 (List.mem_of_getElem? hk)

/-- Wires that were just declared are filled. -/
theorem eval_fillWires_numbered (env : Environment H) (s : Store H)
    (decls : List Program.WireDecl) :
    ∃ r drafts, (s.installAll (decls.map blank)).eval (fillWires env (numbered s.wires.size decls)) =
        (r, s.installAll drafts) ∧
      (r = .ok () → Fills env (s.wires.size + decls.length) (numbered s.wires.size decls)
        (s.installAll (decls.map blank)) (s.installAll drafts)) := by
  refine eval_fillWires env s (nodup_numbered _ decls) (fun e he => ?_) (fun e he => ?_) _
    (Nat.le_of_eq (by rw [List.length_map]))
  · obtain ⟨k, -, hk⟩ := mem_numbered he
    rw [hk]
    exact Nat.le_add_right _ k
  · obtain ⟨k, hk, hid⟩ := mem_numbered he
    rw [hid]
    exact Nat.add_lt_add_left (List.getElem?_eq_some_iff.1 hk).1 _

/-- What evaluation goes through if it succeeds. -/
theorem eval_eq_ok_iff {env : Environment H} :
    s.eval (env.eval p) = (.ok env', t) ↔
      ∃ env₁ s₁, s.eval (evalDefines p.items env) = (.ok env₁, s₁) ∧ Unclaimed [] p.wires ∧
        env' = env₁.bindAll (numbered s₁.wires.size p.wires) ∧
        (s₁.installAll (p.wires.map blank)).eval (fillWires env' (numbered s₁.wires.size p.wires)) =
          (.ok (), t) := by
  rw [eval]
  constructor
  · intro h
    obtain ⟨env₁, s₁, hconstants, h⟩ := Store.eval_bind_ok h
    obtain ⟨⟨env₂, declared⟩, s₂, hdeclare, h⟩ := Store.eval_bind_ok h
    obtain ⟨⟨⟩, s₃, hfill, h⟩ := Store.eval_bind_ok h
    cases h
    by_cases hnames : Unclaimed [] p.wires
    · rw [eval_declareWires hnames] at hdeclare
      cases hdeclare
      exact ⟨env₁, s₁, hconstants, hnames, rfl, hfill⟩
    · obtain ⟨e, drafts, he⟩ := declareWires_refused hnames env₁ s₁
      rw [he] at hdeclare
      cases hdeclare
  · rintro ⟨env₁, s₁, hconstants, hnames, rfl, hfill⟩
    simp only [Store.eval_bind, hconstants, eval_declareWires hnames, hfill]
    rfl

/-- Evaluation adds wires and does nothing else to the store, whether it succeeds or not. -/
theorem eval_program (env : Environment H) (p : Program) (s : Store H) :
    ∃ r drafts, s.eval (env.eval p) = (r, s.installAll drafts) ∧
      ∀ env', r = .ok env' → Declares p env env' s (s.installAll drafts) := by
  obtain ⟨r, drafts, hr, hbinds⟩ := makes_evalDefines s.wires.size p.items env s (Nat.le_refl _)
  rw [eval]
  cases r with
  | error e =>
    refine ⟨.error e, drafts, ?_, fun _ h => by cases h⟩
    rw [Store.eval_bind, hr]
  | ok env₁ =>
    by_cases hnames : Unclaimed [] p.wires
    · have hdeclare := eval_declareWires hnames env₁ (s.installAll drafts)
      obtain ⟨r, filled, hfilled, hfills⟩ := eval_fillWires_numbered
        (env₁.bindAll (numbered (s.installAll drafts).wires.size p.wires)) (s.installAll drafts)
        p.wires
      refine ⟨r.map fun _ => env₁.bindAll (numbered (s.installAll drafts).wires.size p.wires),
        drafts ++ filled, ?_, fun env' hok => ?_⟩
      · simp only [Store.eval_bind, hr, hdeclare, hfilled, Store.installAll_append]
        cases r <;> rfl
      · cases r with
        | error e => cases hok
        | ok u =>
          cases hok
          rw [Store.installAll_append]
          refine declares_of_fills (hbinds env₁ rfl _ ?_) hnames ?_ (hfills rfl)
          · exact Store.KeptIn.installAll _ _ _
          · rw [Store.size_installAll]
            exact Nat.le_add_right _ _
    · obtain ⟨e, more, he⟩ := declareWires_refused hnames env₁ (s.installAll drafts)
      refine ⟨.error e, drafts ++ more, ?_, fun _ h => by cases h⟩
      simp only [Store.eval_bind, hr, he, Store.installAll_append]

theorem evalInto_of_ok {env : Environment H} (h : s.eval (env.eval p) = (.ok env', t)) :
    (env.evalInto p).run s = ((.ok (), env'), t) := by
  rw [evalInto, Store.run_bind, Store.run_run, h]
  rfl

theorem evalInto_of_error {env : Environment H} {e : EvalError}
    (h : s.eval (env.eval p) = (.error e, t)) : (env.evalInto p).run s = ((.error e, env), t) := by
  rw [evalInto, Store.run_bind, Store.run_run, h]
  rfl

theorem eval_of_evalInto_ok {env : Environment H} (h : ((env.evalInto p).run s).1.1 = .ok ()) :
    ∃ env' drafts, s.eval (env.eval p) = (.ok env', s.installAll drafts) := by
  obtain ⟨r, drafts, hr, -⟩ := eval_program env p s
  cases r with
  | ok env' => exact ⟨env', drafts, hr⟩
  | error e =>
    rw [evalInto_of_error hr] at h
    cases h

theorem eq_ok_of_isOk {r : Except EvalError PUnit} (h : r.isOk = true) : r = .ok () := by
  cases r with
  | ok => rfl
  | error => cases h

/-- Evaluation is all or nothing. Whatever a program is evaluated into, and whether that succeeds or
not, the wires that there were are as they were. If it fails, so is the environment. If it succeeds,
the names of the program's declarations are bound, and no others; each declared wire is a new one with
a stage for each call, in order, where the names of declared wires mean the new wires. -/
theorem evaluation_all_or_nothing (env : Environment H) (p : Program) (s : Store H) :
    let out := (env.evalInto p).run s
    (∀ id w, s.wires.get? id = some w → out.2.wires.get? id = some w) ∧
      (∀ e, out.1.1 = .error e → out.1.2 = env) ∧
      (out.1.1 = .ok () → Declares p env out.1.2 s out.2) := by
  intro out
  obtain ⟨r, drafts, hr, hdeclares⟩ := eval_program env p s
  have hkept : ∀ id w, s.wires.get? id = some w → (s.installAll drafts).wires.get? id = some w :=
    fun id w hw => by rw [Store.get?_installAll_of_lt s drafts (Table.row_lt_of_get? hw), hw]
  cases r with
  | ok env' =>
    have hout : out = ((.ok (), env'), s.installAll drafts) := evalInto_of_ok hr
    rw [hout]
    exact ⟨hkept, fun e he => (by cases he), fun _ => hdeclares env' rfl⟩
  | error e =>
    have hout : out = ((.error e, env), s.installAll drafts) := evalInto_of_error hr
    rw [hout]
    exact ⟨hkept, fun _ _ => rfl, fun hok => by cases hok⟩

/-- Two wires that refer to each other, one through a pipeline, and a constant that is declared
between them. -/
def crossing : Program :=
  ⟨[.wire ⟨"outer", false,
        [.mk "Do" [.mk none (.pipeline [.mk "Do" [.mk none (.wire "inner")] {}])] {}], {}⟩,
      .define "step" (.literal (.int 3)) {},
      .wire ⟨"inner", true, [.mk "Math.Add" [.mk (some "Operand") (.constant "step")] {},
        .mk "Do" [.mk none (.wire "outer")] {}], {}⟩]⟩

/-- An environment of the built-in stages. -/
def plain : Environment Host.none := { registry := Registry.standard }

theorem crossing_all_or_nothing : ((plain.evalInto crossing).run {}).1.1 = .ok () ∧
    Declares crossing plain ((plain.evalInto crossing).run {}).1.2 {}
      ((plain.evalInto crossing).run {}).2 := by
  have hok : ((plain.evalInto crossing).run {}).1.1 = .ok () := eq_ok_of_isOk (by decide +kernel)
  exact ⟨hok, (evaluation_all_or_nothing plain crossing {}).2.2 hok⟩

end Environment

end Dataflow
