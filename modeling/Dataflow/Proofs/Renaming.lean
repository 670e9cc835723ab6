import Dataflow.Proofs.Drafts
import Dataflow.Script.Unit
import Mathlib.Algebra.Group.End
/-!
# Renaming wires

A wire is known by its row, and rows are given out in the order in which wires are made. Which row a
wire got should not matter to anything but a look-up. To say so, wires are renamed: in values, in
stages and their settings, in environments and in the literals of programs. Whatever looks at values
without looking wires up, such as the check of a parameter, commutes with renaming.

Units of a host hold values too, and only the host knows where. A host whose units can be renamed
says how (`Host.Naming`); the scripted units show that the laws can be met.
-/

namespace Dataflow

variable {α : Type}

/-- A renaming of wires gives each its own new identity. -/
abbrev Renaming := Equiv.Perm (Id .wire)

namespace Renaming

variable {f g : Renaming} {m n : Nat}

/-- The wires before a row keep their identities. -/
def FixesBelow (f : Renaming) (n : Nat) : Prop := ∀ id : Id .wire, id.row < n → f id = id

theorem fixesBelow_one (n : Nat) : (1 : Renaming).FixesBelow n := fun _ _ => rfl

theorem FixesBelow.mono (hf : f.FixesBelow n) (h : m ≤ n) : f.FixesBelow m := fun id hid =>
  hf id (Nat.lt_of_lt_of_le hid h)

theorem FixesBelow.mul (hf : f.FixesBelow n) (hg : g.FixesBelow n) : (f * g).FixesBelow n := by
  intro id hid
  rw [Equiv.Perm.mul_apply, hg id hid, hf id hid]

/-- The other wires stay behind the row. -/
theorem FixesBelow.le_row (hf : f.FixesBelow n) {id : Id .wire} (h : n ≤ id.row) :
    n ≤ (f id).row := by
  by_contra hlt
  have hfixed : f (f id) = f id := hf _ (Nat.lt_of_not_le hlt)
  rw [f.injective hfixed] at hlt
  exact hlt h

end Renaming

theorem map_eq_self_iff {g : α → α} {items : List α} :
    items.map g = items ↔ ∀ a ∈ items, g a = a := by
  conv_lhs => rhs; rw [← List.map_id items]
  exact List.map_inj_left

/-- Something mentions only wires before a row: it does not change if others are renamed. -/
def Settled {α : Type} (rename : Renaming → α → α) (n : Nat) (a : α) : Prop :=
  ∀ f : Renaming, f.FixesBelow n → rename f a = a

theorem Settled.mono {rename : Renaming → α → α} {m n : Nat} {a : α} (ha : Settled rename m a)
    (h : m ≤ n) : Settled rename n a := fun f hf => ha f (hf.mono h)

/-! ### Values -/

namespace Value

mutual

/-- The value with its wires renamed. -/
def rename (f : Renaming) : Value → Value
  | seq items => seq (renameItems f items)
  | table entries => table (renameEntries f entries)
  | wire id => wire (f id)
  | v => v

/-- Items with their wires renamed. -/
def renameItems (f : Renaming) : List Value → List Value
  | [] => []
  | v :: vs => rename f v :: renameItems f vs

/-- Entries with their wires renamed. -/
def renameEntries (f : Renaming) : List (String × Value) → List (String × Value)
  | [] => []
  | (k, v) :: rest => (k, rename f v) :: renameEntries f rest

end

mutual

theorem rename_one (v : Value) : v.rename 1 = v := by
  cases v with
  | seq items => rw [rename, renameItems_one items]
  | table entries => rw [rename, renameEntries_one entries]
  | _ => rfl

theorem renameItems_one (items : List Value) : renameItems 1 items = items := by
  cases items with
  | nil => rfl
  | cons v vs => rw [renameItems, rename_one v, renameItems_one vs]

theorem renameEntries_one (entries : List (String × Value)) : renameEntries 1 entries = entries := by
  cases entries with
  | nil => rfl
  | cons e rest => rw [renameEntries, rename_one e.2, renameEntries_one rest]

end

mutual

theorem rename_mul (f g : Renaming) (v : Value) : v.rename (f * g) = (v.rename g).rename f := by
  cases v with
  | seq items => rw [rename, rename, rename, renameItems_mul f g items]
  | table entries => rw [rename, rename, rename, renameEntries_mul f g entries]
  | _ => rfl

theorem renameItems_mul (f g : Renaming) (items : List Value) :
    renameItems (f * g) items = renameItems f (renameItems g items) := by
  cases items with
  | nil => rfl
  | cons v vs =>
    rw [renameItems, renameItems, renameItems, rename_mul f g v, renameItems_mul f g vs]

theorem renameEntries_mul (f g : Renaming) (entries : List (String × Value)) :
    renameEntries (f * g) entries = renameEntries f (renameEntries g entries) := by
  cases entries with
  | nil => rfl
  | cons e rest =>
    rw [renameEntries, renameEntries, renameEntries, rename_mul f g e.2, renameEntries_mul f g rest]

end

theorem map_fst_renameEntries (f : Renaming) (entries : List (String × Value)) :
    (renameEntries f entries).map (·.1) = entries.map (·.1) := by
  induction entries with
  | nil => rfl
  | cons e rest ih => rw [renameEntries, List.map_cons, ih, List.map_cons]

mutual

/-- The type of a value does not depend on the identities in it. -/
theorem tyBy_rename (digest : Digest) (f : Renaming) (v : Value) :
    (v.rename f).tyBy digest = v.tyBy digest := by
  cases v with
  | seq items => rw [rename, tyBy, tyBy, tyItems_rename digest f items]
  | table entries =>
    rw [rename, tyBy, tyBy, tyEntries_rename digest f entries, map_fst_renameEntries]
  | _ => rfl

theorem tyItems_rename (digest : Digest) (f : Renaming) (items : List Value) :
    tyItems digest (renameItems f items) = tyItems digest items := by
  cases items with
  | nil => rfl
  | cons v vs =>
    rw [renameItems, tyItems, tyItems, tyBy_rename digest f v, tyItems_rename digest f vs]

theorem tyEntries_rename (digest : Digest) (f : Renaming) (entries : List (String × Value)) :
    tyEntries digest (renameEntries f entries) = tyEntries digest entries := by
  cases entries with
  | nil => rfl
  | cons e rest =>
    rw [renameEntries, tyEntries, tyEntries, tyBy_rename digest f e.2, tyEntries_rename digest f rest]

end

@[simp] theorem ty_rename (f : Renaming) (v : Value) : (v.rename f).ty = v.ty :=
  tyBy_rename _ f v

mutual

@[simp] theorem outline_rename (f : Renaming) (v : Value) : (v.rename f).outline = v.outline := by
  cases v with
  | seq items => rw [rename, outline, outline, outlines_rename f items]
  | table entries => rw [rename, outline, outline, outlineEntries_rename f entries]
  | _ => rfl

theorem outlines_rename (f : Renaming) (items : List Value) :
    outlines (renameItems f items) = outlines items := by
  cases items with
  | nil => rfl
  | cons v vs => rw [renameItems, outlines, outlines, outline_rename f v, outlines_rename f vs]

theorem outlineEntries_rename (f : Renaming) (entries : List (String × Value)) :
    outlineEntries (renameEntries f entries) = outlineEntries entries := by
  cases entries with
  | nil => rfl
  | cons e rest =>
    rw [renameEntries, outlineEntries, outlineEntries, outline_rename f e.2,
      outlineEntries_rename f rest]

end

/-- What does not tell wires apart, at the top or in a container, does not depend on identities. -/
theorem apply_rename {β : Type} {P : Value → β} (f : Renaming)
    (hseq : ∀ items, P (rename f (seq items)) = P (seq items))
    (htable : ∀ entries, P (rename f (table entries)) = P (table entries))
    (hwire : ∀ id, P (wire (f id)) = P (wire id)) (v : Value) : P (v.rename f) = P v := by
  cases v with
  | seq items => exact hseq items
  | table entries => exact htable entries
  | wire id => exact hwire id
  | _ => rfl

end Value

@[simp] theorem Param.check_rename (p : Param) (f : Renaming) (v : Value) :
    p.check (v.rename f) = p.check v := by
  have hliteral (v : Value) :
      ((p.types.filter fun t => !t.isRef).any fun t => t.accepts (v.rename f).ty) =
        (p.types.filter fun t => !t.isRef).any fun t => t.accepts v.ty := by
    rw [Value.ty_rename]
  have haccepts : p.accepts (v.rename f) = p.accepts v :=
    Value.apply_rename f (fun items => hliteral (.seq items))
      (fun entries => hliteral (.table entries)) (fun _ => rfl) v
  rw [check, check, haccepts, Value.ty_rename]

/-! ### Stages -/

/-- How the units of a host are renamed. A unit does not know wires by their identities: renamed, it
is the same unit with renamed parameters. -/
class Host.Naming (H : Host) where
  rename : Renaming → H.Unit → H.Unit
  rename_one : ∀ u, rename 1 u = u
  rename_mul : ∀ f g u, rename (f * g) u = rename f (rename g u)
  name_rename : ∀ f u, H.name (rename f u) = H.name u
  capabilities_rename : ∀ f u, H.capabilities (rename f u) = H.capabilities u
  params_rename : ∀ f u, H.params (rename f u) = H.params u
  getParam_rename : ∀ f u index, H.getParam (rename f u) index = (H.getParam u index).rename f
  setParam_rename : ∀ f u index v,
    H.setParam (rename f u) index (v.rename f) = (H.setParam u index v).map (rename f)

/-- A nested run with its wire renamed. -/
def Nested.rename (f : Renaming) (sub : Nested) : Nested := { sub with wire := sub.wire.map f }

/-- A receiver with the wires of its values renamed. -/
def Receiver.rename (f : Renaming) (r : Receiver) : Receiver :=
  { r with pending := Value.renameItems f r.pending, last := r.last.map (Value.rename f) }

theorem Receiver.rename_one (r : Receiver) : r.rename 1 = r := by
  have hid : Value.rename 1 = id := funext Value.rename_one
  simp [rename, Value.renameItems_one, hid]

theorem Receiver.rename_mul (f g : Renaming) (r : Receiver) :
    r.rename (f * g) = (r.rename g).rename f := by
  have hcomp : Value.rename (f * g) = Value.rename f ∘ Value.rename g :=
    funext (Value.rename_mul f g)
  simp [rename, Value.renameItems_mul, hcomp]

variable {H : Host} [H.Naming]

namespace Stage

/-- The stage with its wires renamed. -/
def rename (f : Renaming) : Stage H → Stage H
  | const value => const (value.rename f)
  | add operand => add { operand with value := operand.value.rename f }
  | pause time paused => pause (time.rename f) paused
  | inline sub => inline (sub.rename f)
  | bound name sub slot => bound name (sub.rename f) slot
  | consume receiver queue => consume (receiver.rename f) queue
  | listen receiver queue => listen (receiver.rename f) queue
  | unit u => unit (Host.Naming.rename f u)
  | s => s

theorem rename_one (s : Stage H) : s.rename 1 = s := by
  cases s with
  | const value => rw [rename, Value.rename_one]
  | add operand => rw [rename, Value.rename_one]
  | pause time paused => rw [rename, Value.rename_one]
  | inline sub => simp [rename, Nested.rename]
  | bound name sub slot => simp [rename, Nested.rename]
  | consume r queue => rw [rename, Receiver.rename_one]
  | listen r queue => rw [rename, Receiver.rename_one]
  | unit u => rw [rename, Host.Naming.rename_one]
  | _ => rfl

theorem rename_mul (f g : Renaming) (s : Stage H) : s.rename (f * g) = (s.rename g).rename f := by
  cases s with
  | const value => simp only [rename, Value.rename_mul]
  | add operand => simp only [rename, Value.rename_mul]
  | pause time paused => simp only [rename, Value.rename_mul]
  | inline sub => simp [rename, Nested.rename]
  | bound name sub slot => simp [rename, Nested.rename]
  | consume r queue => simp only [rename, Receiver.rename_mul]
  | listen r queue => simp only [rename, Receiver.rename_mul]
  | unit u => simp only [rename, Host.Naming.rename_mul]
  | _ => rfl

@[simp] theorem name_rename (f : Renaming) (s : Stage H) : (s.rename f).name = s.name := by
  cases s with
  | unit u => exact Host.Naming.name_rename f u
  | _ => rfl

@[simp] theorem capabilities_rename (f : Renaming) (s : Stage H) :
    (s.rename f).capabilities = s.capabilities := by
  cases s with
  | unit u => exact Host.Naming.capabilities_rename f u
  | _ => rfl

@[simp] theorem params_rename (f : Renaming) (s : Stage H) : (s.rename f).params = s.params := by
  cases s with
  | unit u => exact Host.Naming.params_rename f u
  | _ => rfl

theorem refuse_rename (param : String) (f : Renaming) (v : Value) :
    (refuse param (v.rename f) : Except ParamError α) = refuse param v := by
  rw [refuse, refuse, Value.ty_rename]

/-- A setting that takes neither containers nor wires. -/
theorem refused_rename {P : Value → Except ParamError α} (param : String) (f : Renaming)
    (h : ∀ items entries id, P (.seq items) = refuse param (.seq items) ∧
      P (.table entries) = refuse param (.table entries) ∧
      P (.wire id) = refuse param (.wire id)) (v : Value) : P (v.rename f) = P v := by
  refine Value.apply_rename f (fun items => ?_) (fun entries => ?_) (fun id => ?_) v
  · rw [(h items [] default).1, ← refuse_rename param f, Value.rename, (h _ [] default).1]
  · rw [(h [] entries default).2.1, ← refuse_rename param f, Value.rename, (h [] _ default).2.1]
  · rw [(h [] [] id).2.2, ← refuse_rename param f, Value.rename, (h [] [] (f id)).2.2]

theorem setText_rename (f : Renaming) (param : String) {update : String → Stage H}
    (hupdate : ∀ text, (update text).rename f = update text) (index : Nat) (v : Value) :
    setText param update index (v.rename f) = (setText param update index v).map (rename f) := by
  rcases index with _ | i
  · rw [refused_rename (P := setText param update 0) param f fun _ _ _ => ⟨rfl, rfl, rfl⟩]
    cases v with
    | string text => exact congrArg Except.ok (hupdate text).symm
    | _ => rfl
  · rfl

theorem setNested_rename (f : Renaming) (sub : Nested) (v : Value) :
    setNested (sub.rename f) (v.rename f) = (setNested sub v).map (Nested.rename f) := by
  cases v with
  | seq items => exact refuse_rename "Wire" f (.seq items)
  | table entries => exact refuse_rename "Wire" f (.table entries)
  | _ => rfl

theorem setSender_rename (f : Renaming) (s : Sender) (index : Nat) (v : Value) :
    setSender s index (v.rename f) = setSender s index v := by
  rcases index with _ | _ | i
  · exact refused_rename (P := setSender s 0) "Name" f (fun _ _ _ => ⟨rfl, rfl, rfl⟩) v
  · exact refused_rename (P := setSender s 1) "NoCopy" f (fun _ _ _ => ⟨rfl, rfl, rfl⟩) v
  · rfl

theorem setReceiver_rename (f : Renaming) (r : Receiver) (index : Nat) (v : Value) :
    setReceiver (r.rename f) index (v.rename f) =
      (setReceiver r index v).map (Receiver.rename f) := by
  have hplain : setReceiver (r.rename f) index (v.rename f) = setReceiver (r.rename f) index v := by
    rcases index with _ | _ | _ | _ | i
    · exact refused_rename (P := setReceiver _ 0) "Name" f (fun _ _ _ => ⟨rfl, rfl, rfl⟩) v
    · exact refused_rename (P := setReceiver _ 1) "Type" f (fun _ _ _ => ⟨rfl, rfl, rfl⟩) v
    · exact refused_rename (P := setReceiver _ 2) "Buffer" f (fun _ _ _ => ⟨rfl, rfl, rfl⟩) v
    · exact refused_rename (P := setReceiver _ 3) "NoCopy" f (fun _ _ _ => ⟨rfl, rfl, rfl⟩) v
    · rfl
  rw [hplain]
  rcases index with _ | _ | _ | _ | i
  · cases v <;> rfl
  · cases v <;> rfl
  · cases v with
    | int n =>
      change (if 1 ≤ n then _ else _) = Except.map _ (if 1 ≤ n then _ else _)
      split <;> rfl
    | _ => rfl
  · cases v <;> rfl
  · rfl

theorem pauseDelay_rename (f : Renaming) (v : Value) : pauseDelay (v.rename f) = pauseDelay v := by
  cases v <;> rfl

/-- Stages take a parameter whatever the identities in it are. -/
theorem setParam_rename (f : Renaming) (s : Stage H) (index : Nat) (v : Value) :
    (s.rename f).setParam index (v.rename f) = (s.setParam index v).map (rename f) := by
  cases s with
  | const value =>
    simp only [rename, setParam]
    split <;> rfl
  | add operand =>
    simp only [rename, setParam, Param.check_rename]
    split
    · cases operandParam.check v <;> rfl
    · rfl
  | pause time paused =>
    simp only [rename, setParam, Param.check_rename, pauseDelay_rename, Value.outline_rename]
    split
    · cases timeParam.check v with
      | error e => rfl
      | ok u => cases pauseDelay v <;> rfl
    · rfl
  | inline sub =>
    simp only [rename, setParam, setNested_rename]
    split
    · cases setNested sub v <;> rfl
    · rfl
  | bound name sub slot =>
    rcases index with _ | _ | i
    · have hplain : (bound name (sub.rename f) slot : Stage H).setParam 0 (v.rename f) =
          (bound name (sub.rename f) slot).setParam 0 v :=
        refused_rename (P := setParam _ 0) "Name" f (fun _ _ _ => ⟨rfl, rfl, rfl⟩) v
      rw [rename, hplain]
      cases v <;> rfl
    · simp only [rename, setParam, setNested_rename]
      cases setNested sub v <;> rfl
    · rfl
  | buffer source =>
    rcases index with _ | i
    · have hrefused (v : Value) :
          (.error (.invalidValue "Size" (v.rename f).outline) : Except ParamError (Stage H)) =
            .error (.invalidValue "Size" v.outline) := by
        rw [Value.outline_rename]
      have hplain : (buffer source : Stage H).setParam 0 (v.rename f) =
          (buffer source).setParam 0 v :=
        Value.apply_rename (P := (buffer source).setParam 0) f (fun items => hrefused (.seq items))
          (fun entries => hrefused (.table entries)) (fun _ => rfl) v
      refine hplain.trans ?_
      cases v with
      | int n =>
        simp only [setParam]
        split <;> rfl
      | _ => rfl
    · rfl
  | set | get | update | fail | complete | flush => exact setText_rename f _ (fun _ => rfl) index v
  | produce sender queue =>
    simp only [rename, setParam, setSender_rename]
    cases setSender sender index v <;> rfl
  | broadcast sender fan =>
    simp only [rename, setParam, setSender_rename]
    cases setSender sender index v <;> rfl
  | consume receiver queue =>
    simp only [rename, setParam, setReceiver_rename]
    cases setReceiver receiver index v <;> rfl
  | listen receiver queue =>
    simp only [rename, setParam, setReceiver_rename]
    cases setReceiver receiver index v <;> rfl
  | unit u =>
    simp only [rename, setParam, Host.Naming.setParam_rename]
    cases H.setParam u index v <;> rfl
  | pass | input | stop | finish => rfl

end Stage

/-! ### Wires -/

/-- A placed stage with its wires renamed. -/
def Placed.rename (f : Renaming) (p : Placed H) : Placed H := { p with stage := p.stage.rename f }

namespace Draft

/-- What was decided about a new wire, with all wires renamed. -/
def rename (f : Renaming) (d : Draft H) : Draft H :=
  { d with stages := d.stages.map (Placed.rename f) }

theorem rename_one (d : Draft H) : d.rename 1 = d := by
  have hid : Placed.rename 1 = (id : Placed H → Placed H) :=
    funext fun p => by rw [Placed.rename, Stage.rename_one]; rfl
  simp [rename, hid]

theorem rename_mul (f g : Renaming) (d : Draft H) : d.rename (f * g) = (d.rename g).rename f := by
  have hcomp : (Placed.rename (f * g) : Placed H → Placed H) = Placed.rename f ∘ Placed.rename g :=
    funext fun p => by simp [Placed.rename, Stage.rename_mul]
  simp [rename, hcomp]

theorem rename_fill (f : Renaming) (placed : List (Placed H)) (d : Draft H) :
    (d.fill placed).rename f = (d.rename f).fill (placed.map (Placed.rename f)) := by
  simp [rename, fill]

end Draft

/-! ### Environments -/

section Entries

variable (g : α → α)

theorem lookup?_map (key : String) (entries : List (String × α)) :
    lookup? key (entries.map fun e => (e.1, g e.2)) = (lookup? key entries).map g := by
  induction entries with
  | nil => rfl
  | cons e rest ih =>
    rw [List.map_cons, lookup?, lookup?, ih]
    split <;> rfl

theorem upsert_map (key : String) (a : α) (entries : List (String × α)) :
    upsert key (g a) (entries.map fun e => (e.1, g e.2)) =
      (upsert key a entries).map fun e => (e.1, g e.2) := by
  induction entries with
  | nil => rfl
  | cons e rest ih =>
    rw [List.map_cons, upsert, upsert, ih]
    split
    · rfl
    · split <;> rfl

end Entries

/-- Names for renamed wires. -/
def Layer.rename (f : Renaming) (l : Layer) : Layer :=
  ⟨l.wires.map fun e => (e.1, f e.2), l.defines.map fun e => (e.1, e.2.rename f)⟩

/-- Fresh stages with their wires renamed. -/
def Registry.rename (f : Renaming) (r : Registry H) : Registry H :=
  ⟨r.entries.map fun e => (e.1, e.2.rename f)⟩

theorem Registry.create?_rename (f : Renaming) (r : Registry H) (name : String) :
    (r.rename f).create? name = (r.create? name).map (Stage.rename f) := by
  have hfilter : (r.rename f).entries.filter (fun e => e.1.2 == name) =
      (r.entries.filter fun e => e.1.2 == name).map fun e => (e.1, e.2.rename f) := by
    rw [Registry.rename, List.filter_map]
    rfl
  rw [create?, create?, hfilter]
  generalize r.entries.filter (fun e => e.1.2 == name) = entries
  rcases entries with _ | ⟨e, _ | ⟨e', rest⟩⟩ <;> rfl

theorem Registry.rename_registerCore (f : Renaming) (r : Registry H) (stage : Stage H) :
    (r.registerCore stage).rename f = (r.rename f).registerCore (stage.rename f) := by
  simp only [registerCore, register, rename, Stage.name_rename, List.map_append, List.filter_map]
  rfl

theorem Registry.rename_foldl_registerCore (f : Renaming) {stages : List (Stage H)}
    (h : ∀ stage ∈ stages, stage.rename f = stage) (r : Registry H) :
    (stages.foldl registerCore r).rename f = stages.foldl registerCore (r.rename f) := by
  induction stages generalizing r with
  | nil => rfl
  | cons stage stages ih =>
    obtain ⟨hstage, hstages⟩ := List.forall_mem_cons.1 h
    rw [List.foldl_cons, ih hstages, rename_registerCore, hstage, List.foldl_cons]

/-- The built-in stages mention no wires. -/
theorem Registry.rename_standard (f : Renaming) : (standard : Registry H).rename f = standard := by
  have hcore : ∀ stage ∈ (coreStages : List (Stage H)), stage.rename f = stage := by
    simp [coreStages, Stage.rename, Value.rename, Nested.rename]
  have hchannels : ∀ stage ∈ (channelStages : List (Stage H)), stage.rename f = stage := by
    simp [channelStages, Stage.rename, Receiver.rename, Value.renameItems]
  rw [standard, withChannels, withCore, rename_foldl_registerCore f hchannels,
    rename_foldl_registerCore f hcore]
  rfl

namespace Environment

/-- An environment of renamed wires. -/
def rename (f : Renaming) (env : Environment H) : Environment H :=
  ⟨env.registry.rename f, env.names.rename f, env.parents.map (Layer.rename f)⟩

/-- What a name stands for, wires and constants alike. -/
theorem findSome?_rename {g : α → α} {own : Layer → List (String × α)} (f : Renaming)
    (hown : ∀ layer, own (layer.rename f) = (own layer).map fun e => (e.1, g e.2)) (name : String)
    (layers : List Layer) :
    (layers.map (Layer.rename f)).findSome? (fun layer => lookup? name (own layer)) =
      (layers.findSome? fun layer => lookup? name (own layer)).map g := by
  induction layers with
  | nil => rfl
  | cons layer layers ih =>
    rw [List.map_cons, List.findSome?_cons, List.findSome?_cons, ih, hown, lookup?_map]
    cases lookup? name (own layer) <;> rfl

theorem findWire?_rename (f : Renaming) (env : Environment H) (name : String) :
    (env.rename f).findWire? name = (env.findWire? name).map f :=
  findSome?_rename f (fun _ => rfl) name (env.names :: env.parents)

theorem findDefine?_rename (f : Renaming) (env : Environment H) (name : String) :
    (env.rename f).findDefine? name = (env.findDefine? name).map (Value.rename f) :=
  findSome?_rename f (fun _ => rfl) name (env.names :: env.parents)

theorem rename_define (f : Renaming) (env : Environment H) (name : String) (v : Value) :
    (env.define name v).rename f = (env.rename f).define name (v.rename f) := by
  simp only [rename, define, Layer.rename, upsert_map]

theorem rename_bindWire (f : Renaming) (env : Environment H) (name : String) (id : Id .wire) :
    (env.bindWire name id).rename f = (env.rename f).bindWire name (f id) := by
  simp only [rename, bindWire, Layer.rename, upsert_map]

end Environment

/-! ### Programs -/

namespace Program

mutual

/-- An expression with the wires of its literals renamed. -/
def Expr.rename (f : Renaming) : Expr → Expr
  | .literal v => .literal (v.rename f)
  | .reference name => .reference name
  | .pipeline calls => .pipeline (Call.renameAll f calls)
  | .wire name => .wire name
  | .constant name => .constant name
  | .type ty => .type ty
termination_by structural e => e

/-- Calls with the wires of their literals renamed. -/
def Call.renameAll (f : Renaming) : List Call → List Call
  | [] => []
  | c :: calls => Call.rename f c :: Call.renameAll f calls
termination_by structural calls => calls

/-- A call with the wires of its literals renamed. -/
def Call.rename (f : Renaming) : Call → Call
  | .mk stage args span => .mk stage (Arg.renameAll f args) span
termination_by structural call => call

/-- Arguments with the wires of their literals renamed. -/
def Arg.renameAll (f : Renaming) : List Arg → List Arg
  | [] => []
  | .mk name value :: args => .mk name (Expr.rename f value) :: Arg.renameAll f args
termination_by structural args => args

end

/-- A declared wire with the wires of its literals renamed. -/
def WireDecl.rename (f : Renaming) (decl : WireDecl) : WireDecl :=
  { decl with calls := Call.renameAll f decl.calls }

/-- A declaration with the wires of its literals renamed. -/
def Item.rename (f : Renaming) : Item → Item
  | .wire decl => .wire (decl.rename f)
  | .define name value span => .define name (value.rename f) span

/-- A program with the wires of its literals renamed. -/
def rename (f : Renaming) (p : Program) : Program := ⟨p.items.map (Item.rename f)⟩

end Program

/-! ### Scripted units -/

namespace Script

/-- An entry of a script with its wires renamed. -/
def Action.rename (f : Renaming) : Action → Action
  | proceed v => proceed (v.rename f)
  | finish v => finish (v.rename f)
  | stop v => stop (v.rename f)
  | set name v => set name (v.rename f)
  | declare name v => declare name (v.rename f)
  | action => action

/-- An actor with its wires renamed. -/
def Actor.rename (f : Renaming) (a : Actor) : Actor :=
  { a with
    params := a.params.map (List.map fun e => (e.1, e.2.rename f))
    script := a.script.map (Action.rename f) }

theorem Actor.rename_one (a : Actor) : a.rename 1 = a := by
  have hparams : (fun e : Param × Value => (e.1, e.2.rename 1)) = id :=
    funext fun e => by rw [Value.rename_one]; rfl
  have hscript : Action.rename 1 = id := by
    funext action
    cases action <;> simp [Action.rename, Value.rename_one]
  simp [rename, hparams, hscript]

theorem Actor.rename_mul (f g : Renaming) (a : Actor) :
    a.rename (f * g) = (a.rename g).rename f := by
  have hscript : Action.rename (f * g) = Action.rename f ∘ Action.rename g := by
    funext action
    cases action <;> simp [Action.rename, Value.rename_mul]
  simp [rename, hscript, Value.rename_mul, Function.comp_def]

/-- A unit with its wires renamed. -/
def Unit.rename (f : Renaming) : Unit → Unit
  | .actor a => .actor (a.rename f)
  | .probe p => .probe p

theorem Actor.getD_params_rename (f : Renaming) (a : Actor) :
    (a.rename f).params.getD [] = (a.params.getD []).map fun e => (e.1, e.2.rename f) := by
  rw [rename]
  cases a.params <;> rfl

/-- An actor takes a parameter whatever the identities in it are. -/
theorem Actor.setParam_rename (f : Renaming) (a : Actor) (index : Nat) (v : Value) :
    (a.rename f).setParam index (v.rename f) = (a.setParam index v).map (Unit.rename f) := by
  simp only [setParam, getD_params_rename, List.getElem?_map]
  cases hparam : (a.params.getD [])[index]? with
  | none => rfl
  | some e =>
    simp only [Option.map_some, Param.check_rename]
    cases e.1.check v with
    | error e => rfl
    | ok u => simp [pure, Except.pure, bind, Except.bind, Except.map, Unit.rename, rename]

instance : host.Naming where
  rename := Unit.rename
  rename_one u := by
    cases u with
    | actor a => exact congrArg Unit.actor a.rename_one
    | probe p => rfl
  rename_mul f g u := by
    cases u with
    | actor a => exact congrArg Unit.actor (a.rename_mul f g)
    | probe p => rfl
  name_rename f u := by cases u <;> rfl
  capabilities_rename f u := by
    cases u with
    | actor a =>
      obtain ⟨_, _, _, _, params, _, _, _, _, _, _⟩ := a
      cases params <;> rfl
    | probe p => rfl
  params_rename f u := by
    cases u with
    | actor a =>
      change ((a.rename f).params.getD []).map (·.1) = (a.params.getD []).map (·.1)
      rw [Actor.getD_params_rename, List.map_map]
      rfl
    | probe p => rfl
  getParam_rename f u index := by
    cases u with
    | actor a =>
      change ((((a.rename f).params.getD [])[index]?).map (·.2)).getD .nothing =
        Value.rename f ((((a.params.getD [])[index]?).map (·.2)).getD .nothing)
      rw [Actor.getD_params_rename, List.getElem?_map]
      cases (a.params.getD [])[index]? <;> rfl
    | probe p => rfl
  setParam_rename f u index v := by
    cases u with
    | actor a => exact a.setParam_rename f index v
    | probe p => rfl

end Script

end Dataflow
