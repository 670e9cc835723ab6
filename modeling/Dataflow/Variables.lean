import Dataflow.Value.Typing
import Dataflow.VarDecl
/-!
# Variables

A variable is a slot that holds a value. Scopes bind names to slots, each name at most once, and
have parents. A name means the slot of the innermost scope that binds it. Parents are made before
their children, so a chain of scopes is never longer than the row of its innermost one.
-/

namespace Dataflow

/-- What a name is bound to. -/
structure Binding where
  slot : Id .slot
  isProtected : Bool
  deriving DecidableEq, Repr, Inhabited

/-- Names of one level. -/
structure Scope where
  /-- Bindings in ascending order of their names. -/
  entries : List (String × Binding) := []
  parent : Option (Id .scope) := none
  deriving Repr, Inhabited

/-- All slots and scopes. -/
structure Variables where
  slots : Table .slot Value := .empty
  scopes : Table .scope Scope := .empty
  deriving Inhabited

namespace Variables

/-! ### Slots -/

/-- The value in a slot. -/
def read (v : Variables) (slot : Id .slot) : Value := (v.slots.get? slot).getD .nothing

/-- Puts a value into a slot. -/
def write (v : Variables) (slot : Id .slot) (value : Value) : Variables :=
  { v with slots := v.slots.set slot value }

/-- Copies a value into the storage of a slot. -/
def assign (v : Variables) (slot : Id .slot) (value : Value) : Variables :=
  { v with slots := v.slots.modify slot (·.overwrite value) }

/-- A new slot. -/
def addSlot (v : Variables) (value : Value) : Id .slot × Variables :=
  (v.slots.next, { v with slots := v.slots.push value })

/-! ### Scopes -/

/-- A new scope. -/
def addScope (v : Variables) (parent : Option (Id .scope)) : Id .scope × Variables :=
  (v.scopes.next, { v with scopes := v.scopes.push { parent } })

/-- The scope of an identity. -/
def scope (v : Variables) (id : Id .scope) : Scope := (v.scopes.get? id).getD {}

/-- A scope and its ancestors, at most so many. -/
def ancestry (v : Variables) : Nat → Id .scope → List Scope
  | 0, _ => []
  | n + 1, id =>
    let s := v.scope id
    s :: match s.parent with
      | some parent => v.ancestry n parent
      | none => []

/-- A scope and its ancestors, innermost first. -/
def chain (v : Variables) (id : Id .scope) : List Scope := v.ancestry (id.row + 1) id

/-- The binding that a name means. -/
def binding? (v : Variables) (id : Id .scope) (name : String) : Option Binding :=
  (v.chain id).findSome? fun s => lookup? name s.entries

/-- The slot that a name means. -/
def find? (v : Variables) (id : Id .scope) (name : String) : Option (Id .slot) :=
  (v.binding? id name).map (·.slot)

/-- Whether a name means a protected variable. -/
def isProtected (v : Variables) (id : Id .scope) (name : String) : Bool :=
  ((v.binding? id name).map (·.isProtected)).getD false

/-- Whether the scope itself binds a name. -/
def bindsLocally (v : Variables) (id : Id .scope) (name : String) : Bool :=
  (lookup? name (v.scope id).entries).isSome

/-- Binds a name in a scope. -/
def bind (v : Variables) (id : Id .scope) (name : String) (b : Binding) : Variables :=
  { v with scopes := v.scopes.modify id fun s => { s with entries := upsert name b s.entries } }

/-- The slot that the scope itself binds to a name; an empty one is made if there is none. -/
def declare (v : Variables) (id : Id .scope) (name : String) : Id .slot × Variables :=
  match lookup? name (v.scope id).entries with
  | some b => (b.slot, v)
  | none =>
    let (slot, v) := v.addSlot .nothing
    (slot, v.bind id name ⟨slot, false⟩)

/-- Binds a name in the scope itself to a value, in the slot it has or in a new one. -/
def insert (v : Variables) (id : Id .scope) (name : String) (value : Value) (isProtected : Bool) :
    Id .slot × Variables :=
  let (slot, v) := v.declare id name
  (slot, (v.bind id name ⟨slot, isProtected⟩).write slot value)

/-- Empties every slot that the scope itself binds. -/
def clear (v : Variables) (id : Id .scope) : Variables :=
  (v.scope id).entries.foldl (fun v (_, b) => v.write b.slot .nothing) v

/-- The descriptor of a bound variable, typed by the value it holds now. -/
def describe (v : Variables) (name : String) (b : Binding) : VarDecl :=
  let ty := (v.read b.slot).ty
  if b.isProtected then .sealed name ty else .assignable name ty

/-- The descriptors of all variables that the scopes of a chain show, in ascending order of their
names. Inner scopes hide outer ones. -/
def visibleIn (v : Variables) : List Scope → List (String × VarDecl)
  | [] => []
  | s :: outer =>
    s.entries.foldl (fun shown (name, b) => upsert name (v.describe name b) shown)
      (v.visibleIn outer)

/-- The descriptors of all visible variables, in ascending order of their names. -/
def visible (v : Variables) (id : Id .scope) : List VarDecl :=
  (v.visibleIn (v.chain id)).map (·.2)

end Variables

end Dataflow
