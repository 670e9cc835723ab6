import Dataflow.Ty.Basic
/-!
# Matching of types

`receiver.accepts input` says that a value of type `input` may flow to where `receiver` is
declared. Any receiver of type `any` takes everything; other receivers take only their own kind.
-/

namespace Dataflow

/-- The first position of `key` in a list of keys. -/
def keyPosition (key : String) : List String → Option Nat
  | [] => none
  | k :: ks => if k = key then some 0 else (keyPosition key ks).map (· + 1)

/-- Whether a list of keys is open: its last key is empty and stands for every key not named. -/
def keysOpen (keys : List String) : Bool := keys.getLast? = some ""

namespace Ty

mutual

/-- Whether a value of type `input` may flow to where the receiver is declared.

* A sequence is taken if each of its element types is taken by some listed type, or none is listed.
* A reference is taken if one listed type takes all its inner types, or none is listed.
* A keyless table constrains only the values.
* A table with keys takes tables with as many keys, each of which it names. If its last key is
  empty it takes any number of keys, and the type at the last key's place takes those not named. -/
def accepts : (receiver input : Ty) → Bool
  | any, _ => true
  | object vendor kind, object vendor' kind' => vendor' == vendor && kind' == kind
  | seq accepted, seq elements =>
    accepted.isEmpty || elements.all fun e => someAccepts accepted e
  | table [] types, table _ types' =>
    types.isEmpty || types'.all fun t => someAccepts types t
  | table (key :: keys) types, table keys' types' =>
    (keysOpen (key :: keys) || keys'.length == (key :: keys).length) &&
      (keys'.zip types').all fun (k, t) =>
        match keyPosition k (key :: keys) with
        | some place => acceptsAt types place t
        | none => keysOpen (key :: keys) && acceptsAt types keys.length t
  | ref accepted, ref inner => accepted.isEmpty || someAcceptsAll accepted inner
  | nothing, nothing => true
  | bool, bool => true
  | int, int => true
  | float, float => true
  | string, string => true
  | bytes, bytes => true
  | wire, wire => true
  | type, type => true
  | _, _ => false
termination_by structural receiver => receiver

/-- Whether one of the receivers takes the input. -/
def someAccepts : (receivers : List Ty) → (input : Ty) → Bool
  | [], _ => false
  | r :: rs, input => accepts r input || someAccepts rs input
termination_by structural receivers => receivers

/-- Whether one of the receivers takes all the inputs. -/
def someAcceptsAll : (receivers inputs : List Ty) → Bool
  | [], _ => false
  | r :: rs, inputs => (inputs.all fun i => accepts r i) || someAcceptsAll rs inputs
termination_by structural receivers => receivers

/-- Whether the receiver at a position takes the input. No receiver there takes nothing. -/
def acceptsAt : (receivers : List Ty) → (place : Nat) → (input : Ty) → Bool
  | [], _, _ => false
  | r :: _, 0, input => accepts r input
  | _ :: rs, place + 1, input => acceptsAt rs place input
termination_by structural receivers => receivers

end

end Ty

end Dataflow
