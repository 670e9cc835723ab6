/-!
# Sorted lists by insertion

Small sorted collections are kept as plain lists. A list is sorted by inserting its elements one
after the other; an element goes behind those that are not greater, so equal elements keep the
order in which they came.
-/

namespace Dataflow

/-- Puts `a` behind the last element that is not greater, reading from the left. -/
def insertBy {α : Type} (le : α → α → Bool) (a : α) : List α → List α
  | [] => [a]
  | b :: rest => if le b a then b :: insertBy le a rest else a :: b :: rest

/-- Stable sort: elements that are equal in the order keep their places relative to each other. -/
def sortBy {α : Type} (le : α → α → Bool) (items : List α) : List α :=
  items.foldl (fun sorted a => insertBy le a sorted) []

/-- Puts `a` into an ascending list unless it is there already. -/
def insertUnique {α : Type} [DecidableEq α] [LT α] [DecidableLT α] (a : α) : List α → List α
  | [] => [a]
  | b :: rest =>
    if a = b then b :: rest
    else if a < b then a :: b :: rest
    else b :: insertUnique a rest

/-- The elements of a list in ascending order, each once. -/
def sortUnique {α : Type} [DecidableEq α] [LT α] [DecidableLT α] (items : List α) : List α :=
  items.foldl (fun sorted a => insertUnique a sorted) []

/-- Texts in ascending order of their code points. -/
def sortTexts (texts : List String) : List String :=
  sortBy (fun a b => !(decide (b < a))) texts

/-- Binds `key` in a list of entries sorted by key. A key that is present gets the new value. -/
def upsert {α : Type} (key : String) (value : α) : List (String × α) → List (String × α)
  | [] => [(key, value)]
  | (k, v) :: rest =>
    if key = k then (k, value) :: rest
    else if key < k then (key, value) :: (k, v) :: rest
    else (k, v) :: upsert key value rest

/-- The value bound to `key`, if there is one. -/
def lookup? {α : Type} (key : String) : List (String × α) → Option α
  | [] => none
  | (k, v) :: rest => if k = key then some v else lookup? key rest

end Dataflow
