/-!
# First-in, first-out queues

A queue of two lists, so that both ends are at hand: items are pushed onto `back` and taken
from `front`.  `Queue.toList` shows them in order of arrival, and the two operations are what
they should be in that view (`toList_push`, `pop?_eq`).
-/

namespace SynergyNode

/-- A queue; the first item to leave is the first of `front`. -/
structure Queue (α : Type) where
  front : List α
  back : List α

namespace Queue

variable {α : Type}

/-- No items. -/
def empty : Queue α := ⟨[], []⟩

/-- The items in order of arrival. -/
def toList (q : Queue α) : List α := q.front ++ q.back.reverse

/-- Adds an item. -/
def push (q : Queue α) (a : α) : Queue α := { q with back := a :: q.back }

/-- Takes the item that arrived first. -/
def pop? (q : Queue α) : Option (α × Queue α) :=
  match q.front with
  | a :: front => some (a, { q with front := front })
  | [] =>
    match q.back.reverse with
    | a :: front => some (a, ⟨front, []⟩)
    | [] => none

@[simp] theorem toList_empty : (empty : Queue α).toList = [] := rfl

@[simp] theorem toList_push (q : Queue α) (a : α) : (q.push a).toList = q.toList ++ [a] := by
  simp [push, toList]

/-- Popping gives the first item and leaves the others. -/
theorem pop?_eq (q : Queue α) :
    q.pop?.map (fun p => (p.1, p.2.toList)) =
      match q.toList with
      | [] => none
      | a :: rest => some (a, rest) := by
  rcases q with ⟨front, back⟩
  cases front with
  | cons a front => simp [pop?, toList]
  | nil =>
    simp only [pop?, toList, List.nil_append]
    cases back.reverse <;> simp

end Queue

end SynergyNode
