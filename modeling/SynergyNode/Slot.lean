import SynergyNode.Format

/-!
# The two signature slots

At every height two signature schemes are live, one in each slot.  `PerSlot α` holds one value
for each slot.
-/

namespace SynergyNode

/-- One of the two live slots. -/
inductive Slot where
  | primary
  | secondary
deriving DecidableEq, Repr

namespace Slot

/-- Both slots, the primary first. -/
def all : List Slot := [primary, secondary]

/-- The place of a slot in a pair. -/
def index : Slot → Nat
  | primary => 0
  | secondary => 1

/-- The slot that is not this one. -/
def other : Slot → Slot
  | primary => secondary
  | secondary => primary

/-- The word for a slot in messages. -/
def name : Slot → String
  | primary => "primary"
  | secondary => "secondary"

/-- A slot is written as its number. -/
def format : Format Slot := Format.oneOf all

end Slot

/-- One value for each slot. -/
structure PerSlot (α : Type) where
  primary : α
  secondary : α
deriving DecidableEq, Repr

namespace PerSlot

variable {α β : Type}

/-- The value of a slot. -/
def get (p : PerSlot α) : Slot → α
  | .primary => p.primary
  | .secondary => p.secondary

/-- The pair with the value of one slot replaced. -/
def set (p : PerSlot α) (s : Slot) (a : α) : PerSlot α :=
  match s with
  | .primary => { p with primary := a }
  | .secondary => { p with secondary := a }

/-- The same value in both slots. -/
def both (a : α) : PerSlot α := ⟨a, a⟩

/-- A function applied in each slot. -/
def map (f : α → β) (p : PerSlot α) : PerSlot β := ⟨f p.primary, f p.secondary⟩

/-- The values, the primary's first. -/
def toList (p : PerSlot α) : List α := [p.primary, p.secondary]

/-- Two values one after the other. -/
def format (f : Format α) : Format (PerSlot α) :=
  Format.imap (Format.both f f) (fun p => ⟨p.1, p.2⟩) (fun p => (p.primary, p.secondary))

@[simp] theorem get_set_self (p : PerSlot α) (s : Slot) (a : α) : (p.set s a).get s = a := by
  cases s <;> rfl

@[simp] theorem get_set_other (p : PerSlot α) (s : Slot) (a : α) :
    (p.set s a).get s.other = p.get s.other := by
  cases s <;> rfl

theorem get_set_of_ne {s t : Slot} (h : t ≠ s) (p : PerSlot α) (a : α) :
    (p.set s a).get t = p.get t := by
  cases s <;> cases t <;> first | exact absurd rfl h | rfl

theorem set_get_self (p : PerSlot α) (s : Slot) : p.set s (p.get s) = p := by
  cases s <;> rfl

@[ext] theorem ext {p q : PerSlot α} (h : ∀ s, p.get s = q.get s) : p = q := by
  cases p; cases q; have h1 := h .primary; have h2 := h .secondary; simp_all [get]

end PerSlot

end SynergyNode
