import SynergyNode.Bytes

/-!
# Looking at places of an input

Taking and dropping give something for every length, also when the input has fewer bytes.  So that a
reader never looks outside of its input is not to be seen from what it gives.  `Bytes.slice?` is a
look that has to stay inside: a reader made of such looks that always comes to an answer stayed
inside with each of them.
-/

namespace SynergyNode.Bytes

/-- The bytes from one place up to another; there are none when these are not places of the input
in this order. -/
def slice? (b : Bytes) (i j : Nat) : Option Bytes :=
  if i ≤ j ∧ j ≤ b.length then some ((b.drop i).take (j - i)) else none

variable {b : Bytes} {i j n : Nat}

theorem slice?_of_le (hij : i ≤ j) (hj : j ≤ b.length) :
    b.slice? i j = some ((b.drop i).take (j - i)) :=
  if_pos ⟨hij, hj⟩

theorem slice?_front (h : n ≤ b.length) : b.slice? 0 n = some (b.take n) :=
  slice?_of_le (Nat.zero_le n) h

theorem slice?_back (h : n ≤ b.length) : b.slice? n b.length = some (b.drop n) := by
  rw [slice?_of_le h (Nat.le_refl _), List.take_of_length_le (Nat.le_of_eq List.length_drop)]

end SynergyNode.Bytes
