/-!
# Computations that may fail

What it means for a chain of steps to succeed, each of which may fail (`bind_eq_ok`) or is a check
(`guard_eq_ok`), and to fail (`bind_eq_error`).  Checks and readers are opened with these, and not
by cases on every step.
-/

namespace SynergyNode

theorem bind_eq_ok {ε α β : Type} {x : Except ε α} {f : α → Except ε β} {b : β} :
    (x >>= f) = .ok b ↔ ∃ a, x = .ok a ∧ f a = .ok b := by
  cases x <;> simp [bind, Except.bind]

theorem bind_eq_error {ε α β : Type} {x : Except ε α} {f : α → Except ε β} {e : ε} :
    (x >>= f) = .error e ↔ x = .error e ∨ ∃ a, x = .ok a ∧ f a = .error e := by
  cases x <;> simp [bind, Except.bind]

theorem guard_eq_ok {ε α β : Type} {p : Prop} [Decidable p] {e : ε} {f : α → Except ε β}
    {k : Except ε β} {b : β} :
    (if p then (throw e : Except ε α) >>= f else k) = .ok b ↔ ¬ p ∧ k = .ok b := by
  by_cases hp : p
  · rw [if_pos hp, bind_eq_ok]
    constructor
    · rintro ⟨a, h, -⟩
      cases h
    · rintro ⟨h, -⟩
      exact absurd hp h
  · rw [if_neg hp]
    exact ⟨fun h => ⟨hp, h⟩, fun h => h.2⟩

end SynergyNode
