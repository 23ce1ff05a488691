import Mathlib.Algebra.Group.Nat.Defs
import SynergyNode.Merkle

/-!
# What the root of a tree says about its leaves

Two trees with the same number of leaves and the same root have the same leaves, unless two
different pairs of nodes that are joined in them are joined to the same hash
(`Tree.leaves_eq_of_root_eq`).  Nothing is asked of other hashes.

The number of leaves is not in the root: one more leaf that is the zero hash does not change
it, as long as the padded number of leaves is the same (`Tree.root_concat_zero`).
-/

namespace SynergyNode.Merkle

/-! ## 1. The number of padded leaves -/

theorem powerFrom_eq_pow_mul : ∀ fuel p n : Nat, ∃ k ≤ fuel, powerFrom fuel p n = 2 ^ k * p
  | 0, p, n => ⟨0, Nat.le_refl 0, by rw [powerFrom, Nat.pow_zero, Nat.one_mul]⟩
  | fuel + 1, p, n => by
    rw [powerFrom]
    split
    · exact ⟨0, Nat.zero_le _, by rw [Nat.pow_zero, Nat.one_mul]⟩
    · obtain ⟨k, hk, h⟩ := powerFrom_eq_pow_mul fuel (2 * p) n
      exact ⟨k + 1, Nat.succ_le_succ hk, by rw [h, Nat.pow_succ, Nat.mul_assoc]⟩

theorem le_powerFrom : ∀ {fuel p n : Nat}, n ≤ 2 ^ fuel * p → n ≤ powerFrom fuel p n
  | 0, p, n, h => by rwa [Nat.pow_zero, Nat.one_mul] at h
  | fuel + 1, p, n, h => by
    rw [powerFrom]
    split
    · assumption
    · refine le_powerFrom ?_
      rwa [← Nat.mul_assoc, ← Nat.pow_succ]

/-- The padded leaves are a power of two, with an exponent that the number of leaves bounds. -/
theorem exists_paddedCount_eq_pow (n : Nat) : ∃ k ≤ n, paddedCount n = 2 ^ k := by
  obtain ⟨k, hk, h⟩ := powerFrom_eq_pow_mul n 1 n
  exact ⟨k, hk, by rw [paddedCount, h, Nat.mul_one]⟩

theorem le_paddedCount (n : Nat) : n ≤ paddedCount n := by
  refine le_powerFrom ?_
  rw [Nat.mul_one]
  exact Nat.le_of_lt Nat.lt_two_pow_self

theorem length_padded (leaves : List Hash) :
    (padded leaves).length = paddedCount leaves.length := by
  rw [padded, List.length_append, List.length_replicate,
    Nat.add_sub_cancel' (le_paddedCount leaves.length)]

/-! ## 2. Levels -/

/-- The pairs of neighbours that a level is joined by. -/
def pairs : List Hash → List (Hash × Hash)
  | l :: r :: rest => (l, r) :: pairs rest
  | _ => []

theorem length_joinLevel : ∀ level : List Hash, (joinLevel level).length = level.length / 2
  | [] => rfl
  | [_] => by simp [joinLevel]
  | l :: r :: rest => by
    simp only [joinLevel, List.length_cons, length_joinLevel rest]
    omega

/-- A level with an even number of nodes can be told from the one above, as long as no two
different pairs join to the same hash. -/
theorem eq_of_joinLevel_eq : ∀ {m : Nat} {xs ys : List Hash}, xs.length = 2 * m →
    ys.length = 2 * m →
    (∀ p ∈ pairs xs, ∀ q ∈ pairs ys, join p.1 p.2 = join q.1 q.2 → p = q) →
    joinLevel xs = joinLevel ys → xs = ys
  | 0, xs, ys, hx, hy, _, _ => by
    rw [List.length_eq_zero_iff.mp hx, List.length_eq_zero_iff.mp hy]
  | m + 1, l :: r :: rest, l' :: r' :: rest', hx, hy, hjoin, h => by
    simp only [joinLevel, List.cons.injEq] at h
    simp only [List.length_cons] at hx hy
    obtain ⟨hnode, hrest⟩ := h
    have hpair : (l, r) = (l', r') :=
      hjoin _ List.mem_cons_self _ List.mem_cons_self hnode
    have hbelow : rest = rest' := eq_of_joinLevel_eq (m := m) (by omega) (by omega)
      (fun p hp q hq => hjoin p (List.mem_cons_of_mem _ hp) q (List.mem_cons_of_mem _ hq)) hrest
    cases hpair
    rw [hbelow]
  | m + 1, [], _, hx, _, _, _ => by simp at hx
  | m + 1, [_], _, hx, _, _, _ => by
    simp only [List.length_singleton] at hx
    omega
  | m + 1, _ :: _ :: _, [], _, hy, _, _ => by simp at hy
  | m + 1, _ :: _ :: _, [_], _, hy, _, _ => by
    simp only [List.length_singleton] at hy
    omega

theorem levels_eq_cons (fuel : Nat) (level : List Hash) :
    ∃ above, levels fuel level = level :: above := by
  cases fuel with
  | zero => exact ⟨[], rfl⟩
  | succ fuel =>
    rw [levels]
    split
    · exact ⟨[], rfl⟩
    · exact ⟨_, rfl⟩

theorem levels_succ {fuel : Nat} {level : List Hash} (h : 1 < level.length) :
    levels (fuel + 1) level = level :: levels fuel (joinLevel level) := by
  rw [levels, if_neg (Nat.not_le_of_lt h)]

theorem levels_singleton (fuel : Nat) (hash : Hash) : levels fuel [hash] = [[hash]] := by
  cases fuel <;> rfl

/-- There are as many levels as halvings, however much fuel there is. -/
theorem levels_congr : ∀ {k fuel fuel' : Nat} {level : List Hash}, level.length = 2 ^ k →
    k ≤ fuel → k ≤ fuel' → levels fuel level = levels fuel' level
  | 0, fuel, fuel', level, hlength, _, _ => by
    obtain ⟨hash, rfl⟩ := List.length_eq_one_iff.mp hlength
    rw [levels_singleton, levels_singleton]
  | k + 1, fuel + 1, fuel' + 1, level, hlength, hk, hk' => by
    have hpos : 0 < 2 ^ k := Nat.two_pow_pos k
    rw [Nat.pow_succ] at hlength
    have habove : (joinLevel level).length = 2 ^ k := by
      rw [length_joinLevel, hlength]
      omega
    rw [levels_succ (by omega), levels_succ (by omega),
      levels_congr habove (Nat.le_of_succ_le_succ hk) (Nat.le_of_succ_le_succ hk')]

/-- The single node of the last level. -/
def top (levels : List (List Hash)) : Hash := (levels.getLastD []).headD Hash.zero

theorem top_levels_succ {fuel : Nat} {level : List Hash} (h : 1 < level.length) :
    top (levels (fuel + 1) level) = top (levels fuel (joinLevel level)) := by
  obtain ⟨above, habove⟩ := levels_eq_cons fuel (joinLevel level)
  rw [levels_succ h, top, top, habove, List.getLastD_cons, List.getLastD_cons,
    List.getLastD_cons]

/-- From the single node at the top, level by level, down to the leaves. -/
theorem eq_of_top_eq : ∀ {k fuel : Nat} {xs ys : List Hash}, xs.length = 2 ^ k →
    ys.length = 2 ^ k → k ≤ fuel →
    (∀ p ∈ (levels fuel xs).flatMap pairs, ∀ q ∈ (levels fuel ys).flatMap pairs,
      join p.1 p.2 = join q.1 q.2 → p = q) →
    top (levels fuel xs) = top (levels fuel ys) → xs = ys
  | 0, fuel, xs, ys, hx, hy, _, _, h => by
    obtain ⟨x, rfl⟩ := List.length_eq_one_iff.mp hx
    obtain ⟨y, rfl⟩ := List.length_eq_one_iff.mp hy
    rw [levels_singleton, levels_singleton] at h
    exact congrArg (fun hash => [hash]) h
  | k + 1, fuel + 1, xs, ys, hx, hy, hk, hjoin, h => by
    have hpos : 0 < 2 ^ k := Nat.two_pow_pos k
    rw [Nat.pow_succ] at hx hy
    rw [top_levels_succ (by omega), top_levels_succ (by omega)] at h
    rw [levels_succ (by omega), levels_succ (by omega)] at hjoin
    simp only [List.flatMap_cons, List.mem_append] at hjoin
    have habove : joinLevel xs = joinLevel ys := by
      refine eq_of_top_eq (k := k) ?_ ?_ (Nat.le_of_succ_le_succ hk)
        (fun p hp q hq => hjoin p (Or.inr hp) q (Or.inr hq)) h
      · rw [length_joinLevel, hx]
        omega
      · rw [length_joinLevel, hy]
        omega
    exact eq_of_joinLevel_eq (m := 2 ^ k) (by omega) (by omega)
      (fun p hp q hq => hjoin p (Or.inl hp) q (Or.inl hq)) habove

/-! ## 3. Trees -/

namespace Tree

variable {t t' : Tree}

/-- The pairs of nodes that are joined in a tree, from the leaves to the top. -/
def joined (t : Tree) : List (Hash × Hash) := t.levels.flatMap pairs

theorem root_eq_top (h : t.leaves ≠ []) : t.root = top t.levels := by
  unfold root
  split
  · exact absurd ‹_› h
  · rfl

/-- **The root determines the leaves, if their number is known**, unless two different pairs of
nodes of the trees are joined to the same hash. -/
theorem leaves_eq_of_root_eq (hroot : t.root = t'.root)
    (hlength : t.leaves.length = t'.leaves.length)
    (hjoin : ∀ p ∈ t.joined, ∀ q ∈ t'.joined, join p.1 p.2 = join q.1 q.2 → p = q) :
    t.leaves = t'.leaves := by
  by_cases hnil : t.leaves = []
  · have hnil' : t'.leaves = [] := by
      rw [← List.length_eq_zero_iff, ← hlength, hnil, List.length_nil]
    rw [hnil, hnil']
  have hnil' : t'.leaves ≠ [] := by
    rw [← List.length_pos_iff, ← hlength]
    exact List.length_pos_iff.mpr hnil
  rw [root_eq_top hnil, root_eq_top hnil', levels, levels, ← hlength] at hroot
  rw [joined, joined, levels, levels, ← hlength] at hjoin
  obtain ⟨k, hk, hpow⟩ := exists_paddedCount_eq_pow t.leaves.length
  have hpadded : padded t.leaves = padded t'.leaves :=
    eq_of_top_eq (by rw [length_padded, hpow]) (by rw [length_padded, ← hlength, hpow]) hk
      hjoin hroot
  exact (List.append_inj hpadded hlength).1

/-- A zero hash behind the leaves cannot be told from padding. -/
theorem root_concat_zero {height : UInt64} {leaves : List Hash} (hleaves : leaves ≠ [])
    (hcount : paddedCount (leaves.length + 1) = paddedCount leaves.length) :
    (Tree.mk height (leaves ++ [Hash.zero])).root = (Tree.mk height leaves).root := by
  have hnil : leaves ++ [Hash.zero] ≠ [] := by simp
  have hlength : (leaves ++ [Hash.zero]).length = leaves.length + 1 := by simp
  have hpadded : padded (leaves ++ [Hash.zero]) = padded leaves := by
    have hroom := le_paddedCount (leaves.length + 1)
    have hrest : paddedCount leaves.length - leaves.length =
        (paddedCount leaves.length - (leaves.length + 1)) + 1 := by omega
    rw [padded, padded, hlength, hcount, hrest, List.replicate_succ, List.append_assoc,
      List.singleton_append]
  obtain ⟨k, hk, hpow⟩ := exists_paddedCount_eq_pow leaves.length
  rw [root_eq_top hnil, root_eq_top hleaves, levels, levels]
  simp only [hpadded, hlength]
  rw [levels_congr (by rw [length_padded, hpow]) (Nat.le_succ_of_le hk) hk]

end Tree

end SynergyNode.Merkle
