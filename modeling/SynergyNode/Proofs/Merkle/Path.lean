import Mathlib.Data.List.Basic
import Mathlib.Data.Nat.Bitwise
import Mathlib.Order.Bounds.Basic
import SynergyNode.Proofs.Merkle

/-!
# Paths from the leaves of a tree to its root

The levels of a tree are a row of a power of two of hashes and the rows above it, each of which
joins the neighbours of the one below (`Rises`).  What is said here of a tree goes by induction on
them.  A path has one step for each level, and the binary digits of a place, from the lowest on,
say at which steps the sibling is the left one.

* `Rises.top_eq`: joining neighbours level by level gives the same root as joining the roots of the
  two halves (`rootOf`);
* `Rises.foldPath_siblings`: the path from any place of the lowest row leads to the root, also from
  a place behind the leaves;
* `Rises.eq_or_collides`: a path that leads to the root starts from the hash that stands in its
  place, or it joins two other hashes than the rows to the same hash (`CollidesAt`);
* `Tree.paths_lead_up`, `Tree.place_bound`: the same of a tree.
-/

namespace SynergyNode.Merkle

/-! ## 1. Rows -/

/-- Over a row of `2 ^ d` hashes, the rows above it up to a single hash. -/
inductive Rises : (d : Nat) → (row : List Hash) → (above : List (List Hash)) → Prop where
  | single (hash : Hash) : Rises 0 [hash] []
  | level {d : Nat} {row : List Hash} {above : List (List Hash)}
      (length : row.length = 2 ^ (d + 1)) (rises : Rises d (joinLevel row) above) :
      Rises (d + 1) row (joinLevel row :: above)

theorem rises_levels : ∀ {d fuel : Nat} {row : List Hash}, row.length = 2 ^ d → d ≤ fuel →
    ∃ above, levels fuel row = row :: above ∧ Rises d row above
  | 0, fuel, row, hrow, _ => by
    obtain ⟨hash, rfl⟩ := List.length_eq_one_iff.mp hrow
    exact ⟨[], levels_singleton fuel hash, .single hash⟩
  | d + 1, fuel + 1, row, hrow, hd => by
    have hpos := Nat.two_pow_pos d
    have hpow := Nat.pow_succ 2 d
    have hhalf : (joinLevel row).length = 2 ^ d := by
      rw [length_joinLevel]
      omega
    obtain ⟨above, habove, hrises⟩ := rises_levels hhalf (Nat.le_of_succ_le_succ hd)
    refine ⟨joinLevel row :: above, ?_, .level hrow hrises⟩
    rw [levels_succ (by omega), habove]

namespace Rises

variable {d : Nat} {row : List Hash} {above : List (List Hash)}

theorem length_row (h : Rises d row above) : row.length = 2 ^ d := by
  cases h with
  | single hash => rfl
  | level length rises => exact length

theorem length_above (h : Rises d row above) : above.length = d := by
  induction h with
  | single hash => rfl
  | level length rises ih => simp [ih]

end Rises

/-! ## 2. The root -/

/-- The root over `2 ^ d` hashes, from the roots of the two halves. -/
def rootOf : (d : Nat) → List Hash → Hash
  | 0, row => row.headD Hash.zero
  | d + 1, row => join (rootOf d (row.take (2 ^ d))) (rootOf d (row.drop (2 ^ d)))

theorem take_joinLevel : ∀ (m : Nat) (row : List Hash),
    joinLevel (row.take (2 * m)) = (joinLevel row).take m
  | 0, row => by simp [joinLevel]
  | m + 1, [] => by simp [joinLevel]
  | m + 1, [_] => by simp [joinLevel, Nat.mul_succ]
  | m + 1, l :: r :: rest => by simp [joinLevel, Nat.mul_succ, take_joinLevel m rest]

theorem drop_joinLevel : ∀ (m : Nat) (row : List Hash),
    joinLevel (row.drop (2 * m)) = (joinLevel row).drop m
  | 0, row => by simp
  | m + 1, [] => by simp [joinLevel]
  | m + 1, [_] => by simp [joinLevel, Nat.mul_succ]
  | m + 1, l :: r :: rest => by simp [joinLevel, Nat.mul_succ, drop_joinLevel m rest]

/-- Joining neighbours first does not change the root. -/
theorem rootOf_joinLevel : ∀ {d : Nat} {row : List Hash}, row.length = 2 ^ (d + 1) →
    rootOf d (joinLevel row) = rootOf (d + 1) row
  | 0, row, hrow => by
    obtain ⟨l, r, rfl⟩ := List.length_eq_two.mp hrow
    rfl
  | d + 1, row, hrow => by
    have hpow : 2 ^ (d + 1) = 2 * 2 ^ d := by rw [Nat.pow_succ, Nat.mul_comm]
    have hdouble : 2 ^ (d + 2) = 2 * 2 ^ (d + 1) := by rw [Nat.pow_succ, Nat.mul_comm]
    have hleft : (row.take (2 ^ (d + 1))).length = 2 ^ (d + 1) := by
      rw [List.length_take]
      omega
    have hright : (row.drop (2 ^ (d + 1))).length = 2 ^ (d + 1) := by
      rw [List.length_drop]
      omega
    calc rootOf (d + 1) (joinLevel row)
        = join (rootOf d (joinLevel (row.take (2 ^ (d + 1)))))
            (rootOf d (joinLevel (row.drop (2 ^ (d + 1))))) := by
          rw [rootOf, hpow, take_joinLevel, drop_joinLevel]
      _ = join (rootOf (d + 1) (row.take (2 ^ (d + 1))))
            (rootOf (d + 1) (row.drop (2 ^ (d + 1)))) := by
          rw [rootOf_joinLevel hleft, rootOf_joinLevel hright]

theorem top_cons_cons (row next : List Hash) (above : List (List Hash)) :
    top (row :: next :: above) = top (next :: above) := by
  simp [top]

/-- **Level by level and half by half the same root comes out.** -/
theorem Rises.top_eq {d : Nat} {row : List Hash} {above : List (List Hash)}
    (h : Rises d row above) : top (row :: above) = rootOf d row := by
  induction h with
  | single hash => rfl
  | level length rises ih => rw [top_cons_cons, ih, rootOf_joinLevel length]

/-! ## 3. Places -/

/-- The two neighbours that are joined to the node in a place of the next row. -/
def pairAt (row : List Hash) (j : Nat) : Hash × Hash :=
  (row.getD (2 * j) Hash.zero, row.getD (2 * j + 1) Hash.zero)

theorem getD_joinLevel : ∀ {j : Nat} {row : List Hash}, 2 * j + 1 < row.length →
    (joinLevel row).getD j Hash.zero = join (pairAt row j).1 (pairAt row j).2
  | _, [], h => by simp at h
  | _, [_], h => by simp at h
  | 0, l :: r :: rest, _ => rfl
  | j + 1, l :: r :: rest, h => by
    have hrest : 2 * j + 1 < rest.length := by
      simp only [List.length_cons] at h
      omega
    simpa [joinLevel, pairAt, Nat.mul_succ] using getD_joinLevel hrest

/-- A step and the hash below it, in the order in which they are joined. -/
def Step.pair (s : Step) (hash : Hash) : Hash × Hash :=
  if s.isLeft then (s.hash, hash) else (hash, s.hash)

@[simp] theorem foldPath_nil (hash : Hash) : foldPath hash [] = hash := rfl

@[simp] theorem foldPath_cons (hash : Hash) (s : Step) (path : List Step) :
    foldPath hash (s :: path) = foldPath (join (s.pair hash).1 (s.pair hash).2) path := by
  cases hleft : s.isLeft <;> simp [foldPath, Step.pair, hleft]

/-- The binary digits of a place, the lowest first. -/
def digits (d i : Nat) : List Bool := (List.range d).map i.testBit

theorem digits_succ (d i : Nat) : digits (d + 1) i = (i % 2 == 1) :: digits d (i / 2) := by
  simp [digits, List.range_succ_eq_map, Function.comp_def, Nat.testBit_succ, Nat.testBit_zero,
    beq_eq_decide]

theorem half_lt {d i : Nat} (h : i < 2 ^ (d + 1)) : i / 2 < 2 ^ d := by
  rw [Nat.pow_succ] at h
  omega

/-- In a row of an even number of nodes, every place has a neighbour. -/
theorem neighbours_lt {d i : Nat} {row : List Hash} (hrow : row.length = 2 ^ (d + 1))
    (hi : i < 2 ^ (d + 1)) : 2 * (i / 2) + 1 < row.length := by
  rw [hrow]
  rw [Nat.pow_succ] at hi ⊢
  omega

/-- A node and its sibling are the two neighbours that are joined. -/
theorem pair_sibling (row : List Hash) (i : Nat) :
    Step.pair ⟨row.getD (i ^^^ 1) Hash.zero, i % 2 == 1⟩ (row.getD i Hash.zero) =
      pairAt row (i / 2) := by
  rcases Nat.even_or_odd' i with ⟨j, rfl | rfl⟩
  · have hhalf : 2 * j / 2 = j := by omega
    simp [Step.pair, pairAt, hhalf, Nat.xor_one_of_even (even_two_mul j)]
  · have hhalf : (2 * j + 1) / 2 = j := by omega
    have hodd : (2 * j + 1) % 2 = 1 := by omega
    simp [Step.pair, pairAt, hhalf, hodd, Nat.xor_one_of_odd (odd_two_mul_add_one j)]

/-- What a step on the side of a place is joined with, if the pair is that of the row, is the hash
in the place. -/
theorem eq_of_pair_eq {row : List Hash} {i : Nat} {s : Step} {x : Hash}
    (hside : s.isLeft = (i % 2 == 1)) (h : s.pair x = pairAt row (i / 2)) :
    x = row.getD i Hash.zero := by
  rcases Nat.even_or_odd' i with ⟨j, rfl | rfl⟩
  · have hhalf : 2 * j / 2 = j := by omega
    have hright : s.isLeft = false := by simp [hside]
    rw [Step.pair, hright, pairAt, hhalf] at h
    exact congrArg Prod.fst h
  · have hhalf : (2 * j + 1) / 2 = j := by omega
    have hleft : s.isLeft = true := by simp [hside]
    rw [Step.pair, hleft, pairAt, hhalf] at h
    exact congrArg Prod.snd h

/-! ## 4. The paths that rows give out -/

theorem siblings_cons_cons (i : Nat) (row next : List Hash) (above : List (List Hash)) :
    Tree.siblings i (row :: next :: above) =
      ⟨row.getD (i ^^^ 1) Hash.zero, i % 2 == 1⟩ :: Tree.siblings (i / 2) (next :: above) := rfl

namespace Rises

variable {d : Nat} {row : List Hash} {above : List (List Hash)}

theorem length_siblings (h : Rises d row above) (i : Nat) :
    (Tree.siblings i (row :: above)).length = d := by
  induction h generalizing i with
  | single hash => rfl
  | level length rises ih => simp [siblings_cons_cons, ih]

/-- **The sides of the siblings are the binary digits of the place.** -/
theorem isLeft_siblings (h : Rises d row above) (i : Nat) :
    (Tree.siblings i (row :: above)).map Step.isLeft = digits d i := by
  induction h generalizing i with
  | single hash => rfl
  | level length rises ih => simp [siblings_cons_cons, digits_succ, ih]

/-- **Every sibling is there**: it stands in its row beside the node above the place. -/
theorem getElem?_siblings (h : Rises d row above) {i k : Nat} (hi : i < 2 ^ d) (hk : k < d) :
    ((row :: above).getD k [])[(i / 2 ^ k) ^^^ 1]? =
      ((Tree.siblings i (row :: above))[k]?).map Step.hash := by
  induction h generalizing i k with
  | single hash => cases hk
  | @level d row above length rises ih =>
    cases k with
    | zero =>
      have hplace : i ^^^ 1 < row.length := by
        rw [length]
        exact Nat.xor_lt_two_pow hi (Nat.one_lt_two_pow (Nat.succ_ne_zero d))
      simp [siblings_cons_cons, hplace]
    | succ k =>
      have hrest := ih (half_lt hi) (Nat.lt_of_succ_lt_succ hk)
      rw [Nat.div_div_eq_div_mul, ← Nat.pow_succ'] at hrest
      simpa [siblings_cons_cons] using hrest

/-- **The path from a place leads to the root.** -/
theorem foldPath_siblings (h : Rises d row above) {i : Nat} (hi : i < 2 ^ d) :
    foldPath (row.getD i Hash.zero) (Tree.siblings i (row :: above)) = top (row :: above) := by
  induction h generalizing i with
  | single hash =>
    have hzero : i = 0 := by omega
    simp [hzero, Tree.siblings, top]
  | level length rises ih =>
    rw [siblings_cons_cons, foldPath_cons, pair_sibling,
      ← getD_joinLevel (neighbours_lt length hi), ih (half_lt hi), top_cons_cons]

end Rises

/-! ## 5. Paths from elsewhere -/

/-- At this level a path joins another pair of hashes than the rows do, to the same hash. -/
def CollidesAt (rows : List (List Hash)) (i : Nat) (x : Hash) (path : List Step) (k : Nat) : Prop :=
  ∃ (s : Step) (l r : Hash), path[k]? = some s ∧
    (rows.getD k [])[2 * (i / 2 ^ (k + 1))]? = some l ∧
    (rows.getD k [])[2 * (i / 2 ^ (k + 1)) + 1]? = some r ∧
    s.pair (foldPath x (path.take k)) ≠ (l, r) ∧
    join (s.pair (foldPath x (path.take k))).1 (s.pair (foldPath x (path.take k))).2 = join l r

theorem CollidesAt.below {rows : List (List Hash)} {i k : Nat} {x : Hash} {s : Step}
    {path : List Step}
    (h : CollidesAt rows (i / 2) (join (s.pair x).1 (s.pair x).2) path k) (row : List Hash) :
    CollidesAt (row :: rows) i x (s :: path) (k + 1) := by
  have hplace : i / 2 / 2 ^ (k + 1) = i / 2 ^ (k + 1 + 1) := by
    rw [Nat.div_div_eq_div_mul, ← Nat.pow_succ']
  rw [CollidesAt, hplace] at h
  simpa [CollidesAt] using h

/-- **A path binds its place.**  It leads to the root only from the hash that stands there, or else
it joins two other hashes than the rows to the same hash. -/
theorem Rises.eq_or_collides {d : Nat} {row : List Hash} {above : List (List Hash)}
    (h : Rises d row above) {i : Nat} {x : Hash} {path : List Step} (hi : i < 2 ^ d)
    (hsides : path.map Step.isLeft = digits d i) (hroot : foldPath x path = top (row :: above)) :
    x = row.getD i Hash.zero ∨ ∃ k < d, CollidesAt (row :: above) i x path k := by
  induction h generalizing i x path with
  | single hash =>
    left
    have hzero : i = 0 := by omega
    have hpath : path = [] := List.map_eq_nil_iff.mp hsides
    simpa [hzero, hpath, top] using hroot
  | @level d row above length rises ih =>
    rw [digits_succ] at hsides
    obtain ⟨s, path, rfl, hside, hsides⟩ := List.map_eq_cons_iff.mp hsides
    rw [foldPath_cons, top_cons_cons] at hroot
    rcases ih (half_lt hi) hsides hroot with hnode | ⟨k, hk, hcollides⟩
    · have hplaces := neighbours_lt length hi
      rw [getD_joinLevel hplaces] at hnode
      by_cases hpair : s.pair x = pairAt row (i / 2)
      · exact Or.inl (eq_of_pair_eq hside hpair)
      · refine Or.inr ⟨0, Nat.zero_lt_succ d, s, (pairAt row (i / 2)).1, (pairAt row (i / 2)).2,
          rfl, ?_, ?_, ?_, ?_⟩
        · simp [pairAt, Nat.lt_of_succ_lt hplaces]
        · simp [pairAt, hplaces]
        · simpa using hpair
        · simpa using hnode
    · exact Or.inr ⟨k + 1, Nat.succ_lt_succ hk, hcollides.below row⟩

/-! ## 6. Depth -/

theorem powerFrom_le : ∀ {fuel k p n : Nat}, n ≤ 2 ^ k * p → powerFrom fuel p n ≤ 2 ^ k * p
  | 0, k, p, n, _ => Nat.le_mul_of_pos_left p (Nat.two_pow_pos k)
  | fuel + 1, k, p, n, h => by
    rw [powerFrom]
    split
    · exact Nat.le_mul_of_pos_left p (Nat.two_pow_pos k)
    · rename_i hless
      cases k with
      | zero => omega
      | succ k =>
        have hdouble : 2 ^ (k + 1) * p = 2 ^ k * (2 * p) := by rw [Nat.pow_succ, Nat.mul_assoc]
        rw [hdouble] at h ⊢
        exact powerFrom_le h

/-- Leaves are padded to the least power of two that is not below their number. -/
theorem paddedCount_le {n k : Nat} (h : n ≤ 2 ^ k) : paddedCount n ≤ 2 ^ k := by
  rw [← Nat.mul_one (2 ^ k)] at h ⊢
  exact powerFrom_le h

namespace Tree

/-- The number of levels above the leaves. -/
def depth (t : Tree) : Nat := t.levels.length - 1

/-- The levels of a tree are its padded leaves and the rows above them. -/
theorem exists_rises (t : Tree) :
    ∃ above, t.levels = padded t.leaves :: above ∧ Rises t.depth (padded t.leaves) above := by
  obtain ⟨d, hd, hpow⟩ := exists_paddedCount_eq_pow t.leaves.length
  obtain ⟨above, hlevels, hrises⟩ := rises_levels ((length_padded t.leaves).trans hpow) hd
  have hdepth : t.depth = d := by
    rw [depth, levels, hlevels, List.length_cons, Nat.add_sub_cancel, hrises.length_above]
  exact ⟨above, hlevels, hdepth ▸ hrises⟩

theorem paddedCount_eq (t : Tree) : paddedCount t.leaves.length = 2 ^ t.depth := by
  obtain ⟨above, -, hrises⟩ := t.exists_rises
  rw [← length_padded, hrises.length_row]

/-- **The depth is the least** for which as many leaves have room. -/
theorem depth_isLeast (t : Tree) : IsLeast {d | t.leaves.length ≤ 2 ^ d} t.depth := by
  constructor
  · have hroom := le_paddedCount t.leaves.length
    rwa [paddedCount_eq] at hroom
  · intro d hd
    have hleast := paddedCount_le hd
    rw [paddedCount_eq] at hleast
    exact (Nat.pow_le_pow_iff_right (Nat.lt_succ_self 1)).mp hleast

theorem padded_eq (t : Tree) : padded t.leaves =
    t.leaves ++ List.replicate (2 ^ t.depth - t.leaves.length) Hash.zero := by
  rw [padded, paddedCount_eq]

/-- The root stands at the top of the levels, also that of an empty tree. -/
theorem root_eq (t : Tree) : t.root = top t.levels := by
  by_cases hempty : t.leaves = []
  · simp [root, levels, hempty, padded, paddedCount, powerFrom, Merkle.levels, top]
  · exact root_eq_top hempty

/-- **What paths a tree gives out.**  There is one for each leaf and for no other place.  It has one
step for each level, and the depth is the least for which as many leaves have room; its sides are
the binary digits of the place, its hashes are those beside the nodes above the leaf, and it leads
to the root.  The root is that over the leaves and as many zero hashes as there is room for. -/
theorem paths_lead_up (t : Tree) :
    IsLeast {d | t.leaves.length ≤ 2 ^ d} t.depth ∧
      t.root = rootOf t.depth
        (t.leaves ++ List.replicate (2 ^ t.depth - t.leaves.length) Hash.zero) ∧
      (∀ i, t.proof? i = none ↔ t.leaves.length ≤ i) ∧
      ∀ i : Fin t.leaves.length, ∃ path, t.proof? i = some path ∧ path.length = t.depth ∧
        path.map Step.isLeft = (List.range t.depth).map (i : Nat).testBit ∧
        (∀ k : Fin t.depth, (t.levels.getD k [])[((i : Nat) / 2 ^ (k : Nat)) ^^^ 1]? =
          (path[(k : Nat)]?).map Step.hash) ∧
        verifyPath (t.leaves.get i) path t.root = true := by
  obtain ⟨above, hlevels, hrises⟩ := t.exists_rises
  refine ⟨t.depth_isLeast, ?_, ?_, ?_⟩
  · rw [root_eq, hlevels, hrises.top_eq, padded_eq]
  · intro i
    simp [proof?]
  · intro i
    have hi : (i : Nat) < 2 ^ t.depth := Nat.lt_of_lt_of_le i.isLt t.depth_isLeast.1
    refine ⟨siblings i t.levels, ?_, ?_, ?_, ?_, ?_⟩
    · simp [proof?]
    · rw [hlevels, hrises.length_siblings]
    · rw [hlevels, hrises.isLeft_siblings, digits]
    · intro k
      rw [hlevels, hrises.getElem?_siblings hi k.isLt]
    · have hleaf : t.leaves.get i = (padded t.leaves).getD i Hash.zero := by
        simp [padded, List.getElem?_append_left i.isLt]
      rw [verifyPath, hleaf, hlevels, hrises.foldPath_siblings hi, root_eq, hlevels]
      exact beq_self_eq_true _

/-- Without leaves the root is the zero hash. -/
example (height : UInt64) : (Tree.mk height []).root = Hash.zero := rfl

/-- **A path that leads to the root binds its place.**  It starts from the leaf there, or from the
zero hash behind the leaves, or else at some level it joins another pair of hashes than the tree
does there, to the same hash. -/
theorem place_bound (t : Tree) {i : Nat} {x : Hash} {path : List Step} (hi : i < 2 ^ t.depth)
    (hsides : path.map Step.isLeft = (List.range t.depth).map i.testBit)
    (hverified : verifyPath x path t.root = true) :
    (t.leaves ++ List.replicate (2 ^ t.depth - t.leaves.length) Hash.zero)[i]? = some x ∨
      ∃ k < t.depth, CollidesAt t.levels i x path k := by
  obtain ⟨above, hlevels, hrises⟩ := t.exists_rises
  rw [verifyPath, beq_iff_eq, root_eq, hlevels] at hverified
  rw [← padded_eq, hlevels]
  refine (hrises.eq_or_collides hi hsides hverified).imp ?_ id
  rintro rfl
  have hplace : i < (padded t.leaves).length := by rwa [hrises.length_row]
  simp [hplace]

/-- The path from the place behind three leaves leads to the root from the zero hash. -/
theorem place_bound_behind :
    let t : Tree := ⟨0, List.replicate 3 ⟨List.replicate 32 1, rfl⟩⟩
    let path := siblings 3 t.levels
    3 < 2 ^ t.depth ∧ path.map Step.isLeft = (List.range t.depth).map (Nat.testBit 3) ∧
      verifyPath Hash.zero path t.root = true ∧
      ((t.leaves ++ List.replicate (2 ^ t.depth - t.leaves.length) Hash.zero)[3]? =
          some Hash.zero ∨
        ∃ k < t.depth, CollidesAt t.levels 3 Hash.zero path k) := by
  intro t path
  obtain ⟨above, hlevels, hrises⟩ := t.exists_rises
  have hplace : 3 < 2 ^ t.depth := by
    rw [← hrises.length_row]
    decide
  have hsides : path.map Step.isLeft = (List.range t.depth).map (Nat.testBit 3) := by
    rw [show path = siblings 3 t.levels from rfl, hlevels, hrises.isLeft_siblings, digits]
  have hverified : verifyPath Hash.zero path t.root = true := by
    have hzero : (padded t.leaves).getD 3 Hash.zero = Hash.zero := rfl
    have hroot := hrises.foldPath_siblings hplace
    rw [← hlevels, hzero, ← root_eq] at hroot
    exact beq_iff_eq.mpr hroot
  exact ⟨hplace, hsides, hverified, place_bound t hplace hsides hverified⟩

end Tree

end SynergyNode.Merkle
