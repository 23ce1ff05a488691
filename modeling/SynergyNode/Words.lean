/-!
# Machine words with explicit overflow

Amounts, heights, stakes and sizes are fixed-width words.  The rules below say at each use
what happens at the edge of the range: `saturatingAdd` and `saturatingSub` stop there,
`checkedAdd?` and `checkedSub?` refuse to pass it.  Each comes with its value in `Nat`.
-/

namespace SynergyNode

namespace Word64

/-- The largest 64-bit word. -/
def max : UInt64 := 0xFFFFFFFFFFFFFFFF

theorem toNat_max : max.toNat = 18446744073709551615 := rfl

theorem le_max (a : UInt64) : a ≤ max := by
  have hlt := a.toNat_lt
  rw [UInt64.le_iff_toNat_le, toNat_max]
  omega

/-- The sum, or the largest word when the sum does not fit. -/
def saturatingAdd (a b : UInt64) : UInt64 :=
  if a.toNat + b.toNat ≤ max.toNat then a + b else max

/-- The difference, or zero when it would be negative. -/
def saturatingSub (a b : UInt64) : UInt64 :=
  if b ≤ a then a - b else 0

/-- The sum, if it fits. -/
def checkedAdd? (a b : UInt64) : Option UInt64 :=
  if a.toNat + b.toNat ≤ max.toNat then some (a + b) else none

/-- The difference, if it is not negative. -/
def checkedSub? (a b : UInt64) : Option UInt64 :=
  if b ≤ a then some (a - b) else none

theorem toNat_saturatingAdd (a b : UInt64) :
    (saturatingAdd a b).toNat = min (a.toNat + b.toNat) max.toNat := by
  unfold saturatingAdd
  split
  · have := toNat_max; rw [UInt64.toNat_add]; omega
  · omega

theorem toNat_saturatingSub (a b : UInt64) :
    (saturatingSub a b).toNat = a.toNat - b.toNat := by
  unfold saturatingSub
  split
  · rename_i h; exact UInt64.toNat_sub_of_le a b h
  · rename_i h
    rw [UInt64.le_iff_toNat_le] at h
    have : (0 : UInt64).toNat = 0 := rfl
    omega

theorem toNat_min (a b : UInt64) : (min a b).toNat = min a.toNat b.toNat := by
  have hmin : min a b = if a ≤ b then a else b := rfl
  rw [hmin]
  split
  · rename_i h
    rw [UInt64.le_iff_toNat_le] at h
    omega
  · rename_i h
    rw [UInt64.le_iff_toNat_le] at h
    omega

theorem checkedAdd?_eq_some_iff {a b c : UInt64} :
    checkedAdd? a b = some c ↔ a.toNat + b.toNat = c.toNat := by
  have := toNat_max
  unfold checkedAdd?
  split
  · rename_i h
    rw [Option.some.injEq]
    constructor
    · rintro rfl; rw [UInt64.toNat_add]; omega
    · intro e; apply UInt64.toNat_inj.1; rw [UInt64.toNat_add]; omega
  · rename_i h
    have := c.toNat_lt
    simp only [reduceCtorEq, false_iff]; omega

theorem checkedSub?_eq_some_iff {a b c : UInt64} :
    checkedSub? a b = some c ↔ a.toNat = b.toNat + c.toNat := by
  unfold checkedSub?
  split
  · rename_i h
    have h' := UInt64.le_iff_toNat_le.1 h
    rw [Option.some.injEq]
    constructor
    · rintro rfl; rw [UInt64.toNat_sub_of_le a b h]; omega
    · intro e; apply UInt64.toNat_inj.1; rw [UInt64.toNat_sub_of_le a b h]; omega
  · rename_i h
    rw [UInt64.le_iff_toNat_le] at h
    simp only [reduceCtorEq, false_iff]; omega

end Word64

namespace Word32

/-- The largest 32-bit word. -/
def max : UInt32 := 0xFFFFFFFF

/-- The sum, or the largest word when the sum does not fit. -/
def saturatingAdd (a b : UInt32) : UInt32 :=
  if a.toNat + b.toNat ≤ max.toNat then a + b else max

/-- The difference, or zero when it would be negative. -/
def saturatingSub (a b : UInt32) : UInt32 :=
  if b ≤ a then a - b else 0

/-- The product, or the largest word when the product does not fit. -/
def saturatingMul (a b : UInt32) : UInt32 :=
  if a.toNat * b.toNat ≤ max.toNat then a * b else max

end Word32

end SynergyNode
