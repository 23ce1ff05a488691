import SynergyNode.Proofs.Arrival
import Mathlib.Algebra.BigOperators.Ring.List
import Mathlib.Algebra.Order.BigOperators.Group.List
import Mathlib.Data.Rat.Floor

/-!
# The price is a mean

The price at a height is the mean, weighted by stake, of the prices that are recent then, rounded
toward zero.  It is worked out in words: stakes are added in 128 bits without a sign, the products
of prices and stakes in 128 bits with a sign, and the quotient is cut down to 64 bits
(`meanInWords`).  A price may be negative, and a single product may come close to the end of the
range, so none of these steps is safe by itself.

As long as the stakes behind the recent prices stay below `2 ^ 64` all of them are
(`meanInWords_eq`): at any time the sum is at most `2 ^ 63` times the stake seen so far
(`productsInWords_eq`).  The quotient lies between two of the prices (`exists_value_le`,
`exists_le_value`), hence it is a price again, and it is the exact mean rounded toward zero
(`tdiv_eq_towardZero`).  `price_is_mean` says this of the price after any calls.
-/

namespace SynergyNode

namespace Oracle

/-! ## 1. Sums over samples -/

/-- The stake behind some samples. -/
def stakes (samples : List Sample) : Nat := (samples.map fun s => s.staked.toNat).sum

/-- What `f` makes of each sample, as often as its stake. -/
def weighted (f : Sample → Int) (samples : List Sample) : Int :=
  (samples.map fun s => f s * s.staked.toNat).sum

/-- The values of some samples, each as often as its stake. -/
def products (samples : List Sample) : Int := weighted (fun s => s.value.toInt) samples

/-- The exact mean of the values, weighted by stake. -/
def mean (samples : List Sample) : ℚ := (products samples : ℚ) / (stakes samples : ℚ)

/-- The integer next to a number on the side of zero. -/
def towardZero (q : ℚ) : Int := if 0 ≤ q then ⌊q⌋ else ⌈q⌉

variable {samples : List Sample} {f g : Sample → Int}

@[simp]
theorem stakes_nil : stakes [] = 0 := rfl

@[simp]
theorem stakes_cons (s : Sample) (rest : List Sample) :
    stakes (s :: rest) = s.staked.toNat + stakes rest := by
  simp [stakes]

@[simp]
theorem products_nil : products [] = 0 := rfl

@[simp]
theorem products_cons (s : Sample) (rest : List Sample) :
    products (s :: rest) = s.value.toInt * s.staked.toNat + products rest := by
  simp [products, weighted]

/-- Only samples with a stake weigh. -/
theorem weighted_le (h : ∀ s ∈ samples, 0 < s.staked → f s ≤ g s) :
    weighted f samples ≤ weighted g samples := by
  refine List.sum_le_sum fun s hs => ?_
  by_cases hstaked : 0 < s.staked
  · exact mul_le_mul_of_nonneg_right (h s hs hstaked) (Int.natCast_nonneg _)
  · have hzero : s.staked.toNat = 0 := by
      simpa [UInt64.lt_iff_toNat_lt] using hstaked
    simp [hzero]

theorem weighted_const (c : Int) (samples : List Sample) :
    weighted (fun _ => c) samples = c * stakes samples := by
  induction samples with
  | nil => simp [weighted]
  | cons s rest ih =>
    simp only [weighted] at ih
    simp [weighted, ih, mul_add]

/-- The folds of the program are these sums. -/
theorem weightedMean_eq (samples : List Sample) :
    weightedMean samples =
      if stakes samples = 0 then none
      else some (Int64.ofInt ((products samples).tdiv (stakes samples))) := by
  have hstakes : samples.foldl (fun n s => n + s.staked.toNat) 0 = stakes samples := by
    rw [stakes, List.sum_eq_foldl, List.foldl_map]
  have hproducts : samples.foldl (fun n s => n + s.value.toInt * (s.staked.toNat : Int)) 0 =
      products samples := by
    rw [products, weighted, List.sum_eq_foldl, List.foldl_map]
  simp only [weightedMean, hstakes, hproducts]

/-! ## 2. The rounded mean lies between two values -/

theorem towardZero_le {q : ℚ} {n : Int} (h : q ≤ n) : towardZero q ≤ n := by
  unfold towardZero
  split
  · exact Int.cast_le.mp ((Int.floor_le q).trans h)
  · exact Int.ceil_le.mpr h

theorem le_towardZero {q : ℚ} {n : Int} (h : (n : ℚ) ≤ q) : n ≤ towardZero q := by
  unfold towardZero
  split
  · exact Int.le_floor.mpr h
  · exact Int.cast_le.mp (h.trans (Int.le_ceil q))

/-- Division of integers rounds toward zero. -/
theorem tdiv_eq_towardZero (n : Int) (d : Nat) : n.tdiv d = towardZero ((n : ℚ) / (d : ℚ)) := by
  unfold towardZero
  rcases le_total 0 n with hn | hn
  · have hq : 0 ≤ (n : ℚ) / (d : ℚ) := div_nonneg (by exact_mod_cast hn) (Nat.cast_nonneg d)
    rw [if_pos hq, Rat.floor_intCast_div_natCast, Int.tdiv_eq_ediv_of_nonneg hn]
  · have hround : n.tdiv d = ⌈(n : ℚ) / (d : ℚ)⌉ := by
      rw [Rat.ceil_intCast_div_natCast, ← Int.tdiv_eq_ediv_of_nonneg (by omega), Int.neg_tdiv,
        neg_neg]
    split
    · -- A quotient of no sign is zero, and so are both roundings.
      rename_i hq
      have hzero : (n : ℚ) / (d : ℚ) = 0 :=
        le_antisymm (div_nonpos_of_nonpos_of_nonneg (by exact_mod_cast hn) (Nat.cast_nonneg d)) hq
      simp [hround, hzero]
    · exact hround

theorem mean_le {n : Int} (hpos : 0 < stakes samples)
    (h : ∀ s ∈ samples, 0 < s.staked → s.value.toInt ≤ n) : mean samples ≤ n := by
  have hsum : products samples ≤ n * stakes samples := by
    rw [← weighted_const]
    exact weighted_le h
  rw [mean, div_le_iff₀ (by exact_mod_cast hpos)]
  exact_mod_cast hsum

theorem le_mean {n : Int} (hpos : 0 < stakes samples)
    (h : ∀ s ∈ samples, 0 < s.staked → n ≤ s.value.toInt) : (n : ℚ) ≤ mean samples := by
  have hsum : n * stakes samples ≤ products samples := by
    rw [← weighted_const]
    exact weighted_le h
  rw [mean, le_div_iff₀ (by exact_mod_cast hpos)]
  exact_mod_cast hsum

/-- **A value with a stake is at most the rounded mean.**  Were all of them above it, the mean would
be so by one at least. -/
theorem exists_value_le (hpos : 0 < stakes samples) :
    ∃ low ∈ samples, 0 < low.staked ∧ low.value.toInt ≤ towardZero (mean samples) := by
  by_contra hnone
  push Not at hnone
  have habove : towardZero (mean samples) + 1 ≤ towardZero (mean samples) :=
    le_towardZero (le_mean hpos fun s hs hstaked => hnone s hs hstaked)
  omega

/-- **A value with a stake is at least the rounded mean.** -/
theorem exists_le_value (hpos : 0 < stakes samples) :
    ∃ high ∈ samples, 0 < high.staked ∧ towardZero (mean samples) ≤ high.value.toInt := by
  by_contra hnone
  push Not at hnone
  have hbelow : towardZero (mean samples) ≤ towardZero (mean samples) - 1 :=
    towardZero_le (mean_le hpos fun s hs hstaked => Int.le_sub_one_of_lt (hnone s hs hstaked))
  omega

/-- So the rounded mean is a value of 64 bits. -/
theorem towardZero_mean_bounds (hpos : 0 < stakes samples) :
    -2 ^ 63 ≤ towardZero (mean samples) ∧ towardZero (mean samples) < 2 ^ 63 := by
  obtain ⟨low, -, -, hlow⟩ := exists_value_le hpos
  obtain ⟨high, -, -, hhigh⟩ := exists_le_value hpos
  exact ⟨low.value.le_toInt.trans hlow, lt_of_le_of_lt hhigh high.value.toInt_lt⟩

/-- **The weighted mean of samples with a stake is their exact mean, rounded toward zero.** -/
theorem weightedMean_of_stakes (hpos : 0 < stakes samples) :
    ∃ v, weightedMean samples = some v ∧ v.toInt = towardZero (mean samples) := by
  obtain ⟨hlow, hhigh⟩ := towardZero_mean_bounds hpos
  refine ⟨Int64.ofInt (towardZero (mean samples)), ?_, Int64.toInt_ofInt_of_le hlow hhigh⟩
  rw [weightedMean_eq, if_neg (by omega), tdiv_eq_towardZero, mean]

/-! ## 3. The words -/

section Words

variable {n : Nat} {x y : BitVec n}

/-- The sum of two words without a sign, if it is no longer than they are. -/
def addUnsigned? (x y : BitVec n) : Option (BitVec n) :=
  if x.uaddOverflow y then none else some (x + y)

/-- The sum of two words with a sign, if it is no longer than they are. -/
def addSigned? (x y : BitVec n) : Option (BitVec n) :=
  if x.saddOverflow y then none else some (x + y)

/-- The product of two words with a sign, if it is no longer than they are. -/
def mulSigned? (x y : BitVec n) : Option (BitVec n) :=
  if x.smulOverflow y then none else some (x * y)

/-- The quotient of two words with a sign, if there is one and it is no longer than they are. -/
def divSigned? (x y : BitVec n) : Option (BitVec n) :=
  if y = 0#n ∨ x.sdivOverflow y then none else some (x.sdiv y)

theorem addUnsigned?_eq (h : x.toNat + y.toNat < 2 ^ n) :
    addUnsigned? x y = some (x + y) ∧ (x + y).toNat = x.toNat + y.toNat := by
  have hfits : ¬ x.uaddOverflow y = true := by simpa [BitVec.uaddOverflow] using h
  exact ⟨if_neg hfits, BitVec.toNat_add_of_not_uaddOverflow hfits⟩

theorem addSigned?_eq (hlow : -2 ^ (n - 1) ≤ x.toInt + y.toInt)
    (hhigh : x.toInt + y.toInt < 2 ^ (n - 1)) :
    addSigned? x y = some (x + y) ∧ (x + y).toInt = x.toInt + y.toInt := by
  have hfits : ¬ x.saddOverflow y = true := by
    simp only [BitVec.saddOverflow, Bool.or_eq_true, decide_eq_true_eq]
    omega
  exact ⟨if_neg hfits, BitVec.toInt_add_of_not_saddOverflow hfits⟩

theorem mulSigned?_eq (hlow : -2 ^ (n - 1) ≤ x.toInt * y.toInt)
    (hhigh : x.toInt * y.toInt < 2 ^ (n - 1)) :
    mulSigned? x y = some (x * y) ∧ (x * y).toInt = x.toInt * y.toInt := by
  have hfits : ¬ x.smulOverflow y = true := by
    simp only [BitVec.smulOverflow, Bool.or_eq_true, decide_eq_true_eq]
    omega
  exact ⟨if_neg hfits, BitVec.toInt_mul_of_not_smulOverflow hfits⟩

theorem divSigned?_eq (hpos : 0 < y.toInt) :
    divSigned? x y = some (x.sdiv y) ∧ (x.sdiv y).toInt = x.toInt.tdiv y.toInt := by
  have hzero : y ≠ 0#n := by
    rintro rfl
    simp at hpos
  have hones : y ≠ BitVec.allOnes n := by
    rintro rfl
    rw [BitVec.toInt_allOnes] at hpos
    split at hpos <;> omega
  have hfits : ¬ (y = 0#n ∨ x.sdivOverflow y = true) := by
    simp [hzero, BitVec.sdivOverflow_eq, hones]
  refine ⟨if_neg hfits, BitVec.toInt_sdiv_of_ne_or_ne _ _ (Or.inr ?_)⟩
  rwa [BitVec.neg_one_eq_allOnes]

end Words

/-- A value in 128 bits. -/
def Sample.valueWord (s : Sample) : BitVec 128 := s.value.toBitVec.signExtend 128

/-- A stake in 128 bits. -/
def Sample.stakedWord (s : Sample) : BitVec 128 := s.staked.toBitVec.setWidth 128

/-- The stakes added up on top of `acc`, none if they overflow. -/
def stakesInWords (acc : BitVec 128) (samples : List Sample) : Option (BitVec 128) :=
  samples.foldlM (fun n s => addUnsigned? n s.stakedWord) acc

/-- The products of values and stakes added up on top of `acc`, none if anything overflows. -/
def productsInWords (acc : BitVec 128) (samples : List Sample) : Option (BitVec 128) :=
  samples.foldlM (fun n s => (mulSigned? s.valueWord s.stakedWord).bind (addSigned? n)) acc

/-- The last 64 bits of a word of 128. -/
def cutDown (word : BitVec 128) : Int64 := Int64.ofBitVec (word.setWidth 64)

/-- The weighted mean worked out in words of 128 bits, and its quotient cut down to 64; none if
anything overflows on the way. -/
def meanInWords (samples : List Sample) : Option (Option Int64) :=
  (stakesInWords 0#128 samples).bind fun total =>
    if total = 0#128 then some none
    else (productsInWords 0#128 samples).bind fun sum =>
      (divSigned? sum total).map fun quotient => some (cutDown quotient)

@[simp]
theorem toInt_valueWord (s : Sample) : s.valueWord.toInt = s.value.toInt := by
  rw [Sample.valueWord, BitVec.toInt_signExtend_of_le (by decide), Int64.toInt_toBitVec]

@[simp]
theorem toNat_stakedWord (s : Sample) : s.stakedWord.toNat = s.staked.toNat := by
  rw [Sample.stakedWord, BitVec.toNat_setWidth_of_le (by decide), UInt64.toNat_toBitVec]

@[simp]
theorem toInt_stakedWord (s : Sample) : s.stakedWord.toInt = s.staked.toNat := by
  have hlt := s.staked.toNat_lt
  rw [BitVec.toInt_eq_toNat_of_lt (by rw [toNat_stakedWord]; omega), toNat_stakedWord]

theorem cutDown_eq {word : BitVec 128} {v : Int64} (h : word.toInt = v.toInt) :
    cutDown word = v := by
  have hwide : word = v.toBitVec.signExtend 128 := by
    apply BitVec.eq_of_toInt_eq
    rw [h, BitVec.toInt_signExtend_of_le (by decide), Int64.toInt_toBitVec]
  have hcut : word.setWidth 64 = v.toBitVec := by
    subst hwide
    ext i hi
    simp only [BitVec.getElem_setWidth]
    grind
  rw [cutDown, hcut]
  rfl

/-- The stakes add up without overflow. -/
theorem stakesInWords_eq (acc : BitVec 128) (samples : List Sample)
    (h : acc.toNat + stakes samples < 2 ^ 128) :
    ∃ total, stakesInWords acc samples = some total ∧
      total.toNat = acc.toNat + stakes samples := by
  induction samples generalizing acc with
  | nil => exact ⟨acc, rfl, rfl⟩
  | cons s rest ih =>
    rw [stakes_cons] at h
    obtain ⟨hsum, hnat⟩ := addUnsigned?_eq (x := acc) (y := s.stakedWord)
      (by rw [toNat_stakedWord]; omega)
    rw [toNat_stakedWord] at hnat
    obtain ⟨total, htotal, hvalue⟩ := ih (acc + s.stakedWord) (by omega)
    refine ⟨total, ?_, ?_⟩
    · simpa [stakesInWords, hsum] using htotal
    · rw [hvalue, hnat, stakes_cons]
      omega

/-- **The products add up without overflow.**  What has been added up so far is at most `2 ^ 63`
times the stake seen so far, `seen`. -/
theorem productsInWords_eq (acc : BitVec 128) (samples : List Sample) (seen : Nat)
    (hlow : -(2 ^ 63 * seen) ≤ acc.toInt) (hhigh : acc.toInt ≤ 2 ^ 63 * seen)
    (h : seen + stakes samples < 2 ^ 64) :
    ∃ sum, productsInWords acc samples = some sum ∧
      sum.toInt = acc.toInt + products samples := by
  induction samples generalizing acc seen with
  | nil => exact ⟨acc, rfl, by simp⟩
  | cons s rest ih =>
    rw [stakes_cons] at h
    have hproduct : -(2 ^ 63 * (s.staked.toNat : Int)) ≤ s.value.toInt * s.staked.toNat ∧
        s.value.toInt * s.staked.toNat ≤ 2 ^ 63 * (s.staked.toNat : Int) := by
      have hvlow := s.value.le_toInt
      have hvhigh := s.value.toInt_lt
      constructor <;> nlinarith
    obtain ⟨hmul, hmulInt⟩ := mulSigned?_eq (x := s.valueWord) (y := s.stakedWord)
      (by rw [toInt_valueWord, toInt_stakedWord]; omega)
      (by rw [toInt_valueWord, toInt_stakedWord]; omega)
    rw [toInt_valueWord, toInt_stakedWord] at hmulInt
    obtain ⟨hadd, haddInt⟩ := addSigned?_eq (x := acc) (y := s.valueWord * s.stakedWord)
      (by rw [hmulInt]; omega) (by rw [hmulInt]; omega)
    rw [hmulInt] at haddInt
    obtain ⟨sum, hsum, hvalue⟩ := ih (acc + s.valueWord * s.stakedWord)
      (seen + s.staked.toNat) (by push_cast; omega) (by push_cast; omega) (by omega)
    refine ⟨sum, ?_, ?_⟩
    · simpa [productsInWords, hmul, hadd] using hsum
    · rw [hvalue, haddInt, products_cons]
      omega

/-- **Nothing overflows when the stakes stay below `2 ^ 64`**, and the words say what the numbers
do. -/
theorem meanInWords_eq (h : stakes samples < 2 ^ 64) :
    meanInWords samples = some (weightedMean samples) := by
  obtain ⟨total, htotal, hnat⟩ := stakesInWords_eq 0#128 samples (by simp; omega)
  obtain ⟨sum, hsum, hint⟩ := productsInWords_eq 0#128 samples 0
    (by simp) (by simp) (by omega)
  simp only [BitVec.toNat_ofNat, Nat.zero_mod, Nat.zero_add] at hnat
  simp only [BitVec.toInt_zero, Int.zero_add] at hint
  by_cases hzero : stakes samples = 0
  · have hnone : total = 0#128 := BitVec.eq_of_toNat_eq (by simp [hnat, hzero])
    rw [meanInWords, htotal, weightedMean_eq, if_pos hzero]
    exact if_pos hnone
  · have hne : total ≠ 0#128 := by
      rintro rfl
      exact hzero (by simpa using hnat.symm)
    have htotalInt : total.toInt = stakes samples := by
      rw [BitVec.toInt_eq_toNat_of_lt (by omega), hnat]
    obtain ⟨hdiv, hquotient⟩ := divSigned?_eq (x := sum) (y := total) (by omega)
    obtain ⟨v, hmean, hv⟩ := weightedMean_of_stakes (Nat.pos_of_ne_zero hzero)
    have hcut : cutDown (sum.sdiv total) = v := by
      apply cutDown_eq
      rw [hquotient, hint, htotalInt, tdiv_eq_towardZero, hv, mean]
    rw [meanInWords, htotal, hmean, ← hcut]
    simp [hne, hsum, hdiv]

end Oracle

/-! ## 4. The price after any calls -/

open Oracle Aging

/-- **The price at a height is the exact mean of the recent prices, weighted by stake and rounded
toward zero**, after any calls, as long as their stakes stay below `2 ^ 64`: it is worked out
without overflow, and it lies between two prices with a stake.  Without a stake there is no
price. -/
theorem price_is_mean (calls : List (Call Feed UInt8 Sample)) (height : UInt64)
    (hstakes : stakes ((OracleBook.empty.afterAll calls).prices.recent height).values < 2 ^ 64) :
    let book := OracleBook.empty.afterAll calls
    let samples := (book.prices.recent height).values
    meanInWords samples = some (weightedMean samples) ∧
      (0 < stakes samples → ∃ v, (book.price height).1 = .ok v ∧
        v.toInt = towardZero (mean samples) ∧
        (∃ low ∈ samples, 0 < low.staked ∧ low.value ≤ v) ∧
        ∃ high ∈ samples, 0 < high.staked ∧ v ≤ high.value) ∧
      (stakes samples = 0 →
        (book.price height).1 = .error (.noSamples Protocol.oraclesHeightDistance)) := by
  intro book samples
  refine ⟨meanInWords_eq hstakes, ?_, ?_⟩
  · intro hpos
    obtain ⟨v, hmean, hv⟩ := weightedMean_of_stakes hpos
    obtain ⟨low, hlowIn, hlowStaked, hlow⟩ := exists_value_le hpos
    obtain ⟨high, hhighIn, hhighStaked, hhigh⟩ := exists_le_value hpos
    refine ⟨v, ?_, hv, ⟨low, hlowIn, hlowStaked, ?_⟩, ⟨high, hhighIn, hhighStaked, ?_⟩⟩
    · exact congrArg OracleBook.orNoSamples hmean
    · rwa [Int64.le_iff_toInt_le, hv]
    · rwa [Int64.le_iff_toInt_le, hv]
  · intro hzero
    have hmean : weightedMean samples = none := by
      rw [weightedMean_eq, if_pos hzero]
    exact congrArg OracleBook.orNoSamples hmean

/-- A price at either end of the range, one of them with all but one of the stake. -/
def Sample.extremePrices : List (Call Feed UInt8 Oracle.Sample) :=
  [.save .price 1 ⟨-9223372036854775808, 10, 18446744073709551614⟩,
    .save .price 2 ⟨9223372036854775807, 12, 1⟩, .save .price 3 ⟨5, 2, 7⟩]

/-- The stakes of the two recent prices add up to `2 ^ 64 - 1`, and the mean is negative. -/
theorem price_is_mean_extreme :
    stakes ((OracleBook.empty.afterAll Sample.extremePrices).prices.recent 12).values < 2 ^ 64 ∧
      ∃ v, ((OracleBook.empty.afterAll Sample.extremePrices).price 12).1 = .ok v ∧
        v.toInt = towardZero
          (mean ((OracleBook.empty.afterAll Sample.extremePrices).prices.recent 12).values) := by
  have hstakes :
      stakes ((OracleBook.empty.afterAll Sample.extremePrices).prices.recent 12).values =
        2 ^ 64 - 1 := by
    decide +kernel
  obtain ⟨-, hprice, -⟩ := price_is_mean Sample.extremePrices 12 (by rw [hstakes]; decide)
  obtain ⟨v, hv, hround, -⟩ := hprice (by rw [hstakes]; decide)
  exact ⟨by rw [hstakes]; decide, v, hv, hround⟩

end SynergyNode
