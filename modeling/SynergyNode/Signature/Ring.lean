/-!
# Polynomials modulo `x ^ n + 1` over a prime field

Both families of lattice signatures multiply polynomials with coefficients modulo a prime `q`,
reduced by `x ^ n + 1` for a power of two `n`.  Where `q` has a root of unity of order `2 n`,
the number-theoretic transform turns the product into one of values, point by point.

A polynomial is the array of its `n` coefficients, each below `q`; its transform is an array
of the same shape, in bit-reversed order.
-/

namespace SynergyNode.Signature

/-- A polynomial, or its transform. -/
abbrev Poly := Array Nat

/-- A ring of polynomials with what the transform needs. -/
structure Ring where
  /-- The number of coefficients. -/
  size : Nat
  /-- The prime. -/
  modulus : Nat
  /-- The inverse of `size`. -/
  sizeInverse : Nat
  /-- Powers of the root of unity in bit-reversed order. -/
  zetas : Array Nat

namespace Ring

/-- `base ^ e` modulo `q`, by squaring; `fuel` bounds the binary digits of `e`. -/
def powMod (q : Nat) : (fuel : Nat) → (base e : Nat) → Nat
  | 0, _, _ => 1 % q
  | fuel + 1, base, e =>
    if e = 0 then 1 % q
    else
      let half := powMod q fuel (base * base % q) (e / 2)
      if e % 2 = 1 then half * base % q else half

/-- The `bits` low binary digits of `i` in reverse order. -/
def reverseBits : (bits : Nat) → (i : Nat) → Nat
  | 0, _ => 0
  | b + 1, i => (i % 2) <<< b + reverseBits b (i / 2)

/-- The ring of size `2 ^ logSize` modulo `q`, with a root of unity of order `2 ^ (logSize + 1)`. -/
def make (logSize q root : Nat) : Ring where
  size := 1 <<< logSize
  modulus := q
  sizeInverse := powMod q 64 (1 <<< logSize) (q - 2)
  zetas := Array.ofFn fun i : Fin (1 <<< logSize) => powMod q 64 root (reverseBits logSize i.val)

variable (R : Ring)

/-- The polynomial zero. -/
def zero : Poly := Array.replicate R.size 0

/-- Coefficientwise sum. -/
def add (f g : Poly) : Poly := f.zipWith (fun a b => (a + b) % R.modulus) g

/-- Coefficientwise difference. -/
def sub (f g : Poly) : Poly := f.zipWith (fun a b => (a + R.modulus - b) % R.modulus) g

/-- Coefficientwise product, the product of two transforms. -/
def mulPoints (f g : Poly) : Poly := f.zipWith (fun a b => a * b % R.modulus) g

/-- One level of the transform: pairs `len` apart. -/
def splitLevel (len : Nat) (w : Poly) : Poly :=
  Nat.fold (R.size / 2) (fun i _ w =>
    let block := i / len
    let j := i % len + 2 * len * block
    let z := R.zetas.getD (R.size / (2 * len) + block) 0
    let a := w.getD j 0
    let t := z * w.getD (j + len) 0 % R.modulus
    (w.setIfInBounds (j + len) ((a + R.modulus - t) % R.modulus)).setIfInBounds j
      ((a + t) % R.modulus)) w

/-- One level of the inverse transform, up to a factor two. -/
def joinLevel (len : Nat) (w : Poly) : Poly :=
  Nat.fold (R.size / 2) (fun i _ w =>
    let block := i / len
    let j := i % len + 2 * len * block
    let z := R.zetas.getD (R.size / len - 1 - block) 0
    let a := w.getD j 0
    let b := w.getD (j + len) 0
    (w.setIfInBounds (j + len) (z * (b + R.modulus - a) % R.modulus)).setIfInBounds j
      ((a + b) % R.modulus)) w

/-- The distances `len, len / 2, …, 1`. -/
def distances : (fuel : Nat) → (len : Nat) → List Nat
  | 0, _ => []
  | fuel + 1, len => if len = 0 then [] else len :: distances fuel (len / 2)

/-- The transform. -/
def transform (f : Poly) : Poly :=
  (distances 64 (R.size / 2)).foldl (fun w len => R.splitLevel len w) f

/-- The polynomial with a given transform. -/
def inverse (f : Poly) : Poly :=
  let w := (distances 64 (R.size / 2)).reverse.foldl (fun w len => R.joinLevel len w) f
  w.map fun a => a * R.sizeInverse % R.modulus

/-- The representative of a coefficient next to zero. -/
def centered (a : Nat) : Int :=
  if R.modulus / 2 < a then (a : Int) - R.modulus else a

/-- The coefficient of an integer. -/
def ofInt (a : Int) : Nat := (a % R.modulus).toNat

/-- Whether a coefficient is `bound` or more away from zero. -/
def exceeds (bound : Nat) (f : Poly) : Bool :=
  f.any fun a => bound ≤ min a (R.modulus - a)

end Ring

end SynergyNode.Signature
