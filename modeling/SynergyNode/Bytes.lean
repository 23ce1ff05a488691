import Std.Data.ExtTreeMap
import Std.Data.ExtTreeSet

/-!
# Byte strings

Every codec, hash and signature of the node works on byte strings.  This file holds

* `Bytes`, the byte strings, with their hexadecimal text (`Bytes.toHex`, `Bytes.ofHex?`);
* little-endian words (`leBytes`, `ofLe`), and that reading inverts writing
  (`ofLe_leBytes`, `leBytes_ofLe`);
* `FixedBytes n`, the byte strings of one length, ordered bytewise.
-/

namespace SynergyNode

/-- A byte string. -/
abbrev Bytes := List UInt8

/-! ## 1. Hexadecimal text -/

namespace Bytes

/-- The lowercase hexadecimal digit of a value below sixteen. -/
def hexDigit (n : Nat) : Char :=
  if n < 10 then Char.ofNat (48 + n) else Char.ofNat (87 + n)

/-- The two hexadecimal digits of a byte, high half first. -/
def hexPair (b : UInt8) : List Char :=
  [hexDigit (b.toNat / 16), hexDigit (b.toNat % 16)]

/-- The lowercase hexadecimal text of a byte string, two digits a byte. -/
def toHex (b : Bytes) : String :=
  String.ofList (b.flatMap hexPair)

/-- The value of a hexadecimal digit in either case. -/
def hexValue? (c : Char) : Option Nat :=
  if '0' ≤ c ∧ c ≤ '9' then some (c.toNat - 48)
  else if 'a' ≤ c ∧ c ≤ 'f' then some (c.toNat - 87)
  else if 'A' ≤ c ∧ c ≤ 'F' then some (c.toNat - 55)
  else none

/-- Reads pairs of digits onto the reversed bytes read so far. -/
def readHexPairs (acc : Bytes) : List Char → Option Bytes
  | [] => some acc.reverse
  | [_] => none
  | h :: l :: rest =>
    match hexValue? h, hexValue? l with
    | some a, some b => readHexPairs (UInt8.ofNat (16 * a + b) :: acc) rest
    | _, _ => none

/-- The bytes of a hexadecimal text; an odd digit count or a foreign character has none. -/
def ofHex? (s : String) : Option Bytes :=
  readHexPairs [] s.toList

end Bytes

/-! ## 2. Little-endian words -/

/-- The `width` low bytes of `n`, least significant first. -/
def leBytes : (width : Nat) → (n : Nat) → Bytes
  | 0, _ => []
  | w + 1, n => UInt8.ofNat (n % 256) :: leBytes w (n / 256)

/-- The number whose bytes, least significant first, are `b`. -/
def ofLe : Bytes → Nat
  | [] => 0
  | b :: r => b.toNat + 256 * ofLe r

@[simp] theorem length_leBytes (w n : Nat) : (leBytes w n).length = w := by
  induction w generalizing n with
  | zero => rfl
  | succ w ih => simp [leBytes, ih]

/-- How many numbers have a form of `width` bytes. -/
def byteRange : (width : Nat) → Nat
  | 0 => 1
  | w + 1 => 256 * byteRange w

/-- Reading back a written word gives it modulo its width. -/
theorem ofLe_leBytes (w n : Nat) : ofLe (leBytes w n) = n % byteRange w := by
  induction w generalizing n with
  | zero => simp [leBytes, ofLe, byteRange, Nat.mod_one]
  | succ w ih =>
    have hb : (UInt8.ofNat (n % 256)).toNat = n % 256 := by simp
    simp only [leBytes, ofLe, ih, hb, byteRange, Nat.mod_mul]

/-- A byte string is the little-endian form of the number it denotes. -/
theorem leBytes_ofLe (b : Bytes) : leBytes b.length (ofLe b) = b := by
  induction b with
  | nil => rfl
  | cons x r ih =>
    have hx : x.toNat < 256 := x.toNat_lt
    have h1 : (x.toNat + 256 * ofLe r) % 256 = x.toNat := by omega
    have h2 : (x.toNat + 256 * ofLe r) / 256 = ofLe r := by omega
    simp only [List.length_cons, leBytes, ofLe, h1, h2, ih, UInt8.ofNat_toNat]

/-- A byte string denotes one of the numbers with a form of its length. -/
theorem ofLe_lt (b : Bytes) : ofLe b < byteRange b.length := by
  induction b with
  | nil => simp [ofLe, byteRange]
  | cons x r ih =>
    have hx : x.toNat < 256 := x.toNat_lt
    simp only [ofLe, List.length_cons, byteRange]
    omega

/-! ## 3. Byte strings of one length -/

/-- A byte string of exactly `n` bytes. -/
structure FixedBytes (n : Nat) where
  toList : Bytes
  length_toList : toList.length = n
deriving DecidableEq

namespace FixedBytes

variable {n : Nat}

@[ext] theorem ext {a b : FixedBytes n} (h : a.toList = b.toList) : a = b := by
  cases a; cases b; simp_all

/-- The string of `n` zero bytes. -/
def zero (n : Nat) : FixedBytes n :=
  ⟨List.replicate n 0, List.length_replicate⟩

instance : Inhabited (FixedBytes n) := ⟨zero n⟩

/-- The given bytes, if there are exactly `n` of them. -/
def ofBytes? (b : Bytes) : Option (FixedBytes n) :=
  if h : b.length = n then some ⟨b, h⟩ else none

/-- The first `n` bytes of `b`, zeros standing for missing ones. -/
def ofBytesPadded (n : Nat) (b : Bytes) : FixedBytes n :=
  ⟨b.take n ++ List.replicate (n - b.length) 0, by
    simp only [List.length_append, List.length_take, List.length_replicate]; omega⟩

/-- The lowercase hexadecimal text. -/
def toHex (b : FixedBytes n) : String :=
  Bytes.toHex b.toList

/-- Byte strings are ordered by their first differing byte. -/
instance : Ord (FixedBytes n) := ⟨fun a b => compare a.toList b.toList⟩

theorem compare_def (a b : FixedBytes n) : compare a b = compare a.toList b.toList := rfl

instance : Std.TransOrd (FixedBytes n) where
  eq_swap {a b} := by rw [compare_def, compare_def]; exact Std.OrientedCmp.eq_swap
  isLE_trans {a b c} h₁ h₂ := by
    rw [compare_def] at *; exact Std.TransCmp.isLE_trans h₁ h₂

instance : Std.LawfulEqOrd (FixedBytes n) where
  compare_self {a} := by rw [compare_def]; exact Std.ReflCmp.compare_self
  eq_of_compare {a b} h := by
    rw [compare_def] at h; exact ext (Std.LawfulEqCmp.eq_of_compare h)

end FixedBytes

end SynergyNode
