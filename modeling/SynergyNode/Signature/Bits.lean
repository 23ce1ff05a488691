import SynergyNode.Bytes

/-!
# Packed bit fields

Coefficients are written as fields of a fixed number of bits, the lowest bit first, one after
the other across the bytes.
-/

namespace SynergyNode.Signature.Bits

/-- The `n` low bits of a number, lowest first. -/
def ofNat : (n : Nat) → Nat → List Bool
  | 0, _ => []
  | n + 1, v => (v % 2 == 1) :: ofNat n (v / 2)

/-- The number whose bits, lowest first, are given. -/
def toNat : List Bool → Nat
  | [] => 0
  | b :: r => (if b then 1 else 0) + 2 * toNat r

/-- The bits of a byte string. -/
def ofBytes (b : Bytes) : List Bool :=
  b.flatMap fun x => ofNat 8 x.toNat

/-- The first `n` fields of `width` bits. -/
def fields (width : Nat) : (n : Nat) → List Bool → List Nat
  | 0, _ => []
  | n + 1, bits => toNat (bits.take width) :: fields width n (bits.drop width)

/-- The first `n` fields of `width` bits in a byte string. -/
def unpack (width n : Nat) (b : Bytes) : List Nat :=
  fields width n (ofBytes b)

/-- The bytes that `n` times eight bits fill. -/
def toBytes : (n : Nat) → List Bool → Bytes
  | 0, _ => []
  | n + 1, bits => UInt8.ofNat (toNat (bits.take 8)) :: toBytes n (bits.drop 8)

/-- The given numbers as fields of `width` bits, filled up to a whole byte. -/
def pack (width : Nat) (values : List Nat) : Bytes :=
  let bits := values.flatMap (ofNat width)
  toBytes ((bits.length + 7) / 8) bits

end SynergyNode.Signature.Bits
