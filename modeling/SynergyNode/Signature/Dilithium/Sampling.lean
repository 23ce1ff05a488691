import SynergyNode.Hashing.Keccak
import SynergyNode.Signature.Bits
import SynergyNode.Signature.Dilithium.Params

/-!
# Sampling for Dilithium

The public matrix, the masks and the challenge are read off the output of SHAKE.  Values that
do not fit are skipped; `fuel` bounds the blocks of output looked at, far above what any seed
needs.
-/

namespace SynergyNode.Signature.Dilithium

open Hashing

/-- Adds to `acc` the three-byte values below the modulus until there are 256. -/
def takeUniform (acc : Poly) : Bytes → Poly
  | a :: b :: c :: r =>
    if acc.size < 256 then
      let v := a.toNat + 256 * b.toNat + 65536 * (c.toNat % 128)
      takeUniform (if v < ring.modulus then acc.push v else acc) r
    else acc
  | _ => acc

/-- Reads blocks until the polynomial is complete. -/
def uniformBlocks : (fuel : Nat) → Poly → Keccak.Sponge → Poly
  | 0, acc, _ => acc
  | fuel + 1, acc, s =>
    if acc.size < 256 then
      let (block, s) := s.next
      uniformBlocks fuel (takeUniform acc block) s
    else acc

/-- The transform at one place of the public matrix. -/
def matrixEntry (rho : Bytes) (row column : Nat) : Poly :=
  uniformBlocks 64 #[]
    (Keccak.shake128 (rho ++ [UInt8.ofNat column, UInt8.ofNat row]))

/-- The public matrix, row by row. -/
def matrix (p : Params) (rho : Bytes) : List (List Poly) :=
  (List.range p.rows).map fun i => (List.range p.columns).map fun j => matrixEntry rho i j

/-- A polynomial of masked coefficients from its packed form. -/
def unpackMask (p : Params) (b : Bytes) : Poly :=
  ((Bits.unpack p.maskBits 256 b).map fun (v : Nat) =>
    (p.gamma1 + ring.modulus - v) % ring.modulus).toArray

/-- The mask with the given number. -/
def mask (p : Params) (seed : Bytes) (number : Nat) : Poly :=
  unpackMask p ((Keccak.shake256 (seed ++ leBytes 2 number)).squeeze p.maskBytes)

/-- Places of nonzero coefficients still to come, and the output left to choose them. -/
structure ChallengeState where
  poly : Poly
  signs : List Bool

/-- Goes through the output: a byte at most `i` fixes the coefficient for `i`. -/
def challengeBytes (c : ChallengeState) (i : Nat) : Bytes → ChallengeState × Nat
  | [] => (c, i)
  | b :: r =>
    if i < 256 then
      if b.toNat ≤ i then
        let negative := c.signs.headD false
        let poly := c.poly.setIfInBounds i (c.poly.getD b.toNat 0)
        let poly := poly.setIfInBounds b.toNat (if negative then ring.modulus - 1 else 1)
        challengeBytes ⟨poly, c.signs.tail⟩ (i + 1) r
      else challengeBytes c i r
    else (c, i)

/-- Reads blocks until all nonzero coefficients are placed. -/
def challengeBlocks : (fuel : Nat) → ChallengeState → (i : Nat) → Keccak.Sponge → Poly
  | 0, c, _, _ => c.poly
  | fuel + 1, c, i, s =>
    if i < 256 then
      let (block, s) := s.next
      let (c, i) := challengeBytes c i block
      challengeBlocks fuel c i s
    else c.poly

/-- The challenge polynomial: `tau` coefficients are one or minus one, chosen by the first 32
bytes of the challenge hash. -/
def challenge (p : Params) (hash : Bytes) : Poly :=
  let (block, s) := (Keccak.shake256 (hash.take 32)).next
  let signs := Bits.ofBytes (block.take 8)
  let (c, i) := challengeBytes ⟨ring.zero, signs⟩ (256 - p.tau) (block.drop 8)
  challengeBlocks 64 c i s

end SynergyNode.Signature.Dilithium
