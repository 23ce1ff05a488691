import SynergyNode.Hashing.Keccak
import SynergyNode.Signature.Ring

/-!
# Falcon signatures

A signature is a salt and a short polynomial `s2` in a compressed form.  With the message
hashed to a polynomial `c` and the public key `h`, it is valid when `c - s2 h` and `s2`
together are short.

The compressed form has one code for each polynomial: the bits must end exactly where the
signature ends, up to zero bits in its last byte, and zero has no sign.
-/

namespace SynergyNode.Signature.Falcon

open Hashing

/-- The numbers that tell the two sizes apart. -/
structure Params where
  logSize : Nat
  /-- Largest squared length of a signature. -/
  bound : Nat
  ring : Ring

/-- The prime of all sizes. -/
def modulus : Nat := 12289

/-- Polynomials of 512 coefficients. -/
def size512 : Params := ⟨9, 34034726, Ring.make 9 modulus (Ring.powMod modulus 64 11 12)⟩

/-- Polynomials of 1024 coefficients. -/
def size1024 : Params := ⟨10, 70265242, Ring.make 10 modulus (Ring.powMod modulus 64 11 6)⟩

/-! ## 1. Bits, highest first -/

/-- The bits of a byte, highest first. -/
def byteBits (b : UInt8) : List Bool :=
  [b &&& 128 != 0, b &&& 64 != 0, b &&& 32 != 0, b &&& 16 != 0,
   b &&& 8 != 0, b &&& 4 != 0, b &&& 2 != 0, b &&& 1 != 0]

/-- The bits of a byte string. -/
def bits (b : Bytes) : List Bool := b.flatMap byteBits

/-- The number with the given bits, highest first. -/
def bitsValue (bs : List Bool) : Nat :=
  bs.foldl (fun v b => 2 * v + (if b then 1 else 0)) 0

/-! ## 2. Keys and signatures -/

/-- The next `n` coefficients of fourteen bits, all below the modulus. -/
def readCoefficients : (n : Nat) → (acc : Poly) → List Bool → Option Poly
  | 0, acc, rest => if rest.all (!·) then some acc else none
  | n + 1, acc, rest =>
    let v := bitsValue (rest.take 14)
    if v < modulus then readCoefficients n (acc.push v) (rest.drop 14) else none

/-- The polynomial of a public key, after its leading byte. -/
def readPublicKey? (p : Params) : Bytes → Option Poly
  | [] => none
  | b :: r =>
    if b.toNat = p.logSize then readCoefficients (1 <<< p.logSize) #[] (bits r) else none

/-- Counts zeros up to the one that ends the high part, which is at most fifteen. -/
def readHigh : (high : Nat) → List Bool → Option (Nat × List Bool)
  | _, [] => none
  | high, true :: rest => some (high, rest)
  | high, false :: rest => if high + 1 ≤ 15 then readHigh (high + 1) rest else none

/-- One coefficient: its sign, seven low bits, and the high part in unary. -/
def readCompressed (bs : List Bool) : Option (Int × List Bool) :=
  match bs with
  | s :: b6 :: b5 :: b4 :: b3 :: b2 :: b1 :: b0 :: rest =>
    match readHigh 0 rest with
    | none => none
    | some (high, rest) =>
      let v := 128 * high + bitsValue [b6, b5, b4, b3, b2, b1, b0]
      if s then (if v = 0 then none else some (-(v : Int), rest)) else some (v, rest)
  | _ => none

/-- Reads `n` compressed coefficients; fewer than eight zero bits may follow. -/
def readSignature : (n : Nat) → (acc : Array Int) → List Bool → Option (Array Int)
  | 0, acc, rest => if rest.length < 8 && rest.all (!·) then some acc else none
  | n + 1, acc, bs =>
    match readCompressed bs with
    | some (v, rest) => readSignature n (acc.push v) rest
    | none => none

/-! ## 3. Hashing to a polynomial -/

/-- Adds the two-byte values below five times the modulus until there are `n`. -/
def takePoints (n : Nat) (acc : Poly) : Bytes → Poly
  | a :: b :: r =>
    if acc.size < n then
      let v := 256 * a.toNat + b.toNat
      takePoints n (if v < 5 * modulus then acc.push (v % modulus) else acc) r
    else acc
  | _ => acc

/-- Reads blocks until the polynomial is complete. -/
def pointBlocks (n : Nat) : (fuel : Nat) → Poly → Keccak.Sponge → Poly
  | 0, acc, _ => acc
  | fuel + 1, acc, s =>
    if acc.size < n then
      let (block, s) := s.next
      pointBlocks n fuel (takePoints n acc block) s
    else acc

/-- The polynomial of a salted message. -/
def hashToPoint (n : Nat) (salted : Bytes) : Poly :=
  pointBlocks n 256 #[] (Keccak.shake256 salted)

/-! ## 4. Verification -/

/-- The squared length of a vector of integers. -/
def squaredNorm (v : Array Int) : Nat :=
  v.foldl (fun acc a => acc + a.natAbs * a.natAbs) 0

/-- Whether a signature on a message is valid under a public key. -/
def verify (p : Params) (publicKey message signature : Bytes) : Bool :=
  match signature with
  | [] => false
  | header :: r =>
    let salt := r.take 40
    let compressed := r.drop 40
    if header.toNat ≠ 0x30 + p.logSize ∨ salt.length ≠ 40 then false
    else
      match readPublicKey? p publicKey, readSignature (1 <<< p.logSize) #[] (bits compressed) with
      | some h, some s2 =>
        let c := hashToPoint (1 <<< p.logSize) (salt ++ message)
        let product := p.ring.inverse (p.ring.mulPoints
          (p.ring.transform (s2.map p.ring.ofInt)) (p.ring.transform h))
        let s1 := (p.ring.sub c product).map p.ring.centered
        squaredNorm s1 + squaredNorm s2 ≤ p.bound
      | _, _ => false

end SynergyNode.Signature.Falcon
