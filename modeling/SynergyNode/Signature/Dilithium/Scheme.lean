import SynergyNode.Signature.Dilithium.Rounding
import SynergyNode.Signature.Dilithium.Encoding

/-!
# Dilithium signatures

`verify` recomputes the high parts that the signer hashed from the response, the challenge and
the hints.  `sign` is deterministic: the masks come from the key, the message and an attempt
number, and the first attempt whose response leaks nothing about the key is the signature.
-/

namespace SynergyNode.Signature.Dilithium

open Hashing

/-- A row of the matrix times a vector of transforms. -/
def dot (row v : List Poly) : Poly :=
  (row.zip v).foldl (fun acc fg => ring.add acc (ring.mulPoints fg.1 fg.2)) ring.zero

/-- The hash that stands for the message. -/
def messageHash (publicHash message : Bytes) : Bytes :=
  (Keccak.shake256 (publicHash ++ message)).squeeze 64

/-- The hash from which the challenge is made. -/
def challengeHash (p : Params) (mu : Bytes) (high : List Poly) : Bytes :=
  (Keccak.shake256 (mu ++ packHigh p high)).squeeze p.challengeBytes

/-! ## 1. Verification -/

/-- Whether a signature on a message is valid under a public key. -/
def verify (p : Params) (publicKey message signature : Bytes) : Bool :=
  match Sig.ofBytes? p signature with
  | none => false
  | some sig =>
    if sig.z.any (ring.exceeds (p.gamma1 - p.beta)) then false
    else
      let pk := PublicKey.ofBytes p publicKey
      let mu := messageHash ((Keccak.shake256 publicKey).squeeze 64) message
      let c := ring.transform (challenge p sig.challengeHash)
      let z := sig.z.map ring.transform
      let rows := (matrix p pk.rho).zip (pk.t1.zip sig.hints)
      let high := rows.map fun (row, t1, hints) =>
        let shifted := ring.transform (t1.map fun a => a <<< droppedBits % ring.modulus)
        let w := ring.inverse (ring.sub (dot row z) (ring.mulPoints c shifted))
        w.mapIdx fun i a => useHint p (hints.getD i false) a
      challengeHash p mu high == sig.challengeHash

/-! ## 2. Signing -/

/-- A secret key ready for use: the matrix and the transforms of the secret polynomials. -/
structure Signer where
  matrix : List (List Poly)
  s1 : List Poly
  s2 : List Poly
  t0 : List Poly
  maskSeed : Bytes
  mu : Bytes

/-- Prepares a key for one message. -/
def Signer.make (p : Params) (secretKey message : Bytes) : Signer :=
  let sk := SecretKey.ofBytes p secretKey
  let mu := messageHash sk.publicHash message
  { matrix := Dilithium.matrix p sk.rho
    s1 := sk.s1.map ring.transform
    s2 := sk.s2.map ring.transform
    t0 := sk.t0.map ring.transform
    maskSeed := (Keccak.shake256 (sk.seed ++ List.replicate 32 0 ++ mu)).squeeze 64
    mu := mu }

/-- One attempt; it is refused when the response or a rest would depend on the key. -/
def Signer.attempt? (p : Params) (k : Signer) (number : Nat) : Option Sig :=
  let y := (List.range p.columns).map fun i => mask p k.maskSeed (p.columns * number + i)
  let yt := y.map ring.transform
  let w := k.matrix.map fun row => ring.inverse (dot row yt)
  let parts := w.map fun f => f.map (decompose p)
  let high := parts.map fun f => f.map Prod.fst
  let hash := challengeHash p k.mu high
  let c := ring.transform (challenge p hash)
  let times (f : Poly) : Poly := ring.inverse (ring.mulPoints c f)
  let z := (k.s1.zip y).map fun (s, m) => ring.add (times s) m
  if z.any (ring.exceeds (p.gamma1 - p.beta)) then none
  else
    let rest := (parts.zip k.s2).map fun (f, s) =>
      ring.sub (f.map fun q => ring.ofInt q.2) (times s)
    if rest.any (ring.exceeds (p.gamma2 - p.beta)) then none
    else
      let error := k.t0.map times
      if error.any (ring.exceeds p.gamma2) then none
      else
        let hints := (rest.zip (error.zip high)).map fun (f, e, h) =>
          (ring.add f e).zipWith (fun a g => needsHint p (ring.centered a) g) h
        let count := hints.foldl (fun n h => n + h.countP id) 0
        if p.omega < count then none else some ⟨hash, z, hints⟩

/-- The first accepted attempt from the given number on. -/
def Signer.search (p : Params) (k : Signer) : (fuel : Nat) → (number : Nat) → Option Sig
  | 0, _ => none
  | fuel + 1, number =>
    match k.attempt? p number with
    | some s => some s
    | none => search p k fuel (number + 1)

/-- The signature on a message; empty for a key with which no attempt succeeds. -/
def sign (p : Params) (secretKey message : Bytes) : Bytes :=
  match (Signer.make p secretKey message).search p 4096 0 with
  | some s => s.toBytes p
  | none => []

end SynergyNode.Signature.Dilithium
