import SynergyNode.Signature.Dilithium.Sampling

/-!
# Packed keys, signatures and hints

Polynomials stand one after the other in fields of a fixed width.  The hints of a signature
are lists of places: the places themselves, in increasing order for each row and padded with
zeros, then the running count after each row.  Every other form is refused.
-/

namespace SynergyNode.Signature.Dilithium

/-- The first `n` pieces of `size` bytes. -/
def slices (size : Nat) : (n : Nat) → Bytes → List Bytes
  | 0, _ => []
  | n + 1, b => b.take size :: slices size n (b.drop size)

/-! ## 1. Keys -/

/-- A public key: the seed of the matrix and the high bits of the public polynomials. -/
structure PublicKey where
  rho : Bytes
  t1 : List Poly

/-- Unpacks a public key. -/
def PublicKey.ofBytes (p : Params) (b : Bytes) : PublicKey where
  rho := b.take 32
  t1 := (slices 320 p.rows (b.drop 32)).map fun s => (Bits.unpack 10 256 s).toArray

/-- A secret key. -/
structure SecretKey where
  rho : Bytes
  seed : Bytes
  publicHash : Bytes
  s1 : List Poly
  s2 : List Poly
  t0 : List Poly

/-- A polynomial of small coefficients around zero, written as distances from `top`. -/
def unpackBelow (top width : Nat) (b : Bytes) : Poly :=
  ((Bits.unpack width 256 b).map fun (v : Nat) =>
    (top + ring.modulus - v) % ring.modulus).toArray

/-- Unpacks a secret key. -/
def SecretKey.ofBytes (p : Params) (b : Bytes) : SecretKey :=
  let small (s : Bytes) : Poly := unpackBelow p.eta p.etaBits s
  let r := b.drop 128
  let r2 := r.drop (p.columns * p.etaBytes)
  let r0 := r2.drop (p.rows * p.etaBytes)
  { rho := b.take 32
    seed := (b.drop 32).take 32
    publicHash := (b.drop 64).take 64
    s1 := (slices p.etaBytes p.columns r).map small
    s2 := (slices p.etaBytes p.rows r2).map small
    t0 := (slices 416 p.rows r0).map (unpackBelow (1 <<< (droppedBits - 1)) droppedBits) }

/-! ## 2. Hints -/

/-- The hints of one row, one truth value for each coefficient. -/
abbrev Hints := Array Bool

/-- The places must increase. -/
def increasing : Bytes → Bool
  | a :: b :: r => decide (a < b) && increasing (b :: r)
  | _ => true

/-- Unpacks the rows from the counts, given the places that are left and how many were used. -/
def unpackRows (omega : Nat) : (used : Nat) → (places : Bytes) → (counts : Bytes) →
    Option (List Hints)
  | _, places, [] => if places.all (· == 0) then some [] else none
  | used, places, c :: counts =>
    if c.toNat < used ∨ omega < c.toNat then none
    else
      let row := places.take (c.toNat - used)
      if increasing row then
        let hints := row.foldl (fun h i => h.setIfInBounds i.toNat true)
          (Array.replicate 256 false)
        (unpackRows omega c.toNat (places.drop (c.toNat - used)) counts).map (hints :: ·)
      else none

/-- Unpacks all hints. -/
def unpackHints (p : Params) (b : Bytes) : Option (List Hints) :=
  unpackRows p.omega 0 (b.take p.omega) ((b.drop p.omega).take p.rows)

/-- The places of the hints of a row. -/
def hintPlaces (h : Hints) : Bytes :=
  ((List.range 256).filter fun i => h.getD i false).map UInt8.ofNat

/-- The running counts of a list of rows. -/
def runningCounts : (used : Nat) → List Bytes → Bytes
  | _, [] => []
  | used, row :: rows =>
    UInt8.ofNat (used + row.length) :: runningCounts (used + row.length) rows

/-- Packs hints, of which there are at most `omega`. -/
def packHints (p : Params) (hs : List Hints) : Bytes :=
  let rows := hs.map hintPlaces
  let places := rows.flatten
  places ++ List.replicate (p.omega - places.length) 0 ++ runningCounts 0 rows

/-! ## 3. Signatures -/

/-- A signature. -/
structure Sig where
  challengeHash : Bytes
  z : List Poly
  hints : List Hints

/-- Unpacks a signature of the right length. -/
def Sig.ofBytes? (p : Params) (b : Bytes) : Option Sig :=
  if b.length = p.signatureBytes then
    let r := b.drop p.challengeBytes
    (unpackHints p (r.drop (p.columns * p.maskBytes))).map fun hints =>
      { challengeHash := b.take p.challengeBytes
        z := (slices p.maskBytes p.columns r).map (unpackMask p)
        hints := hints }
  else none

/-- Packs a polynomial of masked coefficients. -/
def packMask (p : Params) (f : Poly) : Bytes :=
  Bits.pack p.maskBits (f.toList.map fun a => (p.gamma1 + ring.modulus - a) % ring.modulus)

/-- Packs a signature. -/
def Sig.toBytes (p : Params) (s : Sig) : Bytes :=
  s.challengeHash ++ s.z.flatMap (packMask p) ++ packHints p s.hints

/-- Packs the high parts of a vector for hashing. -/
def packHigh (p : Params) (w : List Poly) : Bytes :=
  w.flatMap fun f => Bits.pack p.highBits f.toList

end SynergyNode.Signature.Dilithium
