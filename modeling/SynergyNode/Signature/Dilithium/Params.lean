import SynergyNode.Signature.Ring

/-!
# Parameters of Dilithium

Three security levels of one construction over the ring of size 256 modulo 8380417.
-/

namespace SynergyNode.Signature.Dilithium

/-- The numbers that tell the levels apart. -/
structure Params where
  /-- Rows of the public matrix. -/
  rows : Nat
  /-- Columns of the public matrix. -/
  columns : Nat
  /-- Largest coefficient of the secret polynomials. -/
  eta : Nat
  /-- Bits of a secret coefficient. -/
  etaBits : Nat
  /-- Nonzero coefficients of the challenge. -/
  tau : Nat
  /-- Largest coefficient of the challenge times a secret polynomial. -/
  beta : Nat
  /-- Bits of a masked coefficient. -/
  maskBits : Nat
  /-- Half the distance between two high parts. -/
  gamma2 : Nat
  /-- Bits of a high part. -/
  highBits : Nat
  /-- Largest number of hints. -/
  omega : Nat
  /-- Bytes of the challenge hash. -/
  challengeBytes : Nat

namespace Params

/-- Largest masked coefficient. -/
def gamma1 (p : Params) : Nat := 1 <<< (p.maskBits - 1)

/-- Bytes of one masked polynomial. -/
def maskBytes (p : Params) : Nat := 32 * p.maskBits

/-- Bytes of one secret polynomial. -/
def etaBytes (p : Params) : Nat := 32 * p.etaBits

/-- Bytes of a signature. -/
def signatureBytes (p : Params) : Nat :=
  p.challengeBytes + p.columns * p.maskBytes + p.omega + p.rows

end Params

/-- The ring all levels share. -/
def ring : Ring := Ring.make 8 8380417 1753

/-- Bits cut off the public polynomials. -/
def droppedBits : Nat := 13

/-- Security level 2. -/
def level2 : Params :=
  ⟨4, 4, 2, 3, 39, 78, 18, 95232, 6, 80, 32⟩

/-- Security level 3. -/
def level3 : Params :=
  ⟨6, 5, 4, 4, 49, 196, 20, 261888, 4, 55, 48⟩

/-- Security level 5. -/
def level5 : Params :=
  ⟨8, 7, 2, 3, 60, 120, 20, 261888, 4, 75, 64⟩

end SynergyNode.Signature.Dilithium
