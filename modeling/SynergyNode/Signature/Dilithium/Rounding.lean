import SynergyNode.Signature.Dilithium.Params

/-!
# High and low parts

A coefficient is split into a multiple of `2 gamma2` and a rest next to zero.  A hint of one
bit lets a verifier recover the high part of a coefficient it knows only up to a small error.
-/

namespace SynergyNode.Signature.Dilithium

/-- The high part and the rest; the last, incomplete interval counts to the first. -/
def decompose (p : Params) (a : Nat) : Nat × Int :=
  let step := 2 * p.gamma2
  let low := a % step
  let rest : Int := if p.gamma2 < low then (low : Int) - step else low
  if (a : Int) - rest = ring.modulus - 1 then (0, rest - 1)
  else ((((a : Int) - rest) / step).toNat, rest)

/-- The number of high parts. -/
def highCount (p : Params) : Nat := (ring.modulus - 1) / (2 * p.gamma2)

/-- The high part, moved to the neighbour that the rest points to if there is a hint. -/
def useHint (p : Params) (hint : Bool) (a : Nat) : Nat :=
  let (high, rest) := decompose p a
  if hint then
    if 0 < rest then (high + 1) % highCount p
    else (high + highCount p - 1) % highCount p
  else high

/-- Whether a hint is needed when the rest, after a change, no longer fits its high part. -/
def needsHint (p : Params) (rest : Int) (high : Nat) : Bool :=
  decide ((p.gamma2 : Int) < rest ∨ rest < -(p.gamma2 : Int) ∨
    (rest = -(p.gamma2 : Int) ∧ high ≠ 0))

end SynergyNode.Signature.Dilithium
