import SynergyNode.Signature.Suite
import SynergyNode.Signature.Descriptor

/-!
# The live schemes

The descriptor in force in each slot.  A signature made with the key of a slot is checked
against that slot's scheme; a paused slot accepts none.
-/

namespace SynergyNode

/-- The descriptor in force in each slot. -/
abbrev LiveSchemes := PerSlot Descriptor

/-- Which slot a node prefers to sign with. -/
inductive SignKeyChoice where
  | random
  | preferPrimary
  | preferSecondary
deriving DecidableEq

/-- The name of a choice. -/
def SignKeyChoice.name : SignKeyChoice → String
  | .random => "Random"
  | .preferPrimary => "PreferPrimary"
  | .preferSecondary => "PreferSecondary"

namespace LiveSchemes

/-- The schemes of a new chain. -/
def initial : LiveSchemes :=
  ⟨Descriptor.ofScheme .falcon512 false, Descriptor.ofScheme .dilithium5 false⟩

/-- Checks a signature made with the key of a slot. -/
def verify [SignatureSuite] (live : LiveSchemes) (slot : Slot)
    (publicKey message signature : Bytes) : Except SchemeError Unit :=
  let d := live.get slot
  if d.paused then .error (.paused slot)
  else
    match d.scheme with
    | .error e => .error (.key e)
    | .ok s =>
      if s.verify publicKey message signature then .ok () else .error (.badSignature s)

/-- The slot to sign with at a height: the primary at the start of the chain, the preferred one
when both are in use, else the one that is not paused.  A node without preference uses
`coin`. -/
def signingSlot (live : LiveSchemes) (height : UInt64) (choice : SignKeyChoice)
    (coin : Slot) : Slot :=
  if height = 0 then .primary
  else
    match live.primary.paused, live.secondary.paused with
    | false, false =>
      match choice with
      | .random => coin
      | .preferPrimary => .primary
      | .preferSecondary => .secondary
    | true, false => .secondary
    | _, _ => .primary

end LiveSchemes

end SynergyNode
