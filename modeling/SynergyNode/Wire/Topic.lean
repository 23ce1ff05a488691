import SynergyNode.Bytes

/-!
# Topics and field keys

A topic is two bytes.  It names a service that a node offers on a port of its own, and in the
same shape the entries inside a message.
-/

namespace SynergyNode

/-- Two bytes that name a service or a message entry. -/
structure Topic where
  first : UInt8
  second : UInt8
deriving DecidableEq

namespace Topic

/-- The two bytes in order. -/
def toBytes (t : Topic) : Bytes := [t.first, t.second]

/-- The topic two characters below 256 stand for. -/
def ofChars (a b : Char) : Topic := ⟨UInt8.ofNat a.toNat, UInt8.ofNat b.toNat⟩

/-- Topics are ordered by their bytes. -/
instance : Ord Topic := ⟨fun a b => compare a.toBytes b.toBytes⟩

theorem compare_def (a b : Topic) : compare a b = compare a.toBytes b.toBytes := rfl

instance : Std.TransOrd Topic where
  eq_swap {a b} := by rw [compare_def, compare_def]; exact Std.OrientedCmp.eq_swap
  isLE_trans {a b c} h₁ h₂ := by
    rw [compare_def] at *; exact Std.TransCmp.isLE_trans h₁ h₂

instance : Std.LawfulEqOrd Topic where
  compare_self {a} := by rw [compare_def]; exact Std.ReflCmp.compare_self
  eq_of_compare {a b} h := by
    rw [compare_def] at h
    have := Std.LawfulEqCmp.eq_of_compare h
    cases a; cases b; simp_all [toBytes]

/-- A byte that shows as a mark of its own. -/
def isGraphic (b : UInt8) : Bool := decide (0x21 ≤ b ∧ b ≤ 0x7E)

/-- The two characters, or four digits when one of them would not show. -/
def toText (t : Topic) : String :=
  if isGraphic t.first && isGraphic t.second then
    String.ofList [Char.ofNat t.first.toNat, Char.ofNat t.second.toNat]
  else Bytes.toHex t.toBytes

/-! ## 1. Services -/

/-- Spreading transactions. -/
def transaction : Topic := ofChars 'T' 'T'
/-- Opening rounds. -/
def nonce : Topic := ofChars 'N' 'N'
/-- A node's own rounds. -/
def selfNonce : Topic := ofChars 'S' 'S'
/-- Blocks and heights. -/
def sync : Topic := ofChars 'B' 'B'
/-- Remote calls. -/
def rpc : Topic := ofChars 'R' 'P'

/-- Every service. -/
def services : List Topic := [transaction, nonce, selfNonce, sync, rpc]

/-- The services a node reaches its peers on. -/
def peerServices : List Topic := [nonce, sync, transaction]

/-- The port of a service unless a node is set up otherwise. -/
def defaultPort? (t : Topic) : Option UInt16 :=
  if t = transaction then some 9091
  else if t = nonce then some 8091
  else if t = selfNonce then some 7091
  else if t = sync then some 6091
  else if t = rpc then some 9009
  else none

/-! ## 2. Message entries -/

/-- Transactions of the standard pool, and requested hashes. -/
def standardPool : Topic := ofChars 'T' '0'
/-- Transactions of the escrow pool. -/
def escrowPool : Topic := ofChars 'E' '0'
/-- Transactions of the multi-signature pool. -/
def multiSigPool : Topic := ofChars 'M' '0'
/-- The nonce transaction of a round. -/
def nonceTransaction : Topic := ofChars 'N' '0'
/-- A proposed block. -/
def block : Topic := ofChars 'N' '\x00'
/-- An announced height. -/
def lastHeight : Topic := ofChars 'L' 'H'
/-- An announced block hash. -/
def lastBlock : Topic := ofChars 'L' 'B'
/-- Announced peers. -/
def peers : Topic := ofChars 'P' 'P'
/-- First height asked for. -/
def beginHeight : Topic := ofChars 'B' 'H'
/-- Last height asked for. -/
def endHeight : Topic := ofChars 'E' 'H'
/-- Heights of the blocks in a batch. -/
def indices : Topic := ofChars 'I' 'H'
/-- Blocks of a batch. -/
def headers : Topic := ofChars 'H' 'V'

end Topic

end SynergyNode
