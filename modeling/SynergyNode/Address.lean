import SynergyNode.Hash

/-!
# Account addresses

An address is 20 bytes: the front of the hash of a public key, or, for the accounts that
validators are staked under, zeros and a last byte from 1 to 255.
-/

namespace SynergyNode

/-- The address of an account. -/
structure Address where
  bytes : FixedBytes 20
deriving DecidableEq

namespace Address

/-- Addresses are ordered by their bytes. -/
instance : Ord Address := ⟨fun a b => compare a.bytes b.bytes⟩

theorem compare_def (a b : Address) : compare a b = compare a.bytes b.bytes := rfl

instance : Std.TransOrd Address where
  eq_swap {a b} := by rw [compare_def, compare_def]; exact Std.OrientedCmp.eq_swap
  isLE_trans {a b c} h₁ h₂ := by
    rw [compare_def] at *; exact Std.TransCmp.isLE_trans h₁ h₂

instance : Std.LawfulEqOrd Address where
  compare_self {a} := by rw [compare_def]; exact Std.ReflCmp.compare_self
  eq_of_compare {a b} h := by
    rw [compare_def] at h
    cases a; cases b; simp_all

/-- The address of no account. -/
def zero : Address := ⟨FixedBytes.zero 20⟩

instance : Inhabited Address := ⟨zero⟩

/-- The address that belongs to a public key. -/
def ofPublicKey (publicKey : Bytes) : Address :=
  ⟨FixedBytes.ofBytesPadded 20 (Hash.ofDomain "okura.address" publicKey).toList⟩

/-- The address of a delegated account. -/
def delegated (id : UInt8) : Address :=
  ⟨⟨List.replicate 19 0 ++ [id], by simp⟩⟩

/-- The id of a delegated account's address. -/
def delegatedId? (a : Address) : Option UInt8 :=
  let last := a.bytes.toList.getLastD 0
  if last ≠ 0 ∧ a.bytes.toList.take 19 = List.replicate 19 0 then some last else none

/-- The address without its mark, and how it is shown. -/
def toHex (a : Address) : String := a.bytes.toHex

/-- The text of an address: its digits after `0x`. -/
def toText (a : Address) : String := "0x" ++ a.toHex

/-- The text without any number of leading marks. -/
def dropMarks : List Char → List Char
  | '0' :: 'x' :: rest => dropMarks rest
  | s => s

/-- Reads an address; the mark may be missing or repeated. -/
def ofText? (s : String) : Option Address :=
  match Bytes.readHexPairs [] (dropMarks s.toList) with
  | some b => (FixedBytes.ofBytes? b).map Address.mk
  | none => none

end Address

end SynergyNode
