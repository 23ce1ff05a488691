import SynergyNode.Hashing.Blake3
import SynergyNode.Text.Utf8

/-!
# Hashes

Transactions, headers, blocks and tree nodes are named by 32-byte hashes.  Each kind of object
has its own domain, so that equal bytes of two kinds never share a name.
-/

namespace SynergyNode

/-- The name of an object: 32 bytes. -/
abbrev Hash := FixedBytes 32

/-- Hashes are ordered by their bytes. -/
instance : Std.TransOrd Hash := inferInstance
instance : Std.LawfulEqOrd Hash := inferInstance

namespace Hash

/-- The hash of no object, written where a hash is still missing. -/
def zero : Hash := FixedBytes.zero 32

/-- The hash of `data` in the family member that `domain` selects. -/
def ofDomain (domain : String) (data : Bytes) : Hash :=
  Hashing.Blake3.deriveKey (Text.Utf8.encode domain) data

end Hash

end SynergyNode
