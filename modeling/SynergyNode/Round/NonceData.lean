import SynergyNode.Hash
import SynergyNode.Slot

/-!
# The data of a nonce transaction

The transaction that opens a round names the block it builds on and brings a price, a random
number and a proposed descriptor for each slot, empty for no proposal:

`height (8) ++ hash (32) ++ price (8) ++ random (8) ++ length (4) ++ vote ++ length (4) ++ vote`
-/

namespace SynergyNode

/-- What a nonce transaction says. -/
structure NonceData where
  lastHeight : UInt64
  lastHash : Hash
  price : Int64
  rand : Int64
  votes : PerSlot Bytes
deriving DecidableEq

/-- Where the data of a nonce transaction breaks off. -/
inductive NonceDataError where
  | tooShort
  | voteLength
  | voteBody
deriving DecidableEq

/-- The text of an error. -/
def NonceDataError.message : NonceDataError → String
  | .tooShort => "too short"
  | .voteLength => "vote length"
  | .voteBody => "vote body"

namespace NonceData

/-- The fields of fixed width. -/
def headFormat : Format (UInt64 × Hash × Int64 × Int64) :=
  Format.both Format.u64 (Format.both (Format.fixed 32) (Format.both Format.i64 Format.i64))

/-- A vote after its length. -/
def voteBytes (vote : Bytes) : Bytes := leBytes 4 vote.length ++ vote

/-- The bytes of the data. -/
def toBytes (d : NonceData) : Bytes :=
  headFormat.write (d.lastHeight, d.lastHash, d.price, d.rand) ++
    (voteBytes d.votes.primary ++ voteBytes d.votes.secondary)

/-- Reads a vote after its length. -/
def readVote (b : Bytes) : Except NonceDataError (Bytes × Bytes) :=
  match Format.takeExact 4 b with
  | none => .error .voteLength
  | some (len, r) =>
    match Format.takeExact (ofLe len) r with
    | none => .error .voteBody
    | some p => .ok p

/-- Reads the data; what follows it is ignored. -/
def ofBytes (b : Bytes) : Except NonceDataError NonceData :=
  match headFormat.read b with
  | none => .error .tooShort
  | some ((lastHeight, lastHash, price, rand), r) =>
    match readVote r with
    | .error e => .error e
    | .ok (primary, r) =>
      match readVote r with
      | .error e => .error e
      | .ok (secondary, _) => .ok ⟨lastHeight, lastHash, price, rand, ⟨primary, secondary⟩⟩

end NonceData

end SynergyNode
