import SynergyNode.Ledger
import SynergyNode.Peer.Address
import SynergyNode.Wire.Codec

/-!
# Messages for catching up

A node announces its height and tip and suggests peers; one that is behind asks for a range of
blocks; the answer is a batch of blocks, each with the height it is meant for.  Each of the
three is written as a message and read back.
-/

namespace SynergyNode

/-- What is wrong with a message about catching up. -/
inductive MalformedSync where
  | heightField
  | lastHash
  /-- Not as many indices as blocks. -/
  | counts
deriving DecidableEq

/-- The text for a malformed part. -/
def MalformedSync.text : MalformedSync → String
  | .heightField => "height field"
  | .lastHash => "last block hash"
  | .counts => "index and block counts differ"

/-- Why catching up fails. -/
inductive SyncError where
  | ledger (cause : LedgerError)
  /-- The block for this height is not valid. -/
  | block (height : UInt64) (cause : BlockError)
  | malformed (part : MalformedSync)
  /-- A block stands under another height than its own. -/
  | indexMismatch (index height : UInt64)
  /-- Another batch is being committed. -/
  | busy
deriving DecidableEq

/-- The text of an error. -/
def SyncError.message : SyncError → String
  | .ledger e => e.message
  | .block height e => "block " ++ toString height ++ ": " ++ e.message
  | .malformed part => "malformed sync message: " ++ part.text
  | .indexMismatch index height =>
    "block at index " ++ toString index ++ " claims height " ++ toString height
  | .busy => "another batch is being committed"

/-- The cause of an error under a fixed name, followed by that of the error it wraps. -/
def SyncError.code : SyncError → String
  | .ledger e => "Ledger/" ++ e.code
  | .block _ _ => "Block"
  | .malformed _ => "Malformed"
  | .indexMismatch _ _ => "IndexMismatch"
  | .busy => "Busy"

namespace Sync

/-- A height as it stands in messages. -/
def heightBlob (height : UInt64) : Bytes := Format.u64.write height

/-- The height in a blob of exactly eight bytes. -/
def readHeight (blob : Option Bytes) : Except SyncError UInt64 :=
  match blob.bind fun b => (FixedBytes.ofBytes? b : Option (FixedBytes 8)) with
  | some b => .ok (UInt64.ofNat (ofLe b.toList))
  | none => .error (.malformed .heightField)

end Sync

/-! ## 1. Announcements -/

/-- A node's height and tip, and peers it suggests. -/
structure HeightAnnouncement where
  height : UInt64
  lastHash : Hash
  peers : List PeerAddress
deriving DecidableEq

namespace HeightAnnouncement

/-- The message of an announcement. -/
def toMessage (a : HeightAnnouncement) (c : Codec) : Message :=
  (((c.message .heightAnnounce).put Topic.lastHeight [Sync.heightBlob a.height]).put
    Topic.lastBlock [a.lastHash.toList]).put Topic.peers (a.peers.map fun p => p.bytes.toList)

/-- Reads an announcement; suggestions that are no addresses are passed over. -/
def ofMessage (m : Message) : Except SyncError HeightAnnouncement :=
  match Sync.readHeight (m.first? Topic.lastHeight) with
  | .error e => .error e
  | .ok height =>
    match (m.first? Topic.lastBlock).bind FixedBytes.ofBytes? with
    | none => .error (.malformed .lastHash)
    | some lastHash =>
      .ok ⟨height, lastHash, (m.blobs Topic.peers).filterMap fun b =>
        (FixedBytes.ofBytes? b).map PeerAddress.mk⟩

end HeightAnnouncement

/-! ## 2. Requests -/

/-- A range of heights, both ends included. -/
structure HeaderRequest where
  first : UInt64
  last : UInt64
deriving DecidableEq

namespace HeaderRequest

/-- The range to ask for of a peer that is not lower: it ends at the peer's height and goes back
far enough to meet our chain, or starts at our own height when the peer is too far ahead. -/
def forHeights (own peer : UInt64) : HeaderRequest :=
  let back := Word64.saturatingSub peer Protocol.hashesInBucket
  let first := if back < 2 then 0 else back
  if own < first then ⟨own, min (own + Protocol.hashesInBucket) peer⟩ else ⟨first, peer⟩

/-- The message of a request. -/
def toMessage (r : HeaderRequest) (c : Codec) : Message :=
  ((c.message .getHeaders).put Topic.beginHeight [Sync.heightBlob r.first]).put
    Topic.endHeight [Sync.heightBlob r.last]

/-- Reads a request. -/
def ofMessage (m : Message) : Except SyncError HeaderRequest :=
  match Sync.readHeight (m.first? Topic.beginHeight) with
  | .error e => .error e
  | .ok first =>
    match Sync.readHeight (m.first? Topic.endHeight) with
    | .error e => .error e
    | .ok last => .ok ⟨first, last⟩

end HeaderRequest

/-! ## 3. Batches -/

/-- Blocks, each under the height it is meant for. -/
abbrev HeaderBatch := List (UInt64 × Block)

namespace HeaderBatch

/-- The message of a batch. -/
def toMessage (batch : HeaderBatch) (c : Codec) : Message :=
  batch.foldl (fun m e =>
    (m.push Topic.indices (Sync.heightBlob e.1)).push Topic.headers e.2.toBytes)
    (c.message .sendHeaders)

/-- Reads blocks with their heights. -/
def readPairs : List (Bytes × Bytes) → Except SyncError HeaderBatch
  | [] => .ok []
  | (index, bytes) :: rest =>
    match Sync.readHeight (some index) with
    | .error e => .error e
    | .ok height =>
      match Block.ofBytes bytes with
      | .error e => .error (.block height e)
      | .ok block =>
        match readPairs rest with
        | .error e => .error e
        | .ok batch => .ok ((height, block) :: batch)

/-- Reads a batch. -/
def ofMessage (m : Message) : Except SyncError HeaderBatch :=
  let indices := m.blobs Topic.indices
  let blocks := m.blobs Topic.headers
  if indices.length ≠ blocks.length then .error (.malformed .counts)
  else readPairs (indices.zip blocks)

end HeaderBatch

end SynergyNode
