import SynergyNode.Transaction
import SynergyNode.Merkle
import SynergyNode.Synergy

/-!
# Blocks

A header commits to the block before it, to the transactions by the root of their tree, and to
the schemes that are live from this height on; it is signed by an operator.  Around it stand
the times, the reward and supply, the oracle values and the transaction hashes, all bound by
the block hash.

`Block.checkBase` is everything that can be checked of a block with only its predecessor at
hand.  The signature is checked under the schemes that the predecessor declares.
-/

namespace SynergyNode

/-- The signed part of a block. -/
structure Header where
  previousHash : Hash
  difficulty : UInt32
  height : UInt64
  delegatedId : UInt8
  operator : Address
  merkleRoot : Hash
  /-- A descriptor for each slot, in its binary form. -/
  encryption : PerSlot Bytes
  signerSlot : Slot
  signerKey : Bytes
  signature : Bytes
  /-- When the transaction that opened the round was sent. -/
  timestamp : UInt64
deriving DecidableEq

/-- A block of the chain. -/
structure Block where
  header : Header
  headerHash : Hash
  /-- Seconds on the clock of the operator who put the block together. -/
  timestamp : UInt64
  /-- The operator's part of the reward, per mille. -/
  rewardPercentage : UInt16
  supply : UInt64
  reward : UInt64
  priceOracle : Int64
  randOracle : Int64
  txHashes : List Hash
  blockHash : Hash
deriving DecidableEq

/-- Why a block is refused. -/
inductive BlockError where
  /-- The bytes are not those of a block. -/
  | serialization
  | heightMismatch (expected got : UInt64)
  /-- The block does not link to the one at this height. -/
  | previousHashMismatch (height : UInt64)
  | headerHashMismatch
  | blockHashMismatch
  | merkleRootMismatch
  | encryption (cause : SchemeError)
  | operatorMismatch
  | rewardMismatch (expected got : UInt64)
  | supplyMismatch (expected got : UInt64)
  | difficultyMismatch (expected got : UInt32)
  | rewardPercentage (got : UInt16)
  | proofOfSynergy
  | key (cause : KeyError)
deriving DecidableEq

/-- The text of an error. -/
def BlockError.message : BlockError → String
  | .serialization => "serialization"
  | .heightMismatch expected got =>
    "height " ++ toString got ++ " does not follow " ++ toString expected
  | .previousHashMismatch height => "previous hash does not link to block " ++ toString height
  | .headerHashMismatch => "header hash mismatch"
  | .blockHashMismatch => "block hash mismatch"
  | .merkleRootMismatch => "merkle root mismatch"
  | .encryption e => "encryption slot: " ++ e.message
  | .operatorMismatch => "operator is not derived from the signing key"
  | .rewardMismatch expected got =>
    "reward " ++ toString got ++ " != expected " ++ toString expected
  | .supplyMismatch expected got =>
    "supply " ++ toString got ++ " != expected " ++ toString expected
  | .difficultyMismatch expected got =>
    "difficulty " ++ toString got ++ " != expected " ++ toString expected
  | .rewardPercentage got => "reward percentage " ++ toString got ++ " above cap"
  | .proofOfSynergy => "proof of synergy failed"
  | .key e => e.message

/-- The cause of an error under a fixed name, followed by that of the error it wraps. -/
def BlockError.code : BlockError → String
  | .serialization => "Serialization"
  | .heightMismatch _ _ => "HeightMismatch"
  | .previousHashMismatch _ => "PreviousHashMismatch"
  | .headerHashMismatch => "HeaderHashMismatch"
  | .blockHashMismatch => "BlockHashMismatch"
  | .merkleRootMismatch => "MerkleRootMismatch"
  | .encryption e => "Encryption/" ++ e.code
  | .operatorMismatch => "OperatorMismatch"
  | .rewardMismatch _ _ => "RewardMismatch"
  | .supplyMismatch _ _ => "SupplyMismatch"
  | .difficultyMismatch _ _ => "DifficultyMismatch"
  | .rewardPercentage _ => "RewardPercentage"
  | .proofOfSynergy => "ProofOfSynergy"
  | .key e => "Key/" ++ e.code

/-! ## 1. Binary forms -/

open Format in
/-- The header's fields in order. -/
def Header.format : Format Header :=
  imap (both (fixed 32) <| both u32 <| both u64 <| both u8 <| both Address.format <|
      both (fixed 32) <| both (PerSlot.format bytes) <| both Slot.format <| both bytes <|
      both bytes u64)
    (fun (previousHash, difficulty, height, delegatedId, operator, merkleRoot, encryption,
        signerSlot, signerKey, signature, timestamp) =>
      ⟨previousHash, difficulty, height, delegatedId, operator, merkleRoot, encryption,
        signerSlot, signerKey, signature, timestamp⟩)
    (fun h => (h.previousHash, h.difficulty, h.height, h.delegatedId, h.operator, h.merkleRoot,
      h.encryption, h.signerSlot, h.signerKey, h.signature, h.timestamp))

open Format in
/-- The block's fields in order. -/
def Block.format : Format Block :=
  imap (both Header.format <| both (fixed 32) <| both u64 <| both u16 <| both u64 <|
      both u64 <| both i64 <| both i64 <| both (list (fixed 32)) (fixed 32))
    (fun (header, headerHash, timestamp, rewardPercentage, supply, reward, priceOracle,
        randOracle, txHashes, blockHash) =>
      ⟨header, headerHash, timestamp, rewardPercentage, supply, reward, priceOracle,
        randOracle, txHashes, blockHash⟩)
    (fun b => (b.header, b.headerHash, b.timestamp, b.rewardPercentage, b.supply, b.reward,
      b.priceOracle, b.randOracle, b.txHashes, b.blockHash))

/-! ## 2. Headers -/

namespace Header

/-- The header without its signature. -/
def unsigned (h : Header) : Header := { h with signature := [] }

/-- The bytes that the signature covers. -/
def signedBytes (h : Header) : Bytes := format.write h.unsigned

/-- The hash that is signed. -/
def signingHash (h : Header) : Hash := Hash.ofDomain "okura.header.sign" h.signedBytes

/-- The hash of a header, signature included. -/
def hash (h : Header) : Hash := Hash.ofDomain "okura.header" (format.write h)

/-- The descriptor declared for a slot. -/
def descriptor (h : Header) (slot : Slot) : Except SchemeError Descriptor :=
  Descriptor.ofBytes (h.encryption.get slot)

variable [SignatureSuite]

/-- The header signed with the key of a slot. -/
def sign (h : Header) (slot : Slot) (key : Keypair) : Header :=
  let h := { h with signerSlot := slot, signerKey := key.publicKey, signature := [] }
  { h with signature := key.sign h.signingHash.toList }

/-- Checks that the operator holds the signing key and that the signature is valid. -/
def verifySignature (h : Header) (live : LiveSchemes) : Except BlockError Unit :=
  if Address.ofPublicKey h.signerKey ≠ h.operator then .error .operatorMismatch
  else
    match live.verify h.signerSlot h.signerKey h.signingHash.toList h.signature with
    | .error e => .error (.encryption e)
    | .ok () => .ok ()

end Header

/-! ## 3. Blocks -/

namespace Block

/-- The height of a block. -/
abbrev height (b : Block) : UInt64 := b.header.height

/-- The bytes of a block. -/
def toBytes (b : Block) : Bytes := format.write b

/-- Reads a block; what follows it is ignored. -/
def ofBytes (b : Bytes) : Except BlockError Block :=
  match format.decode? b with
  | some block => .ok block
  | none => .error .serialization

/-- The bytes that the block hash covers. -/
def hashedBytes (b : Block) : Bytes := format.write { b with blockHash := Hash.zero }

/-- The hash a block with this content must carry. -/
def contentHash (b : Block) : Hash := Hash.ofDomain "okura.block" b.hashedBytes

/-- The block with both hashes filled in. -/
def sealed (b : Block) : Block :=
  let b := { b with headerHash := b.header.hash }
  { b with blockHash := b.contentHash }

section

variable (b : Block)

@[simp] theorem header_sealed : b.sealed.header = b.header := rfl

@[simp] theorem rewardPercentage_sealed : b.sealed.rewardPercentage = b.rewardPercentage := rfl

@[simp] theorem reward_sealed : b.sealed.reward = b.reward := rfl

@[simp] theorem txHashes_sealed : b.sealed.txHashes = b.txHashes := rfl

theorem hash_sealed : b.sealed.header.hash = b.sealed.headerHash := rfl

theorem contentHash_sealed : b.sealed.contentHash = b.sealed.blockHash := rfl

end

/-- The block every chain starts with. -/
def genesis : Block :=
  sealed
    { header :=
        { previousHash := Hash.zero
          difficulty := Protocol.initialDifficulty
          height := 0
          delegatedId := 0
          operator := Address.zero
          merkleRoot := Hash.zero
          encryption := LiveSchemes.initial.map Descriptor.toBytes
          signerSlot := .primary
          signerKey := []
          signature := []
          timestamp := Protocol.genesisTimestamp }
      headerHash := Hash.zero
      timestamp := Protocol.genesisTimestamp
      rewardPercentage := 0
      supply := Protocol.initialSupply
      reward := 0
      priceOracle := 0
      randOracle := 0
      txHashes := []
      blockHash := Hash.zero }

theorem encryption_genesis :
    genesis.header.encryption = LiveSchemes.initial.map Descriptor.toBytes := by
  rw [genesis, header_sealed]

/-- The schemes a block declares live. -/
def schemes (b : Block) : Except BlockError LiveSchemes :=
  match b.header.descriptor .primary with
  | .error e => .error (.encryption e)
  | .ok p =>
    match b.header.descriptor .secondary with
    | .error e => .error (.encryption e)
    | .ok s => .ok ⟨p, s⟩

/-- The tree over a block's transactions. -/
def tree (b : Block) : Merkle.Tree := ⟨b.height, b.txHashes⟩

/-- Checks that a block follows another. -/
def verifyLinkage (b previous : Block) : Except BlockError Unit :=
  if b.height ≠ previous.height + 1 then
    .error (.heightMismatch (previous.height + 1) b.height)
  else if b.header.previousHash ≠ previous.blockHash then
    .error (.previousHashMismatch previous.height)
  else .ok ()

/-- The slots in which a block declares other bytes than the one before. -/
def changedSlots (b previous : Block) : List Slot :=
  Slot.all.filter fun s => b.header.encryption.get s != previous.header.encryption.get s

/-- The difficulty a block must have after another. -/
def expectedDifficulty (b previous : Block) : UInt32 :=
  Synergy.adjustDifficulty previous.header.difficulty
    (Word64.saturatingSub b.header.timestamp previous.timestamp)

/-- Checks reward, supply, difficulty and the target. -/
def checkEconomics (b previous : Block) : Except BlockError Unit :=
  let reward := Synergy.rewardForSupply previous.supply
  let supply := Word64.saturatingAdd previous.supply reward
  let difficulty := b.expectedDifficulty previous
  if Protocol.maxRewardPercentage < b.rewardPercentage then
    .error (.rewardPercentage b.rewardPercentage)
  else if b.reward ≠ reward then .error (.rewardMismatch reward b.reward)
  else if b.supply ≠ supply then .error (.supplyMismatch supply b.supply)
  else if b.header.difficulty ≠ difficulty then
    .error (.difficultyMismatch difficulty b.header.difficulty)
  else if !Synergy.passes b.blockHash b.header.difficulty then .error .proofOfSynergy
  else .ok ()

/-- Everything that can be checked of a block on top of its predecessor alone: linkage, both
hashes, both descriptors, the signature, the economics and the root of the transactions, in
this order.  Gives the tree over the transactions. -/
def checkBase [SignatureSuite] (b previous : Block) : Except BlockError Merkle.Tree := do
  b.verifyLinkage previous
  if b.header.hash ≠ b.headerHash then throw .headerHashMismatch
  if b.contentHash ≠ b.blockHash then throw .blockHashMismatch
  let _ ← b.schemes
  b.header.verifySignature (← previous.schemes)
  b.checkEconomics previous
  if b.tree.root ≠ b.header.merkleRoot then throw .merkleRootMismatch
  return b.tree

end Block

end SynergyNode
