import SynergyNode.Ledger.Commit
import SynergyNode.View

/-!
# Views of the chain

What is shown of schemes, transactions, blocks, accounts and figures.
-/

namespace SynergyNode

open View

instance : ToView Slot := ⟨fun s => s.name⟩
instance : ToView Scheme := ⟨fun s => s.name⟩
instance : ToView PoolKind := ⟨fun k => k.name⟩
instance : ToView Address := ⟨fun a => a.bytes⟩
instance {α : Type} [ToView α] : ToView (PerSlot α) := ⟨fun p => p.toList⟩

instance : ToView Descriptor := ⟨fun d =>
  record [("name", d.name), ("public_key_len", d.publicKeyLen),
    ("secret_key_len", d.secretKeyLen), ("signature_len", d.signatureLen), ("paused", d.paused)]⟩

/-- Everything about a scheme. -/
def Scheme.details (s : Scheme) : View :=
  record [("kind", s.name.replace "-" ""), ("name", s),
    ("public_key_len", s.publicKeyLength), ("secret_key_len", s.secretKeyLength),
    ("signature_len", s.signatureLength)]

/-- The secret half of a pair of keys is not shown. -/
instance : ToView Keypair := ⟨fun k =>
  record [("scheme", k.scheme), ("public", k.publicKey), ("secret", "SigningSecretKey(REDACTED)"),
    ("address", (Address.ofPublicKey k.publicKey).toText)]⟩

/-- Everything about an address. -/
def Address.details (a : Address) : View :=
  record [("hex", a), ("display", a.toText), ("debug", "Address(" ++ a.toHex ++ ")"),
    ("delegated_id", a.delegatedId?)]

/-! ## 1. Transactions and blocks -/

/-- What a transaction says, but for its time and data. -/
def TransactionBody.fields (b : TransactionBody) : Fields :=
  [("kind", b.kind), ("sender", b.sender), ("recipient", b.recipient), ("amount", b.amount),
    ("nonce", b.nonce), ("chain_id", b.chainId), ("height", b.height)]

instance : ToView Transaction := ⟨fun t =>
  both t.body.fields
    [("sending_time", t.body.sendingTime), ("opt_data", t.body.data), ("slot", t.slot),
      ("public_key", t.publicKey), ("hash", t.hash), ("signature", t.signature)]⟩

/-- What a block says, but for its seal and the clock of the operator. -/
def Block.fields (b : Block) : Fields :=
  let h := b.header
  [("previous_hash", h.previousHash), ("difficulty", h.difficulty), ("height", h.height),
    ("delegated_id", h.delegatedId), ("operator", h.operator), ("root_merkle", h.merkleRoot),
    ("encryption", h.encryption.map hex), ("signer_slot", h.signerSlot),
    ("signer_key", h.signerKey), ("header_timestamp", h.timestamp),
    ("reward_percentage", b.rewardPercentage), ("supply", b.supply), ("reward", b.reward),
    ("price_oracle", b.priceOracle), ("rand_oracle", b.randOracle), ("tx_hashes", b.txHashes)]

instance : ToView Block := ⟨fun b =>
  both b.fields
    [("signature", b.header.signature), ("header_hash", b.headerHash),
      ("timestamp", b.timestamp), ("block_hash", b.blockHash)]⟩

/-- The height and hash of a block. -/
def Block.reference (b : Block) : UInt64 × Hash := (b.height, b.blockHash)

instance : ToView Merkle.Tree := ⟨fun t =>
  record [("height", t.height), ("root", t.root), ("leaves", t.leaves.length)]⟩

instance : ToView Merkle.Step := ⟨fun s => (if s.isLeft then "L" else "R") ++ s.hash.toHex⟩

/-! ## 2. Accounts, votes and figures -/

instance : ToView StakingEntry := ⟨fun e =>
  record [("staked", e.staked), ("operators", e.operators)]⟩

/-- A delegated account and its vote. -/
def Vote.line (id : UInt8) (v : Vote) : View := list [id, hex v.values, v.height, v.staked]

/-- The live votes for a slot, and what they agree on with how much stake. -/
def Voting.tally (v : Voting) (slot : Slot) (height : UInt64) : View :=
  let live := v.live slot height
  let votes := live.map Prod.snd
  record [("votes", live.map fun e => e.2.line e.1), ("values", votes.length),
    ("staked", Vote.totalStake votes),
    ("agreed", (Vote.agreed? votes).map fun a => (hex a.1, a.2))]

instance : ToView PoolStats := ⟨fun s => [s.count, s.bytes, s.banned]⟩

instance : ToView ChainStats := ⟨fun s =>
  record [("height", s.height), ("transactions", s.transactions),
    ("total_transactions", s.totalTransactions), ("block_time_secs", s.blockTimeSecs),
    ("tps_bits", hex (leBytes 8 s.transactionsPerSecond.toBits.toNat).reverse),
    ("supply", s.supply), ("difficulty", s.difficulty)]⟩

instance : ToView CommitReport := ⟨fun r =>
  record [("height", r.height), ("transactions", r.transactions), ("changed", r.changed)]⟩

end SynergyNode
