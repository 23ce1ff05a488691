import SynergyNode.Address
import SynergyNode.Signature.Live
import SynergyNode.Wire.Topic

/-!
# Transactions

A transfer between two accounts, signed with the key of one slot.  The hash covers the body,
the slot and the key; the signature is on the hash, and the sender must be the address of the
key.
-/

namespace SynergyNode

/-- The pool a transaction waits in. -/
inductive PoolKind where
  | standard
  | escrow
  | multiSig
deriving DecidableEq

namespace PoolKind

/-- Every kind of pool, in the order in which blocks take from them. -/
def all : List PoolKind := [standard, escrow, multiSig]

/-- The name of a kind. -/
def name : PoolKind → String
  | standard => "Standard"
  | escrow => "Escrow"
  | multiSig => "MultiSig"

/-- The kind with a given name. -/
def ofName? (name : String) : Option PoolKind := all.find? fun k => k.name == name

/-- The key of this pool's transactions in messages. -/
def topic : PoolKind → Topic
  | standard => Topic.standardPool
  | escrow => Topic.escrowPool
  | multiSig => Topic.multiSigPool

/-- The pool with a given key. -/
def ofTopic? (t : Topic) : Option PoolKind := all.find? fun k => k.topic == t

/-- A pool kind is written as its number. -/
def format : Format PoolKind := Format.oneOf all

end PoolKind

/-- What the sender signs. -/
structure TransactionBody where
  kind : PoolKind
  sender : Address
  recipient : Address
  amount : UInt64
  nonce : UInt64
  chainId : UInt16
  /-- The height aimed at; a nonce transaction opens the round for it. -/
  height : UInt64
  /-- Seconds on the sender's clock. -/
  sendingTime : UInt64
  data : Bytes
deriving DecidableEq

/-- A signed transaction. -/
structure Transaction where
  body : TransactionBody
  slot : Slot
  publicKey : Bytes
  hash : Hash
  signature : Bytes
deriving DecidableEq

/-- Why a transaction is refused. -/
inductive TransactionError where
  /-- The bytes are not those of a transaction. -/
  | serialization
  | hashMismatch
  | senderMismatch
  | scheme (cause : SchemeError)
  | key (cause : KeyError)
deriving DecidableEq

/-- The text of an error. -/
def TransactionError.message : TransactionError → String
  | .serialization => "serialization"
  | .hashMismatch => "transaction hash does not match its contents"
  | .senderMismatch => "sender is not derived from the signing key"
  | .scheme e => e.message
  | .key e => e.message

/-- The cause of an error under a fixed name, followed by that of the error it wraps. -/
def TransactionError.code : TransactionError → String
  | .serialization => "Serialization"
  | .hashMismatch => "HashMismatch"
  | .senderMismatch => "SenderMismatch"
  | .scheme e => "Scheme/" ++ e.code
  | .key e => "Key/" ++ e.code

/-! ## 1. Binary form -/

/-- An address is written as its bytes. -/
def Address.format : Format Address :=
  Format.imap (Format.fixed 20) Address.mk Address.bytes

open Format in
/-- The body's fields in order. -/
def TransactionBody.format : Format TransactionBody :=
  imap (both PoolKind.format <| both Address.format <| both Address.format <| both u64 <|
      both u64 <| both u16 <| both u64 <| both u64 bytes)
    (fun (kind, sender, recipient, amount, nonce, chainId, height, sendingTime, data) =>
      ⟨kind, sender, recipient, amount, nonce, chainId, height, sendingTime, data⟩)
    (fun b => (b.kind, b.sender, b.recipient, b.amount, b.nonce, b.chainId, b.height,
      b.sendingTime, b.data))

namespace Transaction

open Format in
/-- The fields in order. -/
def format : Format Transaction :=
  imap (both TransactionBody.format <| both Slot.format <| both bytes <| both (fixed 32) bytes)
    (fun (body, slot, publicKey, hash, signature) => ⟨body, slot, publicKey, hash, signature⟩)
    (fun t => (t.body, t.slot, t.publicKey, t.hash, t.signature))

/-- The bytes of a transaction. -/
def toBytes (t : Transaction) : Bytes := format.write t

/-- Reads a transaction; what follows it is ignored. -/
def ofBytes (b : Bytes) : Except TransactionError Transaction :=
  match format.decode? b with
  | some t => .ok t
  | none => .error .serialization

/-! ## 2. Hash and signature -/

open Format in
/-- The bytes that the hash of a transaction covers. -/
def hashedBytes (body : TransactionBody) (slot : Slot) (publicKey : Bytes) : Bytes :=
  (both TransactionBody.format (both Slot.format bytes)).write (body, slot, publicKey)

/-- The hash that a transaction with this content must carry. -/
def contentHash (body : TransactionBody) (slot : Slot) (publicKey : Bytes) : Hash :=
  Hash.ofDomain "okura.tx" (hashedBytes body slot publicKey)

variable [SignatureSuite]

/-- The transaction with a given body, signed with the key of a slot. -/
def signed (body : TransactionBody) (slot : Slot) (key : Keypair) : Transaction :=
  let hash := contentHash body slot key.publicKey
  { body := body
    slot := slot
    publicKey := key.publicKey
    hash := hash
    signature := key.sign hash.toList }

/-- Checks the hash, the sender and the signature under the live schemes. -/
def verify (t : Transaction) (live : LiveSchemes) : Except TransactionError Unit :=
  if contentHash t.body t.slot t.publicKey ≠ t.hash then .error .hashMismatch
  else if Address.ofPublicKey t.publicKey ≠ t.body.sender then .error .senderMismatch
  else
    match live.verify t.slot t.publicKey t.hash.toList t.signature with
    | .error e => .error (.scheme e)
    | .ok () => .ok ()

end Transaction

end SynergyNode
