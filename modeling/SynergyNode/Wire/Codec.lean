import SynergyNode.Wire.Message
import SynergyNode.Transaction

/-!
# The codec of a chain

A codec writes and reads the messages of one chain, none longer than its limit.

`Codec.checkMessage` also sifts the blobs of messages that carry transactions: what is not a
transaction of this chain, or does not verify, is dropped, and the rest of the message stays.
On the topics of the rounds transactions are only parsed, because the round checks them itself.
-/

namespace SynergyNode

/-- The chain and the longest message. -/
structure Codec where
  chainId : UInt16
  maxMessageBytes : Nat
deriving DecidableEq

/-- A message whose transactions have been sifted. -/
structure CheckedMessage where
  message : Message
  /-- The transactions that were kept, under their keys. -/
  transactions : Std.ExtTreeMap Topic (List Transaction)
  /-- The number of blobs that were not kept. -/
  dropped : Nat

namespace Codec

/-- An empty message of this chain. -/
def message (c : Codec) (head : Opcode) : Message := Message.empty head c.chainId

/-- The bytes of a message, if it is not too long. -/
def encode (c : Codec) (m : Message) : Except CodecError Bytes :=
  if c.maxMessageBytes < m.encodedLength then
    .error (.messageTooLarge m.encodedLength c.maxMessageBytes)
  else .ok m.toBytes

/-- Reads a message of this chain. -/
def decode (c : Codec) (b : Bytes) : Except CodecError Message :=
  if c.maxMessageBytes < b.length then
    .error (.messageTooLarge b.length c.maxMessageBytes)
  else
    match Message.ofBytes b with
    | .error e => .error e
    | .ok m =>
      if m.chainId = c.chainId then .ok m
      else .error (.chainIdMismatch c.chainId m.chainId)

variable [SignatureSuite]

/-- The transaction in a blob, if it is kept. -/
def keep? (c : Codec) (verify : Bool) (live : LiveSchemes) (blob : Bytes) :
    Option Transaction :=
  match Transaction.ofBytes blob with
  | .error _ => none
  | .ok t =>
    if t.body.chainId = c.chainId then
      if verify then
        match t.verify live with
        | .ok () => some t
        | .error _ => none
      else some t
    else none

/-- What is left of the blobs under a key. -/
structure Sifted where
  blobs : List Bytes
  transactions : List Transaction
  /-- The number of blobs that were not kept. -/
  dropped : Nat

/-- Goes through the blobs under a key; one that is not kept does not affect the others. -/
def sift (c : Codec) (verify : Bool) (live : LiveSchemes) (blobs : List Bytes) : Sifted :=
  blobs.foldr (fun blob s =>
    match c.keep? verify live blob with
    | none => { s with dropped := s.dropped + 1 }
    | some t => { s with blobs := blob :: s.blobs, transactions := t :: s.transactions })
    ⟨[], [], 0⟩

/-- Whether transactions that arrive on a topic are verified on arrival. -/
def verifiesOn (topic : Topic) : Bool := topic != Topic.nonce && topic != Topic.selfNonce

/-- A message with its transactions sifted. -/
def siftMessage (c : Codec) (verify : Bool) (live : LiveSchemes) (m : Message) :
    CheckedMessage :=
  let sifted := m.payload.map fun _ blobs => c.sift verify live blobs
  { message := { m with payload := sifted.map fun _ s => s.blobs }
    transactions := sifted.map fun _ s => s.transactions
    dropped := sifted.toList.foldl (fun n e => n + e.2.dropped) 0 }

/-- Reads a message and sifts its transactions, if it carries any. -/
def checkMessage (c : Codec) (b : Bytes) (topic : Topic) (live : LiveSchemes) :
    Except CodecError CheckedMessage :=
  match c.decode b with
  | .error e => .error e
  | .ok m =>
    if m.head.carriesTransactions then .ok (c.siftMessage (verifiesOn topic) live m)
    else .ok ⟨m, ∅, 0⟩

end Codec

end SynergyNode
