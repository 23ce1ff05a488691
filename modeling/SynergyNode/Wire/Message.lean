import SynergyNode.Wire.Opcode
import SynergyNode.Wire.Topic

/-!
# Messages

A message has an opcode, the identifier of its chain and, under two-byte keys, lists of blobs.
It is written as

* the two letters of the opcode and two zero bytes,
* the chain identifier (two bytes),
* the number of entries (four bytes), and for each entry, in the order of the keys,
* the key, the number of blobs (four bytes), and each blob after its length (four bytes).
-/

namespace SynergyNode

/-- A message between nodes. -/
structure Message where
  head : Opcode
  chainId : UInt16
  payload : Std.ExtTreeMap Topic (List Bytes)

/-- Why bytes are not a message, or not one for this node. -/
inductive CodecError where
  | insufficientBase
  | insufficientEntryCount
  | insufficientKey
  | insufficientBlobCount
  | insufficientBlobLength
  | insufficientBlob
  /-- The first four bytes name no opcode. -/
  | unknownOpcode (head : Bytes)
  | chainIdMismatch (expected got : UInt16)
  | messageTooLarge (size max : Nat)
  /-- This many bytes follow the message. -/
  | trailingBytes (count : Nat)
deriving DecidableEq

namespace CodecError

/-- The text of an error. -/
def message : CodecError → String
  | insufficientBase => "insufficient bytes for base message"
  | insufficientEntryCount => "insufficient bytes for entry count"
  | insufficientKey => "insufficient bytes for entry key"
  | insufficientBlobCount => "insufficient bytes for blob count"
  | insufficientBlobLength => "insufficient bytes for blob length"
  | insufficientBlob => "insufficient bytes for blob body"
  | unknownOpcode head => "unknown opcode " ++ head.toHex
  | chainIdMismatch expected got =>
    "chain id mismatch: expected " ++ toString expected ++ ", got " ++ toString got
  | messageTooLarge size max =>
    "message of " ++ toString size ++ " bytes exceeds limit " ++ toString max
  | trailingBytes count => toString count ++ " trailing bytes after message"

/-- The cause of an error under a fixed name, followed by that of the error it wraps. -/
def code : CodecError → String
  | insufficientBase => "InsufficientBase"
  | insufficientEntryCount => "InsufficientEntryCount"
  | insufficientKey => "InsufficientKey"
  | insufficientBlobCount => "InsufficientBlobCount"
  | insufficientBlobLength => "InsufficientBlobLength"
  | insufficientBlob => "InsufficientBlob"
  | unknownOpcode _ => "UnknownOpcode"
  | chainIdMismatch _ _ => "ChainIdMismatch"
  | messageTooLarge _ _ => "MessageTooLarge"
  | trailingBytes _ => "TrailingBytes"

/-- Whether the bytes end too early. -/
def isInsufficient : CodecError → Bool
  | insufficientBase => true
  | insufficientEntryCount => true
  | insufficientKey => true
  | insufficientBlobCount => true
  | insufficientBlobLength => true
  | insufficientBlob => true
  | _ => false

end CodecError

namespace Message

/-! ## 1. Entries -/

/-- A message without entries. -/
def empty (head : Opcode) (chainId : UInt16) : Message := ⟨head, chainId, ∅⟩

/-- Replaces the blobs under a key. -/
def put (m : Message) (key : Topic) (blobs : List Bytes) : Message :=
  { m with payload := m.payload.insert key blobs }

/-- The blobs under a key. -/
def blobs (m : Message) (key : Topic) : List Bytes := m.payload[key]?.getD []

/-- Adds a blob under a key. -/
def push (m : Message) (key : Topic) (blob : Bytes) : Message := m.put key (m.blobs key ++ [blob])

/-- The first blob under a key. -/
def first? (m : Message) (key : Topic) : Option Bytes := (m.blobs key).head?

/-- The entries in the order of the keys. -/
def entries (m : Message) : List (Topic × List Bytes) := m.payload.toList

/-! ## 2. Writing -/

/-- A blob after its length. -/
def blobBytes (b : Bytes) : Bytes := leBytes 4 b.length ++ b

/-- A key, the number of blobs, and the blobs. -/
def entryBytes (e : Topic × List Bytes) : Bytes :=
  e.1.toBytes ++ (leBytes 4 e.2.length ++ e.2.flatMap blobBytes)

/-- The bytes of a message. -/
def toBytes (m : Message) : Bytes :=
  [m.head.token.1, m.head.token.2, 0, 0] ++ (leBytes 2 m.chainId.toNat ++
    (leBytes 4 m.payload.size ++ m.entries.flatMap entryBytes))

/-- The number of bytes of a message. -/
def encodedLength (m : Message) : Nat :=
  m.entries.foldl (fun n e => e.2.foldl (fun n b => n + 4 + b.length) (n + 6)) 10

/-! ## 3. Reading -/

/-- The first `n` bytes and the rest. -/
def take (n : Nat) (e : CodecError) (b : Bytes) : Except CodecError (Bytes × Bytes) :=
  let front := b.take n
  if front.length = n then .ok (front, b.drop n) else .error e

/-- The number that the next four bytes denote. -/
def takeCount (e : CodecError) (b : Bytes) : Except CodecError (Nat × Bytes) :=
  match take 4 e b with
  | .ok (n, r) => .ok (ofLe n, r)
  | .error e => .error e

/-- Reads `n` blobs onto the reversed ones read so far. -/
def readBlobs : (n : Nat) → (acc : List Bytes) → Bytes → Except CodecError (List Bytes × Bytes)
  | 0, acc, b => .ok (acc.reverse, b)
  | n + 1, acc, b =>
    match takeCount .insufficientBlobLength b with
    | .error e => .error e
    | .ok (len, r) =>
      match take len .insufficientBlob r with
      | .error e => .error e
      | .ok (blob, r) => readBlobs n (blob :: acc) r

/-- The topic that two bytes form. -/
def topicOfBytes (b : Bytes) : Topic := ⟨b.getD 0 0, b.getD 1 0⟩

/-- Reads one entry. -/
def readEntry (b : Bytes) : Except CodecError ((Topic × List Bytes) × Bytes) :=
  match take 2 .insufficientKey b with
  | .error e => .error e
  | .ok (key, r) =>
    match takeCount .insufficientBlobCount r with
    | .error e => .error e
    | .ok (n, r) =>
      match readBlobs n [] r with
      | .error e => .error e
      | .ok (blobs, r) => .ok ((topicOfBytes key, blobs), r)

/-- Reads `n` entries into a payload; of two entries with one key the later counts. -/
def readEntries : (n : Nat) → Std.ExtTreeMap Topic (List Bytes) → Bytes →
    Except CodecError (Std.ExtTreeMap Topic (List Bytes) × Bytes)
  | 0, payload, b => .ok (payload, b)
  | n + 1, payload, b =>
    match readEntry b with
    | .error e => .error e
    | .ok (entry, r) => readEntries n (payload.insert entry.1 entry.2) r

/-- The opcode that four bytes at the head of a message name. -/
def readHead (head : Bytes) : Except CodecError Opcode :=
  match head with
  | [a, b, 0, 0] =>
    match Opcode.ofToken? (a, b) with
    | some op => .ok op
    | none => .error (.unknownOpcode head)
  | _ => .error (.unknownOpcode head)

/-- Reads a message that fills all of the bytes. -/
def ofBytes (b : Bytes) : Except CodecError Message := do
  let (head, r) ← take 4 .insufficientBase b
  let head ← readHead head
  let (chainId, r) ← take 2 .insufficientBase r
  let (n, r) ← takeCount .insufficientEntryCount r
  let (payload, r) ← readEntries n ∅ r
  if r ≠ [] then throw (.trailingBytes r.length)
  return ⟨head, UInt16.ofNat (ofLe chainId), payload⟩

end Message

end SynergyNode
