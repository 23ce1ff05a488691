import SynergyNode.Bytes

/-!
# Opcodes

What a message is about: two letters at its head.
-/

namespace SynergyNode

/-- The kind of a message. -/
inductive Opcode where
  /-- A nonce transaction that opens a round. -/
  | nonce
  /-- A proposed block. -/
  | block
  /-- The height and tip of a node. -/
  | heightAnnounce
  /-- Asks for a range of blocks. -/
  | getHeaders
  /-- A range of blocks. -/
  | sendHeaders
  /-- Pending transactions. -/
  | txGossip
  /-- Asks for pending transactions. -/
  | getTxFromPool
  /-- Asks for committed transactions. -/
  | getTxFromLedger
deriving DecidableEq

namespace Opcode

/-- Every opcode. -/
def all : List Opcode :=
  [nonce, block, heightAnnounce, getHeaders, sendHeaders, txGossip, getTxFromPool,
    getTxFromLedger]

/-- The name of an opcode. -/
def name : Opcode → String
  | nonce => "Nonce"
  | block => "Block"
  | heightAnnounce => "HeightAnnounce"
  | getHeaders => "GetHeaders"
  | sendHeaders => "SendHeaders"
  | txGossip => "TxGossip"
  | getTxFromPool => "GetTxFromPool"
  | getTxFromLedger => "GetTxFromLedger"

/-- The two letters of an opcode. -/
def text : Opcode → String
  | nonce => "nn"
  | block => "bl"
  | heightAnnounce => "hi"
  | getHeaders => "gh"
  | sendHeaders => "sh"
  | txGossip => "tx"
  | getTxFromPool => "st"
  | getTxFromLedger => "bt"

/-- The opcode with the given letters as text. -/
def ofText? (text : String) : Option Opcode := all.find? fun op => op.text == text

/-- The two letters as bytes. -/
def token : Opcode → UInt8 × UInt8
  | nonce => (110, 110)
  | block => (98, 108)
  | heightAnnounce => (104, 105)
  | getHeaders => (103, 104)
  | sendHeaders => (115, 104)
  | txGossip => (116, 120)
  | getTxFromPool => (115, 116)
  | getTxFromLedger => (98, 116)

/-- The opcode with the given letters. -/
def ofToken? (token : UInt8 × UInt8) : Option Opcode := all.find? fun op => op.token == token

/-- Whether the blobs of such a message are transactions. -/
def carriesTransactions : Opcode → Bool
  | nonce => true
  | txGossip => true
  | _ => false

theorem mem_all (op : Opcode) : op ∈ all := by cases op <;> simp [all]

@[simp] theorem ofToken?_token (op : Opcode) : ofToken? op.token = some op := by
  cases op <;> decide

/-- Only its own letters select an opcode. -/
theorem token_eq_of_ofToken? {t : UInt8 × UInt8} {op : Opcode} (h : ofToken? t = some op) :
    op.token = t := by
  have := List.find?_some h
  simpa using this

end Opcode

end SynergyNode
