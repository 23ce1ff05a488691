import SynergyNode.Round.Proposer
import SynergyNode.Sync.Follower
import SynergyNode.Transport

/-!
# Errors of a node

What can go wrong when a node starts or takes a message, and for which of these errors the
sender is to blame (`NodeError.isPeerFault`).
-/

namespace SynergyNode

/-- What is wrong with a message that could be read. -/
inductive MalformedMessage where
  | noNonce
  | noBlock
  /-- A blob that should be a transaction's hash has another length. -/
  | hashLength
deriving DecidableEq

/-- The text for a malformed message. -/
def MalformedMessage.text : MalformedMessage → String
  | .noNonce => "nonce message without nonce"
  | .noBlock => "block message without block"
  | .hashLength => "transaction hash length"

/-- Why a node does not start or does not take a message. -/
inductive NodeError where
  | io (reason : String)
  | store (cause : StoreError)
  | ledger (cause : LedgerError)
  | wallet (cause : WalletError)
  | accounts (cause : AccountError)
  | transport (cause : TransportError)
  | codec (cause : CodecError)
  | sync (cause : SyncError)
  | proposal (cause : ProposalError)
  | transaction (cause : TransactionError)
  | block (cause : BlockError)
  | key (cause : KeyError)
  /-- Messages of this kind have no place on this topic. -/
  | wrongTopic (opcode : Opcode) (topic : Topic)
  | malformed (part : MalformedMessage)
deriving DecidableEq

namespace NodeError

/-- The text of an error. -/
def message : NodeError → String
  | io reason => "I/O error: " ++ reason
  | store e => "storage error: " ++ e.message
  | ledger e => "ledger error: " ++ e.message
  | wallet e => "wallet error: " ++ e.message
  | accounts e => "genesis accounts: " ++ e.message
  | transport e => "transport error: " ++ e.message
  | codec e => "codec error: " ++ e.message
  | sync e => "sync: " ++ e.message
  | proposal e => "proposal: " ++ e.message
  | transaction e => e.message
  | block e => e.message
  | key e => e.message
  | wrongTopic opcode topic =>
    "opcode " ++ opcode.text ++ " is not served on topic " ++ topic.toText
  | malformed part => "malformed message: " ++ part.text

/-- The cause of an error under a fixed name, followed by that of the error it wraps. -/
def code : NodeError → String
  | io _ => "Io"
  | store e => "Storage/" ++ e.code
  | ledger e => "Ledger/" ++ e.code
  | wallet e => "Wallet/" ++ e.code
  | accounts e => "Accounts/" ++ e.code
  | transport e => "Transport/" ++ e.code
  | codec e => "Codec/" ++ e.code
  | sync e => "Sync/" ++ e.code
  | proposal e => "Proposal/" ++ e.code
  | transaction e => "Transaction/" ++ e.code
  | block e => "Block/" ++ e.code
  | key e => "Key/" ++ e.code
  | wrongTopic _ _ => "WrongTopic"
  | malformed _ => "Malformed"

/-- Whether the sender is to blame and loses trust. -/
def isPeerFault : NodeError → Bool
  | ledger e => e.isUnauthorized
  | sync (.ledger e) => e.isUnauthorized
  | sync (.malformed _) => true
  | sync (.block _ _) => true
  | sync (.indexMismatch _ _) => true
  | codec _ => true
  | transaction _ => true
  | block _ => true
  | wrongTopic _ _ => true
  | malformed _ => true
  | _ => false

end NodeError

end SynergyNode
