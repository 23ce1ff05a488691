import SynergyNode.Node.Error
import SynergyNode.View

/-!
# Views of results

Every error has a cause under a fixed name, for programs, and a text, for people.  A result is
shown as its value or as these two.
-/

namespace SynergyNode

open View

/-- Errors with a name for their cause and a text. -/
class Fault (ε : Type) where
  code : ε → String
  message : ε → String

namespace Fault

instance : Fault KeyError := ⟨KeyError.code, KeyError.message⟩
instance : Fault SchemeError := ⟨SchemeError.code, SchemeError.message⟩
instance : Fault TransactionError := ⟨TransactionError.code, TransactionError.message⟩
instance : Fault BlockError := ⟨BlockError.code, BlockError.message⟩
instance : Fault OracleError := ⟨OracleError.code, OracleError.message⟩
instance : Fault VotingError := ⟨VotingError.code, VotingError.message⟩
instance : Fault AccountError := ⟨AccountError.code, AccountError.message⟩
instance : Fault CodecError := ⟨CodecError.code, CodecError.message⟩
instance : Fault StoreError := ⟨StoreError.code, StoreError.message⟩
instance : Fault LedgerError := ⟨LedgerError.code, LedgerError.message⟩
instance : Fault SyncError := ⟨SyncError.code, SyncError.message⟩
instance : Fault ProposalError := ⟨ProposalError.code, ProposalError.message⟩
instance : Fault WalletError := ⟨WalletError.code, WalletError.message⟩
instance : Fault TransportError := ⟨TransportError.code, TransportError.message⟩
instance : Fault NodeError := ⟨NodeError.code, NodeError.message⟩

/-- Nonce data that cannot be read are named as in a round that they were meant for. -/
instance : Fault NonceDataError :=
  ⟨fun e => (ProposalError.data e).code, fun e => (ProposalError.data e).message⟩

/-- An error, with further fields. -/
def view {ε : Type} [Fault ε] (e : ε) (more : Fields) : View :=
  both [("error", code e), ("message", message e)] more

end Fault

/-- A value that was to be had. -/
def View.ok (v : View) : View := record [("ok", v)]

instance {ε α : Type} [Fault ε] [ToView α] : ToView (Except ε α) := ⟨fun
  | .ok a => .ok (ToView.view a)
  | .error e => Fault.view e []⟩

end SynergyNode
