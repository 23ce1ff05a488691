import SynergyNode.Accounts
import SynergyNode.Pool
import SynergyNode.Stats
import SynergyNode.Store
import SynergyNode.Voting

/-!
# The ledger

The chain as a node sees it: the store, the last block, and everything that follows from the
blocks so far (accounts, live schemes, votes, figures), together with the pools that feed it.

This file holds the state, how it is opened on a store, and the checks that need more than a
block and its predecessor.  `Ledger.commit` and `Ledger.rollback` are in files of their own.
-/

namespace SynergyNode

/-- Why the ledger refuses. -/
inductive LedgerError where
  | store (cause : StoreError)
  | block (cause : BlockError)
  | account (cause : AccountError)
  | scheme (cause : SchemeError)
  /-- A transaction of the block is not valid. -/
  | transaction (hash : Hash) (cause : TransactionError)
  | missingBlock (height : UInt64)
  | missingTransactions (hashes : List Hash)
  | alreadyCommitted (hash : Hash)
  /-- The votes do not put the declared descriptor in this slot. -/
  | unbackedChange (slot : Slot)
  /-- A slot changes below the first height at which it may. -/
  | earlyChange (slot : Slot) (height : UInt64)
  | unknownOperator (id : UInt8) (operator : Address)
  | insufficientStake (id : UInt8) (staked : UInt64)
deriving DecidableEq

namespace LedgerError

/-- The front of a hash, as it is shown. -/
def shortHash (hash : Hash) : String := Bytes.toHex (hash.toList.take 8)

/-- The text of an error. -/
def message : LedgerError → String
  | store e => e.message
  | block e => "block: " ++ e.message
  | account e => "accounts: " ++ e.message
  | scheme e => "encryption: " ++ e.message
  | transaction hash e => "transaction " ++ shortHash hash ++ ": " ++ e.message
  | missingBlock height => "block " ++ toString height ++ " not found in store"
  | missingTransactions hashes =>
    toString hashes.length ++ " referenced transactions not available"
  | alreadyCommitted hash => "transaction " ++ shortHash hash ++ " already committed"
  | unbackedChange slot => slot.name ++ " slot changed without voting quorum"
  | earlyChange slot height =>
    slot.name ++ " slot changed at height " ++ toString height ++ ", below the minimum"
  | unknownOperator id operator =>
    operator.toText ++ " is not an operator of delegated account " ++ toString id
  | insufficientStake id staked =>
    "delegated account " ++ toString id ++ " stakes " ++ toString staked ++
      ", below the minimum"

/-- The cause of an error under a fixed name, followed by that of the error it wraps. -/
def code : LedgerError → String
  | store e => "Storage/" ++ e.code
  | block e => "Block/" ++ e.code
  | account e => "Account/" ++ e.code
  | scheme e => "Scheme/" ++ e.code
  | transaction _ _ => "Transaction"
  | missingBlock _ => "MissingBlock"
  | missingTransactions _ => "MissingTransactions"
  | alreadyCommitted _ => "AlreadyCommitted"
  | unbackedChange _ => "UnbackedEncryptionChange"
  | earlyChange _ _ => "EarlyEncryptionChange"
  | unknownOperator _ _ => "UnknownOperator"
  | insufficientStake _ _ => "InsufficientStake"

/-- Whether the block was signed with a key that may not propose it. -/
def isUnauthorized : LedgerError → Bool
  | unknownOperator _ _ => true
  | insufficientStake _ _ => true
  | _ => false

end LedgerError

/-- The state of the chain and of the pools that feed it. -/
structure Ledger where
  store : Store
  accounts : Accounts
  stats : ChainStats
  schemes : LiveSchemes
  voting : Voting
  pools : Pools
  /-- The stake a delegated account needs to propose blocks. -/
  minStake : UInt64
  /-- The height of the chain. -/
  height : UInt64
  /-- A batch of blocks is being committed. -/
  syncing : Bool
  lastBlock : Block

namespace Ledger

/-- A store operation of the ledger. -/
def fromStore {α : Type} : Except StoreError α → Except LedgerError α
  | .ok a => .ok a
  | .error e => .error (.store e)

/-! ## 1. Opening -/

/-- The block at a height, which must be there. -/
def requireBlock (s : Store) (height : UInt64) : Except LedgerError Block :=
  match s.block? height with
  | .error e => .error (.store e)
  | .ok none => .error (.missingBlock height)
  | .ok (some b) => .ok b

/-- The accounts of the snapshot at a height, or those given when there is none. -/
def restoredAccounts (s : Store) (height : UInt64) (accounts : Accounts) :
    Except LedgerError Accounts :=
  match s.snapshot? height with
  | .error e => .error (.store e)
  | .ok none => .ok accounts
  | .ok (some b) =>
    match Accounts.ofBytes b with
    | .error e => .error (.account e)
    | .ok a => .ok a

/-- The descriptors that a header declares. -/
def declaredSchemes (h : Header) : Except LedgerError LiveSchemes :=
  match h.descriptor .primary with
  | .error e => .error (.scheme e)
  | .ok p =>
    match h.descriptor .secondary with
    | .error e => .error (.scheme e)
    | .ok s => .ok ⟨p, s⟩

/-- Puts the descriptors that a header declares in force, one slot after the other. -/
def takeUpSchemes (h : Header) : List Slot → LiveSchemes → Except LedgerError Unit × LiveSchemes
  | [], live => (.ok (), live)
  | slot :: rest, live =>
    match h.descriptor slot with
    | .error e => (.error (.scheme e), live)
    | .ok d => takeUpSchemes h rest (live.set slot d)

/-- Writes the first block on an empty store, together with the accounts as they are. -/
def startChain (s : Store) (accounts : Accounts) :
    Except LedgerError (Store × Accounts × Block) :=
  match s.commit Block.genesis [] accounts.toBytes with
  | .error e => .error (.store e)
  | .ok s => .ok (s, accounts, Block.genesis)

/-- Takes up the chain of a store at its height. -/
def resumeChain (s : Store) (accounts : Accounts) (height : UInt64) :
    Except LedgerError (Store × Accounts × Block) :=
  match requireBlock s height with
  | .error e => .error e
  | .ok b =>
    match restoredAccounts s height accounts with
    | .error e => .error e
    | .ok a => .ok (s, a, b)

/-- Opens the ledger on a store: starts a chain when the store has no height, and otherwise
stands where the store does, with the accounts and schemes of that height. -/
def openOn (s : Store) (accounts : Accounts) (stats : ChainStats) (voting : Voting)
    (pools : Pools) (minStake : UInt64) : Except LedgerError Ledger :=
  match s.height? with
  | .error e => .error (.store e)
  | .ok stored =>
    match stored.elim (startChain s accounts) (resumeChain s accounts) with
    | .error e => .error e
    | .ok (store, accounts, last) =>
      match declaredSchemes last.header with
      | .error e => .error e
      | .ok schemes =>
        .ok
          { store := store
            accounts := accounts
            stats := stats
            schemes := schemes
            voting := voting
            pools := pools
            minStake := minStake
            height := last.height
            syncing := false
            lastBlock := last }

/-! ## 2. Checks -/

/-- Checks that a block's operator signs for a delegated account with enough stake. -/
def checkOperator (l : Ledger) (b : Block) : Except LedgerError Unit :=
  let id := b.header.delegatedId
  let entry := (l.accounts.stakingOf? id).getD default
  if b.header.operator ∉ entry.operators then .error (.unknownOperator id b.header.operator)
  else if entry.staked < l.minStake then .error (.insufficientStake id entry.staked)
  else .ok ()

/-- The given hashes that are neither pending nor committed. -/
def missingAmong (l : Ledger) : List Hash → Except LedgerError (List Hash)
  | [] => .ok []
  | h :: rest =>
    if l.pools.contains h then l.missingAmong rest
    else
      match l.store.hasTransaction h with
      | .error e => .error (.store e)
      | .ok committed =>
        match l.missingAmong rest with
        | .error e => .error e
        | .ok missing => .ok (if committed then missing else h :: missing)

/-- The transactions of a block that are neither pending nor committed. -/
def missingTransactions (l : Ledger) (b : Block) : Except LedgerError (List Hash) :=
  l.missingAmong b.txHashes

/-- The pending transactions with the given hashes, and the hashes that have none; none of them
may be committed already. -/
def lookUp (l : Ledger) : List Hash → Except LedgerError (List Transaction × List Hash)
  | [] => .ok ([], [])
  | h :: rest =>
    match l.store.hasTransaction h with
    | .error e => .error (.store e)
    | .ok true => .error (.alreadyCommitted h)
    | .ok false =>
      match l.lookUp rest with
      | .error e => .error e
      | .ok (found, missing) =>
        match l.pools.find? h with
        | some t => .ok (t :: found, missing)
        | none => .ok (found, h :: missing)

/-- The transactions of a block in its order, all of them pending and none committed. -/
def collectTransactions (l : Ledger) (b : Block) : Except LedgerError (List Transaction) :=
  match l.lookUp b.txHashes with
  | .error e => .error e
  | .ok (found, []) => .ok found
  | .ok (_, missing) => .error (.missingTransactions missing)

/-- Verifies transactions in order under the given schemes. -/
def checkTransactions [SignatureSuite] (live : LiveSchemes) :
    List Transaction → Except LedgerError Unit
  | [] => .ok ()
  | t :: rest =>
    match t.verify live with
    | .error e => .error (.transaction t.hash e)
    | .ok () => checkTransactions live rest

/-- Raises the flag that a batch is being committed; says whether it was down. -/
def beginSync (l : Ledger) : Bool × Ledger := (!l.syncing, { l with syncing := true })

/-- Lowers the flag. -/
def endSync (l : Ledger) : Ledger := { l with syncing := false }

end Ledger

end SynergyNode
