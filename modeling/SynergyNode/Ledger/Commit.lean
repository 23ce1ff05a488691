import SynergyNode.Ledger

/-!
# Committing a block

A block is committed when it is valid on top of the last one, its operator may propose it, the
votes back every slot it changes, and its transactions are pending, valid and covered.  All of
that is checked before the first write; the writes are `Ledger.commitWrites`, in this order:
the tree, the transactions, the snapshot of the accounts, the block, the height.

When a write fails, the accounts go back to the snapshot of the last block.
-/

namespace SynergyNode

/-- Where a block comes from. -/
inductive BlockOrigin where
  /-- A round that is open now: changes of a slot need votes. -/
  | proposal
  /-- The history of a peer. -/
  | sync
deriving DecidableEq

/-- What a commit did. -/
structure CommitReport where
  height : UInt64
  /-- The number of transactions. -/
  transactions : Nat
  /-- The slots in which other schemes are now live. -/
  changed : List Slot
deriving DecidableEq

namespace Ledger

/-! ## 1. Changes of the schemes -/

/-- Checks that the votes put the declared descriptor in a slot. -/
def checkBacked (l : Ledger) (b : Block) (slot : Slot) : Except LedgerError Unit :=
  match l.lastBlock.header.descriptor slot with
  | .error e => .error (.scheme e)
  | .ok current =>
    match b.header.descriptor slot with
    | .error e => .error (.scheme e)
    | .ok proposed =>
      if l.voting.decide? slot b.height l.accounts.totalStaked current = some proposed then
        .ok ()
      else .error (.unbackedChange slot)

/-- Checks the slots that a block changes one after the other.  Asking the votes forgets those
that are no longer live. -/
def checkChanges (l : Ledger) (b : Block) (origin : BlockOrigin) :
    List Slot → Except LedgerError Unit × Ledger
  | [] => (.ok (), l)
  | slot :: rest =>
    if b.height < Protocol.encryptionChangeMinHeight then
      (.error (.earlyChange slot b.height), l)
    else if origin = .proposal then
      match l.checkBacked b slot with
      | .error e => (.error e, { l with voting := l.voting.prune slot b.height })
      | .ok () =>
        checkChanges { l with voting := l.voting.prune slot b.height } b origin rest
    else l.checkChanges b origin rest

/-! ## 2. Writing -/

/-- The changes of the store that a block makes. -/
def commitWrites (b : Block) (txs : List Transaction) (snapshot : Bytes) : List StoreWrite :=
  .putTree b.height b.tree.toBytes :: Store.commitWrites b txs snapshot

/-- Makes the changes of a block; the tree stays when the rest fails. -/
def persist (s : Store) (b : Block) (txs : List Transaction) (snapshot : Bytes) :
    Except StoreError Unit × Store :=
  match s.putMerkleTree b.tree with
  | .error e => (.error e, s)
  | .ok s =>
    match s.commit b txs snapshot with
    | .error e => (.error e, s)
    | .ok s => (.ok (), s)

/-- Brings everything that follows from the blocks up to a new last block: pools, last block and
height, then the schemes of the changed slots, and when all of these are in force votes and
figures. -/
def advance (l : Ledger) (b : Block) (txs : List Transaction) (changed : List Slot) :
    Except LedgerError Unit × Ledger :=
  let next : Ledger :=
    { l with
      pools := txs.foldl (fun p t => (p.remove t.hash).2) l.pools
      lastBlock := b
      height := b.height }
  match takeUpSchemes b.header changed l.schemes with
  | (.error e, schemes) => (.error e, { next with schemes := schemes })
  | (.ok (), schemes) =>
    (.ok (),
      { next with
        schemes := schemes
        voting := if changed = [] then l.voting else l.voting.reset
        stats := l.stats.update b l.lastBlock })

/-! ## 3. Committing -/

variable [SignatureSuite]

/-- The transactions of a block and the accounts after it. -/
def execute (l : Ledger) (b : Block) : Except LedgerError (List Transaction × Accounts) :=
  match l.collectTransactions b with
  | .error e => .error e
  | .ok txs =>
    match l.lastBlock.schemes with
    | .error e => .error (.block e)
    | .ok live =>
      match checkTransactions live txs with
      | .error e => .error e
      | .ok () =>
        match l.accounts.applyBlock b txs with
        | .error e => .error (.account e)
        | .ok accounts => .ok (txs, accounts)

/-- Everything about a block that is checked before the slots it changes. -/
def checkBlock (l : Ledger) (b : Block) : Except LedgerError Unit :=
  match b.checkBase l.lastBlock with
  | .error e => .error (.block e)
  | .ok _ => l.checkOperator b

/-- Commits a block whose checks have passed. -/
def finish (l : Ledger) (b : Block) (txs : List Transaction) (accounts : Accounts)
    (changed : List Slot) : Except LedgerError CommitReport × Ledger :=
  match persist l.store b txs accounts.toBytes with
  | (.ok (), store) =>
    match advance { l with store := store, accounts := accounts } b txs changed with
    | (.error e, l) => (.error e, l)
    | (.ok (), l) => (.ok ⟨b.height, txs.length, changed⟩, l)
  | (.error e, store) =>
    match restoredAccounts store l.lastBlock.height accounts with
    | .error cause => (.error cause, { l with store := store, accounts := accounts })
    | .ok before => (.error (.store e), { l with store := store, accounts := before })

/-- Verifies a block on top of the last one and commits it. -/
def commit (l : Ledger) (b : Block) (origin : BlockOrigin) :
    Except LedgerError CommitReport × Ledger :=
  match l.checkBlock b with
  | .error e => (.error e, l)
  | .ok () =>
    match l.checkChanges b origin (b.changedSlots l.lastBlock) with
    | (.error e, l) => (.error e, l)
    | (.ok (), l) =>
      match l.execute b with
      | .error e => (.error e, l)
      | .ok (txs, accounts) => l.finish b txs accounts (b.changedSlots l.lastBlock)

end Ledger

end SynergyNode
