import SynergyNode.Block

/-!
# The store

What survives a restart: blocks, trees and account snapshots by height, committed transactions
by hash, and the height of the chain.  Everything is kept in its binary form and decoded when
it is read, so a read can fail on what a write put there.

A change of the store is a list of `StoreWrite`s, each of which is made whole or not at all.
An operation that meets a failure makes none of its writes.
-/

namespace SynergyNode

/-- Why an operation of the store fails. -/
inductive StoreError where
  /-- The medium fails, for this reason. -/
  | io (reason : String)
  /-- A stored block cannot be decoded. -/
  | block (cause : BlockError)
  /-- A stored transaction cannot be decoded. -/
  | transaction (cause : TransactionError)
  /-- A stored tree cannot be decoded. -/
  | tree
deriving DecidableEq

/-- The text of an error. -/
def StoreError.message : StoreError → String
  | .io reason => "storage I/O error: " ++ reason
  | .block e => "serialization error: " ++ e.message
  | .transaction e => "serialization error: " ++ e.message
  | .tree => "serialization error"

/-- The cause of an error under a fixed name. -/
def StoreError.code : StoreError → String
  | .io _ => "Io"
  | .block _ => "Serialization"
  | .transaction _ => "Serialization"
  | .tree => "Serialization"

/-- The operations of a store. -/
inductive StoreOperation where
  | putBlock
  | getBlock
  | removeBlock
  | putTransaction
  | getTransaction
  | hasTransaction
  | removeTransaction
  | putTree
  | getTree
  | removeTree
  | putSnapshot
  | getSnapshot
  | removeSnapshot
  | putHeight
  | getHeight
  /-- All of a block but its tree. -/
  | commit
  | flush
deriving DecidableEq

namespace StoreOperation

/-- Every operation. -/
def all : List StoreOperation :=
  [putBlock, getBlock, removeBlock, putTransaction, getTransaction, hasTransaction,
    removeTransaction, putTree, getTree, removeTree, putSnapshot, getSnapshot, removeSnapshot,
    putHeight, getHeight, commit, flush]

/-- The name of an operation. -/
def name : StoreOperation → String
  | putBlock => "put_block"
  | getBlock => "get_block"
  | removeBlock => "remove_block"
  | putTransaction => "put_transaction"
  | getTransaction => "get_transaction"
  | hasTransaction => "has_transaction"
  | removeTransaction => "remove_transaction"
  | putTree => "put_merkle_tree"
  | getTree => "get_merkle_tree"
  | removeTree => "remove_merkle_tree"
  | putSnapshot => "put_account_snapshot"
  | getSnapshot => "get_account_snapshot"
  | removeSnapshot => "remove_account_snapshot"
  | putHeight => "put_chain_height"
  | getHeight => "get_chain_height"
  | commit => "apply_commit_batch"
  | flush => "flush"

end StoreOperation

/-- One change of the store. -/
inductive StoreWrite where
  | putBlock (block : Block)
  | removeBlock (height : UInt64)
  /-- Several transactions at once. -/
  | putTransactions (transactions : List Transaction)
  | removeTransaction (hash : Hash)
  | putTree (height : UInt64) (tree : Bytes)
  | removeTree (height : UInt64)
  | putSnapshot (height : UInt64) (snapshot : Bytes)
  | removeSnapshot (height : UInt64)
  | putHeight (height : UInt64)

/-- The stored tables, and the failure that each operation meets, if it meets one. -/
structure Store where
  blocks : Std.ExtTreeMap UInt64 Bytes
  transactions : Std.ExtTreeMap Hash Bytes
  trees : Std.ExtTreeMap UInt64 Bytes
  snapshots : Std.ExtTreeMap UInt64 Bytes
  chainHeight : Option UInt64
  failure : StoreOperation → Option StoreError

namespace Store

/-- Nothing is stored and nothing fails. -/
def empty : Store := ⟨∅, ∅, ∅, ∅, none, fun _ => none⟩

/-! ## 1. Writes -/

/-- Makes one change. -/
def apply (s : Store) : StoreWrite → Store
  | .putBlock b => { s with blocks := s.blocks.insert b.height b.toBytes }
  | .removeBlock h => { s with blocks := s.blocks.erase h }
  | .putTransactions txs =>
    { s with transactions := txs.foldl (fun m t => m.insert t.hash t.toBytes) s.transactions }
  | .removeTransaction hash => { s with transactions := s.transactions.erase hash }
  | .putTree h tree => { s with trees := s.trees.insert h tree }
  | .removeTree h => { s with trees := s.trees.erase h }
  | .putSnapshot h snapshot => { s with snapshots := s.snapshots.insert h snapshot }
  | .removeSnapshot h => { s with snapshots := s.snapshots.erase h }
  | .putHeight h => { s with chainHeight := some h }

/-- Makes changes in order. -/
def applyAll (s : Store) (writes : List StoreWrite) : Store := writes.foldl apply s

/-- Makes the changes of an operation, unless it fails. -/
def perform (s : Store) (op : StoreOperation) (writes : List StoreWrite) :
    Except StoreError Store :=
  match s.failure op with
  | some e => .error e
  | none => .ok (s.applyAll writes)

/-- Stores a block under its height. -/
def putBlock (s : Store) (b : Block) : Except StoreError Store :=
  s.perform .putBlock [.putBlock b]

/-- Removes the block at a height. -/
def removeBlock (s : Store) (height : UInt64) : Except StoreError Store :=
  s.perform .removeBlock [.removeBlock height]

/-- Stores a transaction under its hash. -/
def putTransaction (s : Store) (t : Transaction) : Except StoreError Store :=
  s.perform .putTransaction [.putTransactions [t]]

/-- Removes the transaction with a hash. -/
def removeTransaction (s : Store) (hash : Hash) : Except StoreError Store :=
  s.perform .removeTransaction [.removeTransaction hash]

/-- Stores a tree's binary form under a height. -/
def putTree (s : Store) (height : UInt64) (tree : Bytes) : Except StoreError Store :=
  s.perform .putTree [.putTree height tree]

/-- Removes the tree at a height. -/
def removeTree (s : Store) (height : UInt64) : Except StoreError Store :=
  s.perform .removeTree [.removeTree height]

/-- Stores the snapshot of the accounts at a height. -/
def putSnapshot (s : Store) (height : UInt64) (snapshot : Bytes) : Except StoreError Store :=
  s.perform .putSnapshot [.putSnapshot height snapshot]

/-- Removes the snapshot at a height. -/
def removeSnapshot (s : Store) (height : UInt64) : Except StoreError Store :=
  s.perform .removeSnapshot [.removeSnapshot height]

/-- Sets the height of the chain. -/
def putHeight (s : Store) (height : UInt64) : Except StoreError Store :=
  s.perform .putHeight [.putHeight height]

/-- Everything a block brings with it except its tree; the height is written last. -/
def commitWrites (b : Block) (txs : List Transaction) (snapshot : Bytes) : List StoreWrite :=
  [.putTransactions txs, .putSnapshot b.height snapshot, .putBlock b, .putHeight b.height]

/-- Stores a block with its transactions and the accounts after it. -/
def commit (s : Store) (b : Block) (txs : List Transaction) (snapshot : Bytes) :
    Except StoreError Store :=
  s.perform .commit (commitWrites b txs snapshot)

/-- Waits until everything is on the medium. -/
def flush (s : Store) : Except StoreError Store := s.perform .flush []

/-- Stores a tree under its own height. -/
def putMerkleTree (s : Store) (t : Merkle.Tree) : Except StoreError Store :=
  s.putTree t.height t.toBytes

/-! ## 2. Reads -/

/-- The result of a read, unless it fails. -/
def fetch {α : Type} (s : Store) (op : StoreOperation) (a : α) : Except StoreError α :=
  match s.failure op with
  | some e => .error e
  | none => .ok a

/-- Decodes what a read found; `refusal` is the failure of the store when that cannot be done. -/
def decoded {α ε : Type} (decode : Bytes → Except ε α) (refusal : ε → StoreError) :
    Except StoreError (Option Bytes) → Except StoreError (Option α)
  | .error e => .error e
  | .ok none => .ok none
  | .ok (some b) =>
    match decode b with
    | .ok a => .ok (some a)
    | .error e => .error (refusal e)

/-- The block at a height. -/
def block? (s : Store) (height : UInt64) : Except StoreError (Option Block) :=
  decoded Block.ofBytes .block (s.fetch .getBlock s.blocks[height]?)

/-- The transaction with a hash. -/
def transaction? (s : Store) (hash : Hash) : Except StoreError (Option Transaction) :=
  decoded Transaction.ofBytes .transaction (s.fetch .getTransaction s.transactions[hash]?)

/-- Whether there is a transaction with a hash. -/
def hasTransaction (s : Store) (hash : Hash) : Except StoreError Bool :=
  s.fetch .hasTransaction (s.transactions.contains hash)

/-- The binary form of the tree at a height. -/
def tree? (s : Store) (height : UInt64) : Except StoreError (Option Bytes) :=
  s.fetch .getTree s.trees[height]?

/-- The tree at a height. -/
def merkleTree? (s : Store) (height : UInt64) : Except StoreError (Option Merkle.Tree) :=
  decoded (fun b => (Merkle.Tree.ofBytes? b).elim (.error ()) .ok) (fun _ => .tree)
    (s.tree? height)

/-- The snapshot of the accounts at a height. -/
def snapshot? (s : Store) (height : UInt64) : Except StoreError (Option Bytes) :=
  s.fetch .getSnapshot s.snapshots[height]?

/-- The height of the chain. -/
def height? (s : Store) : Except StoreError (Option UInt64) := s.fetch .getHeight s.chainHeight

end Store

end SynergyNode
