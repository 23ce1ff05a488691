import SynergyNode.Ledger.Commit
import SynergyNode.Ledger.Rollback
import SynergyNode.Sync.Messages

/-!
# Following other chains

A follower compares heights with its peers, serves blocks it has and takes batches it is sent.
A batch either extends its chain, and is committed block by block, or differs from it at some
height, and then its own blocks from there on are given up so that the next batch fits.

Of two chains of one height, the one whose tip has the lower hash is kept.
-/

namespace SynergyNode

/-- Where a follower stands between two messages. -/
inductive SyncPhase where
  | idle
  /-- No peer is known to be ahead. -/
  | inSync
  | requesting (request : HeaderRequest)
deriving DecidableEq

/-- A phase as it is shown. -/
def SyncPhase.text : SyncPhase → String
  | .idle => "Idle"
  | .inSync => "InSync"
  | .requesting r =>
    "RequestingHeaders \x7b begin: " ++ toString r.first ++ ", end: " ++ toString r.last ++ " \x7d"

/-- Why a batch is passed over. -/
inductive IgnoredBatch where
  | empty
  | shorter
  /-- The same height, and a tip that is not lower than ours. -/
  | notPreferred
  | disconnected
deriving DecidableEq

/-- The text for a batch that is passed over. -/
def IgnoredBatch.text : IgnoredBatch → String
  | .empty => "empty batch"
  | .shorter => "peer chain is shorter"
  | .notPreferred => "peer tip is not preferred"
  | .disconnected => "batch does not reach our tip"

/-- What a batch led to. -/
inductive BatchOutcome where
  | ignored (reason : IgnoredBatch)
  /-- The chains differ at a height, and ours now ends at another. -/
  | forked (fork : UInt64) (rolledBackTo : UInt64)
  /-- These transactions have to be fetched first. -/
  | missingTransactions (hashes : List Hash)
  | committed (reports : List CommitReport)
deriving DecidableEq

/-- What the blocks of a batch are to a chain. -/
inductive BatchVerdict where
  /-- The batch and the chain differ from this height on. -/
  | fork (height : UInt64)
  /-- The batch extends the chain; these of its transactions are unknown. -/
  | extension (missing : List Hash)
deriving DecidableEq

/-- A ledger that follows its peers. -/
structure Follower where
  ledger : Ledger
  /-- Blocks given up below the first that differs. -/
  rollbackDistance : UInt64
  phase : SyncPhase

namespace Ledger

/-! ## 1. Blocks of other chains -/

/-- A block that must be stored. -/
def storedBlock (l : Ledger) (height : UInt64) : Except SyncError Block :=
  match requireBlock l.store height with
  | .error e => .error (.ledger e)
  | .ok b => .ok b

/-- The given block, or the stored one below a height. -/
def parentOf (l : Ledger) (height : UInt64) : Option Block → Except SyncError Block
  | some b => .ok b
  | none => l.storedBlock (height - 1)

/-- Why a batch is passed over without looking at its blocks, if it is. -/
def ignores? (l : Ledger) (batch : HeaderBatch) : Option IgnoredBatch :=
  match batch.head?, batch.getLast? with
  | some (first, _), some (last, tip) =>
    if last < l.lastBlock.height then some .shorter
    else if last = l.lastBlock.height ∧ compare tip.blockHash l.lastBlock.blockHash ≠ .lt then
      some .notPreferred
    else if l.lastBlock.height < first then some .disconnected
    else none
  | _, _ => some .empty

variable [SignatureSuite]

/-- Checks a block on top of its parent. -/
def checkOn (index : UInt64) (b parent : Block) : Except SyncError Unit :=
  match b.checkBase parent with
  | .error e => .error (.block index e)
  | .ok _ => .ok ()

/-- Checks a block that would replace ours at a height: it must be meant for that height, be
valid if it builds on the same parent, and be signed by a staked operator. -/
def checkCompeting (l : Ledger) (index : UInt64) (b : Block) (parent : Option Block) :
    Except SyncError Unit :=
  if b.height ≠ index then .error (.indexMismatch index b.height)
  else
    match l.parentOf index parent with
    | .error e => .error e
    | .ok parent =>
      match if b.header.previousHash = parent.blockHash then checkOn index b parent else .ok () with
      | .error e => .error e
      | .ok () =>
        match l.checkOperator b with
        | .error e => .error (.ledger e)
        | .ok () => .ok ()

/-- Goes through a batch: up to the height of the chain the blocks must be the stored ones, and
above it each must be valid on top of the one before.  `previous` is the last block gone
through. -/
def examine (l : Ledger) (previous : Option Block) (missing : List Hash) :
    HeaderBatch → Except SyncError BatchVerdict
  | [] => .ok (.extension missing)
  | (index, b) :: rest =>
    if index = 0 then l.examine previous missing rest
    else if index ≤ l.lastBlock.height then
      match l.storedBlock index with
      | .error e => .error e
      | .ok own =>
        if own.blockHash = b.blockHash then l.examine (some own) missing rest
        else
          match l.checkCompeting index b previous with
          | .error e => .error e
          | .ok () => .ok (.fork index)
    else if b.height ≠ index then .error (.indexMismatch index b.height)
    else
      match l.parentOf index previous with
      | .error e => .error e
      | .ok parent =>
        match checkOn index b parent with
        | .error e => .error e
        | .ok () =>
          match l.missingTransactions b with
          | .error e => .error (.ledger e)
          | .ok more => l.examine (some b) (missing ++ more) rest

/-! ## 2. Taking a batch -/

/-- Commits the blocks of a batch that lie above the chain, after those in `done`.  A failure
counts only if nothing was committed before it. -/
def commitBatch (l : Ledger) (done : List CommitReport) :
    HeaderBatch → Except SyncError BatchOutcome × Ledger
  | [] => (.ok (.committed done), l)
  | (index, b) :: rest =>
    if index ≤ l.height then l.commitBatch done rest
    else
      match l.commit b .sync with
      | (.ok report, l) => l.commitBatch (done ++ [report]) rest
      | (.error (.missingTransactions hashes), l) => (.ok (.missingTransactions hashes), l)
      | (.error e, l) =>
        if done = [] then (.error (.ledger e), l) else (.ok (.committed done), l)

omit [SignatureSuite] in
/-- Gives up the blocks from the given distance below a height on. -/
def abandonFrom (l : Ledger) (fork distance : UInt64) : Except SyncError BatchOutcome × Ledger :=
  match l.rollback (Word64.saturatingSub fork distance) with
  | (.error e, l) => (.error (.ledger e), l)
  | (.ok (), l) => (.ok (.forked fork l.height), l)

omit [SignatureSuite] in
/-- Changes the chain with the flag up that a batch is being committed, and lowers the flag
again; nothing is done when the flag was up already. -/
def whileSyncing (l : Ledger) (change : Ledger → Except SyncError BatchOutcome × Ledger) :
    Except SyncError BatchOutcome × Ledger :=
  match l.beginSync with
  | (false, l) => (.error .busy, l)
  | (true, l) =>
    let (outcome, l) := change l
    (outcome, l.endSync)

/-- Takes a batch of blocks from a peer. -/
def takeBatch (l : Ledger) (distance : UInt64) (batch : HeaderBatch) :
    Except SyncError BatchOutcome × Ledger :=
  match l.ignores? batch with
  | some reason => (.ok (.ignored reason), l)
  | none =>
    match l.examine none [] batch with
    | .error e => (.error e, l)
    | .ok (.fork height) => l.whileSyncing fun l => l.abandonFrom height distance
    | .ok (.extension (h :: missing)) => (.ok (.missingTransactions (h :: missing)), l)
    | .ok (.extension []) => l.whileSyncing fun l => l.commitBatch [] batch

/-! ## 3. Serving -/

omit [SignatureSuite] in
/-- The stored blocks of `count` heights from `first` on. -/
def blocksFrom (l : Ledger) (first : UInt64) : (count : Nat) → Except SyncError HeaderBatch
  | 0 => .ok []
  | n + 1 =>
    match l.storedBlock first with
    | .error e => .error e
    | .ok b =>
      match l.blocksFrom (first + 1) n with
      | .error e => .error e
      | .ok batch => .ok ((first, b) :: batch)

omit [SignatureSuite] in
/-- The stored blocks of a range, as far as the chain goes. -/
def serve (l : Ledger) (r : HeaderRequest) : Except SyncError HeaderBatch :=
  let last := min r.last l.height
  if last < r.first then .ok []
  else l.blocksFrom r.first (last.toNat - r.first.toNat + 1)

end Ledger

namespace Follower

/-- A follower that has heard of no peer. -/
def new (l : Ledger) (rollbackDistance : UInt64) : Follower := ⟨l, rollbackDistance, .idle⟩

/-- What a follower announces. -/
def announcement (f : Follower) (peers : List PeerAddress) : HeightAnnouncement :=
  ⟨f.ledger.lastBlock.height, f.ledger.lastBlock.blockHash, peers⟩

/-- Hears of a peer's height; gives the range to ask for, if the peer is ahead or at the same
height with another tip. -/
def onAnnouncement (f : Follower) (a : HeightAnnouncement) : Option HeaderRequest × Follower :=
  if a.height < f.ledger.lastBlock.height ∨
      (a.height = f.ledger.lastBlock.height ∧ a.lastHash = f.ledger.lastBlock.blockHash) then
    (none, { f with phase := .inSync })
  else
    let request := HeaderRequest.forHeights f.ledger.lastBlock.height a.height
    (some request, { f with phase := .requesting request })

/-- Takes a batch of blocks from a peer. -/
def onHeaders [SignatureSuite] (f : Follower) (batch : HeaderBatch) :
    Except SyncError BatchOutcome × Follower :=
  let (outcome, ledger) := f.ledger.takeBatch f.rollbackDistance batch
  (outcome, { f with ledger := ledger, phase := .idle })

end Follower

end SynergyNode
