import SynergyNode.Proofs.Node.Messages

/-!
# One place for every transaction

A node that starts without pending transactions on a coherent store keeps every transaction in at
most one place, whatever it is sent: in one of the three pools or in the store.  Commits and
rollbacks are the only ways between pools and store (`places_kept`).
-/

namespace SynergyNode

namespace Node

open Ledger (Leads Moves GivesUp)

section

variable [SignatureSuite]

/-- **Every transaction is in at most one place**, after any messages and whenever pending
transactions are spread.  At each ledger to which the node's events lead, and so at each on which it
commits or rolls back, a commit moves just the transactions of its block from the pools to the
store, and a refused one moves none; a rollback takes the transactions of the blocks that it gives
up out of the store and offers each to the pool of its kind.  All others stay where they are. -/
theorem places_kept (n : Node) (hpools : n.ledger.pools.Vacant)
    (hstore : n.ledger.store.Coherent) :
    (∀ happenings, Leads n.ledger (n.run happenings).ledger ∧ (n.run happenings).ledger.Apart) ∧
    ∀ l, Leads n.ledger l → l.Apart ∧
      (∀ b origin report, (l.commit b origin).1 = .ok report →
        Moves b.txHashes l (l.commit b origin).2) ∧
      (∀ b origin e, (l.commit b origin).1 = .error e → Moves [] l (l.commit b origin).2) ∧
      ∀ height, (l.store.block? height = .ok none → (l.rollback height).2 = l) ∧
        (l.store.block? height ≠ .ok none →
          GivesUp (fun k => height < k ∧ k ≤ l.height) l (l.rollback height).2) := by
  have hstart : n.ledger.Orderly := Ledger.Orderly.of_vacant hstore hpools
  constructor
  · intro happenings
    have hleads := leads_run n happenings
    exact ⟨hleads, (hstart.leads hleads).apart⟩
  · intro l hleads
    have horderly := hstart.leads hleads
    refine ⟨horderly.apart, ?_, ?_, ?_⟩
    · intro b origin
      exact (Ledger.moves_commit horderly b origin).1
    · intro b origin
      exact (Ledger.moves_commit horderly b origin).2
    · intro height
      exact Ledger.givesUp_rollback horderly.coherent horderly.apart height

end

/-- Every signature is valid. -/
local instance lenient : SignatureSuite := Ledger.Sample.suite

namespace Sample

open Ledger.Sample (OperatorKey transfer)

variable {key : Bytes}

/-- A ledger at the start of a chain, without pending transactions. -/
def opened (key : Bytes) : Ledger :=
  { Ledger.Sample.ledger key with pools := Pools.empty .standard }

/-- A node that stands on it, with standard settings. -/
def node (key : Bytes) : Node where
  toFollower := Follower.new (opened key) Protocol.rollbackDistance
  settings := Settings.standard
  codec := ⟨Protocol.defaultChainId, Protocol.maxMessageBytes⟩
  transport := Transport.new NetworkSettings.standard PeerAddress.loopback
    Transport.standardQueueDepth
  oracle := OracleBook.empty
  wallet := Round.Sample.wallet
  proposer := none

/-- The ledger when the transfer has come in. -/
def ready (key : Bytes) : Ledger :=
  { Ledger.Sample.ledger key with pools := ((Pools.empty .standard).add (transfer key)).2 }

/-- The block that lists the transfer. -/
def listing (key : Bytes) : Block := Ledger.Sample.block key [(transfer key).hash]

theorem coherent_opened : (opened key).store.Coherent :=
  Store.coherent_ofHistory trivial trivial (by simp)

theorem leads_ready (hkey : OperatorKey key) : Leads (opened key) (ready key) := by
  have hstored : (Ledger.Sample.ledger key).store.hasTransaction (transfer key).hash =
      .ok false := Ledger.Sample.hasTransaction_transfer _
  have hfresh : (opened key).pools.contains (transfer key).hash = false := by
    rw [Pools.contains_eq]
    rfl
  exact Ledger.leads_admits
    { verified := Ledger.Sample.verify_transfer hkey
      short := Ledger.Sample.length_transfer hkey
      fresh := hfresh
      unstored := Store.contains_of_hasTransaction hstored }

theorem commit_ready (hkey : OperatorKey key) :
    ∃ report accounts, (ready key).commit (listing key) .sync =
      (.ok report, (ready key).committed (listing key) [transfer key] accounts) := by
  have hmax : Protocol.maxMessageBytes ≤ PoolLimits.standard.maxBytes := by decide
  have hfind : ((Pools.empty .standard).add (transfer key)).2.find? (transfer key).hash =
      some (transfer key) :=
    Pools.find?_add_empty (by decide) ((Ledger.Sample.length_transfer hkey).trans hmax)
  have hready : ready key =
      { Ledger.Sample.ledger key with
        pools := ((Pools.empty .standard).add (transfer key)).2 } := rfl
  have haccepts :=
    Ledger.Sample.accepts_pending hkey hready hfind 1 70 30 (by decide) (by decide)
  have hslots : (listing key).changedSlots (ready key).lastBlock = [] :=
    Ledger.Sample.changedSlots_block
  have hs : (ready key).store.Reliable := Store.reliable_ofHistory _ []
  exact ⟨_, _, Ledger.commit_of_accepts hs haccepts hslots .sync⟩

theorem height_listing (key : Bytes) : (listing key).height = 1 := by
  rw [Block.height, listing, Ledger.Sample.block, Block.header_sealed]

/-- The first block stays when the next one is stored. -/
theorem block?_committed {txs : List Transaction} {accounts : Accounts} :
    ((ready key).committed (listing key) txs accounts).store.block? 0 ≠ .ok none := by
  have hs : ((ready key).committed (listing key) txs accounts).store.Reliable :=
    (Store.reliable_ofHistory _ []).applyAll _
  have hfirst : (ready key).store.blocks[(0 : UInt64)]? = some Block.genesis.toBytes :=
    Std.ExtTreeMap.getElem?_insert_self
  intro hnone
  rw [hs.block?_eq_none, Ledger.blocks_committed, height_listing,
    Table.getElem?_insert_of_ne (by decide), hfirst] at hnone
  cases hnone

end Sample

/-- A transfer comes in, a block that lists it is committed, and the block is given up again. -/
theorem places_kept_block :
    ∃ (_ : SignatureSuite) (n : Node) (l l' : Ledger) (b : Block) (t : Transaction)
      (report : CommitReport), n.ledger.pools.Vacant ∧ n.ledger.store.Coherent ∧
        Leads n.ledger l ∧ l.commit b .sync = (.ok report, l') ∧ b.txHashes = [t.hash] ∧
          Moves b.txHashes l l' ∧ GivesUp (fun k => 0 < k ∧ k ≤ 1) l' (l'.rollback 0).2 := by
  obtain ⟨key, hkey⟩ : ∃ key, Ledger.Sample.OperatorKey key := ⟨_, Ledger.Sample.operatorKey_zeros⟩
  have hvacant : (Sample.node key).ledger.pools.Vacant := Pools.vacant_empty .standard
  obtain ⟨-, hkept⟩ := places_kept (Sample.node key) hvacant Sample.coherent_opened
  have hleads : Leads (Sample.node key).ledger (Sample.ready key) := Sample.leads_ready hkey
  have hshort : (Sample.listing key).toBytes.length ≤ Protocol.maxMessageBytes :=
    Ledger.Sample.length_block hkey (by simp)
  have hlater := hleads.trans (Ledger.leads_commit hshort .sync)
  obtain ⟨report, accounts, hcommit⟩ := Sample.commit_ready hkey
  obtain ⟨-, hcommits, -, -⟩ := hkept _ hleads
  have hmoves := hcommits (Sample.listing key) .sync report (congrArg Prod.fst hcommit)
  obtain ⟨-, -, -, hrollbacks⟩ := hkept _ hlater
  rw [hcommit] at hmoves hrollbacks
  have hgives := (hrollbacks 0).2 Sample.block?_committed
  have htop : ((Sample.ready key).committed (Sample.listing key) [Ledger.Sample.transfer key]
      accounts).height = 1 := Sample.height_listing key
  simp only [htop] at hgives
  exact ⟨lenient, Sample.node key, _, _, _, Ledger.Sample.transfer key, _, hvacant,
    Sample.coherent_opened, hleads, hcommit, Block.txHashes_sealed _, hmoves, hgives⟩

end Node

end SynergyNode
