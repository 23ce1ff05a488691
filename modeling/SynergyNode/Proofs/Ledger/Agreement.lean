import SynergyNode.Ledger.Rollback
import SynergyNode.Proofs.Ledger.Commit

/-!
# Ledgers that agree

Blocks that come from the history of a peer are committed, and blocks are given up again, without a
look at votes, figures and the flag that a batch is being committed.  So two ledgers that differ
in nothing else say the same of every such block and of every rollback, and again differ in nothing
else afterwards.

* `rollback_beside`, `commit_sync_beside`: votes, figures and flag stay outside, also when the store
  fails;
* `Agrees.sideBySide`: ledgers that agree go on agreeing.
-/

namespace SynergyNode.Ledger

variable {l l' : Ledger} {b : Block}

/-- The ledger with other votes, figures and flag. -/
def beside (l : Ledger) (voting : Voting) (stats : ChainStats) (syncing : Bool) : Ledger :=
  { l with voting := voting, stats := stats, syncing := syncing }

variable (voting : Voting) (stats : ChainStats) (syncing : Bool)

@[simp] theorem store_beside (l : Ledger) : (l.beside voting stats syncing).store = l.store := rfl

@[simp] theorem height_beside (l : Ledger) :
    (l.beside voting stats syncing).height = l.height := rfl

@[simp] theorem lastBlock_beside (l : Ledger) :
    (l.beside voting stats syncing).lastBlock = l.lastBlock := rfl

/-! ## 1. Giving up blocks -/

theorem releaseTransactions_beside (hashes : List Hash) (l : Ledger) :
    (l.beside voting stats syncing).releaseTransactions hashes =
      (l.releaseTransactions hashes).map id fun l => l.beside voting stats syncing := by
  induction hashes generalizing l with
  | nil => rfl
  | cons hash rest ih =>
    unfold releaseTransactions
    rw [store_beside]
    split
    · rfl
    · exact ih l
    · rename_i t _
      split
      · rfl
      · rename_i s _
        exact ih { l with store := s, pools := (l.pools.add t).2 }

theorem releaseBlock_beside (l : Ledger) (height : UInt64) :
    (l.beside voting stats syncing).releaseBlock height =
      (l.releaseBlock height).map id fun l => l.beside voting stats syncing := by
  unfold releaseBlock
  rw [store_beside]
  split
  · rfl
  · rfl
  · exact releaseTransactions_beside voting stats syncing _ l

theorem discard_beside (l : Ledger) (height : UInt64) :
    (l.beside voting stats syncing).discard height =
      (l.discard height).map id fun l => l.beside voting stats syncing := by
  unfold discard
  rw [releaseBlock_beside]
  rcases l.releaseBlock height with ⟨_ | _, l'⟩
  · rfl
  · simp only [Prod.map, id, store_beside]
    rcases removeHeight l'.store height with ⟨_ | _, s⟩
    · rfl
    · rfl

theorem discardAbove_beside (base : UInt64) (count : Nat) (l : Ledger) :
    (l.beside voting stats syncing).discardAbove base count =
      (l.discardAbove base count).map id fun l => l.beside voting stats syncing := by
  induction count generalizing l with
  | zero => rfl
  | succ n ih =>
    unfold discardAbove
    rw [discard_beside]
    rcases l.discard (base + UInt64.ofNat (n + 1)) with ⟨_ | _, l'⟩
    · rfl
    · exact ih l'

theorem standAt_beside (l : Ledger) (target : Block) (height : UInt64) :
    (l.beside voting stats syncing).standAt target height =
      (l.standAt target height).map id fun l => l.beside voting stats syncing := by
  unfold standAt
  simp only [beside]
  split
  · rfl
  · split
    · rfl
    · split <;> rfl

/-- **Giving up blocks does not look at votes, figures and flag, and leaves them.** -/
theorem rollback_beside (l : Ledger) (height : UInt64) :
    (l.beside voting stats syncing).rollback height =
      (l.rollback height).map id fun l => l.beside voting stats syncing := by
  unfold rollback
  rw [height_beside, store_beside]
  split
  · rfl
  split
  · rfl
  rw [discardAbove_beside]
  rcases l.discardAbove height (l.height.toNat - height.toNat) with ⟨_ | _, l'⟩
  · rfl
  · exact standAt_beside voting stats syncing l' _ height

/-! ## 2. Commits of the history of a peer -/

theorem advance_beside (l : Ledger) (b : Block) (txs : List Transaction) (changed : List Slot) :
    ∃ voting' stats', (l.beside voting stats syncing).advance b txs changed =
      (l.advance b txs changed).map id fun l => l.beside voting' stats' syncing := by
  unfold advance
  simp only [beside]
  split
  · exact ⟨voting, stats, rfl⟩
  · exact ⟨_, _, rfl⟩

theorem finish_beside (l : Ledger) (b : Block) (txs : List Transaction) (accounts : Accounts)
    (changed : List Slot) :
    ∃ voting' stats', (l.beside voting stats syncing).finish b txs accounts changed =
      (l.finish b txs accounts changed).map id fun l => l.beside voting' stats' syncing := by
  unfold finish
  rw [store_beside, lastBlock_beside]
  split
  · rename_i store _
    obtain ⟨voting', stats', h⟩ := advance_beside voting stats syncing
      { l with store := store, accounts := accounts } b txs changed
    refine ⟨voting', stats', ?_⟩
    simp only [beside] at h ⊢
    rw [h]
    rcases advance { l with store := store, accounts := accounts } b txs changed with ⟨_ | _, _⟩
    · rfl
    · rfl
  · refine ⟨voting, stats, ?_⟩
    split <;> rfl

variable [SignatureSuite]

/-- **A block of the history of a peer is committed without a look at votes, figures and flag.** -/
theorem commit_sync_beside (l : Ledger) (b : Block) :
    ∃ voting' stats', (l.beside voting stats syncing).commit b .sync =
      (l.commit b .sync).map id fun l => l.beside voting' stats' syncing := by
  have hchecked : (l.beside voting stats syncing).checkBlock b = l.checkBlock b := rfl
  have hchanges (l : Ledger) : l.checkChanges b .sync (b.changedSlots l.lastBlock) =
      ((l.checkChanges b .sync (b.changedSlots l.lastBlock)).1, l) :=
    Prod.ext rfl (checkChanges_sync_snd l b _)
  have hexecuted : (l.beside voting stats syncing).execute b = l.execute b := by
    refine execute_congr ?_ ?_ ?_ ?_ b <;> rfl
  unfold commit
  rw [hchecked, hchanges, hchanges l, lastBlock_beside, checkChanges_sync_fst l]
  split
  · exact ⟨voting, stats, rfl⟩
  cases (l.checkChanges b .sync (b.changedSlots l.lastBlock)).1 with
  | error e => exact ⟨voting, stats, rfl⟩
  | ok _ =>
    simp only [hexecuted]
    split
    · exact ⟨voting, stats, rfl⟩
    · exact finish_beside voting stats syncing l b _ _ _

/-! ## 3. Side by side -/

/-- Two ledgers that differ in votes, figures and flag alone. -/
structure Agrees (l l' : Ledger) : Prop where
  store : l'.store = l.store
  accounts : l'.accounts = l.accounts
  schemes : l'.schemes = l.schemes
  pools : l'.pools = l.pools
  minStake : l'.minStake = l.minStake
  height : l'.height = l.height
  lastBlock : l'.lastBlock = l.lastBlock

omit [SignatureSuite] in
theorem agrees_beside (l : Ledger) : l.Agrees (l.beside voting stats syncing) :=
  ⟨rfl, rfl, rfl, rfl, rfl, rfl, rfl⟩

namespace Agrees

omit [SignatureSuite] in
theorem eq_beside (h : l.Agrees l') : l' = l.beside l'.voting l'.stats l'.syncing := by
  cases l
  cases l'
  obtain ⟨rfl, rfl, rfl, rfl, rfl, rfl, rfl⟩ := h
  rfl

/-- They say the same of a block of the history of a peer, and agree afterwards. -/
theorem commit_sync (h : l.Agrees l') (b : Block) :
    (l'.commit b .sync).1 = (l.commit b .sync).1 ∧
      (l.commit b .sync).2.Agrees (l'.commit b .sync).2 := by
  obtain ⟨voting, stats, hcommit⟩ := commit_sync_beside l'.voting l'.stats l'.syncing l b
  rw [h.eq_beside, hcommit]
  exact ⟨rfl, agrees_beside ..⟩

omit [SignatureSuite] in
/-- They say the same of a rollback, and agree afterwards. -/
theorem rollback (h : l.Agrees l') (height : UInt64) :
    (l'.rollback height).1 = (l.rollback height).1 ∧
      (l.rollback height).2.Agrees (l'.rollback height).2 := by
  rw [h.eq_beside, rollback_beside]
  exact ⟨rfl, agrees_beside ..⟩

end Agrees

/-- The pairs of ledgers that are reached from a pair when both are given the same blocks of the
history of a peer, the same rollbacks and the same pools, and each its own votes, figures and
flag. -/
inductive SideBySide (l₀ l₀' : Ledger) : Ledger → Ledger → Prop where
  | start : SideBySide l₀ l₀' l₀ l₀'
  | commit {l l' : Ledger} (h : SideBySide l₀ l₀' l l') (b : Block) :
      SideBySide l₀ l₀' (l.commit b .sync).2 (l'.commit b .sync).2
  | rollback {l l' : Ledger} (h : SideBySide l₀ l₀' l l') (height : UInt64) :
      SideBySide l₀ l₀' (l.rollback height).2 (l'.rollback height).2
  | surroundings {l l' : Ledger} (h : SideBySide l₀ l₀' l l') (pools : Pools)
      (voting voting' : Voting) (stats stats' : ChainStats) (syncing syncing' : Bool) :
      SideBySide l₀ l₀' { l.beside voting stats syncing with pools := pools }
        { l'.beside voting' stats' syncing' with pools := pools }

/-- **Ledgers that agree go on agreeing.** -/
theorem Agrees.sideBySide {l₀ l₀' : Ledger} (h : l₀.Agrees l₀') (hside : SideBySide l₀ l₀' l l') :
    l.Agrees l' := by
  induction hside with
  | start => exact h
  | commit _ b ih => exact (ih.commit_sync b).2
  | rollback _ height ih => exact (ih.rollback height).2
  | surroundings _ pools voting voting' stats stats' syncing syncing' ih =>
    exact
      { store := ih.store
        accounts := ih.accounts
        schemes := ih.schemes
        pools := rfl
        minStake := ih.minStake
        height := ih.height
        lastBlock := ih.lastBlock }

end SynergyNode.Ledger
