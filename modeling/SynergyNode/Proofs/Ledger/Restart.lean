import SynergyNode.Proofs.Ledger.Run

/-!
# Starting again

A ledger that is opened on a store stands at the height that the store names, on the block and
with the accounts that are stored there (`openOn_of_stored`); when no block is stored at that
height it is not opened at all (`openOn_of_missing`).  Nothing else in the store is looked at.

So on the store of a run, or on any other that holds the same height record and the same block and
snapshot at that height, the ledger stands where it stood before (`Keeps.openOn`).
-/

namespace SynergyNode.Ledger

open History

/-! ## 1. What is looked at -/

section

variable {s : Store} (given : Accounts) (stats : ChainStats) (voting : Voting) (pools : Pools)
  (minStake : UInt64)

theorem openOn_of_stored (hs : s.Reliable) {tip : Block} {accounts : Accounts}
    {schemes : LiveSchemes} (hheight : s.chainHeight = some tip.height)
    (hblock : s.blocks[tip.height]? = some tip.toBytes)
    (hsnapshot : s.snapshots[tip.height]? = some accounts.toBytes)
    (hfits : tip.toBytes.length ≤ Protocol.maxMessageBytes)
    (hshort : accounts.toBytes.length ≤ Protocol.maxMessageBytes)
    (hschemes : declaredSchemes tip.header = .ok schemes) :
    openOn s given stats voting pools minStake =
      .ok
        { store := s, accounts := accounts, stats := stats, schemes := schemes, voting := voting
          pools := pools, minStake := minStake, height := tip.height, syncing := false
          lastBlock := tip } := by
  have hread : s.block? tip.height = .ok (some tip) :=
    hs.block?_of_stored hblock hfits
  have hrestored : restoredAccounts s tip.height given = .ok accounts := by
    rcases restoredAccounts_cases hs hsnapshot given with h | ⟨-, hlong⟩
    · exact h
    · omega
  simp only [openOn, hs.height?, hheight, Option.elim_some, resumeChain, requireBlock, hread,
    hrestored, hschemes]

theorem openOn_of_missing (hs : s.Reliable) {height : UInt64}
    (hheight : s.chainHeight = some height) (hblock : s.blocks[height]? = none) :
    openOn s given stats voting pools minStake = .error (.missingBlock height) := by
  have hread : s.block? height = .ok none := hs.block?_eq_none.mpr hblock
  simp only [openOn, hs.height?, hheight, Option.elim_some, resumeChain, requireBlock, hread]

end

/-! ## 2. Standing where the ledger stood -/

/-- The ledger as it stands after a start, on a given store and with new surroundings. -/
def resumed (l : Ledger) (store : Store) (stats : ChainStats) (voting : Voting) (pools : Pools) :
    Ledger :=
  { l with store := store, stats := stats, voting := voting, pools := pools, syncing := false }

/-- Two stores that cannot be told apart by what stands at the height of the one. -/
structure SameTop (height : UInt64) (s s' : Store) : Prop where
  failure : s'.failure = s.failure
  chainHeight : s'.chainHeight = s.chainHeight
  block : s'.blocks[height]? = s.blocks[height]?
  snapshot : s'.snapshots[height]? = s.snapshots[height]?

variable {start : Accounts} {l : Ledger} {c : History}

/-- **A ledger is opened where it stood**, on every store with the same block and snapshot at the
height that it names. -/
theorem Keeps.openOn (h : Keeps start l c) (hfollows : Follows start l c)
    (hblock : c.tip.toBytes.length ≤ Protocol.maxMessageBytes)
    (hsnapshot : (c.accounts start).toBytes.length ≤ Protocol.maxMessageBytes)
    {s : Store} (htop : SameTop l.height l.store s) (given : Accounts) (stats : ChainStats)
    (voting : Voting) (pools : Pools) :
    Ledger.openOn s given stats voting pools l.minStake =
      .ok (l.resumed s stats voting pools) := by
  have hs : s.Reliable := fun op => by rw [htop.failure, hfollows.reliable]
  have hheight := hfollows.height
  have hlength : c.length = c.tip.height.toNat := hfollows.sound.tip_height.symm
  have hcut : c.cut c.tip.height.toNat = c := cut_of_length_le (Nat.le_of_eq hlength)
  have hblocks := Store.blocks_ofHistory hfollows.sound c.tip.height
  have hsnapshots := Store.snapshots_ofHistory hfollows.sound c.tip.height
  rw [if_pos (Nat.le_of_eq hlength.symm), hcut] at hblocks hsnapshots
  have hopened := openOn_of_stored given stats voting pools l.minStake hs
    (by rw [htop.chainHeight, h.store, Store.chainHeight_ofHistory])
    (by rw [← hheight, htop.block, h.store, hheight, hblocks])
    (by rw [← hheight, htop.snapshot, h.store, hheight, hsnapshots])
    hblock hsnapshot hfollows.schemes
  rw [hopened, resumed, hfollows.last, hheight, hfollows.accounts]

end SynergyNode.Ledger
