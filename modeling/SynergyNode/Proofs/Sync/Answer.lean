import SynergyNode.Proofs.Sync.Serving
import SynergyNode.Proofs.Sync.Verdict

/-!
# An answer that reaches the chain

A follower asks a peer for a range of heights and gets the blocks in that range.  If the range and
the chain could miss each other the answer would be passed over, and the same range would be asked
for again and again.

* `HeaderRequest.Spans`: how a range lies to the own height and to that of the peer;
* `ignores?_consecutive`: a row of blocks that reaches from the own height or below to the own
  height or above is passed over only for its tip;
* `Follower.hears_answer`: so a follower passes an answer over in one case alone, when the peer
  stands at its own height.
-/

namespace SynergyNode

/-! ## 1. The range -/

/-- A range that can be asked for of a peer: it starts on the own chain and ends on the peer's, it
is short, and it goes on above the own chain if the peer does. -/
structure HeaderRequest.Spans (q : HeaderRequest) (own peer : UInt64) : Prop where
  first_le : q.first ≤ own
  ordered : q.first ≤ q.last
  last_le : q.last ≤ peer
  length : q.last.toNat - q.first.toNat ≤ 33
  whole : peer.toNat - own.toNat ≤ 32 → q.last = peer
  further : own < peer → own < q.last

/-- **The range that is asked for** lies so to the two heights. -/
theorem HeaderRequest.spans_forHeights {own peer : UInt64} (h : own ≤ peer) :
    (forHeights own peer).Spans own peer := by
  obtain ⟨hfirst, hreach, hlast, hfurther⟩ := forHeights_bounds h
  obtain ⟨hlength, hwhole⟩ := forHeights_length h
  constructor
  · exact UInt64.le_iff_toNat_le.mpr hfirst
  · exact UInt64.le_iff_toNat_le.mpr (Nat.le_trans hfirst hreach)
  · exact UInt64.le_iff_toNat_le.mpr hlast
  · omega
  · intro hnear
    exact hwhole (by omega)
  · intro hahead
    exact UInt64.lt_iff_toNat_lt.mpr (hfurther hahead)

/-! ## 2. The answer -/

/-- **A row of blocks around the own height** is passed over only if it ends there. -/
theorem Ledger.ignores?_consecutive {l : Ledger} {blocks : Nat → Block} {first count : Nat}
    {reason : IgnoredBatch} (hsize : first + count < UInt64.size)
    (hfirst : first ≤ l.lastBlock.height.toNat) (hlast : l.lastBlock.height.toNat ≤ first + count)
    (h : l.ignores? (.consecutive blocks first (count + 1)) = some reason) :
    first + count = l.lastBlock.height.toNat ∧ reason = .notPreferred := by
  have hlow : (UInt64.ofNat first).toNat = first :=
    UInt64.toNat_ofNat_of_lt' (Nat.lt_of_le_of_lt (Nat.le_add_right first count) hsize)
  have hhigh : (UInt64.ofNat (first + count)).toNat = first + count :=
    UInt64.toNat_ofNat_of_lt' hsize
  have hlong : ¬ UInt64.ofNat (first + count) < l.lastBlock.height := by
    rw [UInt64.lt_iff_toNat_lt, hhigh]
    omega
  have hmeets : ¬ l.lastBlock.height < UInt64.ofNat first := by
    rw [UInt64.lt_iff_toNat_lt, hlow]
    omega
  simp only [ignores?, HeaderBatch.head?_consecutive, HeaderBatch.getLast?_consecutive,
    if_neg hlong, if_neg hmeets] at h
  split at h
  · rename_i hlevel
    have hend := congrArg UInt64.toNat hlevel.1
    rw [hhigh] at hend
    exact ⟨hend, (Option.some.inj h).symm⟩
  · cases h

/-- **What is asked for is served, and what is served is heard.**  A peer that has every block up
to its height answers with the blocks of the range in order, each under its height, and a follower
at the height from which it was asked passes them over in one case only: the peer stands at that
height too, and its tip is not preferred. -/
theorem Follower.hears_answer [SignatureSuite] {own peer : UInt64} (h : own ≤ peer) :
    (HeaderRequest.forHeights own peer).Spans own peer ∧
      ∀ (r : Ledger) (blocks : Nat → Block), r.height = peer → r.Stocks blocks →
        ∃ batch : HeaderBatch, r.serve (.forHeights own peer) = .ok batch ∧
          batch = .consecutive blocks (HeaderRequest.forHeights own peer).first.toNat
            ((HeaderRequest.forHeights own peer).last.toNat -
              (HeaderRequest.forHeights own peer).first.toNat + 1) ∧
          ∀ (f : Follower) (reason : IgnoredBatch), f.ledger.lastBlock.height = own →
            (f.onHeaders batch).1 = .ok (.ignored reason) → own = peer ∧ reason = .notPreferred := by
  refine ⟨HeaderRequest.spans_forHeights h, ?_⟩
  rintro r blocks rfl hstocks
  obtain ⟨hfirst, hreach, hlast, hfurther⟩ := HeaderRequest.forHeights_bounds h
  have hserved := hstocks.serve (.forHeights own r.height)
  generalize HeaderRequest.forHeights own r.height = q at hfirst hreach hlast hfurther hserved ⊢
  have hcount : min q.last.toNat r.height.toNat + 1 - q.first.toNat =
      q.last.toNat - q.first.toNat + 1 := by omega
  rw [hcount] at hserved
  refine ⟨_, hserved, rfl, ?_⟩
  rintro f reason rfl hignored
  have hsize := q.last.toNat_lt_size
  have hlooked := Ledger.ignores?_of_ignored hignored
  obtain ⟨hlevel, hreason⟩ := Ledger.ignores?_consecutive (by omega) hfirst (by omega) hlooked
  refine ⟨?_, hreason⟩
  rw [UInt64.lt_iff_toNat_lt] at hfurther
  rw [UInt64.le_iff_toNat_le] at h
  exact UInt64.toNat_inj.mp (by omega)

/-- A peer with one block is asked by a follower without, and its answer is not passed over. -/
theorem Follower.hears_answer_block :
    ∃ (_ : SignatureSuite) (f : Follower) (r : Ledger) (blocks : Nat → Block),
      f.ledger.lastBlock.height = 0 ∧ r.height = 1 ∧ r.Stocks blocks ∧
        r.serve (.forHeights 0 1) = .ok [(0, blocks 0), (1, blocks 1)] ∧
        ∀ reason, (f.onHeaders [(0, blocks 0), (1, blocks 1)]).1 ≠ .ok (.ignored reason) := by
  let := Ledger.Sample.suite
  have run := Ledger.Sample.run_block Ledger.Sample.operatorKey_zeros 1 70 30 (by decide) rfl rfl
  have hstocks := (run.completes Ledger.Sample.length_start).keeps.stocks run.follows run.fits
  have hlow : (0 : UInt64) ≤ 1 := by decide
  obtain ⟨-, hanswer⟩ := Follower.hears_answer hlow
  obtain ⟨batch, hserved, hbatch, hheard⟩ :=
    hanswer (Ledger.Sample.later Ledger.Sample.zeros 1 70 30) _ rfl hstocks
  have hrow := hbatch.trans (b := [(0, _), (1, _)]) rfl
  rw [hrow] at hserved hheard
  refine ⟨Ledger.Sample.suite, .new (Ledger.Sample.ledger Ledger.Sample.zeros) 1, _, _, rfl, rfl,
    hstocks, hserved, ?_⟩
  intro reason hignored
  obtain ⟨hlevel, -⟩ := hheard (.new (Ledger.Sample.ledger Ledger.Sample.zeros) 1) reason rfl hignored
  cases hlevel

end SynergyNode
