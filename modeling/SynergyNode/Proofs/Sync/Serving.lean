import SynergyNode.Proofs.Ledger.Consistency
import SynergyNode.Sync.Follower

/-!
# Asking for blocks and serving them

A follower asks for a range that reaches from its own chain towards the height of a peer, and the
peer answers with the blocks of its chain in that range, as far as it goes.

* `HeaderRequest.forHeights_bounds`, `HeaderRequest.forHeights_length`: how the range lies to the
  two heights, and how long it is;
* `Stocks.serve`: what is served by a ledger that has every block of its chain, and `Keeps.serve`
  what those blocks are after a run.
-/

namespace SynergyNode

/-! ## 1. The range -/

namespace HeaderRequest

variable {own peer : UInt64}

/-- A range from the genesis block, when one range reaches the peer's height from there or misses
it by one block. -/
theorem forHeights_of_low (h : peer.toNat ≤ 33) : forHeights own peer = ⟨0, peer⟩ := by
  have hback : Word64.saturatingSub peer Protocol.hashesInBucket < 2 := by
    rw [UInt64.lt_iff_toNat_lt, Word64.toNat_saturatingSub]
    show peer.toNat - 32 < 2
    omega
  have hzero : ¬ own < 0 := by
    rw [UInt64.lt_iff_toNat_lt]
    exact Nat.not_lt_zero _
  simp [forHeights, hback, hzero]

/-- A higher peer's range ends at its height and starts as far below it as a range is long, or it
starts at the own height and is as long. -/
theorem toNat_forHeights_of_high (h : ¬ peer.toNat ≤ 33) (own : UInt64) :
    (forHeights own peer).first.toNat = min own.toNat (peer.toNat - 32) ∧
      (forHeights own peer).last.toNat = min peer.toNat (own.toNat + 32) := by
  have hbucket : Protocol.hashesInBucket.toNat = 32 := rfl
  have hback := Word64.toNat_saturatingSub peer Protocol.hashesInBucket
  rw [hbucket] at hback
  have hhigh : ¬ Word64.saturatingSub peer Protocol.hashesInBucket < 2 := by
    rw [UInt64.lt_iff_toNat_lt, hback]
    show ¬ peer.toNat - 32 < 2
    omega
  have hpeer := peer.toNat_lt
  simp only [forHeights, if_neg hhigh]
  split
  · rename_i hfar
    rw [UInt64.lt_iff_toNat_lt, hback] at hfar
    have hsum : (own + Protocol.hashesInBucket).toNat = own.toNat + 32 := by
      rw [UInt64.toNat_add, hbucket]
      omega
    simp only [Word64.toNat_min, hsum]
    omega
  · rename_i hnear
    rw [UInt64.lt_iff_toNat_lt, hback] at hnear
    simp only [hback]
    omega

/-- **The range that is asked for** starts no higher than the own chain, goes at least to its
height and at most to the peer's, and goes further if the peer is higher. -/
theorem forHeights_bounds (h : own ≤ peer) :
    (forHeights own peer).first.toNat ≤ own.toNat ∧
      own.toNat ≤ (forHeights own peer).last.toNat ∧
      (forHeights own peer).last.toNat ≤ peer.toNat ∧
      (own < peer → own.toNat < (forHeights own peer).last.toNat) := by
  rw [UInt64.le_iff_toNat_le] at h
  rw [UInt64.lt_iff_toNat_lt]
  by_cases hlow : peer.toNat ≤ 33
  · have hzero : (0 : UInt64).toNat = 0 := rfl
    simp only [forHeights_of_low hlow, hzero]
    omega
  · obtain ⟨hfirst, hlast⟩ := toNat_forHeights_of_high hlow own
    rw [hfirst, hlast]
    omega

/-- It is at most one height longer than a range, and ends at the peer's height unless that is
more than a range above the own one. -/
theorem forHeights_length (h : own ≤ peer) :
    (forHeights own peer).last.toNat ≤ (forHeights own peer).first.toNat + 33 ∧
      (peer.toNat ≤ own.toNat + 32 → (forHeights own peer).last = peer) := by
  rw [UInt64.le_iff_toNat_le] at h
  rw [← UInt64.toNat_inj]
  by_cases hlow : peer.toNat ≤ 33
  · have hzero : (0 : UInt64).toNat = 0 := rfl
    simp only [forHeights_of_low hlow, hzero]
    exact ⟨by omega, fun _ => trivial⟩
  · obtain ⟨hfirst, hlast⟩ := toNat_forHeights_of_high hlow own
    rw [hfirst, hlast]
    omega

end HeaderRequest

/-! ## 2. The blocks of a range -/

namespace HeaderBatch

/-- The blocks at `count` heights from `first` on, each under its height. -/
def consecutive (blocks : Nat → Block) (first count : Nat) : HeaderBatch :=
  (List.range' first count).map fun n => (UInt64.ofNat n, blocks n)

variable {blocks : Nat → Block} {first count : Nat}

theorem consecutive_succ :
    consecutive blocks first (count + 1) =
      (UInt64.ofNat first, blocks first) :: consecutive blocks (first + 1) count := by
  rw [consecutive, List.range'_succ, List.map_cons, consecutive]

theorem head?_consecutive :
    (consecutive blocks first (count + 1)).head? = some (UInt64.ofNat first, blocks first) := by
  rw [consecutive_succ, List.head?_cons]

theorem getLast?_consecutive :
    (consecutive blocks first (count + 1)).getLast? =
      some (UInt64.ofNat (first + count), blocks (first + count)) := by
  rw [consecutive, List.range'_1_concat, List.map_append, List.map_singleton, List.getLast?_concat]

end HeaderBatch

namespace History

/-- The blocks of a chain at `count` heights from `first` on, as entries of a batch. -/
def segment (c : History) (first count : Nat) : HeaderBatch :=
  (List.range' first count).map fun n => (UInt64.ofNat n, (c.cut n).tip)

variable {c : History} {first count : Nat}

theorem segment_succ :
    c.segment first (count + 1) =
      (UInt64.ofNat first, (c.cut first).tip) :: c.segment (first + 1) count :=
  HeaderBatch.consecutive_succ

theorem segment_append (c : History) (first m n : Nat) :
    c.segment first (m + n) = c.segment first m ++ c.segment (first + m) n := by
  rw [segment, segment, segment, ← List.map_append, List.range'_append_1]

theorem head?_segment :
    (c.segment first (count + 1)).head? = some (UInt64.ofNat first, (c.cut first).tip) :=
  HeaderBatch.head?_consecutive

theorem getLast?_segment :
    (c.segment first (count + 1)).getLast? =
      some (UInt64.ofNat (first + count), (c.cut (first + count)).tip) :=
  HeaderBatch.getLast?_consecutive

end History

namespace Ledger

variable {start : Accounts} {l : Ledger} {c : History}

theorem Keeps.storedBlock (h : Keeps start l c) (hfollows : Follows start l c)
    (hfits : ∀ e ∈ c, e.Fits) {n : Nat} (hn : n ≤ c.length) :
    l.storedBlock (UInt64.ofNat n) = .ok (c.cut n).tip := by
  have hsize := hfollows.length_lt
  have hword : (UInt64.ofNat n).toNat = n := UInt64.toNat_ofNat_of_lt' (by omega)
  have hlow : UInt64.ofNat n ≤ l.height := by
    rw [hfollows.toNat_le, hword]
    exact hn
  have hread := h.block? hfollows hfits hlow
  rw [hword] at hread
  simp only [Ledger.storedBlock, requireBlock, hread]

/-- Every block of the chain can be read off the store. -/
def Stocks (l : Ledger) (blocks : Nat → Block) : Prop :=
  ∀ n ≤ l.height.toNat, l.storedBlock (UInt64.ofNat n) = .ok (blocks n)

variable {blocks : Nat → Block}

theorem Stocks.blocksFrom (h : l.Stocks blocks) (count first : Nat)
    (hlast : first + count ≤ l.height.toNat + 1) :
    l.blocksFrom (UInt64.ofNat first) count = .ok (.consecutive blocks first count) := by
  induction count generalizing first with
  | zero => rfl
  | succ count ih =>
    have hnext : UInt64.ofNat first + 1 = UInt64.ofNat (first + 1) := by
      rw [UInt64.ofNat_add]
      rfl
    simp only [Ledger.blocksFrom, h first (by omega), hnext, ih (first + 1) (by omega),
      HeaderBatch.consecutive_succ]

/-- **What is served** are the blocks of the range as far as the chain goes. -/
theorem Stocks.serve (h : l.Stocks blocks) (q : HeaderRequest) :
    l.serve q = .ok (.consecutive blocks q.first.toNat
      (min q.last.toNat l.height.toNat + 1 - q.first.toNat)) := by
  have hlast := Word64.toNat_min q.last l.height
  unfold Ledger.serve
  simp only
  split
  · rename_i hshort
    rw [UInt64.lt_iff_toNat_lt, hlast] at hshort
    rw [Nat.sub_eq_zero_of_le hshort]
    rfl
  · rename_i hlong
    rw [UInt64.lt_iff_toNat_lt, hlast] at hlong
    have hcount : min q.last.toNat l.height.toNat - q.first.toNat + 1 =
        min q.last.toNat l.height.toNat + 1 - q.first.toNat := by omega
    have hblocks := h.blocksFrom (min q.last.toNat l.height.toNat + 1 - q.first.toNat)
      q.first.toNat (by omega)
    rw [UInt64.ofNat_toNat] at hblocks
    rw [hlast, hcount, hblocks]

/-- After a run every block of the chain can be read. -/
theorem Keeps.stocks (h : Keeps start l c) (hfollows : Follows start l c)
    (hfits : ∀ e ∈ c, e.Fits) : l.Stocks fun n => (c.cut n).tip := by
  intro n hn
  rw [← hfollows.length] at hn
  exact h.storedBlock hfollows hfits hn

theorem Keeps.serve (h : Keeps start l c) (hfollows : Follows start l c)
    (hfits : ∀ e ∈ c, e.Fits) (q : HeaderRequest) :
    l.serve q =
      .ok (c.segment q.first.toNat (min q.last.toNat c.length + 1 - q.first.toNat)) := by
  rw [hfollows.length]
  exact (h.stocks hfollows hfits).serve q

end Ledger

end SynergyNode
