import SynergyNode.Proofs.Sync.Batch
import SynergyNode.Proofs.Sync.Serving

/-!
# Taking over the blocks of another run

Two ledgers that started with the same accounts and ask for the same stake agree on which blocks
are acceptable on a common chain.  So a block that one of them committed can be committed by the
other when it stands at the block below and has the transactions (`Run.commit_again`), and a whole
segment of the one chain is put on the other (`Run.commitBatch_segment`).
-/

namespace SynergyNode

open History

/-! ## 1. What both runs agree on -/

theorem History.Sound.staking {start : Accounts} : ∀ {c : History}, c.Sound start →
    (c.accounts start).staking = start.staking
  | [], _ => rfl
  | e :: c, h => by
    have hbelow : (accounts start c).staking = start.staking := Sound.staking h.2
    rw [accounts, Accounts.staking_applyBlock h.1.applied, hbelow]

namespace Ledger

variable {start : Accounts} {l r : Ledger} {c d : History}

/-- Operators are listed for good. -/
theorem Follows.lists (h : Follows start l c) (h' : Follows start r d)
    (hstake : l.minStake = r.minStake) {b : Block} (hlists : r.Lists b) : l.Lists b := by
  obtain ⟨entry, hentry, hlisted, hstaked⟩ := hlists
  have hsame : l.accounts.staking = r.accounts.staking := by
    rw [h.accounts, h.sound.staking, h'.accounts, h'.sound.staking]
  refine ⟨entry, ?_, hlisted, by rw [hstake]; exact hstaked⟩
  rw [← hentry, Accounts.stakingOf?, hsame, Accounts.stakingOf?]

section

variable [SignatureSuite]

/-- What was checked of the block at a height of a chain. -/
theorem Run.valid_at {allowed : Ledger → Event → Prop} (run : Run allowed start r d) {n : Nat}
    (hn : n < d.length) :
    (d.cut (n + 1)).tip.height = UInt64.ofNat (n + 1) ∧
      (d.cut (n + 1)).tip.checkBase (d.cut n).tip = .ok (d.cut (n + 1)).tip.tree ∧
      r.Lists (d.cut (n + 1)).tip := by
  obtain ⟨e, he⟩ := cut_succ hn
  have hsuffix : e :: d.cut n <:+ d := by
    rw [← he]
    exact List.drop_suffix _ d
  have hheight : (d.cut (n + 1)).tip.height = UInt64.ofNat (n + 1) := by
    have htip : (d.cut (n + 1)).tip.height.toNat = n + 1 :=
      (run.follows.sound.cut (n + 1)).tip_height.trans (length_cut hn)
    rw [← UInt64.ofNat_toNat (x := (d.cut (n + 1)).tip.height), htip]
  obtain ⟨l₀, origin, report, l₁, run₀, hstake, -, haccepts⟩ := run.exists_commit hsuffix
  obtain ⟨hbase, hoperator⟩ := checkBlock_eq_ok.mp haccepts.checked
  rw [run₀.follows.last] at hbase
  refine ⟨hheight, ?_, ?_⟩
  · rw [he]
    exact hbase
  · rw [he]
    exact run.follows.lists run₀.follows hstake.symm (checkOperator_eq_ok.mp hoperator)

end

/-! ## 2. Committing a block again -/

/-- The transactions of one chain that another does not have are pending. -/
def Awaits (l : Ledger) (c d : History) : Prop :=
  ∀ t ∈ transactions d, t.hash ∉ txHashes c → l.pools.find? t.hash = some t

/-- The transactions of the next block of a chain are pending, and none of them is committed. -/
theorem Keeps.collectTransactions {e : Entry} (h : Keeps start l c) (hfollows : Follows start l c)
    (hfresh : Fresh d) (hnext : e :: c <:+ d)
    (hhashes : e.transactions.map Transaction.hash = e.block.txHashes) (hawaits : l.Awaits c d) :
    l.collectTransactions e.block = .ok e.transactions := by
  have hnew : ∀ hash ∈ e.block.txHashes, hash ∉ txHashes c := by
    have hcut := hfresh.cut (e :: c).length
    rw [cut_eq_of_suffix hnext] at hcut
    exact hcut.1
  have hlook : l.lookUp (e.transactions.map Transaction.hash) = .ok (e.transactions, []) := by
    refine lookUp_of_pending fun t ht => ?_
    have hmem : t.hash ∈ e.block.txHashes := by
      rw [← hhashes]
      exact List.mem_map_of_mem ht
    refine ⟨hawaits t ?_ (hnew _ hmem), ?_⟩
    · exact List.mem_flatMap.mpr ⟨e, hnext.subset List.mem_cons_self, ht⟩
    · have hcontains := Store.contains_transactions_ofHistory hfollows.sound t.hash
      rw [← h.store] at hcontains
      rw [hfollows.reliable.hasTransaction, Except.ok.injEq, Bool.eq_false_iff]
      exact fun hstored => hnew _ hmem (hcontains.mp hstored)
  rw [hhashes] at hlook
  simp only [Ledger.collectTransactions, hlook]

theorem Awaits.committed {e : Entry} (h : l.Awaits c d)
    (hhashes : e.transactions.map Transaction.hash = e.block.txHashes) :
    (l.committed e.block e.transactions e.accounts).Awaits (e :: c) d := by
  intro t ht hnew
  rw [txHashes, List.flatMap_cons, List.mem_append, not_or, ← hhashes] at hnew
  have hpools : (l.committed e.block e.transactions e.accounts).pools =
      e.transactions.foldl (fun p t => (p.remove t.hash).2) l.pools := rfl
  rw [hpools, Pools.find?_removeAll hnew.1]
  exact h t ht hnew.2

variable [SignatureSuite]

/-- **A block of one run is committed again** by a ledger that stands at the block below it and
has its transactions. -/
theorem Run.commit_again {e : Entry} (run : Run Event.Fits start l c)
    (run' : Run Event.Fits start r d)
    (hstart : start.toBytes.length ≤ Protocol.maxMessageBytes) (hstake : l.minStake = r.minStake)
    (hnext : e :: c <:+ d) (hawaits : l.Awaits c d) :
    ∃ report, l.commit e.block .sync =
        (.ok report, l.committed e.block e.transactions e.accounts) ∧
      Run Event.Fits start (l.committed e.block e.transactions e.accounts) (e :: c) ∧
      (l.committed e.block e.transactions e.accounts).Awaits (e :: c) d := by
  obtain ⟨l₀, origin, report, l₁, run₀, hstake₀, hcommit₀, haccepts₀⟩ := run'.exists_commit hnext
  have hlast : l.lastBlock = l₀.lastBlock := by rw [run.follows.last, run₀.follows.last]
  have haccounts : l.accounts = l₀.accounts := by
    rw [run.follows.accounts, run₀.follows.accounts]
  obtain ⟨hbase, hoperator⟩ := checkBlock_eq_ok.mp haccepts₀.checked
  obtain ⟨hcollect₀, hverified, happlied⟩ := execute_eq_ok.mp haccepts₀.executed
  have hhashes := (collectTransactions_eq_ok hcollect₀).1
  have haccepts : l.Accepts e.block e.transactions e.accounts := by
    rw [← hlast] at hbase hverified
    rw [← haccounts] at happlied
    have hlists := run.follows.lists run₀.follows (hstake.trans hstake₀.symm)
      (checkOperator_eq_ok.mp hoperator)
    have hcollect := (run.completes hstart).keeps.collectTransactions run.follows
      (run'.completes hstart).keeps.fresh hnext hhashes hawaits
    exact ⟨checkBlock_eq_ok.mpr ⟨hbase, checkOperator_eq_ok.mpr hlists⟩,
      execute_eq_ok.mpr ⟨hcollect, hverified, happlied⟩⟩
  have hcommit : l.commit e.block .sync =
      (.ok ⟨e.block.height, e.transactions.length, e.block.changedSlots l.lastBlock⟩,
        l.committed e.block e.transactions e.accounts) := by
    have hchanges := checkChanges_sync_of_ok (checkChanges_of_commit hcommit₀) l
    rw [← hlast] at hchanges
    obtain ⟨declared, hdeclared⟩ := declaredSchemes_of_checkBlock haccepts.checked
    simp only [Ledger.commit, haccepts.checked, hchanges, haccepts.executed,
      finish_of_reliable run.follows.reliable hdeclared]
  have hfits : Event.Fits l (.commit e.block .sync) := by
    intro txs accounts h
    have hsame := h.executed
    rw [haccepts.executed] at hsame
    cases hsame
    exact run'.fits e (hnext.subset List.mem_cons_self)
  have habove : ¬ e.block.height ≤ l.height := by
    have hsound := run'.follows.sound.cut (e :: c).length
    rw [cut_eq_of_suffix hnext] at hsound
    rw [run.follows.toNat_le, hsound.1.height]
    omega
  exact ⟨_, hcommit, (run.commit_accepted haccepts hcommit habove hfits).1,
    hawaits.committed hhashes⟩

/-! ## 3. Going through a segment of the other chain -/

omit [SignatureSuite] in
/-- A height of the chain as a word. -/
theorem Follows.ofNat_le (h : Follows start l c) {n : Nat} (hn : n < UInt64.size) :
    UInt64.ofNat n ≤ l.lastBlock.height ↔ n ≤ c.length := by
  have hword : (UInt64.ofNat n).toNat = n := UInt64.toNat_ofNat_of_lt' hn
  rw [h.last, ← h.height, h.toNat_le, hword]

omit [SignatureSuite] in
theorem ofNat_ne_zero {n : Nat} (hpos : 0 < n) (hn : n < UInt64.size) : UInt64.ofNat n ≠ 0 := by
  intro h
  have hword : (UInt64.ofNat n).toNat = n := UInt64.toNat_ofNat_of_lt' hn
  rw [h] at hword
  have hzero : UInt64.toNat 0 = 0 := rfl
  omega

omit [SignatureSuite] in
theorem ofNat_sub_one {n : Nat} (hpos : 0 < n) : UInt64.ofNat n - 1 = UInt64.ofNat (n - 1) := by
  have hsum : UInt64.ofNat n = UInt64.ofNat (n - 1) + 1 := by
    have hnext : n = n - 1 + 1 := by omega
    conv => lhs; rw [hnext]
    rw [UInt64.ofNat_add]
    rfl
  rw [hsum, UInt64.add_sub_cancel]

/-- **A segment of another run's chain is gone through** as far as it agrees with the own chain,
and beyond its height if all transactions are known. -/
theorem Run.passes_segment (run : Run Event.Fits start l c) (run' : Run Event.Fits start r d)
    (hstart : start.toBytes.length ≤ Protocol.maxMessageBytes) :
    ∀ (count first : Nat) {previous : Option Block}, first + count ≤ d.length + 1 →
      (∀ k, first ≤ k → k < first + count → k ≤ c.length → (c.cut k).tip = (d.cut k).tip) →
      (∀ k, c.length < k → k < first + count → ∀ hash ∈ (d.cut k).tip.txHashes, l.Knows hash) →
      ((previous = none ∧ (first ≤ c.length ∨ first = 1)) ∨
        (0 < first ∧ previous = some (d.cut (first - 1)).tip)) →
      ∃ seen, Passes l previous [] (d.segment first count) seen [] ∧
        (seen = none ∨ seen = some (d.cut (first + count - 1)).tip)
  | 0, first, previous, _, _, _, hprevious =>
    ⟨previous, .nil, hprevious.elim (fun h => Or.inl h.1) fun h => Or.inr h.2⟩
  | count + 1, first, previous, hsize, hagree, hknown, hprevious => by
    have hlong := run'.follows.length_lt
    have hkeeps := (run.completes hstart).keeps
    have hend : first + (count + 1) = first + 1 + count := by omega
    -- What is found about the rest, whatever the first entry is.
    have hrest (previous' : Option Block)
        (h : (previous' = none ∧ (first + 1 ≤ c.length ∨ first + 1 = 1)) ∨
          (0 < first + 1 ∧ previous' = some (d.cut (first + 1 - 1)).tip)) :
        ∃ seen, Passes l previous' [] (d.segment (first + 1) count) seen [] ∧
          (seen = none ∨ seen = some (d.cut (first + (count + 1) - 1)).tip) := by
      have hlater := Run.passes_segment run run' hstart count (first + 1) (by omega)
        (fun k hlow hhigh => hagree k (by omega) (by omega))
        (fun k habove hhigh => hknown k habove (by omega)) h
      rw [hend]
      exact hlater
    rw [segment_succ]
    rcases Nat.eq_zero_or_pos first with rfl | hpos
    · obtain ⟨hnone, -⟩ := hprevious.resolve_right fun h => absurd h.1 (Nat.lt_irrefl 0)
      obtain ⟨seen, hpasses, hseen⟩ := hrest previous (Or.inl ⟨hnone, Or.inr rfl⟩)
      exact ⟨seen, .first hpasses, hseen⟩
    · by_cases hlow : first ≤ c.length
      · have hsame := hagree first (Nat.le_refl first) (by omega) hlow
        obtain ⟨seen, hpasses, hseen⟩ := hrest (some (c.cut first).tip)
          (Or.inr ⟨Nat.succ_pos first, by rw [hsame, Nat.add_sub_cancel]⟩)
        exact ⟨seen, .agrees (ofNat_ne_zero hpos (by omega))
          ((run.follows.ofNat_le (by omega)).mpr hlow)
          (hkeeps.storedBlock run.follows run.fits hlow) (by rw [hsame]) hpasses, hseen⟩
      · obtain ⟨seen, hpasses, hseen⟩ := hrest (some (d.cut first).tip)
          (Or.inr ⟨Nat.succ_pos first, by rw [Nat.add_sub_cancel]⟩)
        have hnext : first - 1 + 1 = first := by omega
        obtain ⟨hheight, hvalid, -⟩ := run'.valid_at (n := first - 1) (by omega)
        rw [hnext] at hheight hvalid
        have hbelow : l.parentOf (UInt64.ofNat first) previous = .ok (d.cut (first - 1)).tip := by
          rcases hprevious with ⟨rfl, hfirst⟩ | ⟨-, rfl⟩
          · have hone : first = 1 := hfirst.resolve_left hlow
            subst hone
            have hgenesis := hkeeps.storedBlock run.follows run.fits (Nat.zero_le c.length)
            rw [cut_zero] at hgenesis
            rw [Ledger.parentOf, ofNat_sub_one (Nat.succ_pos 0), Nat.sub_self, cut_zero]
            exact hgenesis
          · rfl
        have hunknown : l.missingTransactions (d.cut first).tip = .ok [] :=
          missingAmong_of_knows run.follows.reliable (hknown first (by omega) (by omega))
        exact ⟨seen, .extends (fun h => hlow ((run.follows.ofNat_le (by omega)).mp h)) hheight hbelow
          hvalid hunknown hpasses, hseen⟩

/-- **The first block at which a segment of another run's chain differs is one to give up the own
blocks for.** -/
theorem Run.differs (run : Run Event.Fits start l c) (run' : Run Event.Fits start r d)
    (hstart : start.toBytes.length ≤ Protocol.maxMessageBytes) (hstake : l.minStake = r.minStake)
    {n : Nat} (hc : n < c.length) (hd : n < d.length)
    (hsame : (c.cut n).tip.blockHash = (d.cut n).tip.blockHash → (c.cut n).tip = (d.cut n).tip)
    (hother : (c.cut (n + 1)).tip.blockHash ≠ (d.cut (n + 1)).tip.blockHash)
    {seen : Option Block} (hseen : seen = none ∨ seen = some (d.cut n).tip) :
    l.Differs seen (UInt64.ofNat (n + 1)) (d.cut (n + 1)).tip := by
  have hlong := run.follows.length_lt
  have hkeeps := (run.completes hstart).keeps
  obtain ⟨hheight, hvalid, hlists⟩ := run'.valid_at hd
  have hlisted := run.follows.lists run'.follows hstake hlists
  refine
    { pos := ofNat_ne_zero (Nat.succ_pos n) (by omega)
      low := (run.follows.ofNat_le (by omega)).mpr hc
      stored := ⟨_, hkeeps.storedBlock run.follows run.fits hc, hother⟩
      competes := ?_ }
  rcases hseen with rfl | rfl
  · refine ⟨(c.cut n).tip, ?_, hheight, fun hlinked => ?_, hlisted⟩
    · rw [Ledger.parentOf, ofNat_sub_one (Nat.succ_pos n), Nat.succ_sub_one]
      exact hkeeps.storedBlock run.follows run.fits (Nat.le_of_lt hc)
    · have hparent := (Block.verifyLinkage_eq_ok.mp (Block.checkBase_eq_ok.mp hvalid).1).2
      rw [hsame (hlinked.symm.trans hparent)]
      exact hvalid
  · exact ⟨(d.cut n).tip, rfl, hheight, fun _ => hvalid, hlisted⟩

/-! ## 4. Committing a segment of the other chain -/

theorem Run.commitBatch_segment (run' : Run Event.Fits start r d)
    (hstart : start.toBytes.length ≤ Protocol.maxMessageBytes) :
    ∀ (count n : Nat) {l : Ledger} (done : List CommitReport), Run Event.Fits start l (d.cut n) →
      l.minStake = r.minStake → l.Awaits (d.cut n) d → n + count ≤ d.length →
      ∃ reports l', l.commitBatch done (d.segment (n + 1) count) = (.ok (.committed reports), l') ∧
        Run Event.Fits start l' (d.cut (n + count)) ∧ l'.minStake = r.minStake ∧
        l'.Awaits (d.cut (n + count)) d
  | 0, n, l, done, run, hstake, hawaits, _ => ⟨done, l, rfl, run, hstake, hawaits⟩
  | count + 1, n, l, done, run, hstake, hawaits, hsize => by
    obtain ⟨e, he⟩ := cut_succ (c := d) (n := n) (by omega)
    have hnext : e :: d.cut n <:+ d := by
      rw [← he]
      exact List.drop_suffix _ d
    obtain ⟨report, hcommit, hrun, hleft⟩ := run.commit_again run' hstart hstake hnext hawaits
    have htip : (d.cut (n + 1)).tip = e.block := by rw [he, tip]
    have hlength : (d.cut n).length = n := length_cut (by omega)
    have hhigh : ¬ UInt64.ofNat (n + 1) ≤ l.height := by
      have hlong := run'.follows.length_lt
      have hword : (UInt64.ofNat (n + 1)).toNat = n + 1 := UInt64.toNat_ofNat_of_lt' (by omega)
      rw [run.follows.toNat_le, hword, hlength]
      omega
    rw [← he] at hrun hleft
    obtain ⟨reports, l', hdone, hrest⟩ :=
      Run.commitBatch_segment run' hstart count (n + 1) (done ++ [report]) hrun hstake hleft
        (by omega)
    have hend : n + (count + 1) = n + 1 + count := by omega
    rw [hend]
    refine ⟨reports, l', ?_, hrest⟩
    simp only [segment_succ, htip, commitBatch, if_neg hhigh, hcommit, hdone]

end Ledger

end SynergyNode
