import SynergyNode.Proofs.Ledger.Restart
import SynergyNode.Proofs.Ledger.RollbackWrites

/-!
# A rollback that stops on the way

Until its last write, a rollback leaves the height as it was.  From the removal of the first block
on, the store names a height whose block it does not hold any more, and a ledger is not opened on
such a store.

So the writes may stop while transactions of the top block are taken out, or when all of them are
made; everywhere else the chain is lost to the next start (`Run.interrupted_rollback`).
-/

namespace SynergyNode

/-! ## 1. Changes that only take out -/

/-- The change takes something out of a table. -/
def StoreWrite.Removes : StoreWrite → Prop
  | putBlock _ => False
  | removeBlock _ => True
  | putTransactions _ => False
  | removeTransaction _ => True
  | putTree _ _ => False
  | removeTree _ => True
  | putSnapshot _ _ => False
  | removeSnapshot _ => True
  | putHeight _ => False

namespace Store

/-- Taking out leaves the height, and what is gone stays gone. -/
theorem applyAll_of_removes {ws : List StoreWrite} (h : ∀ w ∈ ws, w.Removes) (s : Store) :
    (s.applyAll ws).chainHeight = s.chainHeight ∧
      ∀ k : UInt64, s.blocks[k]? = none → (s.applyAll ws).blocks[k]? = none := by
  induction ws generalizing s with
  | nil => exact ⟨rfl, fun _ gone => gone⟩
  | cons w ws ih =>
    obtain ⟨hw, hws⟩ := List.forall_mem_cons.mp h
    have hstep : (s.apply w).chainHeight = s.chainHeight ∧
        ∀ k : UInt64, s.blocks[k]? = none → (s.apply w).blocks[k]? = none := by
      cases w with
      | removeBlock height =>
        refine ⟨rfl, fun k gone => ?_⟩
        have herased : (s.blocks.erase height)[k]? = none := by
          rw [Std.ExtTreeMap.getElem?_erase, gone, ite_self]
        exact herased
      | removeTransaction _ | removeTree _ | removeSnapshot _ => exact ⟨rfl, fun _ gone => gone⟩
      | putBlock _ | putTransactions _ | putTree _ _ | putSnapshot _ _ | putHeight _ =>
        exact absurd hw id
    obtain ⟨hheight, hgone⟩ := ih hws (s.apply w)
    exact ⟨hheight.trans hstep.1, fun k gone => hgone k (hstep.2 k gone)⟩

end Store

namespace Ledger

open History

theorem removes_discardWrites (height : UInt64) (hashes : List Hash) :
    ∀ w ∈ discardWrites height hashes, w.Removes := by
  intro w hw
  rcases List.mem_append.mp hw with hrelease | hrest
  · obtain ⟨hash, -, rfl⟩ := List.mem_map.mp hrelease
    trivial
  · simp only [List.mem_cons, List.not_mem_nil, or_false] at hrest
    rcases hrest with rfl | rfl | rfl <;> trivial

/-! ## 2. Where the writes stop -/

/-- While transactions are taken out, everything at the top is as it was. -/
theorem sameTop_releaseWrites (s : Store) (height : UInt64) (hashes : List Hash) :
    SameTop height s (s.applyAll (releaseWrites hashes)) := by
  rw [Store.applyAll_releaseWrites]
  exact ⟨rfl, rfl, rfl, rfl⟩

theorem rollbackWrites_cons (height : UInt64) (e : Entry) (dropped : History) :
    ∃ rest : List StoreWrite, (∀ w ∈ rest, w.Removes) ∧
      rollbackWrites height (e :: dropped) =
        releaseWrites e.block.txHashes.eraseDups ++
          (.removeBlock e.block.height :: (rest ++ [.putHeight height])) := by
  refine ⟨[.removeTree e.block.height, .removeSnapshot e.block.height] ++ dropWrites dropped,
    ?_, ?_⟩
  · intro w hw
    rcases List.mem_append.mp hw with htop | hbelow
    · simp only [List.mem_cons, List.not_mem_nil, or_false] at htop
      rcases htop with rfl | rfl <;> trivial
    · obtain ⟨below, -, hbelow⟩ := List.mem_flatMap.mp hbelow
      exact removes_discardWrites _ _ w hbelow
  · simp only [rollbackWrites, dropWrites_cons, discardWrites, List.append_assoc,
      List.cons_append, List.nil_append]

/-- At first only transactions of the top block are taken out. -/
theorem take_rollbackWrites_of_le (height : UInt64) {e : Entry} {dropped : History} {n : Nat}
    (hearly : n ≤ e.block.txHashes.eraseDups.length) :
    (rollbackWrites height (e :: dropped)).take n =
      releaseWrites (e.block.txHashes.eraseDups.take n) := by
  obtain ⟨rest, -, hwrites⟩ := rollbackWrites_cons height e dropped
  rw [hwrites, List.take_append_of_le_length (by rwa [releaseWrites, List.length_map]),
    releaseWrites, releaseWrites, List.map_take]

/-- Between the removal of the top block and the last write, the store names a height without a
block. -/
theorem missing_of_take {s : Store} {height : UInt64} {e : Entry} {dropped : History} {n : Nat}
    (hlate : e.block.txHashes.eraseDups.length < n)
    (hearly : n < (rollbackWrites height (e :: dropped)).length) :
    (s.applyAll ((rollbackWrites height (e :: dropped)).take n)).chainHeight = s.chainHeight ∧
      (s.applyAll ((rollbackWrites height (e :: dropped)).take n)).blocks[e.block.height]? =
        none := by
  obtain ⟨rest, hrest, hwrites⟩ := rollbackWrites_cons height e dropped
  obtain ⟨m, rfl⟩ := Nat.exists_eq_add_of_lt hlate
  have hreleased : (releaseWrites e.block.txHashes.eraseDups).length =
      e.block.txHashes.eraseDups.length := List.length_map _
  have hm : m ≤ rest.length := by
    rw [hwrites] at hearly
    simp only [List.length_append, List.length_cons, List.length_nil, hreleased] at hearly
    omega
  have htake : (rollbackWrites height (e :: dropped)).take
        (e.block.txHashes.eraseDups.length + m + 1) =
      releaseWrites e.block.txHashes.eraseDups ++
        (.removeBlock e.block.height :: rest.take m) := by
    have hcount : e.block.txHashes.eraseDups.length + m + 1 -
        e.block.txHashes.eraseDups.length = m + 1 := by omega
    rw [hwrites, List.take_append, hreleased, hcount, List.take_succ_cons,
      List.take_of_length_le (by omega), List.take_append_of_le_length hm]
  have hgone : ((s.applyAll (releaseWrites e.block.txHashes.eraseDups)).apply
      (.removeBlock e.block.height)).blocks[e.block.height]? = none :=
    Std.ExtTreeMap.getElem?_erase_self
  have htop := (sameTop_releaseWrites s e.block.height e.block.txHashes.eraseDups).chainHeight
  obtain ⟨hheight, hmissing⟩ := Store.applyAll_of_removes
    (fun w hw => hrest w (List.mem_of_mem_take hw))
    ((s.applyAll (releaseWrites e.block.txHashes.eraseDups)).apply (.removeBlock e.block.height))
  rw [htake, Store.applyAll_append]
  exact ⟨hheight.trans htop, hmissing _ hgone⟩

/-! ## 3. Stopped rollbacks along a run -/

variable {start : Accounts} {l : Ledger} {c : History} {height : UInt64}

/-- The first block that is given up is the last one. -/
theorem Follows.above_eq_cons (hfollows : Follows start l c) (hlow : height < l.height) :
    ∃ e dropped, c.above height.toNat = e :: dropped ∧ l.lastBlock = e.block := by
  have hlow' := UInt64.lt_iff_toNat_lt.mp hlow
  obtain ⟨e, dropped, habove⟩ := List.exists_cons_of_length_pos (l := c.above height.toNat) (by
    rw [above, List.length_take, hfollows.length]
    omega)
  refine ⟨e, dropped, habove, ?_⟩
  rw [hfollows.last, ← above_append_cut c height.toNat, habove]
  rfl

theorem Follows.tip_cut_height (hfollows : Follows start l c) (hlow : height < l.height) :
    (c.cut height.toNat).tip.height = height := by
  have hlow' := UInt64.lt_iff_toNat_lt.mp hlow
  apply UInt64.toNat_inj.mp
  rw [(hfollows.sound.cut _).tip_height, length_cut (by rw [hfollows.length]; omega)]

variable [SignatureSuite]

/-- A rollback makes all of its writes when no operation fails. -/
theorem Run.store_rollback (run : Run Event.Fits start l c)
    (hstart : start.toBytes.length ≤ Protocol.maxMessageBytes) (hlow : height < l.height) :
    (l.rollback height).2.store =
      l.store.applyAll (rollbackWrites height (c.above height.toNat)) := by
  have hfollows := run.follows
  have hkeeps := (run.completes hstart).keeps
  obtain ⟨-, run'⟩ := run.rollback hstart height
  have hkeeps' := (run'.completes hstart).keeps
  have hsplit := above_append_cut c height.toNat
  have hwritten := applyAll_rollbackWrites (hsplit.symm ▸ hfollows.sound)
    (hsplit.symm ▸ hkeeps.fresh) (hfollows.tip_cut_height hlow)
  rw [hsplit] at hwritten
  rw [hkeeps'.store, hkeeps.store, hwritten]

/-- **Where a ledger stands after a rollback that stopped on the way.**  `rollbackWrites` are the
writes that the rollback makes, or the first of them when operations fail.  When only the first of
them are made, the ledger is opened where it stood as long as no more than the transactions of the
top block are gone, and where it was to go when all writes are made.  In between it is not opened:
the block at the height is missing. -/
theorem Run.interrupted_rollback (run : Run Event.Fits start l c)
    (hstart : start.toBytes.length ≤ Protocol.maxMessageBytes) (hlow : height < l.height) :
    (l.rollback height).2.store =
        l.store.applyAll (rollbackWrites height (c.above height.toNat)) ∧
      (∀ failure : StoreOperation → Option StoreError, ∃ n,
        ((l.failing failure).rollback height).2.store =
          (l.store.failing failure).applyAll
            ((rollbackWrites height (c.above height.toNat)).take n)) ∧
      ∀ n ≤ (rollbackWrites height (c.above height.toNat)).length,
        ∀ (given : Accounts) (stats : ChainStats) (voting : Voting) (pools : Pools),
          let s := l.store.applyAll ((rollbackWrites height (c.above height.toNat)).take n)
          (n ≤ l.lastBlock.txHashes.eraseDups.length →
            ∃ l₁, openOn s given stats voting pools l.minStake = .ok l₁ ∧
              l₁.height = l.height ∧ l₁.lastBlock = l.lastBlock ∧ l₁.accounts = l.accounts) ∧
          (n = (rollbackWrites height (c.above height.toNat)).length →
            ∃ l₁, openOn s given stats voting pools l.minStake = .ok l₁ ∧
              l₁.height = height ∧ l₁.lastBlock = (c.cut height.toNat).tip ∧
              l₁.accounts = (c.cut height.toNat).accounts start) ∧
          (l.lastBlock.txHashes.eraseDups.length < n →
            n < (rollbackWrites height (c.above height.toNat)).length →
            openOn s given stats voting pools l.minStake = .error (.missingBlock l.height)) := by
  have hfollows := run.follows
  have hkeeps := (run.completes hstart).keeps
  have hall := run.store_rollback hstart hlow
  obtain ⟨e, dropped, habove, hlast⟩ := hfollows.above_eq_cons hlow
  refine ⟨hall, fun failure => ?_, fun n hn given stats voting pools =>
    ⟨fun hearly => ?_, fun hend => ?_, fun hlate hbefore => ?_⟩⟩
  · obtain ⟨made, hmade, hstore⟩ := hkeeps.rollback_made hfollows run.fits hlow failure
    exact ⟨made.length, by rw [hstore, ← List.prefix_iff_eq_take.mp hmade]⟩
  · rw [hlast] at hearly
    have hopened := hkeeps.openOn hfollows (length_tip run.fits)
      (length_accounts run.fits hstart)
      (sameTop_releaseWrites l.store l.height (e.block.txHashes.eraseDups.take n)) given stats
      voting pools
    rw [← take_rollbackWrites_of_le height hearly, ← habove] at hopened
    exact ⟨_, hopened, rfl, rfl, rfl⟩
  · obtain ⟨-, run'⟩ := run.rollback hstart height
    have hfollows' := run'.follows
    have hopened := (run'.completes hstart).keeps.openOn hfollows' (length_tip run'.fits)
      (length_accounts run'.fits hstart)
      ⟨rfl, rfl, rfl, rfl⟩ given stats voting pools
    have hstake : (l.rollback height).2.minStake = l.minStake := by
      obtain ⟨_, _, _, _, _, _, -, h⟩ := rollback_snd hfollows.reliable height
      rw [h]
    rw [hstake, hall] at hopened
    rw [hend, List.take_length]
    exact ⟨_, hopened, hfollows'.height.trans (hfollows.tip_cut_height hlow), hfollows'.last,
      hfollows'.accounts⟩
  · rw [hlast] at hlate
    rw [habove] at hbefore ⊢
    obtain ⟨hnamed, hmissing⟩ := missing_of_take (s := l.store) hlate hbefore
    have hstored : l.store.chainHeight = some l.height := by
      rw [hkeeps.store, Store.chainHeight_ofHistory, ← hfollows.height]
    have htop : e.block.height = l.height := by rw [hfollows.height, ← hfollows.last, hlast]
    rw [htop] at hmissing
    exact openOn_of_missing given stats voting pools l.minStake (hfollows.reliable.applyAll _)
      (hnamed.trans hstored) hmissing

/-! ## 4. A rollback of one block -/

omit [SignatureSuite]

/-- When no tree can be removed, a rollback stops behind the removal of the top block. -/
theorem Keeps.rollback_failing_removeTree (h : Keeps start l c) (hfollows : Follows start l c)
    (hfits : ∀ e ∈ c, e.Fits) (hlow : height < l.height)
    (hempty : l.lastBlock.txHashes = []) (cause : StoreError) :
    (l.failing (Store.only .removeTree cause)).rollback height =
      (.error (.store cause),
        ({ l with store := l.store.apply (.removeBlock l.height) } : Ledger).failing
          (Store.only .removeTree cause)) := by
  generalize hfailure : Store.only .removeTree cause = failure
  have hle : ¬ l.height ≤ height := UInt64.not_le.mpr hlow
  have hread : ∀ k : UInt64, k ≤ l.height →
      (l.store.failing failure).block? k = .ok (some (c.cut k.toNat).tip) := by
    intro k hk
    rw [← h.block? hfollows hfits hk, Store.block?, Store.block?, hfollows.reliable.fetch,
      ← hfailure]
    rfl
  have htip : (c.cut l.height.toNat).tip.txHashes = [] := by
    rw [cut_of_length_le (Nat.le_of_eq hfollows.length), ← hfollows.last, hempty]
  obtain ⟨n, hn⟩ : ∃ n, l.height.toNat - height.toNat = n + 1 :=
    Nat.exists_eq_add_one.mpr (Nat.sub_pos_of_lt (UInt64.lt_iff_toNat_lt.mp hlow))
  have htop : height + UInt64.ofNat (n + 1) = l.height := by
    have hlt : l.height.toNat < UInt64.size := l.height.toNat_lt
    apply UInt64.toNat_inj.mp
    rw [toNat_add_ofNat (by omega)]
    omega
  have hremove : removeHeight (l.store.failing failure) l.height =
      (.error cause, (l.store.apply (.removeBlock l.height)).failing failure) := by
    rw [← hfailure]
    rfl
  have hstop : (l.failing failure).discard l.height =
      (.error (.store cause),
        ({ l with store := l.store.apply (.removeBlock l.height) } : Ledger).failing failure) := by
    simp only [discard, releaseBlock, store_failing, hread l.height (UInt64.le_refl _), htip,
      releaseTransactions, hremove]
    rfl
  simp only [Ledger.rollback, height_failing, store_failing, if_neg hle, requireBlock,
    hread height (UInt64.le_of_lt hlow), hn, discardAbove, htop, hstop]

/-- A rollback of one transfer stops, before and behind the removal of the block. -/
theorem Run.interrupted_rollback_block :
    ∃ (_ : SignatureSuite) (start : Accounts) (l l₁ : Ledger) (e : Entry),
      Run Event.Fits start l [e] ∧ 0 < l.height ∧
      (l.rollback 0).2.store = l.store.applyAll (rollbackWrites 0 [e]) ∧
      openOn (l.store.applyAll ((rollbackWrites 0 [e]).take 1)) start l.stats l.voting l.pools
        l.minStake = .ok l₁ ∧ l₁.lastBlock = l.lastBlock ∧
      openOn (l.store.applyAll ((rollbackWrites 0 [e]).take 2)) start l.stats l.voting l.pools
        l.minStake = .error (.missingBlock l.height) := by
  let := Sample.suite
  have run := Sample.run_block Sample.operatorKey_zeros 1 70 30 (by decide) rfl rfl
  have hlow : 0 < (Sample.later Sample.zeros 1 70 30).height := by
    rw [UInt64.lt_iff_toNat_lt, ← run.follows.length]
    exact Nat.zero_lt_one
  have hone : (Sample.later Sample.zeros 1 70 30).lastBlock.txHashes.eraseDups.length = 1 := rfl
  obtain ⟨hall, -, hstopped⟩ := run.interrupted_rollback Sample.length_start hlow
  obtain ⟨hearly, -, -⟩ := hstopped 1 (by decide) (Sample.start _) _
    (Sample.later Sample.zeros 1 70 30).voting (Sample.later Sample.zeros 1 70 30).pools
  obtain ⟨-, -, hlate⟩ := hstopped 2 (by decide) (Sample.start _) _
    (Sample.later Sample.zeros 1 70 30).voting (Sample.later Sample.zeros 1 70 30).pools
  obtain ⟨l₁, hopened, -, hlast, -⟩ := hearly (Nat.le_of_eq hone.symm)
  exact ⟨Sample.suite, _, _, l₁, _, run, hlow, hall, hopened, hlast,
    hlate (by rw [hone]; decide) (by decide)⟩

/-- **A rollback that stops on the way can leave nothing to start from.**  A block is removed, its
tree is not, and the ledger is not opened any more. -/
theorem lost_after_stop :
    ∃ (_ : SignatureSuite) (start : Accounts) (l l' : Ledger) (e : Entry) (cause : StoreError),
      Run Event.Fits start l [e] ∧ l.height = 1 ∧
      (l.failing (Store.only .removeTree cause)).rollback 0 =
        (.error (.store cause), l') ∧
      openOn (l'.store.failing fun _ => none) start l.stats l.voting l.pools
        l.minStake = .error (.missingBlock 1) := by
  let := Sample.suite
  have run := Sample.run_block Sample.operatorKey_zeros 0 100 0 (by decide) rfl rfl
  have hheight : (Sample.later Sample.zeros 0 100 0).height = 1 := rfl
  have hlow : (0 : UInt64) < (Sample.later Sample.zeros 0 100 0).height := by
    rw [hheight]
    decide
  have hstopped := (run.completes Sample.length_start).keeps.rollback_failing_removeTree
    run.follows run.fits hlow rfl (.io "lost")
  refine ⟨Sample.suite, _, _, _, _, .io "lost", run, hheight, hstopped, ?_⟩
  refine openOn_of_missing _ _ _ _ _ (fun _ => rfl) rfl ?_
  exact Std.ExtTreeMap.getElem?_erase_self

end Ledger

end SynergyNode
