import SynergyNode.Proofs.Ledger.Consistency
import SynergyNode.Proofs.Ledger.Refusal
import SynergyNode.Proofs.Ledger.Restart

/-!
# What a snapshot brings back

The accounts are stored with every height so that they can be brought back: by a rollback, when the
store fails during a commit, and after a restart.  Writing a snapshot has no limit, but reading it
has one: it is refused when it is longer than the longest message.  Whether accounts can be brought
back is thus a matter of how many there are (`Accounts.Restorable`).

* `Accounts.ofBytes_toBytes_eq`: what restoring the snapshot of any accounts gives;
* `Keeps.rollback_eq_ok`, `Keeps.openOn_of_restorable`, `commit_of_persist_error`: all three ways
  bring back the accounts of their height if these are restorable;
* `Run.snapshots_restore`: and otherwise they fail, so that the ledger is not even opened again
  (`not_opened_again`).
-/

namespace SynergyNode

/-! ## 1. Accounts -/

/-- The snapshot of the accounts is not too long to be read: so many balances, delegated accounts
and operators. -/
def Accounts.Restorable (a : Accounts) : Prop :=
  16 + 28 * a.balances.size + 17 * a.staking.size +
    20 * (a.staking.toList.flatMap fun e => e.2.operators).length ≤ Protocol.maxMessageBytes

instance (a : Accounts) : Decidable a.Restorable := inferInstanceAs (Decidable (_ ≤ _))

theorem Accounts.restorable_iff {a : Accounts} :
    a.Restorable ↔ a.toBytes.length ≤ Protocol.maxMessageBytes := by
  rw [Restorable, length_toBytes]

/-- **Restoring a snapshot gives exactly the accounts it was made of**, or it is too long. -/
theorem Accounts.ofBytes_toBytes_eq (a : Accounts) :
    ofBytes a.toBytes = if a.Restorable then .ok a else .error .snapshot := by
  split
  · rename_i hshort
    exact ofBytes_toBytes (restorable_iff.mp hshort)
  · rename_i hlong
    rw [restorable_iff] at hlong
    simp only [ofBytes, Format.decode?, if_neg hlong]

/-- The accounts at a height of a history. -/
def History.accountsAt (start : Accounts) (c : History) (height : UInt64) : Accounts :=
  (c.cut height.toNat).accounts start

namespace Ledger

open History

/-- What is restored from a snapshot that can be read off the store, whatever the accounts were. -/
theorem restoredAccounts_of_snapshot {s : Store} {height : UInt64} {a : Accounts}
    (h : s.snapshot? height = .ok (some a.toBytes)) (current : Accounts) :
    restoredAccounts s height current =
      if a.Restorable then .ok a else .error (.account .snapshot) := by
  simp only [restoredAccounts, h, Accounts.ofBytes_toBytes_eq]
  by_cases hshort : a.Restorable
  · simp only [if_pos hshort]
  · simp only [if_neg hshort]

/-! ## 2. Rolling back -/

variable {start : Accounts} {l : Ledger} {c : History}

theorem Follows.cut_height (h : Follows start l c) : c.cut l.height.toNat = c :=
  cut_of_length_le (Nat.le_of_eq h.length)

/-- The snapshot at the height of the ledger is that of its accounts. -/
theorem Keeps.snapshot?_height (h : Keeps start l c) (hfollows : Follows start l c) :
    l.store.snapshot? l.height = .ok (some l.accounts.toBytes) := by
  rw [h.snapshot? hfollows (UInt64.le_refl l.height), hfollows.cut_height, hfollows.accounts]

/-- When all blocks above a height can be given up, what a rollback does is to stand at the block
there, on the store of the history up to it. -/
theorem Keeps.rollback_eq (h : Keeps start l c) (hfollows : Follows start l c)
    (hlegible : ∀ e ∈ c, e.Legible) {k : UInt64} (hlow : k < l.height) :
    ∃ l' : Ledger, l.rollback k = l'.standAt (c.cut k.toNat).tip k ∧
      l'.store =
        { Store.ofHistory start (c.cut k.toNat) with chainHeight := l.store.chainHeight } := by
  have hle : ¬ l.height ≤ k := UInt64.not_le.mpr hlow
  have hbelow : k ≤ l.height := UInt64.le_of_lt hlow
  have hsum : c.length = k.toNat + (l.height.toNat - k.toNat) := by
    have hlength := hfollows.length
    rw [UInt64.le_iff_toNat_le] at hbelow
    omega
  have hread : requireBlock l.store k = .ok (c.cut k.toNat).tip := by
    have hcut : ∀ e ∈ c.cut k.toNat, e.Legible := fun e he => hlegible e (List.mem_of_mem_drop he)
    simp only [requireBlock, h.block?_of_length hfollows hbelow (length_tip_of_legible hcut)]
  have hstore : l.store =
      { Store.ofHistory start c with chainHeight := l.store.chainHeight } := by
    rw [h.store]
  have hend := discardAbove_of_legible k _ hfollows.sound h.fresh hlegible hsum
    hfollows.length_lt hstore
  rcases hdiscard : l.discardAbove k (l.height.toNat - k.toNat) with ⟨result, l'⟩
  rw [hdiscard] at hend
  cases hend
  refine ⟨l', ?_, discardAbove_ofHistory k _ hfollows.sound h.fresh hsum hfollows.length_lt hstore
    hdiscard⟩
  simp only [Ledger.rollback, if_neg hle, hread, hdiscard]

/-- A rollback brings back the accounts of its height. -/
theorem Keeps.rollback_eq_ok (h : Keeps start l c) (hfollows : Follows start l c)
    (hlegible : ∀ e ∈ c, e.Legible) {k : UInt64} (hlow : k < l.height)
    (hshort : (c.accountsAt start k).Restorable) :
    (l.rollback k).1 = .ok () ∧ (l.rollback k).2.accounts = c.accountsAt start k := by
  have hk : k.toNat ≤ c.length := hfollows.toNat_le.mp (UInt64.le_of_lt hlow)
  obtain ⟨l', hrollback, hstore⟩ := h.rollback_eq hfollows hlegible hlow
  have hok : (l.rollback k).1 = .ok () := by
    rw [hrollback]
    rcases Keeps.standAt (hfollows.sound.cut k.toNat) (h.fresh.cut _) (length_cut hk).symm hstore
      with ⟨hok, -⟩ | ⟨-, hlong⟩
    · exact hok
    · exact absurd (Accounts.restorable_iff.mp hshort) (Nat.not_le_of_lt hlong)
  rcases hfollows.rollback k with ⟨-, hfollows'⟩ | ⟨⟨e, herror⟩, -⟩
  · exact ⟨hok, hfollows'.accounts⟩
  · rw [hok] at herror
    cases herror

theorem Keeps.rollback_eq_error (h : Keeps start l c) (hfollows : Follows start l c)
    (hlegible : ∀ e ∈ c, e.Legible) {k : UInt64} (hlow : k < l.height)
    (hlong : ¬ (c.accountsAt start k).Restorable) :
    (l.rollback k).1 = .error (.account .snapshot) := by
  have hk : k.toNat ≤ c.length := hfollows.toNat_le.mp (UInt64.le_of_lt hlow)
  obtain ⟨l', hrollback, hstore⟩ := h.rollback_eq hfollows hlegible hlow
  have hs : l'.store.Reliable := by
    rw [hstore]
    exact Store.reliable_ofHistory start _
  have hsnapshot : l'.store.snapshot? k = .ok (some (c.accountsAt start k).toBytes) := by
    rw [hs.snapshot?, hstore]
    simp only [Store.snapshots_ofHistory (hfollows.sound.cut k.toNat), length_cut hk, Nat.le_refl,
      if_true, cut_cut (Nat.le_refl _) hk, accountsAt]
  simp only [hrollback, Ledger.standAt, restoredAccounts_of_snapshot hsnapshot, if_neg hlong]

/-! ## 3. Starting again -/

section

variable (given : Accounts) (stats : ChainStats) (voting : Voting) (pools : Pools)

theorem Keeps.openOn_of_restorable (h : Keeps start l c) (hfollows : Follows start l c)
    (hlegible : ∀ e ∈ c, e.Legible) (hshort : l.accounts.Restorable) :
    Ledger.openOn l.store given stats voting pools l.minStake =
      .ok (l.resumed l.store stats voting pools) := by
  rw [hfollows.accounts, Accounts.restorable_iff] at hshort
  exact h.openOn hfollows (length_tip_of_legible hlegible) hshort ⟨rfl, rfl, rfl, rfl⟩ given stats
    voting pools

theorem Keeps.openOn_eq_error (h : Keeps start l c) (hfollows : Follows start l c)
    (hlegible : ∀ e ∈ c, e.Legible) (hlong : ¬ l.accounts.Restorable) :
    Ledger.openOn l.store given stats voting pools l.minStake =
      .error (.account .snapshot) := by
  have hheight : l.store.chainHeight = some l.height := by
    rw [h.store, Store.chainHeight_ofHistory, hfollows.height]
  have hblock := h.block?_of_length hfollows (UInt64.le_refl l.height)
    (by rw [hfollows.cut_height]; exact length_tip_of_legible hlegible)
  simp only [Ledger.openOn, hfollows.reliable.height?, hheight, Option.elim_some, resumeChain,
    requireBlock, hblock, restoredAccounts_of_snapshot (h.snapshot?_height hfollows), if_neg hlong]

end

/-! ## 4. Commits that fail -/

variable [SignatureSuite]

/-- When a block that passed all checks cannot be written, the accounts before it are brought back
from the store; if that fails, those after it stay. -/
theorem commit_of_persist_error {b : Block} {origin : BlockOrigin} {txs : List Transaction}
    {accounts before : Accounts} {cause : StoreError} {store : Store}
    (haccepts : l.Accepts b txs accounts)
    (hchanges : (l.checkChanges b origin (b.changedSlots l.lastBlock)).1 = .ok ())
    (hpersist : persist l.store b txs accounts.toBytes = (.error cause, store))
    (hsnapshot : l.store.snapshot? l.lastBlock.height = .ok (some before.toBytes)) :
    (l.commit b origin).1 =
        .error (if before.Restorable then .store cause else .account .snapshot) ∧
      (l.commit b origin).2.accounts = if before.Restorable then before else accounts := by
  obtain ⟨looked, hpassed⟩ := checkChanges_of_fst hchanges
  have hkept : store.snapshot? l.lastBlock.height = .ok (some before.toBytes) := by
    rcases persist_cases l.store b txs accounts.toBytes with hwritten | ⟨_, _, hfailed, hs⟩
    · rw [hwritten] at hpersist
      cases hpersist
    · rw [hfailed] at hpersist
      cases hpersist
      rcases hs with rfl | rfl
      · exact hsnapshot
      · exact hsnapshot
  simp only [commit, haccepts.checked, hpassed, execute_voting, haccepts.executed, finish, hpersist,
    restoredAccounts_of_snapshot hkept]
  by_cases hshort : before.Restorable
  · simp only [if_pos hshort, and_self]
  · simp only [if_neg hshort, and_self]

/-! ## 5. Along a run -/

/-- **What the snapshots of a run bring back.**  At every height the snapshot of the accounts at
that height is stored.  If these are restorable, then exactly they are restored from it, whatever
the accounts were before: by a rollback to the height, by a start at it, and when the block on top
cannot be written.

Otherwise all of this fails: the rollback stops, the ledger is not opened, and a ledger whose block
could not be written goes on with the accounts after that block. -/
theorem Run.snapshots_restore (run : Run Event.Completes start l c)
    (hlegible : ∀ e ∈ c, e.Legible) :
    (∀ a : Accounts,
      Accounts.ofBytes a.toBytes = if a.Restorable then .ok a else .error .snapshot) ∧
    (∀ k ≤ l.height, l.store.snapshot? k = .ok (some (c.accountsAt start k).toBytes) ∧
      ∀ current, restoredAccounts l.store k current =
        if (c.accountsAt start k).Restorable then .ok (c.accountsAt start k)
        else .error (.account .snapshot)) ∧
    (∀ k < l.height,
      ((c.accountsAt start k).Restorable →
        (l.rollback k).1 = .ok () ∧ (l.rollback k).2.accounts = c.accountsAt start k) ∧
      (¬ (c.accountsAt start k).Restorable → (l.rollback k).1 = .error (.account .snapshot))) ∧
    (∀ (given : Accounts) (stats : ChainStats) (voting : Voting) (pools : Pools),
      openOn l.store given stats voting pools l.minStake =
        if l.accounts.Restorable then .ok (l.resumed l.store stats voting pools)
        else .error (.account .snapshot)) ∧
    (∀ (failure : StoreOperation → Option StoreError) (b : Block) (origin : BlockOrigin)
      (txs : List Transaction) (accounts : Accounts) (cause : StoreError) (store : Store),
      failure .getSnapshot = none → (l.failing failure).Accepts b txs accounts →
      ((l.failing failure).checkChanges b origin (b.changedSlots l.lastBlock)).1 = .ok () →
      persist (l.failing failure).store b txs accounts.toBytes = (.error cause, store) →
      ((l.failing failure).commit b origin).1 =
          .error (if l.accounts.Restorable then .store cause else .account .snapshot) ∧
        ((l.failing failure).commit b origin).2.accounts =
          if l.accounts.Restorable then l.accounts else accounts) := by
  have hfollows := run.follows
  have hkeeps := run.keeps
  refine ⟨Accounts.ofBytes_toBytes_eq, fun k hk => ?_, fun k hlow => ?_,
    fun given stats voting pools => ?_, ?_⟩
  · have hsnapshot : l.store.snapshot? k = .ok (some (c.accountsAt start k).toBytes) :=
      hkeeps.snapshot? hfollows hk
    exact ⟨hsnapshot, restoredAccounts_of_snapshot hsnapshot⟩
  · exact ⟨hkeeps.rollback_eq_ok hfollows hlegible hlow,
      hkeeps.rollback_eq_error hfollows hlegible hlow⟩
  · split
    · rename_i hshort
      exact hkeeps.openOn_of_restorable given stats voting pools hfollows hlegible hshort
    · rename_i hlong
      exact hkeeps.openOn_eq_error given stats voting pools hfollows hlegible hlong
  · intro failure b origin txs accounts cause store hreads haccepts hchanges hpersist
    have hsnapshot := hkeeps.snapshot?_height hfollows
    rw [hfollows.height, ← hfollows.last, hfollows.reliable.snapshot?] at hsnapshot
    refine commit_of_persist_error haccepts hchanges hpersist ?_
    simp only [Store.snapshot?, Store.fetch, failing, Store.failing, hreads]
    exact hsnapshot

omit [SignatureSuite]

/-- After a run with one block, going back to the first one brings back the accounts before it. -/
theorem Run.snapshots_restore_block :
    ∃ (_ : SignatureSuite) (start : Accounts) (l : Ledger) (c : History),
      Run Event.Completes start l c ∧ (∀ e ∈ c, e.Legible) ∧ c.length = 1 ∧
        (l.rollback 0).1 = .ok () ∧ (l.rollback 0).2.accounts = start := by
  let := Sample.suite
  have hfits := Sample.run_block Sample.operatorKey_zeros 1 70 30 (by decide) rfl rfl
  have run := hfits.completes Sample.length_start
  have hlegible : ∀ e ∈ [Sample.entry Sample.zeros 1 70 30], e.Legible :=
    fun e he => (hfits.fits e he).legible
  have hlow : 0 < (Sample.later Sample.zeros 1 70 30).height := by
    rw [UInt64.lt_iff_toNat_lt, ← run.follows.length]
    exact Nat.one_pos
  obtain ⟨-, -, hrollback, -⟩ := run.snapshots_restore hlegible
  obtain ⟨hok, haccounts⟩ := (hrollback 0 hlow).1 (Accounts.restorable_iff.mpr Sample.length_start)
  exact ⟨Sample.suite, _, _, _, run, hlegible, rfl, hok, haccounts⟩

/-! ## 6. Too many operators -/

/-- One delegated account with 838860 operators. -/
def Sample.crowd : Accounts where
  balances := ∅
  staking := (∅ : Std.ExtTreeMap UInt8 StakingEntry).insert 1
    ⟨0, List.replicate 838860 (Address.delegated 1)⟩

theorem Sample.not_restorable_crowd : ¬ crowd.Restorable := by
  have hstaking : crowd.staking.toList = [(1, ⟨0, List.replicate 838860 (Address.delegated 1)⟩)] :=
    rfl
  have hone : crowd.staking.size = 1 := rfl
  have hmax : Protocol.maxMessageBytes = 16777216 := rfl
  simp only [Accounts.Restorable, hstaking, hone, hmax, List.flatMap_cons, List.flatMap_nil,
    List.append_nil, List.length_replicate]
  omega

/-- **A ledger that is opened on an empty store and not again.**  The snapshot of its accounts is
stored with the first block, but it is seventeen bytes too long to be read. -/
theorem not_opened_again :
    Accounts.ofBytes Sample.crowd.toBytes = .error .snapshot ∧
      ∃ l : Ledger, openOn Store.empty Sample.crowd ChainStats.empty (Voting.empty 60)
          (Pools.empty .standard) 0 = .ok l ∧ l.accounts = Sample.crowd ∧
        ∀ given stats voting pools,
          openOn l.store given stats voting pools 0 = .error (.account .snapshot) := by
  have hopened := Sample.openOn_empty Sample.zeros Sample.crowd (Pools.empty .standard)
  obtain ⟨hfollows, hstore⟩ := Follows.opened hopened
  have hkeeps : Keeps Sample.crowd _ [] := ⟨hstore, trivial⟩
  refine ⟨?_, _, hopened, rfl, fun given stats voting pools => ?_⟩
  · rw [Accounts.ofBytes_toBytes_eq, if_neg Sample.not_restorable_crowd]
  · exact hkeeps.openOn_eq_error given stats voting pools hfollows (fun e he => nomatch he)
      Sample.not_restorable_crowd

end Ledger

end SynergyNode
