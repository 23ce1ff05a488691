import SynergyNode.Proofs.Ledger.Restart

/-!
# A commit that stops on the way

The writes of a block are made one after the other, and the last of them is the height.  When they
stop before it, the ledger is opened where it stood before the block
(`Run.interrupted_commit`).

Whether the block can then be committed again depends on how far the writes got.  A transaction
that is stored counts as committed, and the transactions are the second write: when they are
stored, a block with transactions is refused on its own chain (`refused_after_stop`).
-/

namespace SynergyNode.Ledger

open History

/-! ## 1. The writes of a block -/

/-- What is stored when only the first `n` writes of a block are made. -/
def stopped (s : Store) (b : Block) (txs : List Transaction) (snapshot : Bytes) (n : Nat) : Store :=
  s.applyAll ((commitWrites b txs snapshot).take n)

section

variable {s : Store} {b : Block} {txs : List Transaction} {snapshot : Bytes} {n : Nat}

/-- Short of the last write, only the height of the block is touched. -/
theorem sameTop_stopped (hn : n < (commitWrites b txs snapshot).length) {height : UInt64}
    (hne : height ≠ b.height) : SameTop height s (stopped s b txs snapshot n) := by
  have helsewhere : ∀ (m : Std.ExtTreeMap UInt64 Bytes) (x : Bytes),
      (m.insert b.height x)[height]? = m[height]? := by
    intro m x
    exact Table.getElem?_insert_of_ne hne.symm
  have hlast : n < 5 := hn
  match n, hlast with
  | 0, _ => exact ⟨rfl, rfl, rfl, rfl⟩
  | 1, _ => exact ⟨rfl, rfl, rfl, rfl⟩
  | 2, _ => exact ⟨rfl, rfl, rfl, rfl⟩
  | 3, _ => exact ⟨rfl, rfl, rfl, helsewhere _ _⟩
  | 4, _ => exact ⟨rfl, rfl, helsewhere _ _, helsewhere _ _⟩

/-- The transactions are stored from the second write on. -/
theorem transactions_stopped (hn : n < (commitWrites b txs snapshot).length) :
    (stopped s b txs snapshot n).transactions =
      if n < 2 then s.transactions else (s.apply (.putTransactions txs)).transactions := by
  have hlast : n < 5 := hn
  match n, hlast with
  | 0, _ => rfl
  | 1, _ => rfl
  | 2, _ => rfl
  | 3, _ => rfl
  | 4, _ => rfl

theorem hasTransaction_stopped_of_lt (hs : s.Reliable)
    (hn : n < (commitWrites b txs snapshot).length) (hearly : n < 2) (hash : Hash) :
    (stopped s b txs snapshot n).hasTransaction hash = s.hasTransaction hash := by
  have hs' : (stopped s b txs snapshot n).Reliable := hs.applyAll _
  rw [hs'.hasTransaction, transactions_stopped hn, if_pos hearly, hs.hasTransaction]

theorem hasTransaction_stopped_of_le (hs : s.Reliable)
    (hn : n < (commitWrites b txs snapshot).length) (hlate : 2 ≤ n) {t : Transaction}
    (ht : t ∈ txs) : (stopped s b txs snapshot n).hasTransaction t.hash = .ok true := by
  have hs' : (stopped s b txs snapshot n).Reliable := hs.applyAll _
  rw [hs'.hasTransaction, transactions_stopped hn, if_neg (Nat.not_lt_of_le hlate)]
  exact congrArg Except.ok ((Store.contains_putTransactions _ _ _).mpr
    (Or.inl (List.mem_map_of_mem ht)))

end

/-! ## 2. The block once more -/

variable [SignatureSuite] {l : Ledger} {b : Block} {txs : List Transaction} {accounts : Accounts}
  {s : Store} {stats : ChainStats} {voting : Voting} {pools : Pools}

/-- A block that was accepted is accepted again where its transactions are pending and none of
them is stored. -/
theorem Accepts.resumed (h : l.Accepts b txs accounts)
    (hnew : ∀ t ∈ txs, s.hasTransaction t.hash = .ok false)
    (hpending : ∀ t ∈ txs, pools.find? t.hash = some t) :
    (l.resumed s stats voting pools).Accepts b txs accounts where
  checked := h.checked
  executed := by
    obtain ⟨hcollect, hverified, happlied⟩ := execute_eq_ok.mp h.executed
    have hlook : (l.resumed s stats voting pools).lookUp (txs.map Transaction.hash) =
        .ok (txs, []) :=
      lookUp_of_pending fun t ht => ⟨hpending t ht, hnew t ht⟩
    rw [(collectTransactions_eq_ok hcollect).1] at hlook
    refine execute_eq_ok.mpr ⟨?_, hverified, happlied⟩
    simp only [collectTransactions, hlook]

/-- Votes on the changes of the block are not asked for, or they are the same as before. -/
def VotesAgain (before : Voting) (origin : BlockOrigin) (voting : Voting) (again : BlockOrigin) :
    Prop :=
  again = .sync ∨ again = origin ∧ voting = before

variable {origin again : BlockOrigin}

omit [SignatureSuite] in
theorem checkChanges_resumed {slots : List Slot} (h : (l.checkChanges b origin slots).1 = .ok ())
    (hvotes : VotesAgain l.voting origin voting again) :
    ((l.resumed s stats voting pools).checkChanges b again slots).1 = .ok () := by
  rcases hvotes with rfl | ⟨rfl, rfl⟩
  · rw [checkChanges_sync_of_ok h]
  · have hsame : ((l.resumed s stats l.voting pools).checkChanges b again slots).1 =
        (l.checkChanges b again slots).1 := by
      refine checkChanges_fst_congr ?_ ?_ ?_ again slots <;> rfl
    rw [hsame, h]

/-- A block is refused when its first transaction is stored. -/
theorem Accepts.refused {t : Transaction} {rest : List Transaction}
    (h : l.Accepts b (t :: rest) accounts)
    (hchanges : (l.checkChanges b origin (b.changedSlots l.lastBlock)).1 = .ok ())
    (hvotes : VotesAgain l.voting origin voting again)
    (hstored : s.hasTransaction t.hash = .ok true) :
    ((l.resumed s stats voting pools).commit b again).1 = .error (.alreadyCommitted t.hash) := by
  refine commit_of_execute_eq_error h.checked (checkChanges_resumed hchanges hvotes) ?_
  have hhashes := (collectTransactions_eq_ok (execute_eq_ok.mp h.executed).1).1
  have hstored' : (l.resumed s stats voting pools).store.hasTransaction t.hash = .ok true := hstored
  rw [List.map_cons] at hhashes
  simp only [execute, collectTransactions, ← hhashes, lookUp, hstored']

/-- An accepted block is not at the height of the ledger. -/
theorem Accepts.height_ne {start : Accounts} {c : History} (h : l.Accepts b txs accounts)
    (hfollows : Follows start l c) : l.height ≠ b.height := by
  have hlinked := (Block.checkBase_eq_ok.mp (checkBlock_eq_ok.mp h.checked).1).1
  have hnext := (Block.verifyLinkage_eq_ok.mp hlinked).1
  rw [hfollows.last, ← hfollows.height] at hnext
  intro heq
  rw [hnext] at heq
  have hword := congrArg UInt64.toNat heq
  have hlt := l.height.toNat_lt
  rw [UInt64.toNat_add, UInt64.toNat_one] at hword
  omega

/-! ## 3. Stopped commits along a run -/

variable {start : Accounts} {c : History}

/-- **Where a ledger stands after a commit that stopped on the way.**  The writes of the block stop
before the last of them, and the ledger is opened on what is then stored: it stands where it stood
before the block, with the accounts it had.

The same block with its transactions pending is committed again if the writes stopped before the
transactions, or if there are none.  Otherwise it is refused: its transactions are taken for
committed ones. -/
theorem Run.interrupted_commit (run : Run Event.Fits start l c)
    (hstart : start.toBytes.length ≤ Protocol.maxMessageBytes) {origin : BlockOrigin}
    {report : CommitReport} {l' : Ledger} (hcommit : l.commit b origin = (.ok report, l')) :
    ∃ txs, l.collectTransactions b = .ok txs ∧
      l'.store = l.store.applyAll (commitWrites b txs l'.accounts.toBytes) ∧
      ∀ n < (commitWrites b txs l'.accounts.toBytes).length,
        ∀ (given : Accounts) (stats : ChainStats) (voting : Voting) (pools : Pools),
          ∃ l₁, openOn (stopped l.store b txs l'.accounts.toBytes n) given stats voting pools
                l.minStake = .ok l₁ ∧
            (l₁.height = l.height ∧ l₁.lastBlock = l.lastBlock ∧ l₁.accounts = l.accounts) ∧
            ∀ again : BlockOrigin, VotesAgain l.voting origin voting again →
              (∀ t ∈ txs, pools.find? t.hash = some t) →
              (n < 2 ∨ txs = [] → ∃ l₂, l₁.commit b again = (.ok report, l₂) ∧
                l₂.lastBlock = b ∧ l₂.accounts = l'.accounts) ∧
              ∀ t rest, 2 ≤ n → txs = t :: rest →
                (l₁.commit b again).1 = .error (.alreadyCommitted t.hash) := by
  have hfollows := run.follows
  have hkeeps := (run.completes hstart).keeps
  have hchanges := checkChanges_of_commit hcommit
  rcases commit_cases hfollows.reliable b origin with
    ⟨e, looked, hrefused⟩ | ⟨txs, accounts, looked, haccepts, hcommitted⟩
  · rw [hrefused] at hcommit
    cases hcommit
  rw [hcommitted] at hcommit
  cases hcommit
  obtain ⟨hcollect, -⟩ := execute_eq_ok.mp haccepts.executed
  refine ⟨txs, hcollect, rfl, fun n hstop given stats voting pools => ?_⟩
  have hn : n < (commitWrites b txs accounts.toBytes).length := hstop
  have hs : (stopped l.store b txs accounts.toBytes n).Reliable := hfollows.reliable.applyAll _
  have hopened := hkeeps.openOn hfollows (length_tip run.fits)
    (length_accounts run.fits hstart)
    (sameTop_stopped hn (haccepts.height_ne hfollows)) given stats voting pools
  refine ⟨_, hopened, ⟨rfl, rfl, rfl⟩, fun again hvotes hpending => ⟨fun hearly => ?_, ?_⟩⟩
  · have hnew : ∀ t ∈ txs,
        (stopped l.store b txs accounts.toBytes n).hasTransaction t.hash = .ok false := by
      intro t ht
      rcases hearly with hfirst | rfl
      · rw [hasTransaction_stopped_of_lt hfollows.reliable hn hfirst]
        exact ((collectTransactions_eq_ok hcollect).2 t ht).2
      · cases ht
    obtain ⟨looked, hagain⟩ := commit_of_checkChanges hs (haccepts.resumed hnew hpending)
      (checkChanges_resumed hchanges hvotes)
    exact ⟨_, hagain, rfl, rfl⟩
  · rintro t rest hlate rfl
    exact haccepts.refused hchanges hvotes
      (hasTransaction_stopped_of_le hfollows.reliable hn hlate List.mem_cons_self)

/-! ## 4. A block with one transfer -/

omit [SignatureSuite]

/-- A commit of one transfer stops before the transfer is stored, and is made again after a
start. -/
theorem Run.interrupted_commit_block :
    ∃ (_ : SignatureSuite) (start : Accounts) (l l₁ l₂ : Ledger) (b : Block) (t : Transaction)
      (report : CommitReport) (snapshot : Bytes), Run Event.Fits start l [] ∧
      l.collectTransactions b = .ok [t] ∧
      openOn (stopped l.store b [t] snapshot 1) start ChainStats.empty l.voting l.pools
        l.minStake = .ok l₁ ∧
      l₁.lastBlock = l.lastBlock ∧ l₁.commit b .sync = (.ok report, l₂) ∧ l₂.lastBlock = b := by
  let := Sample.suite
  have hkey := Sample.operatorKey_zeros
  have run : Run Event.Fits _ (Sample.ledger Sample.zeros) [] := .opened Sample.openOn_start
  have hcommit := Sample.commit_block (Sample.accepts_block hkey 1 70 30 rfl rfl)
  obtain ⟨txs, hcollect, -, hstopped⟩ := run.interrupted_commit Sample.length_start hcommit
  have htxs := hcollect
  rw [Sample.collectTransactions_block] at htxs
  cases htxs
  obtain ⟨l₁, hopened, ⟨-, hlast, -⟩, hagain⟩ := hstopped 1 (by decide) (Sample.start _)
    ChainStats.empty (Sample.ledger Sample.zeros).voting (Sample.ledger Sample.zeros).pools
  have hpending : ∀ t ∈ List.replicate 1 (Sample.transfer Sample.zeros),
      (Sample.ledger Sample.zeros).pools.find? t.hash = some t := by
    intro t ht
    rw [List.eq_of_mem_replicate ht]
    exact Sample.find?_transfer _
  obtain ⟨l₂, hcommit₂, hlast₂, -⟩ := (hagain .sync (Or.inl rfl) hpending).1 (Or.inl (by decide))
  exact ⟨Sample.suite, _, _, l₁, l₂, _, _, _, _, run, hcollect, hopened, hlast, hcommit₂, hlast₂⟩

/-- **A commit that stops after the transactions cannot be made again.**  The ledger is opened
where it stood, and refuses the block for the transfer that it stored itself. -/
theorem refused_after_stop :
    ∃ (_ : SignatureSuite) (start : Accounts) (l l₁ l' : Ledger) (b : Block) (t : Transaction)
      (report : CommitReport), Run Event.Fits start l [] ∧
      l.commit b .sync = (.ok report, l') ∧ l.collectTransactions b = .ok [t] ∧
      openOn (stopped l.store b [t] l'.accounts.toBytes 2) start ChainStats.empty l.voting l.pools
        l.minStake = .ok l₁ ∧
      l₁.lastBlock = l.lastBlock ∧ l₁.pools.find? t.hash = some t ∧
      (l₁.commit b .sync).1 = .error (.alreadyCommitted t.hash) := by
  let := Sample.suite
  have hkey := Sample.operatorKey_zeros
  have run : Run Event.Fits _ (Sample.ledger Sample.zeros) [] := .opened Sample.openOn_start
  have haccepts := Sample.accepts_block hkey 1 70 30 rfl rfl
  have hcommit := Sample.commit_block haccepts
  have hkeeps := (run.completes Sample.length_start).keeps
  let e := Sample.entry Sample.zeros 1 70 30
  have hn : 2 < (commitWrites e.block e.transactions e.accounts.toBytes).length := by decide
  have hopened := hkeeps.openOn run.follows (length_tip run.fits)
    (length_accounts run.fits Sample.length_start)
    (sameTop_stopped hn (haccepts.height_ne run.follows))
    (Sample.start (Address.ofPublicKey Sample.zeros)) ChainStats.empty
    (Sample.ledger Sample.zeros).voting (Sample.ledger Sample.zeros).pools
  have hstored := hasTransaction_stopped_of_le run.follows.reliable hn (Nat.le_refl 2)
    List.mem_cons_self
  exact ⟨Sample.suite, _, _, _, _, _, _, _, run, hcommit, Sample.collectTransactions_block _ 1,
    hopened, rfl, Sample.find?_transfer _,
    haccepts.refused (checkChanges_of_commit hcommit) (Or.inl rfl) hstored⟩

end SynergyNode.Ledger
