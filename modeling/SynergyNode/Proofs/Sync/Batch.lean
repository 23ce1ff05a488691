import SynergyNode.Proofs.Pool
import SynergyNode.Proofs.Sync.Verdict

/-!
# What a batch does to the chain

A batch is gone through twice, once to look at its entries and once to commit them, and either
time it may stop in the middle.  All the same there are only three ways for it to end
(`Follower.ends_onHeaders`): everything is as it was, or blocks of the batch were put on the
chain with one report for each, or the chain was cut back and nothing was put on it.

What makes the difference is that a transaction that is pending or committed stays so while
other blocks are committed (`Knows.committed`): no transaction can turn out to be missing once
the first block is on the chain.
-/

namespace SynergyNode

/-! ## 1. Blocks from the history of a peer -/

namespace Ledger

variable {l : Ledger} {b : Block} {txs : List Transaction} {accounts : Accounts}

/-- A transaction is pending or committed. -/
def Knows (l : Ledger) (hash : Hash) : Prop :=
  l.pools.contains hash = true ∨ l.store.hasTransaction hash = .ok true

theorem knows_of_missingAmong_eq_nil : ∀ {hashes : List Hash},
    l.missingAmong hashes = .ok [] → ∀ hash ∈ hashes, l.Knows hash
  | [], _ => by simp
  | hash :: rest, h => by
    unfold missingAmong at h
    split at h
    · rename_i hpending
      exact List.forall_mem_cons.mpr ⟨Or.inl hpending, knows_of_missingAmong_eq_nil h⟩
    · split at h
      · cases h
      · rename_i stored hstored
        split at h
        · cases h
        · rename_i missing hrest
          split at h
          · rename_i hcommitted
            subst hcommitted
            cases h
            exact List.forall_mem_cons.mpr ⟨Or.inr hstored, knows_of_missingAmong_eq_nil hrest⟩
          · cases h

theorem missingAmong_of_knows (hs : l.store.Reliable) : ∀ {hashes : List Hash},
    (∀ hash ∈ hashes, l.Knows hash) → l.missingAmong hashes = .ok []
  | [], _ => rfl
  | hash :: rest, h => by
    obtain ⟨hfirst, hrest⟩ := List.forall_mem_cons.mp h
    unfold missingAmong
    split
    · exact missingAmong_of_knows hs hrest
    · rename_i hpending
      have hcommitted := hfirst.resolve_left hpending
      simp only [hcommitted, missingAmong_of_knows hs hrest, if_true]

/-- A hash that is reported missing is neither pending nor committed. -/
theorem not_knows_of_lookUp : ∀ {hashes : List Hash} {found : List Transaction}
    {missing : List Hash}, l.lookUp hashes = .ok (found, missing) →
      ∀ hash ∈ missing, hash ∈ hashes ∧ ¬ l.Knows hash
  | [], _, _, h => by
    cases h
    simp
  | hash :: rest, found, missing, h => by
    have hlater {found' : List Transaction} {missing' : List Hash}
        (hrest : l.lookUp rest = .ok (found', missing')) :
        ∀ other ∈ missing', other ∈ hash :: rest ∧ ¬ l.Knows other := fun other hother =>
      ⟨List.mem_cons_of_mem hash (not_knows_of_lookUp hrest other hother).1,
        (not_knows_of_lookUp hrest other hother).2⟩
    unfold lookUp at h
    split at h
    · cases h
    · cases h
    · rename_i hnew
      split at h
      · cases h
      · rename_i found' missing' hrest
        split at h
        · cases h
          exact hlater hrest
        · rename_i hnone
          cases h
          refine List.forall_mem_cons.mpr ⟨⟨List.mem_cons_self, ?_⟩, hlater hrest⟩
          rintro (hpending | hstored)
          · rw [Pools.contains_eq, hnone] at hpending
            cases hpending
          · rw [hnew] at hstored
            cases hstored

section

variable [SignatureSuite]

theorem execute_eq_missing {hashes : List Hash}
    (h : l.execute b = .error (.missingTransactions hashes)) :
    ∃ hash ∈ b.txHashes, ¬ l.Knows hash := by
  rcases execute_eq_error h with
    hcollect | ⟨_, -, ⟨_, he, -⟩ | ⟨_, -, _, -, _, he, -⟩ | ⟨_, he, -⟩⟩
  · rcases collectTransactions_eq_error hcollect with
      ⟨_, he⟩ | ⟨_, he⟩ | ⟨found, missing, hlook, hne, -⟩
    · cases he
    · cases he
    · obtain ⟨hash, hmem⟩ := List.exists_mem_of_ne_nil missing hne
      exact ⟨hash, not_knows_of_lookUp hlook hash hmem⟩
  · cases he
  · cases he
  · cases he

/-- **What committing a block of a peer's history does.**  It is refused and nothing changes, or
it is accepted and put on the chain; and it is refused for missing transactions only if it lists
one that is neither pending nor committed. -/
theorem commit_sync_cases (hs : l.store.Reliable) (b : Block) :
    (∃ e, l.commit b .sync = (.error e, l) ∧
      ∀ hashes, e = .missingTransactions hashes → ∃ hash ∈ b.txHashes, ¬ l.Knows hash) ∨
      ∃ txs accounts, l.Accepts b txs accounts ∧
        l.commit b .sync =
          (.ok ⟨b.height, txs.length, b.changedSlots l.lastBlock⟩, l.committed b txs accounts) := by
  have hkept := checkChanges_sync_snd l b (b.changedSlots l.lastBlock)
  rcases commit_stages l b .sync with ⟨e, hrefused, hcommit⟩ |
    ⟨hchecked, looked, ⟨e, hchanges, hcommit⟩ | ⟨hchanges, hdone⟩⟩
  · refine Or.inl ⟨e, hcommit, ?_⟩
    rintro hashes rfl
    exact absurd trivial (checkBlock_eq_error hrefused)
  · rw [hchanges] at hkept
    refine Or.inl ⟨e, hcommit.trans (congrArg _ hkept), ?_⟩
    rintro hashes rfl
    exact absurd trivial (checkChanges_eq_error (congrArg Prod.fst hchanges))
  · -- No votes were looked at, so that the block is carried out on the ledger itself.
    rw [hchanges] at hkept
    simp only at hkept
    rw [hkept] at hdone
    rcases hdone with ⟨e, hexecute, hcommit⟩ | ⟨txs, accounts, hexecute, hcommit⟩
    · refine Or.inl ⟨e, hcommit, ?_⟩
      rintro hashes rfl
      exact execute_eq_missing hexecute
    · obtain ⟨declared, hdeclared⟩ := declaredSchemes_of_checkBlock hchecked
      exact Or.inr ⟨txs, accounts, ⟨hchecked, hexecute⟩,
        hcommit.trans (finish_of_reliable hs hdeclared txs accounts)⟩

end

/-- What is pending or committed is so after any commit: the transactions of the block are now
in the store, and all others are where they were. -/
theorem Knows.committed (hs : l.store.Reliable) {hash : Hash} (h : l.Knows hash) (b : Block)
    (txs : List Transaction) (accounts : Accounts) :
    (l.committed b txs accounts).Knows hash := by
  have hpools : (l.committed b txs accounts).pools =
      txs.foldl (fun p t => (p.remove t.hash).2) l.pools := rfl
  have hreliable : (l.committed b txs accounts).store.Reliable := hs.applyAll _
  have hread : (l.committed b txs accounts).store.hasTransaction hash = .ok true ↔
      hash ∈ txs.map Transaction.hash ∨ l.store.transactions.contains hash = true := by
    rw [hreliable.hasTransaction, transactions_committed, Except.ok.injEq, Store.contains_putTransactions]
  by_cases hmem : hash ∈ txs.map Transaction.hash
  · exact Or.inr (hread.mpr (Or.inl hmem))
  · rcases h with hpending | hstored
    · left
      rw [hpools, Pools.contains_eq, Pools.find?_removeAll hmem, ← Pools.contains_eq]
      exact hpending
    · right
      rw [hs.hasTransaction, Except.ok.injEq] at hstored
      exact hread.mpr (Or.inr hstored)

end Ledger

/-! ## 2. Reports -/

/-- What is reported of a block that was put on a chain. -/
def Entry.report (e : Entry) (below : History) : CommitReport :=
  ⟨e.block.height, e.transactions.length, e.block.changedSlots below.tip⟩

namespace History

/-- The reports on blocks that were put on a chain one after the other, the latest at the front of
the blocks and at the end of the reports. -/
def reports (c : History) : History → List CommitReport
  | [] => []
  | e :: d => reports c d ++ [e.report (d ++ c)]

theorem reports_concat (c : History) (e : Entry) (d : History) :
    reports c (d ++ [e]) = e.report c :: reports (e :: c) d := by
  induction d with
  | nil => rfl
  | cons e' d ih =>
    rw [List.cons_append, reports, ih, reports, List.append_assoc, List.singleton_append,
      List.cons_append]

/-- The blocks that were put on a chain as entries of a batch, in the order of their heights. -/
def batch (d : History) : HeaderBatch := d.reverse.map fun e => (e.block.height, e.block)

theorem batch_concat (d : History) (e : Entry) :
    batch (d ++ [e]) = (e.block.height, e.block) :: d.batch := by
  rw [batch, List.reverse_append, List.reverse_singleton, List.singleton_append, List.map_cons,
    batch]

/-- The heights of blocks that were put on a chain are consecutive. -/
theorem heights_batch {start : Accounts} {c : History} : ∀ {d : History}, Sound start (d ++ c) →
    d.batch.map (fun e => e.1.toNat) = List.range' (c.length + 1) d.length
  | [], _ => rfl
  | e :: d, h => by
    have hheight : e.block.height.toNat = c.length + 1 + d.length := by
      have hnext : e.block.height.toNat = (d ++ c).length + 1 := h.1.height
      rw [List.length_append] at hnext
      omega
    have hlast : batch (e :: d) = batch d ++ [(e.block.height, e.block)] := by
      rw [batch, List.reverse_cons, List.map_append, List.map_singleton, batch]
    rw [hlast, List.map_append, heights_batch h.2, List.map_singleton, hheight, List.length_cons,
      List.range'_1_concat]

end History

/-! ## 3. The three ways to end -/

namespace Ledger

variable [SignatureSuite] {start : Accounts} {l : Ledger} {c : History}

/-- An entry above the chain stands under its own height, and its transactions are known. -/
structure Vetted (l : Ledger) (e : UInt64 × Block) : Prop where
  height : e.2.height = e.1
  known : ∀ hash ∈ e.2.txHashes, l.Knows hash

/-- When no transaction was found missing, all entries above the chain are as they should be. -/
theorem Passes.vetted {previous seen : Option Block} {missing found : List Hash}
    {batch : HeaderBatch} (h : Passes l previous missing batch seen found) (hfound : found = []) :
    missing = [] ∧ ∀ e ∈ batch, ¬ e.1 ≤ l.lastBlock.height → l.Vetted e := by
  induction h with
  | nil => exact ⟨hfound, by simp⟩
  | first _ ih =>
    obtain ⟨hmissing, hrest⟩ := ih hfound
    exact ⟨hmissing, List.forall_mem_cons.mpr
      ⟨fun high => absurd rfl (not_zero_of_not_le high), hrest⟩⟩
  | agrees _ low _ _ _ ih =>
    obtain ⟨hmissing, hrest⟩ := ih hfound
    exact ⟨hmissing, List.forall_mem_cons.mpr ⟨fun high => absurd low high, hrest⟩⟩
  | «extends» _ height _ _ unknown _ ih =>
    obtain ⟨hmissing, hrest⟩ := ih hfound
    obtain ⟨hbefore, hmore⟩ := List.append_eq_nil_iff.mp hmissing
    rw [hmore] at unknown
    exact ⟨hbefore, List.forall_mem_cons.mpr
      ⟨fun _ => ⟨height, knows_of_missingAmong_eq_nil unknown⟩, hrest⟩⟩

/-- Only a transaction that is not known stops a batch that has been committed in part. -/
theorem commitBatch_of_refused {index : UInt64} {b : Block} {e : LedgerError}
    (done : List CommitReport) (rest : HeaderBatch) (high : ¬ index ≤ l.height)
    (hcommit : l.commit b .sync = (.error e, l))
    (hknown : ∀ hashes, e ≠ .missingTransactions hashes) :
    l.commitBatch done ((index, b) :: rest) =
      if done = [] then (.error (.ledger e), l) else (.ok (.committed done), l) := by
  simp only [commitBatch, if_neg high, hcommit]

/-- **Committing a vetted batch.**  Either its first block is refused and nothing changes, or
some of its blocks are put on the chain, in its order and with one report for each. -/
theorem commitBatch_cases : ∀ (batch : HeaderBatch) (done : List CommitReport) {l : Ledger}
    {c : History}, Run Event.Completes start l c →
    (∀ e ∈ batch, ¬ e.1 ≤ l.height → l.Vetted e) →
    (done = [] ∧ ∃ e, l.commitBatch done batch = (.error e, l)) ∨
      ∃ l' d, l.commitBatch done batch = (.ok (.committed (done ++ History.reports c d)), l') ∧
        Run Event.Completes start l' (d ++ c) ∧ d.batch.Sublist batch
  | [], done, l, c, run, _ =>
    Or.inr ⟨l, [], by simp only [commitBatch, History.reports, List.append_nil], run,
      List.Sublist.refl []⟩
  | (index, b) :: rest, done, l, c, run, hvetted => by
    obtain ⟨hfirst, hrest⟩ := List.forall_mem_cons.mp hvetted
    by_cases hlow : index ≤ l.height
    · simp only [commitBatch, if_pos hlow]
      rcases commitBatch_cases rest done run hrest with hrefused | ⟨l', d, hdone, run', hbatch⟩
      · exact Or.inl hrefused
      · exact Or.inr ⟨l', d, hdone, run', hbatch.cons _⟩
    obtain ⟨hheight, hknown⟩ := hfirst hlow
    rcases commit_sync_cases run.follows.reliable b with
      ⟨e, hcommit, hmissing⟩ | ⟨txs, accounts, haccepts, hcommit⟩
    · have hstop := commitBatch_of_refused done rest hlow hcommit
        fun hashes he => by
          obtain ⟨hash, hmem, hunknown⟩ := hmissing hashes he
          exact hunknown (hknown hash hmem)
      rw [hstop]
      split
      · rename_i hnone
        exact Or.inl ⟨hnone, _, rfl⟩
      · exact Or.inr ⟨l, [], by rw [History.reports, List.append_nil], run, List.nil_sublist _⟩
    · obtain ⟨run', hhigher⟩ := run.commit_accepted haccepts hcommit hlow trivial
      have hkept : ∀ e ∈ rest, ¬ e.1 ≤ (l.committed b txs accounts).height →
          (l.committed b txs accounts).Vetted e := by
        intro e he high
        have hbefore : ¬ e.1 ≤ l.height := fun h => high (UInt64.le_trans h hhigher)
        exact ⟨(hrest e he hbefore).height, fun hash hmem =>
          ((hrest e he hbefore).known hash hmem).committed run.follows.reliable b txs accounts⟩
      simp only [commitBatch, if_neg hlow, hcommit]
      rcases commitBatch_cases rest
          (done ++ [⟨b.height, txs.length, b.changedSlots l.lastBlock⟩]) run' hkept with
        ⟨hnone, -⟩ | ⟨l', d, hdone, run'', hbatch⟩
      · exact absurd hnone (List.append_ne_nil_of_right_ne_nil done (List.cons_ne_nil _ []))
      · refine Or.inr ⟨l', d ++ [⟨b, txs, accounts⟩], ?_, ?_, ?_⟩
        · rw [hdone, History.reports_concat, List.append_assoc, List.singleton_append, Entry.report,
            run.follows.last]
        · rw [List.append_assoc]
          exact run''
        · rw [History.batch_concat, hheight]
          exact hbatch.cons_cons _

/-- **The three ways in which a batch ends.**  What the outcome says is what happened. -/
inductive Ends (start : Accounts) (l : Ledger) (c : History) (distance : UInt64)
    (batch : HeaderBatch) : Except SyncError BatchOutcome → Ledger → Prop where
  /-- Everything is as it was. -/
  | unchanged {outcome : Except SyncError BatchOutcome} (refusal : Refusal outcome) :
      Ends start l c distance batch outcome l
  /-- Blocks of the batch were put on the chain in its order, at the heights that follow. -/
  | committed {l' : Ledger} {d : History} (run : Run Event.Completes start l' (d ++ c))
      (kept : Keeps start l' (d ++ c)) (entries : d.batch.Sublist batch)
      (heights : d.batch.map (fun e => e.1.toNat) = List.range' (c.length + 1) d.length) :
      Ends start l c distance batch (.ok (.committed (c.reports d))) l'
  /-- The chain was cut below the first entry that differs. -/
  | forked {l' : Ledger} {fork target : UInt64} (low : fork ≤ l.height)
      (back : target.toNat = fork.toNat - distance.toNat)
      (run : Run Event.Fits start l' (c.cut target.toNat))
      (kept : Keeps start l' (c.cut target.toNat)) :
      Ends start l c distance batch (.ok (.forked fork target)) l'

theorem ends_takeBatch (run : Run Event.Fits start l c)
    (hstart : start.toBytes.length ≤ Protocol.maxMessageBytes) (hflag : l.syncing = false)
    (distance : UInt64) (batch : HeaderBatch) :
    Ends start l c distance batch (l.takeBatch distance batch).1 (l.takeBatch distance batch).2 ∧
      (l.takeBatch distance batch).2.syncing = false := by
  have hraised := run.setSyncing true trivial
  have hheight : l.lastBlock.height = l.height := by
    rw [run.follows.last, ← run.follows.height]
  rcases takeBatch_cases l distance batch with
    ⟨outcome, hrefusal, h⟩ | ⟨fork, hverdict, -, h⟩ | ⟨hverdict, -, h⟩
  · rw [h]
    exact ⟨.unchanged hrefusal, hflag⟩
  · obtain ⟨_, _, _, _, _, _, -, hdiffers⟩ := examine_eq_fork.mp hverdict
    have hlow : fork ≤ l.height := by
      rw [← hheight]
      exact hdiffers.low
    obtain ⟨hok, run'⟩ := hraised.rollback hstart (Word64.saturatingSub fork distance)
    have hend := run'.setSyncing false trivial
    rw [h, abandonFrom_eq_forked hraised.follows hlow hok]
    exact ⟨.forked hlow (Word64.toNat_saturatingSub _ _) hend (hend.completes hstart).keeps, rfl⟩
  · obtain ⟨seen, hpasses⟩ := examine_eq_extension.mp hverdict
    have hvetted : ∀ e ∈ batch, ¬ e.1 ≤ l.height → Vetted { l with syncing := true } e := by
      intro e he high
      rw [← hheight] at high
      obtain ⟨hown, hknown⟩ := (hpasses.vetted rfl).2 e he high
      exact ⟨hown, hknown⟩
    rw [h]
    rcases commitBatch_cases batch [] (hraised.completes hstart) hvetted with
      ⟨-, e, hrefused⟩ | ⟨l', d, hdone, run', hbatch⟩
    · have hback : endSync { l with syncing := true } = l := by
        rw [endSync, ← hflag]
      rw [hrefused, hback]
      exact ⟨.unchanged (.failed e), hflag⟩
    · have hend := run'.setSyncing false trivial
      rw [hdone]
      exact ⟨.committed hend hend.keeps hbatch (History.heights_batch hend.follows.sound), rfl⟩

end Ledger

/-- **What a follower does with a batch**, whatever its entries are: nothing, or it puts blocks of
the batch on its chain, or it cuts its chain back, and it says which.  No batch is being taken
afterwards. -/
theorem Follower.ends_onHeaders [SignatureSuite] {start : Accounts} {c : History} {f : Follower}
    (run : Ledger.Run Ledger.Event.Fits start f.ledger c)
    (hstart : start.toBytes.length ≤ Protocol.maxMessageBytes) (hflag : f.ledger.syncing = false)
    (batch : HeaderBatch) :
    Ledger.Ends start f.ledger c f.rollbackDistance batch (f.onHeaders batch).1
        (f.onHeaders batch).2.ledger ∧
      (f.onHeaders batch).2.ledger.syncing = false ∧ (f.onHeaders batch).2.phase = .idle := by
  obtain ⟨hends, hlowered⟩ := Ledger.ends_takeBatch run hstart hflag f.rollbackDistance batch
  rw [fst_onHeaders, ledger_onHeaders]
  exact ⟨hends, hlowered, rfl⟩

/-- A follower whose chain has one block is sent a batch. -/
theorem Follower.ends_onHeaders_block :
    ∃ (_ : SignatureSuite) (start : Accounts) (f : Follower) (c : History) (batch : HeaderBatch),
      Ledger.Run Ledger.Event.Fits start f.ledger c ∧
        start.toBytes.length ≤ Protocol.maxMessageBytes ∧ f.ledger.syncing = false ∧
        c.length = 1 ∧ batch.length = 2 ∧
        Ledger.Ends start f.ledger c f.rollbackDistance batch (f.onHeaders batch).1
          (f.onHeaders batch).2.ledger := by
  let := Ledger.Sample.suite
  have run := Ledger.Sample.run_block Ledger.Sample.operatorKey_zeros 1 70 30 (by decide) rfl rfl
  have hflag : (Ledger.Sample.later Ledger.Sample.zeros 1 70 30).syncing = false := rfl
  exact ⟨Ledger.Sample.suite, _, .new _ 1, _,
    [(0, Block.genesis), (1, Ledger.Sample.block Ledger.Sample.zeros [])], run,
    Ledger.Sample.length_start, hflag, rfl, rfl,
    (Follower.ends_onHeaders (f := .new _ 1) run Ledger.Sample.length_start hflag _).1⟩

end SynergyNode
