import Mathlib.Data.List.Nodup
import SynergyNode.Proofs.Ledger.Run

/-!
# Transactions that a block repeats

The store is asked for every hash that a block lists, so no transaction of an earlier block is
applied again.  It is asked before the block is carried out, and nothing compares the hashes of
the list with each other: a block that lists a hash twice is accepted, and its transfer is
carried out twice.

So a chain applies every transaction once exactly when every block lists every hash once
(`applied_once_iff`).
-/

namespace SynergyNode

namespace History

/-- Within a chain a hash can be repeated by one block or by two. -/
theorem nodup_txHashes_iff (c : History) :
    c.txHashes.Nodup ↔ (∀ e ∈ c, e.block.txHashes.Nodup) ∧ c.Fresh := by
  induction c with
  | nil => simp [txHashes, Fresh]
  | cons e c ih =>
    have hcons : txHashes (e :: c) = e.block.txHashes ++ txHashes c := List.flatMap_cons
    rw [hcons, List.nodup_append', ih, List.forall_mem_cons, Fresh]
    constructor
    · rintro ⟨hblock, ⟨hall, hfresh⟩, hdisjoint⟩
      exact ⟨⟨hblock, hall⟩, fun h hmem hbelow => hdisjoint hmem hbelow, hfresh⟩
    · rintro ⟨⟨hblock, hall⟩, hnew, hfresh⟩
      exact ⟨hblock, ⟨hall, hfresh⟩, fun h hmem hbelow => hnew h hmem hbelow⟩

end History

namespace Ledger

open History

/-- The transactions that are found for a block repeat exactly when its hashes do. -/
theorem collectTransactions_nodup_iff {l : Ledger} {b : Block} {txs : List Transaction}
    (h : l.collectTransactions b = .ok txs) : txs.Nodup ↔ b.txHashes.Nodup := by
  rw [← (collectTransactions_eq_ok h).1]
  constructor
  · intro hnodup
    exact hnodup.map_on fun t ht t' ht' hhash => eq_of_hash_eq h ht' ht hhash
  · exact List.Nodup.of_map Transaction.hash

section

variable [SignatureSuite]

/-- **When every transaction is applied at most once.**  No transaction that is found for a block
is in the store, but none is found twice only if the block lists none twice; and the chain of a
run applies none twice exactly when no block lists a hash twice, unless a rollback stopped on
the way. -/
theorem applied_once_iff (start : Accounts) (l : Ledger) :
    (∀ b txs, l.collectTransactions b = .ok txs →
      (∀ t ∈ txs, l.store.hasTransaction t.hash = .ok false) ∧
        (txs.Nodup ↔ b.txHashes.Nodup)) ∧
      (∀ c, Run Event.Any start l c →
        ((c.transactions.map Transaction.hash).Nodup ↔
          (∀ e ∈ c, e.block.txHashes.Nodup) ∧ c.Fresh)) ∧
      ∀ c, Run Event.Completes start l c →
        ((c.transactions.map Transaction.hash).Nodup ↔ ∀ e ∈ c, e.block.txHashes.Nodup) := by
  refine ⟨fun b txs h => ⟨fun t ht => ?_, collectTransactions_nodup_iff h⟩,
    fun c run => ?_, fun c run => ?_⟩
  · exact ((collectTransactions_eq_ok h).2 t ht).2
  · rw [run.follows.sound.map_hash_transactions, nodup_txHashes_iff]
  · rw [run.follows.sound.map_hash_transactions, nodup_txHashes_iff]
    exact ⟨fun h => h.1, fun h => ⟨h, run.keeps.fresh⟩⟩

end

/-- A block that lists a transfer once. -/
theorem applied_once_block :
    ∃ (_ : SignatureSuite) (start : Accounts) (l l' : Ledger) (b : Block) (c : History),
      (∃ txs, l.collectTransactions b = .ok txs ∧ txs.length = 1 ∧ txs.Nodup) ∧
        Run Event.Completes start l' c ∧ c.length = 1 ∧
        (c.transactions.map Transaction.hash).Nodup := by
  let := Sample.suite
  have run := (Sample.run_block Sample.operatorKey_zeros 1 70 30 (by decide) rfl rfl).completes
    Sample.length_start
  have hcollect := Sample.collectTransactions_block Sample.zeros 1
  have hlisted : (Sample.block Sample.zeros
      (List.replicate 1 (Sample.transfer Sample.zeros).hash)).txHashes.Nodup :=
    List.nodup_singleton _
  have hfound := ((applied_once_iff Accounts.empty _).1 _ _ hcollect).2.mpr hlisted
  have hchain := ((applied_once_iff _ _).2.2 _ run).mpr (by
    intro e he
    rw [List.mem_singleton.mp he]
    exact hlisted)
  exact ⟨Sample.suite, _, _, _, _, _, ⟨_, hcollect, rfl, hfound⟩, run, rfl, hchain⟩

/-- **A block that lists a transfer twice is accepted**, and sixty units are paid for the thirty
that were signed. -/
theorem applied_twice :
    ∃ (_ : SignatureSuite) (start : Accounts) (l l' : Ledger) (b : Block) (t : Transaction)
      (c : History),
      Run Event.Fits start l [] ∧ l.collectTransactions b = .ok [t, t] ∧
        (∃ report, l.commit b .sync = (.ok report, l')) ∧ Run Event.Fits start l' c ∧
        c.transactions = [t, t] ∧ t.body.amount = 30 ∧
        l.accounts.balance t.body.recipient = 0 ∧
        l'.accounts.balance t.body.recipient = 60 := by
  let := Sample.suite
  have run := Sample.run_block Sample.operatorKey_zeros 2 40 60 (by decide) rfl rfl
  have hcommit := Sample.commit_block
    (Sample.accepts_block Sample.operatorKey_zeros 2 40 60 rfl rfl)
  exact ⟨Sample.suite, _, _, _, _, _, _, .opened Sample.openOn_start,
    Sample.collectTransactions_block _ 2, ⟨_, hcommit⟩, run, rfl, rfl, Sample.get_balances _ _ _,
    Sample.balance_after _ _ _⟩

end Ledger

end SynergyNode
