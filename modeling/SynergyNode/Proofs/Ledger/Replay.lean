import SynergyNode.Proofs.Ledger.Consistency

/-!
# Accounts and the replay of the chain

Commits change the accounts in place and rollbacks replace them by a snapshot.  Either way they
are what the blocks of the chain and their transactions lead to from the start
(`Run.accounts_eq_replay`).

`Accounts.replay` goes through blocks again, and `Store.readChain` reads the blocks with their
transactions off a store.
-/

namespace SynergyNode

/-! ## 1. Going through the blocks again -/

/-- The accounts that blocks and their transactions, the latest at the front, lead to. -/
def Accounts.replay (start : Accounts) :
    List (Block × List Transaction) → Except AccountError Accounts
  | [] => .ok start
  | (b, txs) :: rest =>
    match start.replay rest with
    | .error e => .error e
    | .ok a => a.applyBlock b txs

namespace History

/-- The blocks above the first with their transactions. -/
def applied (c : History) : List (Block × List Transaction) :=
  c.map fun e => (e.block, e.transactions)

theorem Sound.replay {start : Accounts} {c : History} (h : c.Sound start) :
    start.replay c.applied = .ok (c.accounts start) := by
  induction c with
  | nil => rfl
  | cons e c ih =>
    have htail : start.replay (c.map fun e => (e.block, e.transactions)) = _ := ih h.2
    simp only [applied, List.map_cons, Accounts.replay, htail]
    exact h.1.applied

end History

/-! ## 2. Reading the chain off a store -/

namespace Store

/-- The stored transactions with the given hashes, if they are all there. -/
def readTransactions (s : Store) : List Hash → Option (List Transaction)
  | [] => some []
  | hash :: rest =>
    match s.transaction? hash, s.readTransactions rest with
    | .ok (some t), some txs => some (t :: txs)
    | _, _ => none

/-- The stored blocks from a height down to the one above the first, each with its stored
transactions, if they are all there. -/
def readChain (s : Store) : (height : Nat) → Option (List (Block × List Transaction))
  | 0 => some []
  | n + 1 =>
    match s.block? (UInt64.ofNat (n + 1)), s.readChain n with
    | .ok (some b), some rest => (s.readTransactions b.txHashes).map fun txs => (b, txs) :: rest
    | _, _ => none

theorem readTransactions_eq_some {s : Store} {txs : List Transaction}
    (h : ∀ t ∈ txs, s.transaction? t.hash = .ok (some t)) :
    s.readTransactions (txs.map Transaction.hash) = some txs := by
  induction txs with
  | nil => rfl
  | cons t txs ih =>
    have htail := ih fun t' ht' => h t' (List.mem_cons_of_mem t ht')
    simp only [List.map_cons, readTransactions, h t List.mem_cons_self, htail]

end Store

namespace Ledger

open History

variable {start : Accounts} {l : Ledger} {c : History}

/-- What is read off the store of a history is the history. -/
theorem Keeps.readChain (h : Keeps start l c) (hfollows : Follows start l c)
    (hfits : ∀ e ∈ c, e.Fits) (n : Nat) (hn : n ≤ c.length) :
    l.store.readChain n = some (c.cut n).applied := by
  induction n with
  | zero => rw [cut_zero]; rfl
  | succ n ih =>
    obtain ⟨e, he⟩ := cut_succ hn
    have hlt := hfollows.length_lt
    have hk : (UInt64.ofNat (n + 1)).toNat = n + 1 := UInt64.toNat_ofNat_of_lt' (by omega)
    have hblock := h.block? hfollows hfits (k := UInt64.ofNat (n + 1))
      (hfollows.toNat_le.mpr (by omega))
    rw [hk, he] at hblock
    have hmem : e ∈ c := by
      have htop : e ∈ c.cut (n + 1) := by
        rw [he]
        exact List.mem_cons_self
      exact List.mem_of_mem_drop htop
    have hextends := hfollows.sound.cut (n + 1)
    rw [he] at hextends
    have htxs : l.store.readTransactions e.block.txHashes = some e.transactions := by
      rw [← hextends.1.hashes]
      refine Store.readTransactions_eq_some fun t ht => ?_
      exact h.transaction? hfollows hfits (List.mem_flatMap.mpr ⟨e, hmem, ht⟩)
    have hrest := ih (Nat.le_of_succ_le hn)
    simp only [Store.readChain, hblock, hrest, tip, htxs, Option.map_some, he, applied,
      List.map_cons]

/-- Every block of the history is stored with its transactions, whatever their length. -/
theorem Keeps.stored (h : Keeps start l c) (hfollows : Follows start l c) {e : Entry}
    (he : e ∈ c) :
    l.store.blocks[e.block.height]? = some e.block.toBytes ∧
      ∀ t ∈ e.transactions, l.store.transactions[t.hash]? = some t.toBytes := by
  obtain ⟨hle, htip⟩ := hfollows.sound.tip_cut_height he
  rw [h.store]
  refine ⟨?_, fun t ht => ?_⟩
  · rw [Store.blocks_ofHistory hfollows.sound, if_pos hle, htip]
  · exact Store.transactions_ofHistory hfollows.sound h.fresh (List.mem_flatMap.mpr ⟨e, he, ht⟩)

section

variable [SignatureSuite]

/-- **The accounts are those that the chain leads to from the start**, whatever commits and
rollbacks led there.

A rollback that gets to its end therefore leaves the accounts that the ledger had when it stood
at that height with the same blocks below.  As long as all rollbacks get to their end, the blocks
and transactions of the chain are the stored ones; and when everything committed can be decoded,
the chain is what can be read off the store, and every rollback gets to its end. -/
theorem Run.accounts_eq_replay (run : Run Event.Any start l c) :
    start.replay c.applied = .ok l.accounts ∧
      (∀ d l', Run Event.Any start l' (d ++ c) → (l'.rollback l.height).1 = .ok () →
        (l'.rollback l.height).2.accounts = l.accounts) ∧
      (Run Event.Completes start l c → ∀ e ∈ c,
        l.store.blocks[e.block.height]? = some e.block.toBytes ∧
          ∀ t ∈ e.transactions, l.store.transactions[t.hash]? = some t.toBytes) ∧
      (Run Event.Fits start l c → start.toBytes.length ≤ Protocol.maxMessageBytes →
        l.store.readChain l.height.toNat = some c.applied ∧
          ∀ height, (l.rollback height).1 = .ok ()) := by
  have hfollows := run.follows
  refine ⟨?_, fun d l' run' hok => ?_, fun hrun e he => hrun.keeps.stored hfollows he,
    fun hrun hstart => ?_⟩
  · rw [hfollows.accounts]
    exact hfollows.sound.replay
  · have hcut : History.cut (d ++ c) l.height.toNat = c := by
      rw [← hfollows.length]
      exact cut_append d c
    rcases run'.follows.rollback l.height with ⟨-, hback⟩ | ⟨⟨e, herror⟩, -⟩
    · rw [hcut] at hback
      rw [hback.accounts, hfollows.accounts]
    · rw [hok] at herror
      cases herror
  · have hkeeps := (hrun.completes hstart).keeps
    constructor
    · rw [hkeeps.readChain hfollows hrun.fits l.height.toNat (Nat.le_of_eq hfollows.length.symm),
        cut_of_length_le (Nat.le_of_eq hfollows.length)]
    · intro height
      rcases hkeeps.rollback hfollows height with ⟨hok, -⟩ | ⟨-, hlong⟩
      · exact hok
      · exact absurd ⟨hstart, hrun.fits⟩ hlong

end

/-- A block is committed and given up again. -/
theorem Run.accounts_eq_replay_block :
    ∃ (_ : SignatureSuite) (start : Accounts) (l l' : Ledger) (c : History),
      Run Event.Any start l [] ∧ Run Event.Any start l' c ∧ c.length = 1 ∧
        start.replay c.applied = .ok l'.accounts ∧
        l'.store.readChain l'.height.toNat = some c.applied ∧
        (l'.rollback l.height).1 = .ok () ∧ (l'.rollback l.height).2.accounts = l.accounts := by
  let := Sample.suite
  have opened : Run Event.Any (Sample.start (Address.ofPublicKey Sample.zeros))
      (Sample.ledger Sample.zeros) [] := .opened Sample.openOn_start
  have fits := Sample.run_block Sample.operatorKey_zeros 1 70 30 (by decide) rfl rfl
  have run : Run Event.Any _ _ _ := fits.mono fun _ _ _ => trivial
  obtain ⟨hreplay, -, -, hread⟩ := Run.accounts_eq_replay run
  obtain ⟨hchain, hback⟩ := hread fits Sample.length_start
  have hsame := (Run.accounts_eq_replay opened).2.1 [_] _ run (hback _)
  exact ⟨Sample.suite, _, _, _, _, opened, run, rfl, hreplay, hchain, hback _, hsame⟩

end Ledger

end SynergyNode
