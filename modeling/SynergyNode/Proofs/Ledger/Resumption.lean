import SynergyNode.Proofs.Ledger.Agreement
import SynergyNode.Proofs.Ledger.Restart

/-!
# A ledger that is opened again

While a ledger runs it keeps accounts, schemes, last block and height next to its store and brings
them up to date in steps.  A ledger that is opened on the store reads all of them from it.  The two
are the same along every run in which no operation of the store fails and blocks and snapshots can
be decoded again, and from there on the two ledgers go on alike (`Run.reopened`).

Transactions may be too long to be decoded again: this is found when a block that lists one is given
up, and then the store fails.  A run in which it never does is `Event.Undisturbed`.
-/

namespace SynergyNode.Ledger

open History

variable {start : Accounts} {l : Ledger} {c : History}

/-! ## 1. What stops a rollback -/

theorem releaseTransactions_eq_error {e : LedgerError} (hashes : List Hash) (l : Ledger)
    (h : (l.releaseTransactions hashes).1 = .error e) : ∃ cause, e = .store cause := by
  induction hashes generalizing l with
  | nil => cases h
  | cons hash rest ih =>
    unfold releaseTransactions at h
    split at h
    · cases h
      exact ⟨_, rfl⟩
    · exact ih l h
    · split at h
      · cases h
        exact ⟨_, rfl⟩
      · exact ih _ h

theorem discard_eq_error {e : LedgerError} {height : UInt64}
    (h : (l.discard height).1 = .error e) : ∃ cause, e = .store cause := by
  unfold discard at h
  split at h
  · rename_i hrelease
    cases h
    unfold releaseBlock at hrelease
    split at hrelease
    · cases hrelease
      exact ⟨_, rfl⟩
    · cases hrelease
    · exact releaseTransactions_eq_error _ l (congrArg Prod.fst hrelease)
  · split at h
    · cases h
      exact ⟨_, rfl⟩
    · cases h

/-- Nothing but the store stops the giving up of blocks. -/
theorem discardAbove_eq_error {e : LedgerError} (base : UInt64) (count : Nat) (l : Ledger)
    (h : (l.discardAbove base count).1 = .error e) : ∃ cause, e = .store cause := by
  induction count generalizing l with
  | zero => cases h
  | succ n ih =>
    unfold discardAbove at h
    split at h
    · rename_i hdiscard
      cases h
      exact discard_eq_error (congrArg Prod.fst hdiscard)
    · exact ih _ h

/-- **Nothing but the store stops a rollback** to a height at which block and snapshot can be
decoded again. -/
theorem Keeps.rollback_fst (h : Keeps start l c) (hfollows : Follows start l c) (height : UInt64)
    (hblock : (c.cut height.toNat).tip.toBytes.length ≤ Protocol.maxMessageBytes)
    (hsnapshot : ((c.cut height.toNat).accounts start).toBytes.length ≤ Protocol.maxMessageBytes) :
    (l.rollback height).1 = .ok () ∨ ∃ cause, (l.rollback height).1 = .error (.store cause) := by
  rcases h.rollback_cases hfollows height with ⟨hok, -⟩ | ⟨e, herror, hlow, hstop⟩
  · exact Or.inl hok
  rcases hstop with hrequire | hdiscard | hlong
  · simp only [requireBlock, h.block?_of_length hfollows hlow hblock] at hrequire
    cases hrequire
  · obtain ⟨cause, rfl⟩ := discardAbove_eq_error _ _ l hdiscard
    exact Or.inr ⟨cause, herror⟩
  · omega

/-! ## 2. Runs in which the store does not fail -/

variable [SignatureSuite]

/-- The block and the accounts that a commit stores can be decoded again, and a rollback does not
stop on the store. -/
def Event.Undisturbed (l : Ledger) : Event → Prop
  | commit b origin => ∀ report l', l.commit b origin = (.ok report, l') →
      b.toBytes.length ≤ Protocol.maxMessageBytes ∧
        l'.accounts.toBytes.length ≤ Protocol.maxMessageBytes
  | rollback height => ∀ cause, (l.rollback height).1 ≠ .error (.store cause)
  | surroundings _ _ _ _ => True

/-- Blocks and snapshots of such a run can be decoded again. -/
theorem Run.decodable (run : Run Event.Undisturbed start l c)
    (hstart : start.toBytes.length ≤ Protocol.maxMessageBytes) (n : Nat) :
    (c.cut n).tip.toBytes.length ≤ Protocol.maxMessageBytes ∧
      ((c.cut n).accounts start).toBytes.length ≤ Protocol.maxMessageBytes := by
  have hall : ∀ e ∈ c, e.block.toBytes.length ≤ Protocol.maxMessageBytes ∧
      e.accounts.toBytes.length ≤ Protocol.maxMessageBytes :=
    run.forall_entries fun hundisturbed hcommit _ => hundisturbed _ _ hcommit
  have hcut : ∀ e ∈ c.cut n, _ := fun e he => hall e (List.mem_of_mem_drop he)
  cases hc : c.cut n with
  | nil => exact ⟨Block.length_genesis, hstart⟩
  | cons e d =>
    rw [hc] at hcut
    exact hcut e List.mem_cons_self

/-- **The rollbacks of such a run get to their end.** -/
theorem Run.completes_of_undisturbed (run : Run Event.Undisturbed start l c)
    (hstart : start.toBytes.length ≤ Protocol.maxMessageBytes) :
    Run Event.Completes start l c := by
  induction run with
  | opened h => exact .opened h
  | @step l c e run possible hundisturbed ih =>
    refine .step e ih possible ?_
    cases e with
    | commit b origin => trivial
    | rollback height =>
      obtain ⟨hblock, hsnapshot⟩ := run.decodable hstart height.toNat
      rcases ih.keeps.rollback_fst run.follows height hblock hsnapshot with hok | ⟨cause, hstop⟩
      · exact hok
      · exact absurd hstop (hundisturbed cause)
    | surroundings pools voting stats syncing => trivial

/-- A run that stays within the limit is such a run. -/
theorem Run.undisturbed (run : Run Event.Fits start l c)
    (hstart : start.toBytes.length ≤ Protocol.maxMessageBytes) :
    Run Event.Undisturbed start l c := by
  induction run with
  | opened h => exact .opened h
  | @step l c e run possible hfits ih =>
    refine .step e ih possible ?_
    cases e with
    | commit b origin =>
      intro report l' hcommit
      obtain ⟨txs, accounts, _, _, haccepts, -, rfl⟩ := commit_eq_ok hcommit
      have hentry := hfits txs accounts haccepts
      exact ⟨hentry.block, hentry.snapshot⟩
    | rollback height =>
      intro cause hstop
      rw [(run.rollback hstart height).1] at hstop
      cases hstop
    | surroundings pools voting stats syncing => trivial

/-! ## 3. Opening the store of a run -/

/-- **A ledger that is opened on the store of a run stands where the running one does, and goes on
like it**, whatever accounts and schemes it is given.  Both say the same of every block of the
history of a peer and of every rollback, now and after any number of these, as long as their pools
are the same. -/
theorem Run.reopened (run : Run Event.Undisturbed start l c)
    (hstart : start.toBytes.length ≤ Protocol.maxMessageBytes) (given : Accounts)
    (stats : ChainStats) (voting : Voting) (pools : Pools) :
    ∃ l', openOn l.store given stats voting pools l.minStake = .ok l' ∧
      (l'.height = l.height ∧ l'.lastBlock = l.lastBlock ∧ l'.accounts = l.accounts ∧
        l'.schemes = l.schemes) ∧
      (∀ live, takeUpSchemes l'.lastBlock.header Slot.all live = (.ok (), l.schemes)) ∧
      ∀ l₁ l₁', SideBySide { l with pools := pools } l' l₁ l₁' →
        l₁.Agrees l₁' ∧
          (∀ b, (l₁'.commit b .sync).1 = (l₁.commit b .sync).1) ∧
          ∀ height, (l₁'.rollback height).1 = (l₁.rollback height).1 := by
  have hfollows := run.follows
  have hkeeps := (run.completes_of_undisturbed hstart).keeps
  have hdecodable := run.decodable hstart c.length
  rw [cut_of_length_le (Nat.le_refl _)] at hdecodable
  have hsame : SameTop l.height l.store l.store := ⟨rfl, rfl, rfl, rfl⟩
  have hopened :=
    hkeeps.openOn hfollows hdecodable.1 hdecodable.2 hsame given stats voting pools
  refine ⟨_, hopened, ⟨rfl, rfl, rfl, rfl⟩, fun live => ?_, fun l₁ l₁' hside => ?_⟩
  · have hdeclared := hfollows.schemes
    rw [← hfollows.last] at hdeclared
    exact takeUpSchemes_all hdeclared live
  · have hstand : Agrees { l with pools := pools } (l.resumed l.store stats voting pools) :=
      agrees_beside voting stats false { l with pools := pools }
    have hagrees := hstand.sideBySide hside
    exact ⟨hagrees, fun b => (hagrees.commit_sync b).1, fun height => (hagrees.rollback height).1⟩

omit [SignatureSuite]

/-- After a run with one block the ledger is opened again with no accounts. -/
theorem Run.reopened_block :
    ∃ (_ : SignatureSuite) (start : Accounts) (l l' : Ledger) (c : History),
      Run Event.Undisturbed start l c ∧ start.toBytes.length ≤ Protocol.maxMessageBytes ∧
        c.length = 1 ∧
        openOn l.store Accounts.empty ChainStats.empty (Voting.empty 60) l.pools l.minStake =
          .ok l' ∧
        (l'.height = l.height ∧ l'.lastBlock = l.lastBlock ∧ l'.accounts = l.accounts ∧
          l'.schemes = l.schemes) := by
  let := Sample.suite
  have hfits := Sample.run_block Sample.operatorKey_zeros 1 70 30 (by decide) rfl rfl
  have run := hfits.undisturbed Sample.length_start
  obtain ⟨l', hopened, hsame, -⟩ := run.reopened Sample.length_start Accounts.empty
    ChainStats.empty (Voting.empty 60) (Sample.later Sample.zeros 1 70 30).pools
  exact ⟨Sample.suite, _, _, l', _, run, Sample.length_start, rfl, hopened, hsame⟩

end SynergyNode.Ledger
