import SynergyNode.Proofs.Books
import SynergyNode.Proofs.Ledger.Run

/-!
# What a refused commit leaves behind

A block is refused for one of about ten reasons, some of them found only after votes were
looked at or accounts were worked out.  None of this shows: the ledger is as it was, except
that votes which have expired at the height of the block may be forgotten
(`Run.commit_refused`).

* Whatever happens to a ledger, the votes on record stay such that they were recorded one by one
  (`Event.recorded_after`, `recorded_afterAll`); this is why looking at them forgets only what has
  expired;
* whatever the store does, an error leaves it as it was or with the tree of the block alone
  (`store_of_commit_eq_error`): nothing fails any more when the rest is written.
-/

namespace SynergyNode.Ledger

section

variable [SignatureSuite] {start : Accounts} {l : Ledger} {c : History}

/-! ## 1. The votes on record -/

/-- Votes that come from outside were recorded one by one. -/
def Event.VotesRecorded : Event → Prop
  | commit _ _ => True
  | rollback _ => True
  | surroundings _ voting _ _ => voting.Recorded

/-- No event makes a store fail. -/
theorem Event.reliable_after (hs : l.store.Reliable) (e : Event) : (e.after l).store.Reliable := by
  cases e with
  | commit b origin =>
    rcases Ledger.commit_cases hs b origin with ⟨_, _, h⟩ | ⟨_, _, _, -, h⟩
    · rw [after, h]
      exact hs
    · rw [after, h]
      exact hs.applyAll _
  | rollback height =>
    obtain ⟨_, _, _, _, _, _, hfailure, h⟩ := rollback_snd hs height
    rw [after, h]
    exact fun op => (congrFun hfailure op).trans (hs op)
  | surroundings pools voting stats syncing => exact hs

/-- The votes on record stay such that they were recorded one by one. -/
theorem Event.recorded_after (hs : l.store.Reliable) (hvotes : l.voting.Recorded) {e : Event}
    (he : e.VotesRecorded) : (e.after l).voting.Recorded := by
  cases e with
  | commit b origin =>
    rcases Ledger.commit_cases hs b origin with ⟨_, looked, h⟩ | ⟨_, _, looked, -, h⟩
    · rw [after, h]
      exact hvotes.look looked b.height
    · rw [after, h]
      simp only [committed]
      split
      · exact hvotes.look looked b.height
      · exact (hvotes.look looked b.height).reset
  | rollback height =>
    obtain ⟨_, _, _, _, _, _, -, h⟩ := rollback_snd hs height
    rw [after, h]
    exact hvotes
  | surroundings pools voting stats syncing => exact he

/-- A ledger after a row of events. -/
def afterAll (l : Ledger) : List Event → Ledger
  | [] => l
  | e :: events => (e.after l).afterAll events

theorem recorded_afterAll (hs : l.store.Reliable) (hvotes : l.voting.Recorded)
    {events : List Event} (hevents : ∀ e ∈ events, e.VotesRecorded) :
    (l.afterAll events).store.Reliable ∧ (l.afterAll events).voting.Recorded := by
  induction events generalizing l with
  | nil => exact ⟨hs, hvotes⟩
  | cons e events ih =>
    obtain ⟨he, hevents⟩ := List.forall_mem_cons.mp hevents
    exact ih (e.reliable_after hs) (Event.recorded_after hs hvotes he) hevents

/-! ## 2. A store that may fail -/

omit [SignatureSuite] in
theorem persist_cases (s : Store) (b : Block) (txs : List Transaction) (snapshot : Bytes) :
    persist s b txs snapshot = (.ok (), s.applyAll (commitWrites b txs snapshot)) ∨
      ∃ e store, persist s b txs snapshot = (.error e, store) ∧
        (store = s ∨ store = s.applyAll [.putTree b.height b.tree.toBytes]) := by
  unfold persist Store.putMerkleTree Store.putTree Store.commit Store.perform
  cases htree : s.failure .putTree with
  | some e => exact Or.inr ⟨e, s, rfl, Or.inl rfl⟩
  | none =>
    simp only [Store.failure_applyAll]
    cases s.failure .commit with
    | some e => exact Or.inr ⟨e, _, rfl, Or.inr rfl⟩
    | none => exact Or.inl rfl

/-- A commit that fails has written nothing, or the tree of the block alone. -/
theorem store_of_commit_eq_error {b : Block} {origin : BlockOrigin} {e : LedgerError}
    (h : (l.commit b origin).1 = .error e) :
    (l.commit b origin).2.store = l.store ∨
      (l.commit b origin).2.store = l.store.applyAll [.putTree b.height b.tree.toBytes] := by
  rcases commit_stages l b origin with ⟨_, -, hcommit⟩ |
    ⟨hchecked, looked, ⟨_, -, hcommit⟩ |
      ⟨-, ⟨_, -, hcommit⟩ | ⟨txs, accounts, -, hcommit⟩⟩⟩ <;> rw [hcommit] at h ⊢
  · exact Or.inl rfl
  · exact Or.inl rfl
  · exact Or.inl rfl
  · obtain ⟨declared, hdeclared⟩ := declaredSchemes_of_checkBlock hchecked
    simp only [finish] at h ⊢
    rcases persist_cases l.store b txs accounts.toBytes with hwritten | ⟨_, s, hfailed, hs⟩
    · -- Everything is written, and then the ledger takes up the block without fail.
      have hadvance := advance_of_declared hdeclared
        { l with voting := l.voting.look looked b.height }
        (l.store.applyAll (commitWrites b txs accounts.toBytes)) txs accounts
      simp only [hwritten, hadvance] at h
      cases h
    · simp only [hfailed]
      split
      · exact hs
      · exact hs

/-! ## 3. Refusals -/

/-- **A block that is refused leaves no trace.**  Whatever has happened to a ledger since its votes
were recorded one by one, it is after the refusal what it was before, except that votes may be
forgotten that have expired at the height of the block.

And when any operations of the store fail, an error means that the batch of the block was not
written: the store is as it was, or has the tree of the block. -/
theorem Run.commit_refused {allowed : Ledger → Event → Prop} (run : Run allowed start l c)
    (hvotes : l.voting.Recorded) (events : List Event)
    (hevents : ∀ e ∈ events, e.VotesRecorded) (b : Block) (origin : BlockOrigin) :
    (∀ e, ((l.afterAll events).commit b origin).1 = .error e →
      ∃ voting, (l.afterAll events).voting.Forgets b.height voting ∧
        ((l.afterAll events).commit b origin).2 =
          { l.afterAll events with voting := voting }) ∧
      ∀ (failure : StoreOperation → Option StoreError) (e : LedgerError) (l' : Ledger),
        ((l.afterAll events).failing failure).commit b origin = (.error e, l') →
          l'.store = (l.afterAll events).store.failing failure ∨
            l'.store = ((l.afterAll events).store.failing failure).applyAll
              [.putTree b.height b.tree.toBytes] := by
  obtain ⟨hs, hrecorded⟩ := recorded_afterAll run.follows.reliable hvotes hevents
  refine ⟨fun e herror => ?_, fun failure e l' hfailed => ?_⟩
  · rcases commit_cases hs b origin with ⟨_, looked, hrefused⟩ | ⟨_, _, _, -, hcommitted⟩
    · exact ⟨_, hrecorded.forgets_look looked b.height, by rw [hrefused]⟩
    · rw [hcommitted] at herror
      cases herror
  · have hstore := store_of_commit_eq_error (congrArg Prod.fst hfailed)
    rw [hfailed] at hstore
    exact hstore

end

/-! ## 4. One transfer too many -/

namespace Sample

local instance anySigner : SignatureSuite := suite

/-- A block that lists the transfer of thirty units four times, where there are a hundred. -/
def overdrawing : Block := block zeros (List.replicate 4 (transfer zeros).hash)

theorem applyBlock_overdrawing :
    (start (Address.ofPublicKey zeros)).applyBlock overdrawing (List.replicate 4 (transfer zeros)) =
      .error (.insufficientBalance (Address.ofPublicKey zeros) (transfer zeros).hash) := by
  have hhundred : (100 : UInt64).toNat = 30 * 3 + (10 : UInt64).toNat := rfl
  have hninety : (0 : UInt64).toNat + 30 * 3 = (90 : UInt64).toNat := rfl
  have hthree := transfers_transfer operatorKey_zeros 3 hhundred hninety
  refine Accounts.applyBlock_of_checkTransfers (Accounts.checkTransfers_eq_error_iff.mpr ?_) _
  refine ⟨List.replicate 3 (transfer zeros), transfer zeros, [], rfl,
    Balances.transfers_eq_ok_iff.mp ⟨_, hthree⟩, .overdraft ?_⟩
  -- Ten units are left with the sender.
  have hne : recipient ≠ Address.ofPublicKey zeros := Ne.symm (operatorKey_zeros.undelegated 2)
  have hten : (balances (Address.ofPublicKey zeros) 10 90).get (Address.ofPublicKey zeros) = 10 := by
    rw [get_balances, if_neg hne, if_pos rfl]
  have hleft : Balances.books (balances (Address.ofPublicKey zeros) 10 90)
      (Address.ofPublicKey zeros) = 10 := by
    rw [Balances.books, hten]
    rfl
  rw [Accounts.books, start, ← Balances.books_transfers hthree, Books.pay, Books.enter]
  simp [transfer, hleft]

/-- A vote of the first account, for nothing that is known. -/
def oneVote : Voting := ⟨60, ⟨(∅ : VoteTable).insert 1 ⟨[1], 0, 30⟩, ∅⟩⟩

theorem recorded_oneVote : oneVote.Recorded := by
  have hsaved : (Voting.empty 60).saveVote .primary 1 ⟨[1], 0, 30⟩ = .ok oneVote := rfl
  exact (Voting.Recorded.empty 60).saveVote hsaved

theorem checkBlock_overdrawing (voting : Voting) :
    checkBlock { ledger zeros with voting := voting } overdrawing = .ok () := by
  refine (checkBlock_congr ?_ ?_ ?_ overdrawing).trans (checkBlock_block operatorKey_zeros) <;> rfl

/-- Whatever votes are on record, the block is refused when it is carried out. -/
theorem commit_overdrawing (voting : Voting) (origin : BlockOrigin) :
    (commit { ledger zeros with voting := voting } overdrawing origin).1 =
      .error (.account
        (.insufficientBalance (Address.ofPublicKey zeros) (transfer zeros).hash)) := by
  have hslots : overdrawing.changedSlots (ledger zeros).lastBlock = [] := changedSlots_block
  have hlive : (ledger zeros).lastBlock.schemes = .ok LiveSchemes.initial :=
    Block.schemes_eq_ok.mpr History.declaredSchemes_genesis
  refine commit_of_execute_eq_error (checkBlock_overdrawing voting) ?_ ?_
  · simp only [hslots]
    rfl
  · rw [execute_voting]
    exact execute_of_applyBlock_eq_error (collectTransactions_block zeros 4) hlive
      (checkTransactions_transfer operatorKey_zeros 4) applyBlock_overdrawing

end Sample

/-- A vote is on record when a block lists one transfer more than its sender can make.  It passes all
checks, and the accounts are worked out before it is refused. -/
theorem Run.commit_refused_overdrawing :
    ∃ (_ : SignatureSuite) (start : Accounts) (opened : Ledger) (e : Event) (b : Block),
      Run Event.Any start opened [] ∧ (e.after opened).voting.tables.primary.isEmpty = false ∧
        (e.after opened).checkBlock b = .ok () ∧
        ∃ cause voting, (e.after opened).voting.Forgets b.height voting ∧
          (e.after opened).commit b .proposal =
            (.error (.account cause), { e.after opened with voting := voting }) := by
  let := Sample.suite
  have run : Run Event.Any _ (Sample.ledger Sample.zeros) [] := .opened Sample.openOn_start
  let e : Event := .surroundings (Sample.ledger Sample.zeros).pools Sample.oneVote
    (Sample.ledger Sample.zeros).stats false
  have hvotes : ∀ e' ∈ [e], e'.VotesRecorded :=
    List.forall_mem_singleton.mpr Sample.recorded_oneVote
  have hcause := Sample.commit_overdrawing Sample.oneVote .proposal
  obtain ⟨voting, hforgets, hafter⟩ :=
    (Run.commit_refused run (.empty 60) [e] hvotes Sample.overdrawing .proposal).1 _ hcause
  exact ⟨Sample.suite, _, _, e, Sample.overdrawing, run, by decide,
    Sample.checkBlock_overdrawing Sample.oneVote, _, voting, hforgets, Prod.ext hcause hafter⟩

end SynergyNode.Ledger
