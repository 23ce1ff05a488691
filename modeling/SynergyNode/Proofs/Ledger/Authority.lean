import SynergyNode.Proofs.Ledger.Run

/-!
# Who may put a block on the chain

A block is committed only when its operator is listed with enough stake, holds the signing key,
and signed under the scheme that the block below declares for the slot it names
(`Ledger.Authorizes`).  Four checks in four places amount to this, and a rollback takes back the
declarations together with the block that made them.

* `Run.exists_commit`: every block of a chain was committed by a ledger that stood at the block
  below it;
* `Run.authorized`: that ledger authorized it, and nothing can be committed on a block that
  declares both slots paused.
-/

namespace SynergyNode

/-! ## 1. What the checks say -/

section

variable [SignatureSuite]

/-- A signature is taken exactly when the slot is in use and its scheme finds it valid. -/
theorem LiveSchemes.verify_eq_ok {live : LiveSchemes} {slot : Slot}
    {publicKey message signature : Bytes} :
    live.verify slot publicKey message signature = .ok () ↔
      (live.get slot).paused = false ∧
        ∃ s, (live.get slot).scheme = .ok s ∧ s.verify publicKey message signature = true := by
  unfold LiveSchemes.verify
  simp only
  split
  · rename_i hpaused
    simp [hpaused]
  · rename_i hpaused
    split
    · rename_i hscheme
      simp [hscheme]
    · rename_i s hscheme
      simp [hscheme, hpaused]

theorem Header.verifySignature_eq_ok {h : Header} {live : LiveSchemes} :
    h.verifySignature live = .ok () ↔
      Address.ofPublicKey h.signerKey = h.operator ∧
        live.verify h.signerSlot h.signerKey h.signingHash.toList h.signature = .ok () := by
  unfold Header.verifySignature
  split
  · rename_i hkey
    simp [hkey]
  · rename_i hkey
    rw [ne_eq, Decidable.not_not] at hkey
    split
    · rename_i hverify
      simp [hverify]
    · rename_i hverify
      simp [hverify, hkey]

/-- A transaction is valid when it carries its own hash, its sender holds the key and the signature
on the hash is taken. -/
theorem Transaction.verify_eq_ok {t : Transaction} {live : LiveSchemes} :
    t.verify live = .ok () ↔ contentHash t.body t.slot t.publicKey = t.hash ∧
      Address.ofPublicKey t.publicKey = t.body.sender ∧
        live.verify t.slot t.publicKey t.hash.toList t.signature = .ok () := by
  unfold verify
  split
  · rename_i hhash
    simp [hhash]
  · rename_i hhash
    rw [ne_eq, Decidable.not_not] at hhash
    split
    · rename_i hsender
      simp [hsender]
    · rename_i hsender
      rw [ne_eq, Decidable.not_not] at hsender
      split
      · rename_i hverify
        simp [hverify]
      · rename_i hverify
        simp [hverify, hhash, hsender]

end

/-- The header declares both slots paused. -/
def Header.PausesAll (h : Header) : Prop :=
  ∀ slot, ∃ d, h.descriptor slot = .ok d ∧ d.paused = true

namespace Ledger

variable {l : Ledger} {b : Block} {start : Accounts} {c : History}

/-- The block's operator is listed for its delegated account, which stakes enough. -/
def Lists (l : Ledger) (b : Block) : Prop :=
  ∃ entry, l.accounts.stakingOf? b.header.delegatedId = some entry ∧
    b.header.operator ∈ entry.operators ∧ l.minStake ≤ entry.staked

theorem checkOperator_eq_ok : l.checkOperator b = .ok () ↔ l.Lists b := by
  unfold Lists
  cases hentry : l.accounts.stakingOf? b.header.delegatedId with
  | none =>
    have hnobody : b.header.operator ∉ (default : StakingEntry).operators := List.not_mem_nil
    simp [checkOperator, hentry, hnobody]
  | some entry =>
    simp only [checkOperator, hentry, Option.getD_some, Option.some.injEq, exists_eq_left']
    split
    · rename_i hunlisted
      simp [hunlisted]
    · rename_i hlisted
      rw [Decidable.not_not] at hlisted
      split
      · rename_i hpoor
        simp only [reduceCtorEq, false_iff, not_and]
        exact fun _ => UInt64.not_le.mpr hpoor
      · rename_i hstaked
        exact ⟨fun _ => ⟨hlisted, UInt64.not_lt.mp hstaked⟩, fun _ => rfl⟩

variable [SignatureSuite]

/-- The right of a block to be put on the last block of a ledger. -/
structure Authorizes (l : Ledger) (b : Block) : Prop where
  listed : l.Lists b
  key : Address.ofPublicKey b.header.signerKey = b.header.operator
  /-- The last block declares a scheme for the slot that the block names, does not pause it, and
  the signature on the header without its signature is valid under it. -/
  signature : ∃ d s, l.lastBlock.header.descriptor b.header.signerSlot = .ok d ∧
    d.paused = false ∧ d.scheme = .ok s ∧
    s.verify b.header.signerKey b.header.signingHash.toList b.header.signature = true

theorem Accepts.authorizes {txs : List Transaction} {accounts : Accounts}
    (h : l.Accepts b txs accounts) : l.Authorizes b := by
  obtain ⟨hbase, hoperator⟩ := checkBlock_eq_ok.mp h.checked
  obtain ⟨-, -, -, -, ⟨live, hlive, hsigned⟩, -, -, -⟩ := Block.checkBase_eq_ok.mp hbase
  obtain ⟨hkey, hverify⟩ := Header.verifySignature_eq_ok.mp hsigned
  obtain ⟨hunpaused, s, hscheme, hvalid⟩ := LiveSchemes.verify_eq_ok.mp hverify
  have hdeclared := declaredSchemes_eq_ok.mp (Block.schemes_eq_ok.mp hlive) b.header.signerSlot
  exact
    { listed := checkOperator_eq_ok.mp hoperator
      key := hkey
      signature := ⟨_, s, hdeclared, hunpaused, hscheme, hvalid⟩ }

theorem not_authorizes (hpaused : l.lastBlock.header.PausesAll) (b : Block) :
    ¬ l.Authorizes b := by
  intro h
  obtain ⟨d, s, hdeclared, hunpaused, -, -⟩ := h.signature
  obtain ⟨d', hdeclared', hpaused'⟩ := hpaused b.header.signerSlot
  rw [hdeclared] at hdeclared'
  cases hdeclared'
  rw [hunpaused] at hpaused'
  cases hpaused'

/-! ## 2. Where a block of the chain was committed -/

omit [SignatureSuite] in
theorem minStake_rollback (hs : l.store.Reliable) (height : UInt64) :
    (l.rollback height).2.minStake = l.minStake := by
  obtain ⟨_, _, _, _, _, _, -, h⟩ := rollback_snd hs height
  rw [h]

/-- The stake that is asked for never changes. -/
theorem Event.minStake_after (hs : l.store.Reliable) (e : Event) :
    (e.after l).minStake = l.minStake := by
  cases e with
  | commit b origin =>
    rcases Event.commit_cases hs b origin [] with ⟨voting, hafter, -⟩ | ⟨_, _, voting, -, hafter, -⟩
    · rw [hafter]
    · rw [hafter]
      rfl
  | rollback height => exact minStake_rollback hs height
  | surroundings pools voting stats syncing => rfl

/-- **Every block of a chain was committed on the block below it**, by a ledger that stood
there with the accounts of that height. -/
theorem Run.exists_commit {allowed : Ledger → Event → Prop} (run : Run allowed start l c)
    {e : Entry} {below : History} (h : e :: below <:+ c) :
    ∃ l₀ origin report l₁, Run allowed start l₀ below ∧ l₀.minStake = l.minStake ∧
      l₀.commit e.block origin = (.ok report, l₁) ∧
      l₀.Accepts e.block e.transactions e.accounts := by
  induction run with
  | opened _ => exact absurd (List.suffix_nil.mp h) (List.cons_ne_nil e below)
  | @step l c event run possible ok ih =>
    have hs := run.follows.reliable
    have hstake := Event.minStake_after hs event
    -- Only a commit adds a block; every other one was there before the event.
    have hbefore (hold : e :: below <:+ c) := by
      have hcommit := ih hold
      rw [← hstake] at hcommit
      exact hcommit
    cases event with
    | commit b origin =>
      rcases Ledger.commit_cases hs b origin with
        ⟨err, looked, hcommit⟩ | ⟨txs, accounts, looked, haccepts, hcommit⟩
      · have hrecord : (Event.commit b origin).record l c = c := by
          simp only [Event.record, hcommit]
        rw [hrecord] at h
        exact hbefore h
      · have hcollected := (execute_eq_ok.mp haccepts.executed).1
        rw [Event.record_commit hcommit hcollected, List.suffix_cons_iff] at h
        rcases h with hnew | hold
        · cases hnew
          exact ⟨l, origin, _, _, run, hstake.symm, hcommit, haccepts⟩
        · exact hbefore hold
    | rollback height =>
      refine hbefore (h.trans ?_)
      simp only [Event.record]
      split
      · exact List.drop_suffix _ c
      · exact List.suffix_refl c
    | surroundings pools voting stats syncing => exact hbefore h

/-! ## 3. The chain of a run -/

/-- **Every block of the chain was authorized when it was committed**, by the ledger that stood
at the block below it: its operator was listed and staked enough, holds the signing key, and
signed under a scheme that the block below declares and does not pause.

So a block that declares both slots paused stays the last one: nothing is committed on it. -/
theorem Run.authorized {allowed : Ledger → Event → Prop} (run : Run allowed start l c) :
    (∀ (e : Entry) (below : History), e :: below <:+ c →
      ∃ l₀ origin report l₁, Run allowed start l₀ below ∧ l₀.lastBlock = below.tip ∧
        l₀.minStake = l.minStake ∧ l₀.commit e.block origin = (.ok report, l₁) ∧
        l₀.Authorizes e.block) ∧
      ∀ (e : Entry) (below : History), e :: below <:+ c → e.block.header.PausesAll →
        e :: below = c ∧ ∀ b origin, ∃ cause, (l.commit b origin).1 = .error cause := by
  have hall : ∀ (e : Entry) (below : History), e :: below <:+ c →
      ∃ l₀ origin report l₁, Run allowed start l₀ below ∧ l₀.lastBlock = below.tip ∧
        l₀.minStake = l.minStake ∧ l₀.commit e.block origin = (.ok report, l₁) ∧
        l₀.Authorizes e.block := by
    intro e below h
    obtain ⟨l₀, origin, report, l₁, run₀, hstake, hcommit, haccepts⟩ := run.exists_commit h
    exact ⟨l₀, origin, report, l₁, run₀, run₀.follows.last, hstake, hcommit, haccepts.authorizes⟩
  refine ⟨hall, fun e below h hpaused => ?_⟩
  have htop : e :: below = c := by
    obtain ⟨above, rfl⟩ := h
    rcases List.eq_nil_or_concat above with rfl | ⟨front, next, rfl⟩
    · rfl
    · have hnext : next :: e :: below <:+ front.concat next ++ e :: below :=
        ⟨front, by rw [List.concat_append]⟩
      obtain ⟨l₀, _, _, _, -, hlast, -, -, hauthorizes⟩ := hall next (e :: below) hnext
      exact absurd hauthorizes (not_authorizes (by rw [hlast]; exact hpaused) _)
  refine ⟨htop, fun b origin => ?_⟩
  rcases Ledger.commit_cases run.follows.reliable b origin with
    ⟨cause, looked, hcommit⟩ | ⟨txs, accounts, looked, haccepts, -⟩
  · exact ⟨cause, by rw [hcommit]⟩
  · have hlast : l.lastBlock = e.block := by
      rw [run.follows.last, ← htop]
      rfl
    exact absurd haccepts.authorizes (not_authorizes (by rw [hlast]; exact hpaused) _)

omit [SignatureSuite] in
/-- The operator of the block of a chain was authorized by the ledger below it. -/
theorem Run.authorized_block :
    ∃ (_ : SignatureSuite) (start : Accounts) (l : Ledger) (e : Entry),
      Run Event.Any start l [e] ∧ ∃ l₀ origin report l₁, Run Event.Any start l₀ [] ∧
        l₀.lastBlock = Block.genesis ∧ l₀.minStake = l.minStake ∧
        l₀.commit e.block origin = (.ok report, l₁) ∧ l₀.Authorizes e.block := by
  let := Sample.suite
  have fits := Sample.run_block Sample.operatorKey_zeros 1 70 30 (by decide) rfl rfl
  have run : Run Event.Any _ _ _ := fits.mono fun _ _ _ => trivial
  exact ⟨Sample.suite, _, _, _, run, (Run.authorized run).1 _ _ (List.suffix_refl _)⟩

end Ledger

end SynergyNode
