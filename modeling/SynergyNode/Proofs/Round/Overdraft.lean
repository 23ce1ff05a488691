import SynergyNode.Proofs.Books
import SynergyNode.Proofs.Pool.Selection
import SynergyNode.Proofs.Round.Proposal

/-!
# Transfers that cannot be made

A round that finds the next transfers not covered yields no block.  If nothing were done about it,
the next round would find the same transfers, and so would each one after it.

* `Pools.expels_banEverywhere`: a ban takes one transaction out of the pools and leaves all others
  as they are;
* `Accounts.exists_overdraft`: while all money together fits in one balance, it is always a sender
  who cannot pay, so there is a transaction to blame;
* `Round.answer_expels`: the answer bans just that transaction;
* `overdrafts_run_out`: so there are no more such rounds than there were pending transactions,
  unless new ones come in.
-/

namespace SynergyNode

/-! ## 1. One transaction less -/

namespace Pool

variable {p : Pool} {hash other : Hash} {came : List Transaction}

/-- There is room for the latest ban. -/
theorem Screened.isBanned_ban (h : Screened p) (hash : Hash) :
    (p.ban hash).isBanned hash = true := by
  cases hbanned : p.isBanned hash with
  | true =>
    have hkept : (p.remove hash).2.isBanned hash = true := by
      rw [isBanned_remove, hbanned]
    simp only [Pool.ban, hkept, if_true]
  | false =>
    have hroom : ((p.ban hash).newBans []).length < Protocol.maxTransactionBans :=
      Nat.zero_lt_succ _
    exact h.isBanned_since hbanned hroom

theorem entries_ban_self (p : Pool) (hash : Hash) : (p.ban hash).entries[hash]? = none := by
  obtain ⟨banned, bans, hban⟩ := p.ban_eq hash
  rw [hban]
  exact entries_remove_self p hash

theorem entries_ban_of_ne (h : hash ≠ other) :
    (p.ban hash).entries[other]? = p.entries[other]? := by
  obtain ⟨banned, bans, hban⟩ := p.ban_eq hash
  rw [hban]
  exact entries_remove_of_ne h

/-- The row is as long as the pool says. -/
theorem Indexed.length_pending (h : Indexed came p) : p.pending.length = p.count := by
  have hkeys : (p.pending.map Transaction.hash).Perm p.entries.keys := by
    refine (List.perm_ext_iff_of_nodup h.nodup_pending ?_).mpr ?_
    · exact p.entries.distinct_keys.imp fun hne => by simpa using hne
    · intro hash
      rw [Std.ExtTreeMap.mem_keys, List.mem_map]
      constructor
      · rintro ⟨t, ht, rfl⟩
        obtain ⟨e, he, -⟩ := Option.map_eq_some_iff.mp (h.mem_pending.mp ht)
        exact Std.ExtTreeMap.mem_iff_isSome_getElem?.mpr (by rw [he, Option.isSome_some])
      · intro hin
        rw [Std.ExtTreeMap.mem_iff_isSome_getElem?, Option.isSome_iff_exists] at hin
        obtain ⟨e, he⟩ := hin
        have hkeyed := p.keyed hash e he
        refine ⟨e.transaction, h.mem_pending.mpr ?_, hkeyed⟩
        rw [hkeyed, get?, he, Option.map_some]
  rw [count, ← Std.ExtTreeMap.length_keys, ← hkeys.length_eq, List.length_map]

end Pool

namespace Pools

variable {ps ps' : Pools} {t : Transaction}

theorem Reached.screened (h : ps.Reached) (k : PoolKind) : Pool.Screened (ps.get k) := by
  obtain ⟨limits, steps, hrun⟩ := h k
  rw [← hrun]
  exact (Pool.Screened.empty k limits).run steps

/-- The rows are as long as the pools say. -/
theorem length_pending (h : ps.Reached) : ps.pending.length = ps.stats.count := by
  have hlength (k : PoolKind) : (ps.get k).pending.length = (ps.get k).count := by
    obtain ⟨came, hindexed⟩ := h.indexed k
    exact hindexed.length_pending
  have hstandard := hlength .standard
  have hescrow := hlength .escrow
  have hmultiSig := hlength .multiSig
  simp only [get] at hstandard hescrow hmultiSig
  simp [pending, stats, toList, Pool.stats, hstandard, hescrow, hmultiSig, Nat.add_assoc]

theorem mem_pending (h : ps.Reached) : t ∈ ps.pending ↔ ∃ k, (ps.get k).get? t.hash = some t := by
  have hrow (k : PoolKind) : t ∈ (ps.get k).pending ↔ (ps.get k).get? t.hash = some t := by
    obtain ⟨came, hindexed⟩ := h.indexed k
    exact hindexed.mem_pending
  rw [pending_eq_flatMap, List.mem_flatMap]
  constructor
  · rintro ⟨k, -, ht⟩
    exact ⟨k, (hrow k).mp ht⟩
  · rintro ⟨k, ht⟩
    exact ⟨k, by cases k <;> decide, (hrow k).mpr ht⟩

/-- Pools that lose entries get no longer. -/
theorem Sheds.length_pending_le (h : ps.Sheds ps') (reached : ps.Reached) (reached' : ps'.Reached)
    (apart : ps.Apart) : ps'.pending.length ≤ ps.pending.length := by
  have hnodup : ps'.pending.Nodup := (nodup_pending reached' (apart.sheds h)).of_map
  refine (hnodup.subperm ?_).length_le
  intro t ht
  obtain ⟨k, hk⟩ := (mem_pending reached').mp ht
  exact (mem_pending reached).mpr ⟨k, (h k).get? hk⟩

theorem pending_banEverywhere (h : ps.Reached) (hash : Hash) :
    (ps.banEverywhere hash).pending = ps.pending.filter fun t => t.hash != hash := by
  rw [pending_eq_flatMap, pending_eq_flatMap, List.filter_flatMap]
  refine List.flatMap_congr fun k _ => ?_
  obtain ⟨came, hindexed⟩ := h.indexed k
  rw [banEverywhere, get_mapAll]
  exact hindexed.pending_ban hash

/-- A transaction has left the pools and is banned from them, and no other entry has changed. -/
structure Expels (ps : Pools) (t : Transaction) (ps' : Pools) : Prop where
  row : ∃ front back, ps.pending = front ++ t :: back ∧ ps'.pending = front ++ back
  gone : ∀ k, (ps'.get k).entries[t.hash]? = none
  banned : ∀ k, (ps'.get k).isBanned t.hash = true
  others : ∀ (k : PoolKind) (hash : Hash), hash ≠ t.hash →
    (ps'.get k).entries[hash]? = (ps.get k).entries[hash]?

theorem Expels.length (h : ps.Expels t ps') : ps'.pending.length + 1 = ps.pending.length := by
  obtain ⟨front, back, hbefore, hafter⟩ := h.row
  simp only [hbefore, hafter, List.length_append, List.length_cons]
  omega

/-- **A ban expels the transaction.** -/
theorem expels_banEverywhere (reached : ps.Reached) (apart : ps.Apart) (ht : t ∈ ps.pending) :
    ps.Expels t (ps.banEverywhere t.hash) where
  row := by
    obtain ⟨front, back, hrow⟩ := List.append_of_mem ht
    have hnodup := nodup_pending reached apart
    rw [hrow, List.map_append, List.map_cons, List.nodup_middle, List.nodup_cons,
      ← List.map_append] at hnodup
    have hkept : (front ++ back).filter (fun u => u.hash != t.hash) = front ++ back := by
      refine List.filter_eq_self.mpr ?_
      intro u hu
      rw [bne_iff_ne]
      intro heq
      exact hnodup.1 (heq ▸ List.mem_map_of_mem hu)
    refine ⟨front, back, hrow, ?_⟩
    rw [pending_banEverywhere reached, hrow, ← hkept]
    simp
  gone k := by
    rw [banEverywhere, get_mapAll]
    exact Pool.entries_ban_self _ _
  banned k := by
    rw [banEverywhere, get_mapAll]
    exact (reached.screened k).isBanned_ban t.hash
  others k hash hne := by
    rw [banEverywhere, get_mapAll]
    exact Pool.entries_ban_of_ne (Ne.symm hne)

end Pools

/-! ## 2. Somebody to blame -/

/-- **While all balances together fit in one, transfers only stop at an overdraft.** -/
theorem Accounts.exists_overdraft {a : Accounts} {txs : List Transaction} {e : AccountError}
    (hmoney : a.balances.total < UInt64.size) (h : a.checkTransfers txs = .error e) :
    ∃ before t rest, txs = before ++ t :: rest ∧ a.books.Performs before ∧
      (a.books.after before).pay t t.body.sender < 0 ∧
      e = .insufficientBalance t.body.sender t.hash := by
  obtain ⟨before, t, rest, htxs, hbefore, hrefuses⟩ := checkTransfers_eq_error_iff.mp h
  refine ⟨before, t, rest, htxs, hbefore, ?_⟩
  cases hrefuses with
  | overdraft hsender => exact ⟨hsender, rfl⟩
  | overflow _ _ =>
    -- A balance that does not fit would be more than all the money there is.
    unfold checkTransfers at h
    rcases a.balances.transfers_cases txs with ⟨b', hok, -⟩ | ⟨x, hash, herror⟩ | ⟨x, -, hlarge⟩
    · rw [hok] at h
      cases h
    · rw [herror] at h
      cases h
    · omega

/-! ## 3. One round -/

namespace Round

/-- The pools were reached by adding and taking out, none of their transactions is in two of them,
and all balances together fit in one. -/
structure Sound (r : Round) : Prop where
  reached : r.ledger.pools.Reached
  apart : r.ledger.pools.Apart
  money : r.ledger.accounts.balances.total < UInt64.size

section

variable [SignatureSuite] {r : Round} {s : ProposerSettings} {w : Wallet}
  {around : Surroundings} {nonce : Transaction} {e : AccountError}

omit [SignatureSuite] in
theorem checkSender_ne_badTransfers {id : UInt8} {sender : Address} :
    r.checkSender s id sender ≠ .error (.badTransfers e) := by
  simp only [checkSender]
  split
  · simp
  · split <;> simp

omit [SignatureSuite] in
/-- Who may open rounds is a matter of stakes alone. -/
theorem checkSender_congr {r' : Round} {id : UInt8} {sender : Address}
    (h : r.ledger.accounts.staking = r'.ledger.accounts.staking) :
    r.checkSender s id sender = r'.checkSender s id sender := by
  have hentry : r.ledger.accounts.stakingOf? id = r'.ledger.accounts.stakingOf? id := by
    simp only [Accounts.stakingOf?, h]
  unfold checkSender
  rw [hentry]

/-- A nonce transaction is not refused for transfers. -/
theorem accept_ne_badTransfers : r.accept s nonce ≠ .error (.badTransfers e) := by
  intro h
  simp only [accept] at h
  split at h
  · cases h
  split at h
  · cases h
  split at h
  · cases h
  split at h
  · cases h
  split at h
  · cases h
  split at h
  · cases h
  split at h
  · rename_i hsender
    cases h
    exact checkSender_ne_badTransfers hsender
  · cases h

omit [SignatureSuite] in
@[simp]
theorem accounts_record (r : Round) (a : Accepted) (height : UInt64) :
    (r.record a height).ledger.accounts = r.ledger.accounts := rfl

omit [SignatureSuite] in
@[simp]
theorem pools_record (r : Round) (a : Accepted) (height : UInt64) :
    (r.record a height).ledger.pools = r.ledger.pools := rfl

/-- A round in which the next transfers do not cover each other fails, and it bans the transaction
at fault. -/
theorem answer_of_checkTransfers_error (w : Wallet) (around : Surroundings) {accepted : Accepted}
    (haccepted : r.accept s nonce = .ok accepted) (hcheck : r.ledger.accounts.checkTransfers
      (r.ledger.pools.peek s.maxTransactionsPerBlock (r.ledger.lastBlock.height + 1)) = .error e) :
    (r.answer s w around nonce).1 = .error (.badTransfers e) ∧
      ∀ bad, e.offendingTransaction? = some bad →
        (r.answer s w around nonce).2.ledger.pools = r.ledger.pools.banEverywhere bad := by
  simp only [answer, haccepted, selectTransactions, accounts_record, pools_record, hcheck, true_and]
  intro bad hbad
  simp only [hbad]

/-- No other round fails like that. -/
theorem checkTransfers_of_badTransfers
    (h : (r.answer s w around nonce).1 = .error (.badTransfers e)) :
    ∃ accepted, r.accept s nonce = .ok accepted ∧ r.ledger.accounts.checkTransfers
      (r.ledger.pools.peek s.maxTransactionsPerBlock (r.ledger.lastBlock.height + 1)) =
        .error e := by
  cases haccepted : r.accept s nonce with
  | error cause =>
    simp only [answer, haccepted, Except.error.injEq] at h
    rw [h] at haccepted
    exact absurd haccepted accept_ne_badTransfers
  | ok accepted =>
    refine ⟨accepted, rfl, ?_⟩
    cases hcheck : r.ledger.accounts.checkTransfers
        (r.ledger.pools.peek s.maxTransactionsPerBlock (r.ledger.lastBlock.height + 1)) with
    | ok _ =>
      simp only [answer, haccepted, selectTransactions, accounts_record, pools_record, hcheck] at h
      split at h <;> cases h
    | error cause =>
      rw [(answer_of_checkTransfers_error w around haccepted hcheck).1] at h
      cases h
      rfl

/-- **The answer bans just the first transaction whose sender cannot pay.** -/
theorem Sound.answer_expels (sound : r.Sound)
    (h : (r.answer s w around nonce).1 = .error (.badTransfers e)) :
    ∃ before t rest,
      r.ledger.pools.peek s.maxTransactionsPerBlock (r.ledger.lastBlock.height + 1) =
        before ++ t :: rest ∧
      r.ledger.accounts.books.Performs before ∧
      (r.ledger.accounts.books.after before).pay t t.body.sender < 0 ∧
      e = .insufficientBalance t.body.sender t.hash ∧
      r.ledger.pools.Expels t (r.answer s w around nonce).2.ledger.pools := by
  obtain ⟨accepted, haccepted, hcheck⟩ := checkTransfers_of_badTransfers h
  obtain ⟨-, hbans⟩ := answer_of_checkTransfers_error w around haccepted hcheck
  obtain ⟨before, t, rest, hpeek, hbefore, hoverdraft, rfl⟩ :=
    Accounts.exists_overdraft sound.money hcheck
  have hmem : t ∈ r.ledger.pools.peek s.maxTransactionsPerBlock
      (r.ledger.lastBlock.height + 1) := by
    rw [hpeek]
    exact List.mem_append_right _ List.mem_cons_self
  have hpending := (Pools.mem_pending sound.reached).mpr (Pools.get?_of_mem_peek hmem)
  refine ⟨before, t, rest, hpeek, hbefore, hoverdraft, rfl, ?_⟩
  rw [hbans t.hash rfl]
  exact Pools.expels_banEverywhere sound.reached sound.apart hpending

/-- Whatever the answer is, the pools and the money stay in order. -/
theorem Sound.answer (sound : r.Sound) (s : ProposerSettings) (w : Wallet) (around : Surroundings)
    (nonce : Transaction) : (r.answer s w around nonce).2.Sound := by
  obtain ⟨voting, pools, hbanned, hledger⟩ := ledger_answer r s w around nonce
  have hpools : (r.answer s w around nonce).2.ledger.pools = pools := by rw [hledger]
  have haccounts : (r.answer s w around nonce).2.ledger.accounts = r.ledger.accounts := by
    rw [hledger]
  constructor
  · rw [hpools]
    rcases hbanned with rfl | ⟨bad, rfl⟩
    · exact sound.reached
    · exact sound.reached.banEverywhere bad
  · rw [hpools]
    exact sound.apart.sheds hbanned.sheds
  · rw [haccounts]
    exact sound.money

theorem sheds_answer (r : Round) (s : ProposerSettings) (w : Wallet) (around : Surroundings)
    (nonce : Transaction) :
    r.ledger.pools.Sheds (r.answer s w around nonce).2.ledger.pools := by
  obtain ⟨voting, pools, hbanned, hledger⟩ := ledger_answer r s w around nonce
  rw [hledger]
  exact hbanned.sheds

/-! ## 4. Many rounds -/

/-- A course of rounds in which no transaction comes in, and how many of them failed for the
transfers.  The nonce transactions, the settings and all that surrounds them are any, and in between
anything else may happen to the ledger, even blocks that are committed, as long as the pools get no
new entry and the money still fits in one balance. -/
inductive Course (r : Round) : Nat → Round → Prop where
  | start : Course r 0 r
  | fails {n : Nat} {r' : Round} (h : Course r n r') (s : ProposerSettings) (w : Wallet)
      (around : Surroundings) (nonce : Transaction) (e : AccountError)
      (hfails : (r'.answer s w around nonce).1 = .error (.badTransfers e)) :
      Course r (n + 1) (r'.answer s w around nonce).2
  | goes {n : Nat} {r' : Round} (h : Course r n r') (s : ProposerSettings) (w : Wallet)
      (around : Surroundings) (nonce : Transaction)
      (hgoes : ∀ e, (r'.answer s w around nonce).1 ≠ .error (.badTransfers e)) :
      Course r n (r'.answer s w around nonce).2
  | meanwhile {n : Nat} {r' : Round} (h : Course r n r') (r'' : Round)
      (hsheds : r'.ledger.pools.Sheds r''.ledger.pools) (hreached : r''.ledger.pools.Reached)
      (hmoney : r''.ledger.accounts.balances.total < UInt64.size) : Course r n r''

/-- **Each failure costs a pending transaction**, and nothing brings one back. -/
theorem Course.length_pending {n : Nat} {r' : Round} (sound : r.Sound) (h : Course r n r') :
    r'.Sound ∧ n + r'.ledger.pools.pending.length ≤ r.ledger.pools.pending.length := by
  induction h with
  | start => exact ⟨sound, by omega⟩
  | fails h s w around nonce e hfails ih =>
    obtain ⟨hsound, hlength⟩ := ih
    obtain ⟨before, t, rest, -, -, -, -, hexpels⟩ := hsound.answer_expels hfails
    have hless := hexpels.length
    exact ⟨hsound.answer s w around nonce, by omega⟩
  | @goes n r' h s w around nonce hgoes ih =>
    obtain ⟨hsound, hlength⟩ := ih
    have hafter := hsound.answer s w around nonce
    have hle := (sheds_answer r' s w around nonce).length_pending_le hsound.reached hafter.reached
      hsound.apart
    exact ⟨hafter, by omega⟩
  | meanwhile h r'' hsheds hreached hmoney ih =>
    obtain ⟨hsound, hlength⟩ := ih
    have hle := hsheds.length_pending_le hsound.reached hreached hsound.apart
    exact ⟨⟨hreached, hsound.apart.sheds hsheds, hmoney⟩, by omega⟩

/-- **Rounds do not fail for the same transfers for ever.**  Each that fails expels the first
transaction, in the order of the offer, whose sender cannot pay, and changes no other entry of a
pool.  So in a course of rounds without new transactions no more rounds fail like that than there
were pending transactions at first, and none does after as many. -/
theorem overdrafts_run_out (r : Round) (sound : r.Sound) :
    (∀ s w around nonce e, (r.answer s w around nonce).1 = .error (.badTransfers e) →
      ∃ before t rest,
        r.ledger.pools.peek s.maxTransactionsPerBlock (r.ledger.lastBlock.height + 1) =
          before ++ t :: rest ∧
        r.ledger.accounts.books.Performs before ∧
        (r.ledger.accounts.books.after before).pay t t.body.sender < 0 ∧
        e = .insufficientBalance t.body.sender t.hash ∧
        r.ledger.pools.Expels t (r.answer s w around nonce).2.ledger.pools) ∧
    ∀ n r', Course r n r' →
      n + r'.ledger.pools.stats.count ≤ r.ledger.pools.stats.count ∧
      (n = r.ledger.pools.stats.count → ∀ s w around nonce e,
        (r'.answer s w around nonce).1 ≠ .error (.badTransfers e)) := by
  refine ⟨fun s w around nonce e h => sound.answer_expels h, ?_⟩
  intro n r' hcourse
  obtain ⟨hsound, hlength⟩ := hcourse.length_pending sound
  rw [Pools.length_pending hsound.reached, Pools.length_pending sound.reached] at hlength
  refine ⟨hlength, ?_⟩
  intro hall s w around nonce e hfails
  -- One more failure would be one too many.
  obtain ⟨hsound', hlength'⟩ :=
    (hcourse.fails s w around nonce e hfails).length_pending sound
  rw [Pools.length_pending sound.reached] at hlength'
  omega

end

/-! ## 5. An account that is empty -/

namespace Sample

open Ledger.Sample (zeros transfer operatorKey_zeros length_transfer)

local instance acceptsAll : SignatureSuite := Ledger.Sample.suite

/-- The first round, in which the operator has nothing to transfer. -/
def broke : Round :=
  { first with
    ledger := { first.ledger with accounts := { first.ledger.accounts with balances := ∅ } } }

theorem sound_broke : broke.Sound where
  reached := by
    have hpools : broke.ledger.pools = pools := rfl
    rw [hpools, pools_eq_add]
    exact (Pools.Reached.empty .standard).add _
  apart := by
    have hpools : broke.ledger.pools = pools := rfl
    have hvacant := Pools.vacant_empty .standard
    rw [hpools, pools_eq_add]
    exact hvacant.apart.add (Pools.contains_eq_false.mpr fun k => hvacant k _)
  money := by
    have hnothing : broke.ledger.accounts.balances.total = 0 := rfl
    rw [hnothing]
    decide

theorem count_broke : broke.ledger.pools.stats.count = 1 := by
  have hmax : Protocol.maxMessageBytes ≤ PoolLimits.standard.maxBytes := by decide
  have harrivals : ((Pool.empty .standard .standard).add (transfer zeros)).2.arrivals =
      [⟨transfer zeros, (transfer zeros).toBytes.length, 0⟩] :=
    Pool.arrivals_add_empty (by decide) ((length_transfer operatorKey_zeros).trans hmax)
  have hstandard : broke.ledger.pools.standard.pending = [transfer zeros] := by
    have hpool : broke.ledger.pools.standard =
        ((Pool.empty .standard .standard).add (transfer zeros)).2 := by
      simp only [broke, first, pools]
    rw [Pool.pending, hpool, harrivals]
    rfl
  rw [← Pools.length_pending sound_broke.reached, Pools.pending, hstandard]
  rfl

theorem answer_broke : ∃ e, (broke.answer settings wallet around
    (broke.nonce settings wallet around)).1 = .error (.badTransfers e) := by
  have hstakes : broke.ledger.accounts.staking = first.ledger.accounts.staking := rfl
  have hsender := (checkSender_congr hstakes).trans checkSender_first
  have haccepted := accept_nonce (r := broke) rfl rfl (signs_first (broke.nextSlot settings around))
    (fun slot => by cases slot <;> decide) (by decide) hsender
  have hpeek : broke.ledger.pools.peek settings.maxTransactionsPerBlock
      (broke.ledger.lastBlock.height + 1) = [transfer zeros] := peek_first
  have hnothing : broke.ledger.accounts.balances = ∅ := rfl
  have hpoor : Balances.get ∅ (transfer zeros).body.sender < (transfer zeros).body.amount := by
    have hzero : Balances.get ∅ (transfer zeros).body.sender = 0 := rfl
    have hamount : (transfer zeros).body.amount = 30 := rfl
    rw [hzero, hamount]
    decide
  have hcheck : broke.ledger.accounts.checkTransfers (broke.ledger.pools.peek
      settings.maxTransactionsPerBlock (broke.ledger.lastBlock.height + 1)) =
        .error (.insufficientBalance (transfer zeros).body.sender (transfer zeros).hash) := by
    rw [hpeek, Accounts.checkTransfers, hnothing, Balances.transfers, Balances.transfer_of_lt hpoor]
  exact ⟨_, (answer_of_checkTransfers_error _ _ haccepted hcheck).1⟩

end Sample

/-- A round of an operator who cannot make the only transfer fails once, and then never again. -/
theorem overdrafts_run_out_once :
    ∃ (_ : SignatureSuite) (r r' : Round), r.Sound ∧ r.ledger.pools.stats.count = 1 ∧
      r.Course 1 r' ∧ r'.ledger.pools.stats.count = 0 ∧
      ∀ s w around nonce e, (r'.answer s w around nonce).1 ≠ .error (.badTransfers e) := by
  let := Ledger.Sample.suite
  obtain ⟨e, hfails⟩ := Sample.answer_broke
  obtain ⟨-, hcourse⟩ := overdrafts_run_out Sample.broke Sample.sound_broke
  have hone := Course.start.fails _ _ _ _ e hfails
  obtain ⟨hfew, hnever⟩ := hcourse 1 _ hone
  rw [Sample.count_broke] at hfew
  exact ⟨_, _, _, Sample.sound_broke, Sample.count_broke, hone, by omega,
    hnever Sample.count_broke.symm⟩


end Round

end SynergyNode
