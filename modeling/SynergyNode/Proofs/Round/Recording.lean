import SynergyNode.Proofs.Arrival
import SynergyNode.Proofs.Round.Proposal

/-!
# What a nonce transaction leaves on record

A round records samples and votes before it puts a block together, which may fail.  What is
recorded then stays, so all that is asked of a nonce transaction is asked first (`Round.Opens`,
`accept_eq_ok`).

* `Touches` says what may happen to a table of records: the record of one account is replaced by a
  given one, and then records are lost that do not count;
* `Round.records_record`, `Round.Records.assemble`: so it is with each table of a round, when
  something is recorded and when a block is put together;
* `Round.recorded_answer`: a round changes samples and votes only for a nonce transaction that opens
  it, and else only bans transactions.
-/

namespace SynergyNode

/-! ## 1. What is asked of a nonce transaction -/

/-- **The addresses of accounts** are those that name one. -/
theorem Address.delegatedId?_eq_some {a : Address} {id : UInt8} :
    a.delegatedId? = some id ↔ a = delegated id ∧ id ≠ 0 := by
  constructor
  · intro h
    unfold delegatedId? at h
    simp only at h
    split at h
    · rename_i hbytes
      obtain ⟨hnonzero, hzeros⟩ := hbytes
      have hlength : (a.bytes.toList.drop 19).length = 1 := by
        rw [List.length_drop, FixedBytes.length_toList]
      obtain ⟨last, hlast⟩ := List.length_eq_one_iff.mp hlength
      have hsplit : a.bytes.toList = List.replicate 19 0 ++ [last] := by
        rw [← hzeros, ← hlast, List.take_append_drop]
      have hid : last = id := by simpa [hsplit] using h
      subst hid
      refine ⟨?_, by simpa [hsplit] using hnonzero⟩
      obtain ⟨bytes⟩ := a
      exact congrArg Address.mk (FixedBytes.ext hsplit)
    · cases h
  · rintro ⟨rfl, hid⟩
    exact delegatedId?_delegated hid

namespace Round

section

variable [SignatureSuite] {r : Round} {s : ProposerSettings} {nonce : Transaction} {a : Accepted}

/-- A nonce transaction opens the next round, for an account with a stake and with what it says. -/
structure Opens (r : Round) (s : ProposerSettings) (nonce : Transaction) (a : Accepted) : Prop where
  idle : r.ledger.syncing = false
  /-- It is aimed at the height after the last block. -/
  height : nonce.body.height = r.ledger.lastBlock.height + 1
  verified : nonce.verify r.ledger.schemes = .ok ()
  data : NonceData.ofBytes nonce.body.data = .ok a.data
  /-- It names the last block. -/
  lastHeight : a.data.lastHeight = r.ledger.lastBlock.height
  lastHash : a.data.lastHash = r.ledger.lastBlock.blockHash
  /-- It is sent to the account. -/
  recipient : nonce.body.recipient = Address.delegated a.id
  delegated : a.id ≠ 0
  /-- The sender is an operator of the account, whose stake is high enough. -/
  operator : ∃ entry, r.ledger.accounts.stakingOf? a.id = some entry ∧
    nonce.body.sender ∈ entry.operators ∧ entry.staked = a.staked
  staked : s.minStakingForNode ≤ a.staked

omit [SignatureSuite] in
theorem checkSender_eq_ok {id : UInt8} {sender : Address} {staked : UInt64} :
    r.checkSender s id sender = .ok staked ↔
      (∃ entry, r.ledger.accounts.stakingOf? id = some entry ∧ sender ∈ entry.operators ∧
        entry.staked = staked) ∧ s.minStakingForNode ≤ staked := by
  unfold checkSender
  cases hentry : r.ledger.accounts.stakingOf? id with
  | none =>
    -- What is not there has no operators.
    have hnobody : sender ∉ (default : StakingEntry).operators := by
      simp [default]
    simp only [Option.getD_none, hnobody, not_false_eq_true, if_true]
    constructor
    · intro h
      split at h <;> cases h
    · rintro ⟨⟨entry, hnone, -⟩, -⟩
      cases hnone
  | some entry =>
    simp only [Option.getD_some]
    constructor
    · intro h
      split at h
      · cases h
      · rename_i hstake
        split at h
        · cases h
        · rename_i hlisted
          cases h
          exact ⟨⟨entry, rfl, not_not.mp hlisted, rfl⟩, UInt64.not_lt.mp hstake⟩
    · rintro ⟨⟨entry', hsome, hlisted, rfl⟩, hstake⟩
      cases hsome
      rw [if_neg (UInt64.not_lt.mpr hstake), if_neg (not_not.mpr hlisted)]

omit [SignatureSuite] in
theorem refersTo_iff {data : NonceData} {last : Block} :
    refersTo data last = true ↔ data.lastHeight = last.height ∧ data.lastHash = last.blockHash := by
  simp [refersTo]

/-- **A nonce transaction is accepted exactly when it opens the round.** -/
theorem accept_eq_ok : r.accept s nonce = .ok a ↔ r.Opens s nonce a := by
  constructor
  · intro h
    unfold accept at h
    simp only at h
    split at h
    · cases h
    rename_i hidle
    split at h
    · cases h
    rename_i hheight
    split at h
    · cases h
    rename_i hverified
    split at h
    · cases h
    rename_i data hdata
    split at h
    · cases h
    rename_i hrefers
    split at h
    · cases h
    rename_i id hid
    split at h
    · cases h
    rename_i staked hsender
    cases h
    obtain ⟨hlastHeight, hlastHash⟩ := refersTo_iff.mp (by simpa using hrefers)
    obtain ⟨hrecipient, hdelegated⟩ := Address.delegatedId?_eq_some.mp hid
    obtain ⟨hoperator, hstaked⟩ := checkSender_eq_ok.mp hsender
    exact
      { idle := by simpa using hidle
        height := not_not.mp hheight
        verified := hverified
        data := hdata
        lastHeight := hlastHeight
        lastHash := hlastHash
        recipient := hrecipient
        delegated := hdelegated
        operator := hoperator
        staked := hstaked }
  · intro h
    have hrefers := refersTo_iff.mpr ⟨h.lastHeight, h.lastHash⟩
    have hid := Address.delegatedId?_eq_some.mpr ⟨h.recipient, h.delegated⟩
    have hsender := checkSender_eq_ok.mpr ⟨h.operator, h.staked⟩
    simp [accept, h.idle, h.height, h.verified, h.data, hrefers, hid, hsender]

end

end Round

/-! ## 2. What may happen to a table -/

section

variable {α : Type} {counts : α → Bool} {new : α} {may : Prop} {id : UInt8}
  {before after : Std.ExtTreeMap UInt8 α}

/-- Between two tables records were lost that do not count; all others stayed. -/
def Forgets (counts : α → Bool) (before after : Std.ExtTreeMap UInt8 α) : Prop :=
  ∀ k : UInt8, after[k]? = before[k]? ∨
    (after[k]? = none ∧ ∃ old, before[k]? = some old ∧ counts old = false)

/-- First, under a condition, the record of one account may have been replaced by a given one. -/
def Touches (counts : α → Bool) (may : Prop) (id : UInt8) (new : α)
    (before after : Std.ExtTreeMap UInt8 α) : Prop :=
  Forgets counts before after ∨ may ∧ Forgets counts (before.insert id new) after

theorem Forgets.refl (table : Std.ExtTreeMap UInt8 α) : Forgets counts table table :=
  fun _ => Or.inl rfl

theorem Forgets.filter (h : Forgets counts before after) :
    Forgets counts before (after.filter fun _ a => counts a) := by
  intro k
  rw [Std.ExtTreeMap.getElem?_filter']
  rcases h k with hsame | ⟨hnone, hold⟩
  · rw [hsame]
    cases hold : before[k]? with
    | none => exact Or.inl rfl
    | some old =>
      cases hcounts : counts old with
      | true => simp [hcounts]
      | false => simp [hcounts]
  · right
    simp [hnone, hold]

theorem Touches.refl (table : Std.ExtTreeMap UInt8 α) : Touches counts may id new table table :=
  Or.inl (Forgets.refl table)

theorem Touches.insert (hmay : may) (before : Std.ExtTreeMap UInt8 α) :
    Touches counts may id new before (before.insert id new) :=
  Or.inr ⟨hmay, Forgets.refl _⟩

/-- Records that do not count may be dropped afterwards. -/
theorem Touches.filter (h : Touches counts may id new before after) :
    Touches counts may id new before (after.filter fun _ a => counts a) :=
  h.imp Forgets.filter fun ⟨hmay, hlater⟩ => ⟨hmay, hlater.filter⟩

end

/-! ## 3. The tables of a round -/

namespace Round

open Oracle

variable {r : Round} {s : ProposerSettings} {w : Wallet} {around : Surroundings}
  {nonce : Transaction} {a : Accepted} {height : UInt64}

/-- A vote of the height itself is live, unless it is empty. -/
theorem isLive_self {values : Bytes} (h : values ≠ []) (distance height staked : UInt64) :
    Voting.isLive distance height ⟨values, height, staked⟩ = true := by
  rw [← Bool.not_eq_false, Voting.isLive_eq_false]
  rintro (hexpired | hempty)
  · have hsum := Word64.toNat_saturatingAdd height distance
    have hheight := height.toNat_lt
    have hmax := Word64.toNat_max
    rw [Voting.Expired, UInt64.lt_iff_toNat_lt] at hexpired
    simp only at hexpired
    omega
  · exact h hempty

/-- The sample of an account for an oracle, as it is recorded. -/
def sample (a : Accepted) (height : UInt64) : Feed → Sample
  | .price => ⟨a.data.price, height, a.staked⟩
  | .rand => ⟨a.data.rand, height, a.staked⟩

theorem samples_orKeep_save (b : OracleBook) (feed other : Feed) (id : UInt8) (sample : Sample) :
    (orKeep b (b.save feed id sample)).samples other =
      if feed = other then OracleBook.aging.enter (b.samples other) id sample
      else b.samples other := by
  rw [← OracleBook.samples_after_save]
  cases hsave : b.save feed id sample with
  | error e => simp [orKeep, OracleBook.after, hsave]
  | ok b' => simp [orKeep, OracleBook.after, hsave]

/-- Each oracle hears its own sample. -/
theorem samples_record (r : Round) (a : Accepted) (height : UInt64) (feed : Feed) :
    (r.record a height).oracle.samples feed =
      OracleBook.aging.enter (r.oracle.samples feed) a.id (sample a height feed) := by
  have hrecord : (r.record a height).oracle =
      orKeep (orKeep r.oracle (r.oracle.save .price a.id (sample a height .price)))
        ((orKeep r.oracle (r.oracle.save .price a.id (sample a height .price))).save .rand a.id
          (sample a height .rand)) := rfl
  rw [hrecord, samples_orKeep_save, samples_orKeep_save]
  cases feed with
  | price => rfl
  | rand => rfl

/-- A sample that comes in is entered, unless there is a newer one. -/
theorem touches_record (r : Round) (a : Accepted) (height : UInt64) (feed : Feed)
    (counts : Sample → Bool) :
    Touches counts True a.id (sample a height feed) (r.oracle.samples feed)
      ((r.record a height).oracle.samples feed) := by
  rw [samples_record]
  rcases OracleBook.aging.enter_cases (r.oracle.samples feed) a.id (sample a height feed) with
    ⟨hnew, -⟩ | ⟨-, hkept, -⟩
  · rw [hnew]
    exact Touches.insert trivial _
  · rw [hkept]
    exact Touches.refl _

/-- The vote of an account for a slot, as it is recorded. -/
def vote (a : Accepted) (height : UInt64) (slot : Slot) : Vote :=
  ⟨a.data.votes.get slot, height, a.staked⟩

theorem recordVote_cases (v : Voting) (a : Accepted) (height : UInt64) (slot : Slot) :
    recordVote v a height slot = v ∨ a.data.votes.get slot ≠ [] ∧
      recordVote v a height slot =
        ⟨v.distance, v.tables.set slot ((v.tables.get slot).insert a.id (vote a height slot))⟩ := by
  unfold recordVote
  cases hsave : v.saveVote slot a.id ⟨a.data.votes.get slot, height, a.staked⟩ with
  | error e => exact Or.inl rfl
  | ok v' => exact Voting.saveVote_eq_ok hsave

theorem touches_recordVote (v : Voting) (a : Accepted) (height distance : UInt64) (slot : Slot) :
    Touches (Voting.isLive distance height)
      (Voting.isLive distance height (vote a height slot) = true) a.id (vote a height slot)
      (v.tables.get slot) ((recordVote v a height slot).tables.get slot) := by
  rcases recordVote_cases v a height slot with hsame | ⟨hvalues, hnew⟩
  · rw [hsame]
    exact Touches.refl _
  · rw [hnew, PerSlot.get_set_self]
    exact Touches.insert (isLive_self hvalues distance height a.staked) _

theorem get_recordVote_of_ne {slot other : Slot} (h : other ≠ slot) (v : Voting) (a : Accepted)
    (height : UInt64) :
    (recordVote v a height slot).tables.get other = v.tables.get other := by
  rcases recordVote_cases v a height slot with hsame | ⟨-, hnew⟩
  · rw [hsame]
  · rw [hnew, PerSlot.get_set_of_ne h]

theorem distance_recordVote (v : Voting) (a : Accepted) (height : UInt64) (slot : Slot) :
    (recordVote v a height slot).distance = v.distance := by
  rcases recordVote_cases v a height slot with hsame | ⟨-, hnew⟩
  · rw [hsame]
  · rw [hnew]

theorem get_votesAsked (v : Voting) (height : UInt64) (slot : Slot) :
    (votesAsked v height).tables.get slot = v.tables.get slot ∨
      (votesAsked v height).tables.get slot =
        (v.tables.get slot).filter fun _ vote => Voting.isLive v.distance height vote := by
  unfold votesAsked
  split
  · right
    cases slot with
    | primary => rfl
    | secondary => rfl
  · exact Or.inl rfl

theorem distance_votesAsked (v : Voting) (height : UInt64) :
    (votesAsked v height).distance = v.distance := by
  unfold votesAsked
  split
  · rfl
  · rfl

/-- **What an accepted nonce transaction may leave on record** at a height: of its own account
samples and votes of that height with the stake of the account, and of the others nothing new.
What no longer counts may be lost. -/
structure Records (r r' : Round) (a : Accepted) (height : UInt64) : Prop where
  prices : Touches (Samples.isRecent height) True a.id ⟨a.data.price, height, a.staked⟩
    r.oracle.prices r'.oracle.prices
  rands : Touches (Samples.isRecent height) True a.id ⟨a.data.rand, height, a.staked⟩
    r.oracle.rands r'.oracle.rands
  /-- A vote is recorded only if it is live. -/
  votes : ∀ slot, Touches (Voting.isLive r.ledger.voting.distance height)
    (Voting.isLive r.ledger.voting.distance height (vote a height slot) = true) a.id
    (vote a height slot) (r.ledger.voting.tables.get slot) (r'.ledger.voting.tables.get slot)
  distance : r'.ledger.voting.distance = r.ledger.voting.distance

theorem records_record (r : Round) (a : Accepted) (height : UInt64) :
    Records r (r.record a height) a height where
  prices := touches_record r a height .price _
  rands := touches_record r a height .rand _
  votes := by
    intro slot
    cases slot with
    | primary =>
      simp only [record]
      rw [get_recordVote_of_ne (by decide)]
      exact touches_recordVote _ _ _ _ _
    | secondary =>
      have hother : Slot.secondary ≠ Slot.primary := by decide
      simp only [record]
      rw [← get_recordVote_of_ne hother r.ledger.voting a height]
      exact touches_recordVote _ _ _ _ _
  distance := by
    simp only [record, distance_recordVote]

/-- Selecting transactions does not touch what is on record. -/
theorem Records.selectTransactions {r' : Round} (h : Records r r' a height)
    (s : ProposerSettings) (at' : UInt64) :
    Records r (r'.selectTransactions s at').2 a height := by
  unfold Round.selectTransactions
  simp only
  split
  · exact h
  · exact ⟨h.prices, h.rands, h.votes, h.distance⟩

/-- A block is put together from what counts; what does not is lost. -/
theorem Records.assemble [SignatureSuite] {r' : Round} (h : Records r r' a height)
    (hheight : r'.ledger.lastBlock.height + 1 = height) (s : ProposerSettings) (w : Wallet)
    (around : Surroundings) (nonceTime : UInt64) (txs : List Transaction) :
    Records r (r'.assemble s w around nonceTime txs).2 a height where
  prices := by
    subst hheight
    exact h.prices.filter
  rands := by
    subst hheight
    exact h.rands.filter
  votes := by
    intro slot
    subst hheight
    rcases get_votesAsked r'.ledger.voting (r'.ledger.lastBlock.height + 1) slot with hsame | hasked
    · simp only [Round.assemble]
      rw [hsame]
      exact h.votes slot
    · simp only [Round.assemble]
      rw [hasked, h.distance]
      exact (h.votes slot).filter
  distance := by
    simp only [Round.assemble, distance_votesAsked, h.distance]

/-! ## 4. A round -/

/-- Once its nonce transaction is accepted, a round leaves on record what it may, whether it yields
a block or not. -/
theorem records_answer [SignatureSuite] (haccepted : r.accept s nonce = .ok a) :
    Records r (r.answer s w around nonce).2 a (r.ledger.lastBlock.height + 1) := by
  have hrecorded := records_record r a (r.ledger.lastBlock.height + 1)
  have hselected := hrecorded.selectTransactions s (r.ledger.lastBlock.height + 1)
  obtain ⟨pools, -, hledger⟩ := ledger_selectTransactions
    (r.record a (r.ledger.lastBlock.height + 1)) s (r.ledger.lastBlock.height + 1)
  unfold answer
  simp only [haccepted]
  split
  · rename_i heq
    rw [heq] at hselected
    exact hselected
  · rename_i txs selected heq
    rw [heq] at hselected hledger
    have hheight : selected.ledger.lastBlock.height + 1 = r.ledger.lastBlock.height + 1 := by
      rw [hledger]
      rfl
    have hassembled := hselected.assemble hheight s w around nonce.body.sendingTime txs
    split
    · exact hassembled
    · exact hassembled

/-- **A nonce transaction that does not open the round changes no sample and no vote; one that does
changes those of its account**, to what it says, at its height and with the stake of the account.
What others said is lost only when it no longer counts.  Of the ledger nothing changes but votes,
and the pools, in which at most one transaction is banned. -/
theorem recorded_answer [SignatureSuite] (r : Round) (s : ProposerSettings) (w : Wallet)
    (around : Surroundings) (nonce : Transaction) :
    (((r.answer s w around nonce).2.oracle = r.oracle ∧
        (r.answer s w around nonce).2.ledger.voting = r.ledger.voting) ∨
      ∃ a, r.Opens s nonce a ∧
        Records r (r.answer s w around nonce).2 a (r.ledger.lastBlock.height + 1)) ∧
    ∃ voting pools, Banned r.ledger.pools pools ∧ r.ledger.pools.Sheds pools ∧
      (r.answer s w around nonce).2.ledger =
        { r.ledger with voting := voting, pools := pools } := by
  constructor
  · cases haccept : r.accept s nonce with
    | error e =>
      left
      simp [answer, haccept]
    | ok a => exact Or.inr ⟨a, accept_eq_ok.mp haccept, records_answer haccept⟩
  · obtain ⟨voting, pools, hbanned, hledger⟩ := ledger_answer r s w around nonce
    exact ⟨voting, pools, hbanned, hbanned.sheds, hledger⟩

end Round

end SynergyNode
