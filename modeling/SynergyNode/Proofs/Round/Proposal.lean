import SynergyNode.Proofs.Ledger.Authority
import SynergyNode.Proofs.Pool
import SynergyNode.Proofs.Round.Declaration
import SynergyNode.Proofs.Round.NonceData

/-!
# The block that answers a nonce transaction

The proposer fills in linkage, difficulty, reward, supply, hashes, root and signer on its own; who
receives the block computes all of them again from the block before it.

* `accept_nonce`: the nonce transaction of a validator that may open rounds is accepted;
* `answer_eq_ok`: an answer is put together from the transactions that are next in line;
* `ledger_answer`: whether a round yields a block or not, only votes and bans change;
* `checkBase_assemble`: a block that was put together on the last block passes every check on top of
  it, if the key signs and the hash meets the target;
* `answer_passes_checkBase`: so does each answer.
-/

namespace SynergyNode

/-! ## 1. The sender of a nonce transaction -/

/-- The account of a delegated address. -/
theorem Address.delegatedId?_delegated {id : UInt8} (h : id ≠ 0) :
    (Address.delegated id).delegatedId? = some id := by
  simp [delegated, delegatedId?, h]

/-! ## 2. Signing -/

/-- One of the slots is in use. -/
def LiveSchemes.Open (live : LiveSchemes) : Prop := ∃ slot, (live.get slot).paused = false

/-- From the first block on, the slot to sign with is in use if any is. -/
theorem LiveSchemes.Open.signingSlot {live : LiveSchemes} (h : live.Open) {height : UInt64}
    (hheight : height ≠ 0) (choice : SignKeyChoice) (coin : Slot) :
    (live.get (live.signingSlot height choice coin)).paused = false := by
  obtain ⟨slot, hslot⟩ := h
  simp only [LiveSchemes.signingSlot, if_neg hheight]
  cases hprimary : live.primary.paused with
  | false =>
    cases hsecondary : live.secondary.paused with
    | false =>
      have hboth (slot : Slot) : (live.get slot).paused = false := by
        cases slot with
        | primary => exact hprimary
        | secondary => exact hsecondary
      exact hboth _
    | true => exact hprimary
  | true =>
    cases hsecondary : live.secondary.paused with
    | false => exact hsecondary
    | true =>
      cases slot with
      | primary => exact absurd (hprimary.symm.trans hslot) (by decide)
      | secondary => exact absurd (hsecondary.symm.trans hslot) (by decide)

section

variable [SignatureSuite]

/-- The signatures of a key are valid under the scheme that is live in the slot. -/
def LiveSchemes.Signs (live : LiveSchemes) (slot : Slot) (key : Keypair) : Prop :=
  ∀ message, ∃ scheme, (live.get slot).scheme = .ok scheme ∧
    scheme.verify key.publicKey message (key.sign message) = true

/-- A header signed with the key of a slot in use is signed by the operator of that key. -/
theorem Header.verifySignature_sign {h : Header} {live : LiveSchemes} {slot : Slot}
    {key : Keypair} (hoperator : h.operator = Address.ofPublicKey key.publicKey)
    (hopen : (live.get slot).paused = false) (hsigns : live.Signs slot key) :
    (h.sign slot key).verifySignature live = .ok () := by
  refine Header.verifySignature_eq_ok.mpr ⟨hoperator.symm, ?_⟩
  exact LiveSchemes.verify_eq_ok.mpr ⟨hopen, hsigns _⟩

end

namespace Round

open Ledger (declaredSchemes)

section

variable {r r' : Round} {s : ProposerSettings} {w : Wallet} {around : Surroundings}
  {nonce : Transaction} {b : Block} {txs : List Transaction} {height : UInt64}

/-- The slot in which a validator signs what belongs to the next height. -/
def nextSlot (r : Round) (s : ProposerSettings) (around : Surroundings) : Slot :=
  r.ledger.schemes.signingSlot (r.ledger.lastBlock.height + 1) s.signKeyChoice around.coin

/-! ## 3. From the nonce transaction to the block -/

/-- The pools after an attempt to select transactions: they stay, or one transaction is banned. -/
def Banned (before after : Pools) : Prop := after = before ∨ ∃ bad, after = before.banEverywhere bad

theorem Banned.sheds {before after : Pools} (h : Banned before after) : before.Sheds after := by
  rcases h with rfl | ⟨bad, rfl⟩
  · exact Pools.Sheds.refl after
  · exact Pools.sheds_banEverywhere before bad

theorem selectTransactions_eq_ok (h : r.selectTransactions s height = (.ok txs, r')) :
    txs = r.ledger.pools.peek s.maxTransactionsPerBlock height ∧
      r.ledger.accounts.checkTransfers txs = .ok () ∧ r' = r := by
  unfold selectTransactions at h
  simp only at h
  split at h
  · rename_i hcovered
    cases h
    exact ⟨rfl, hcovered, rfl⟩
  · cases h

theorem ledger_selectTransactions (r : Round) (s : ProposerSettings) (height : UInt64) :
    ∃ pools, Banned r.ledger.pools pools ∧
      (r.selectTransactions s height).2.ledger = { r.ledger with pools := pools } := by
  unfold selectTransactions
  simp only
  split
  · exact ⟨_, Or.inl rfl, rfl⟩
  · refine ⟨_, ?_, rfl⟩
    split
    · exact Or.inr ⟨_, rfl⟩
    · exact Or.inl rfl

section

variable [SignatureSuite]

/-- **The nonce transaction of a validator is accepted** when it signs in a slot in use and may open
rounds for its account. -/
theorem accept_nonce (hsyncing : r.ledger.syncing = false)
    (hopen : (r.ledger.schemes.get (r.nextSlot s around)).paused = false)
    (hsigns : r.ledger.schemes.Signs (r.nextSlot s around) (w.key (r.nextSlot s around)))
    (hvotes : ∀ slot, (s.votes.get slot).length < byteRange 4) (hid : s.delegatedId ≠ 0)
    {staked : UInt64}
    (hsender : r.checkSender s s.delegatedId (w.address (r.nextSlot s around)) = .ok staked) :
    r.accept s (r.nonce s w around) =
      .ok ⟨s.delegatedId, staked,
        ⟨r.ledger.lastBlock.height, r.ledger.lastBlock.blockHash, s.priceSample, around.rand,
          s.votes⟩⟩ := by
  let data : NonceData := ⟨r.ledger.lastBlock.height, r.ledger.lastBlock.blockHash,
    s.priceSample, around.rand, s.votes⟩
  have hverify : (r.nonce s w around).verify r.ledger.schemes = .ok () := by
    have hsignature := LiveSchemes.verify_eq_ok.mpr
      ⟨hopen, hsigns (r.nonce s w around).hash.toList⟩
    exact Transaction.verify_eq_ok.mpr ⟨rfl, rfl, hsignature⟩
  have hdata : NonceData.ofBytes (r.nonce s w around).body.data = .ok data :=
    NonceData.ofBytes_toBytes hvotes
  have hrefers : refersTo data r.ledger.lastBlock = true := by
    simp [refersTo, data]
  have hrecipient : (r.nonce s w around).body.recipient.delegatedId? = some s.delegatedId :=
    Address.delegatedId?_delegated hid
  have hheight : ¬ (r.nonce s w around).body.height ≠ r.ledger.lastBlock.height + 1 :=
    not_not_intro rfl
  have hsender : r.checkSender s s.delegatedId (r.nonce s w around).body.sender = .ok staked :=
    hsender
  simp only [accept, hsyncing, Bool.false_eq_true, if_false, if_neg hheight, hverify, hdata,
    hrefers, Bool.not_true, hrecipient, hsender]
  rfl

/-- **An answer is put together from the transactions that are next in line**, which cover each
other, after the samples and votes of the nonce transaction were recorded; its hash meets the
target. -/
theorem answer_eq_ok :
    r.answer s w around nonce = (.ok b, r') ↔ ∃ accepted,
      let height := r.ledger.lastBlock.height + 1
      let txs := r.ledger.pools.peek s.maxTransactionsPerBlock height
      r.accept s nonce = .ok accepted ∧ r.ledger.accounts.checkTransfers txs = .ok () ∧
        (r.record accepted height).assemble s w around nonce.body.sendingTime txs = (b, r') ∧
        Synergy.passes b.blockHash b.header.difficulty = true := by
  constructor
  · intro h
    unfold answer at h
    split at h
    · cases h
    rename_i accepted haccepted
    simp only at h
    split at h
    · cases h
    rename_i txs recorded hselected
    obtain ⟨rfl, hcovered, rfl⟩ := selectTransactions_eq_ok hselected
    split at h
    · rename_i hpasses
      cases h
      exact ⟨accepted, haccepted, hcovered, rfl, hpasses⟩
    · cases h
  · rintro ⟨accepted, haccepted, hcovered, hassembled, hpasses⟩
    have hselected : (r.record accepted (r.ledger.lastBlock.height + 1)).selectTransactions s
        (r.ledger.lastBlock.height + 1) =
          (.ok (r.ledger.pools.peek s.maxTransactionsPerBlock (r.ledger.lastBlock.height + 1)),
            r.record accepted (r.ledger.lastBlock.height + 1)) := by
      simp only [selectTransactions]
      split
      · rfl
      · rename_i hrefused
        cases hcovered.symm.trans hrefused
    simp only [answer, haccepted, hselected, hassembled, if_pos hpasses]

/-- **Whether a round yields a block or not, only votes and bans change.** -/
theorem ledger_answer (r : Round) (s : ProposerSettings) (w : Wallet) (around : Surroundings)
    (nonce : Transaction) :
    ∃ voting pools, Banned r.ledger.pools pools ∧
      (r.answer s w around nonce).2.ledger =
        { r.ledger with voting := voting, pools := pools } := by
  unfold answer
  split
  · exact ⟨_, _, Or.inl rfl, rfl⟩
  rename_i accepted _
  simp only
  obtain ⟨pools, hbanned, hledger⟩ := ledger_selectTransactions
    (r.record accepted (r.ledger.lastBlock.height + 1)) s (r.ledger.lastBlock.height + 1)
  split
  · rename_i hselected
    rw [hselected] at hledger
    exact ⟨_, pools, hbanned, hledger⟩
  · rename_i txs selected hselected
    have hselected : selected.ledger =
        { (r.record accepted (r.ledger.lastBlock.height + 1)).ledger with pools := pools } := by
      rw [hselected] at hledger
      exact hledger
    let asked := votesAsked selected.ledger.voting (selected.ledger.lastBlock.height + 1)
    have hassembled : (selected.assemble s w around nonce.body.sendingTime txs).2.ledger =
        { r.ledger with voting := asked, pools := pools } := by
      simp only [assemble, asked, hselected]
      rfl
    refine ⟨asked, pools, hbanned, ?_⟩
    split
    · exact hassembled
    · exact hassembled

/-! ## 4. What is computed twice -/

/-- **A block that is put together on the last block passes every check on top of it**, if the key
of the signing slot signs and the hash meets the target. -/
theorem checkBase_assemble (hlive : declaredSchemes r.ledger.lastBlock.header = .ok r.ledger.schemes)
    (hopen : r.ledger.schemes.Open) (hheight : r.ledger.lastBlock.height + 1 ≠ 0)
    (hcap : s.rewardPercentage ≤ Protocol.maxRewardPercentage)
    (hsigns : r.ledger.schemes.Signs (r.nextSlot s around) (w.key (r.nextSlot s around)))
    {nonceTime : UInt64} (h : r.assemble s w around nonceTime txs = (b, r'))
    (hpasses : Synergy.passes b.blockHash b.header.difficulty = true) :
    b.checkBase r.ledger.lastBlock = .ok b.tree := by
  obtain rfl : (r.assemble s w around nonceTime txs).1 = b := congrArg Prod.fst h
  have hschemes : ∃ declared,
      (r.assemble s w around nonceTime txs).1.schemes = .ok declared := by
    have hread := Ledger.descriptor_of_headerEncryption
      (b := (r.assemble s w around nonceTime txs).1) hlive rfl
    exact ⟨⟨_, _⟩, Block.schemes_eq_ok.mpr
      (Ledger.declaredSchemes_eq_ok.mpr fun slot => by cases slot <;> exact hread _)⟩
  have hsignature : (r.assemble s w around nonceTime txs).1.header.verifySignature
      r.ledger.schemes = .ok () :=
    Header.verifySignature_sign rfl (hopen.signingSlot hheight _ _) hsigns
  have heconomics : (r.assemble s w around nonceTime txs).1.checkEconomics r.ledger.lastBlock =
      .ok () :=
    Block.checkEconomics_eq_ok.mpr ⟨hcap, rfl, rfl, rfl, hpasses⟩
  exact Block.checkBase_eq_ok.mpr
    ⟨Block.verifyLinkage_eq_ok.mpr ⟨rfl, rfl⟩, Block.hash_sealed _, Block.contentHash_sealed _,
      hschemes, ⟨_, Block.schemes_eq_ok.mpr hlive, hsignature⟩, heconomics, rfl, rfl⟩

/-- **The block that answers a nonce transaction is one that every validator accepts on top of the
last block**, and it lists the transactions that are next in line, whose transfers are covered. -/
theorem answer_passes_checkBase
    (hlive : declaredSchemes r.ledger.lastBlock.header = .ok r.ledger.schemes)
    (hopen : r.ledger.schemes.Open) (hheight : r.ledger.lastBlock.height + 1 ≠ 0)
    (hcap : s.rewardPercentage ≤ 500)
    (hsigns : r.ledger.schemes.Signs (r.nextSlot s around) (w.key (r.nextSlot s around)))
    (h : r.answer s w around nonce = (.ok b, r')) :
    b.checkBase r.ledger.lastBlock = .ok b.tree ∧ b.height = r.ledger.lastBlock.height + 1 ∧
      b.txHashes =
        (r.ledger.pools.peek s.maxTransactionsPerBlock b.height).map Transaction.hash ∧
      r.ledger.accounts.checkTransfers
        (r.ledger.pools.peek s.maxTransactionsPerBlock b.height) = .ok () := by
  obtain ⟨accepted, -, hcovered, hassembled, hpasses⟩ := answer_eq_ok.mp h
  have hbase := checkBase_assemble (r := r.record accepted (r.ledger.lastBlock.height + 1))
    hlive hopen hheight hcap hsigns hassembled hpasses
  cases hassembled
  exact ⟨hbase, rfl, rfl, hcovered⟩

end

end

/-! ## 5. A validator on its own -/

namespace Sample

open Ledger.Sample (zeros transfer operatorKey_zeros)

local instance anySignature : SignatureSuite := Ledger.Sample.suite

/-- A pair of keys of a scheme. -/
def blank (s : Scheme) : Keypair where
  scheme := s
  publicKey := List.replicate s.publicKeyLength 0
  secretKey := List.replicate s.secretKeyLength 0
  length_publicKey := List.length_replicate
  length_secretKey := List.length_replicate

/-- The wallet of the operator. -/
def wallet : Wallet := ⟨⟨blank .falcon512, blank .dilithium5⟩, none⟩

/-- Half a minute after the first block. -/
def around : Surroundings where
  now := 1700000030
  rand := 7
  coin := .primary
  draw := 0
  freshKeys _ s := ⟨blank s, rfl⟩
  answers _ := false

/-- The operator takes half of the reward and does not vote. -/
def settings : ProposerSettings where
  delegatedId := 1
  rewardPercentage := 500
  chainId := 0
  signKeyChoice := .preferPrimary
  maxTransactionsPerBlock := 10
  minStakingForNode := 0
  priceSample := 42
  votes := PerSlot.both []

/-- Pools that took the transfer. -/
def pools : Pools :=
  { Pools.empty .standard with standard := ((Pool.empty .standard .standard).add (transfer zeros)).2 }

/-- The first round, with the transfer pending. -/
def first : Round where
  ledger := { Ledger.Sample.ledger zeros with pools := pools }
  oracle := OracleBook.empty

theorem peek_transfer {key : Bytes} (hkey : Ledger.Sample.OperatorKey key) :
    ((Pools.empty .standard).add (transfer key)).2.peek 10 1 = [transfer key] := by
  have hmax : Protocol.maxMessageBytes ≤ PoolLimits.standard.maxBytes := by decide
  have hheight : (transfer key).body.height = 0 := rfl
  have heligible : Pool.isEligible 1 (transfer key) = true := by
    rw [Pool.isEligible, hheight]
    decide
  exact Pools.peek_add_empty (by decide) ((Ledger.Sample.length_transfer hkey).trans hmax)
    heligible

theorem pools_eq_add : pools = ((Pools.empty .standard).add (transfer zeros)).2 := by
  have hkind : (transfer zeros).body.kind = .standard := rfl
  simp only [pools, Pools.add, hkind, Pools.get, Pools.set, Pools.empty]

theorem peek_first : pools.peek 10 1 = [transfer zeros] := by
  rw [pools_eq_add]
  exact peek_transfer operatorKey_zeros

theorem verify_blank (s : Scheme) (message : Bytes) :
    s.verify (blank s).publicKey message ((blank s).sign message) = true := by
  have hone : ([0] : Bytes).length ≤ s.signatureLength := by cases s <;> decide
  simp [Scheme.verify, blank, Keypair.sign, SignatureSuite.sign, SignatureSuite.valid]
  exact hone

theorem signs_first (slot : Slot) :
    LiveSchemes.initial.Signs slot (wallet.key slot) := by
  intro message
  cases slot with
  | primary => exact ⟨.falcon512, rfl, verify_blank _ message⟩
  | secondary => exact ⟨.dilithium5, rfl, verify_blank _ message⟩

theorem checkSender_first : first.checkSender settings 1 (wallet.address .primary) = .ok 0 := by
  have hoperator : wallet.address .primary = Address.ofPublicKey zeros := rfl
  have hentry : first.ledger.accounts.stakingOf? 1 = some ⟨0, [Address.ofPublicKey zeros]⟩ := rfl
  simp [checkSender, hentry, hoperator, settings]

theorem answer_first : ∃ b r', first.answer settings wallet around
    (first.nonce settings wallet around) = (.ok b, r') := by
  have haccepted := accept_nonce rfl rfl (signs_first (first.nextSlot settings around))
    (fun slot => by cases slot <;> decide) (by decide) checkSender_first
  have hcovered : first.ledger.accounts.checkTransfers
      (first.ledger.pools.peek settings.maxTransactionsPerBlock
        (first.ledger.lastBlock.height + 1)) = .ok () := by
    have hpeek : first.ledger.pools.peek settings.maxTransactionsPerBlock
        (first.ledger.lastBlock.height + 1) = List.replicate 1 (transfer zeros) := peek_first
    have hbalances : first.ledger.accounts.balances =
        Ledger.Sample.balances (Address.ofPublicKey zeros) 100 0 := rfl
    have hmoved : (Ledger.Sample.balances (Address.ofPublicKey zeros) 100 0).transfers
        (List.replicate 1 (transfer zeros)) =
          .ok (Ledger.Sample.balances (Address.ofPublicKey zeros) 70 30) :=
      Ledger.Sample.transfers_transfer operatorKey_zeros 1 (by decide) (by decide)
    rw [hpeek, Accounts.checkTransfers, hbalances, hmoved]
  exact ⟨_, _, answer_eq_ok.mpr ⟨_, haccepted, hcovered, rfl, Ledger.Sample.passes_one _⟩⟩

end Sample

/-- A validator that opens the first round answers itself with a block that lists the transfer, and
the block is valid. -/
theorem answer_passes_checkBase_own :
    ∃ (_ : SignatureSuite) (r r' : Round) (s : ProposerSettings) (w : Wallet)
      (around : Surroundings) (b : Block),
      r.answer s w around (r.nonce s w around) = (.ok b, r') ∧
        b.checkBase r.ledger.lastBlock = .ok b.tree ∧ b.height = 1 ∧
        b.txHashes = [(Ledger.Sample.transfer Ledger.Sample.zeros).hash] := by
  let := Ledger.Sample.suite
  obtain ⟨b, r', hanswer⟩ := Sample.answer_first
  obtain ⟨hbase, hheight, hlisted, -⟩ := answer_passes_checkBase
    History.declaredSchemes_genesis
    ⟨.primary, rfl⟩ (by decide) (by decide) (Sample.signs_first _) hanswer
  have hone : b.height = 1 := hheight.trans rfl
  have hpeek : Sample.first.ledger.pools.peek Sample.settings.maxTransactionsPerBlock 1 =
      [Ledger.Sample.transfer Ledger.Sample.zeros] := Sample.peek_first
  rw [hone, hpeek] at hlisted
  exact ⟨_, _, _, _, _, _, _, hanswer, hbase, hone, hlisted⟩

end Round

end SynergyNode
