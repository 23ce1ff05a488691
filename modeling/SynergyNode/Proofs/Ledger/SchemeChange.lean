import SynergyNode.Proofs.Ledger.Run
import SynergyNode.Proofs.Quorum

/-!
# Changes of the schemes

A block of an open round may put another descriptor in a slot, or the same one paused or resumed.
Whether a slot changes is seen from the bytes in the headers, what it changes to from the
descriptors they denote, and what backs it from the votes, which are asked for one slot after the
other and forget some of their own each time.

* `checkChanges_eq_ok`: each slot is decided by the votes as they were before any was looked at;
* `scheme_changes_backed`: a slot changes only from height three on and with the votes behind just
  the descriptor that the block declares, the votes begin anew when a slot changed, and nothing
  happens to a slot that did not.
-/

namespace SynergyNode

theorem Block.mem_changedSlots {b previous : Block} {slot : Slot} :
    slot ∈ b.changedSlots previous ↔
      b.header.encryption.get slot ≠ previous.header.encryption.get slot := by
  have hall : slot ∈ Slot.all := by cases slot <;> simp [Slot.all]
  simp [changedSlots, hall]

namespace Ledger

variable {l l' : Ledger} {b : Block} {slots : List Slot} {slot : Slot}

/-! ## 1. What is checked of the slots -/

theorem checkBacked_eq_ok :
    l.checkBacked b slot = .ok () ↔
      ∃ current declared, l.lastBlock.header.descriptor slot = .ok current ∧
        b.header.descriptor slot = .ok declared ∧
        l.voting.decide? slot b.height l.accounts.totalStaked current = some declared := by
  unfold checkBacked
  cases l.lastBlock.header.descriptor slot with
  | error e => simp
  | ok current =>
    cases b.header.descriptor slot with
    | error e => simp
    | ok declared => simp

/-- Votes that were looked at before back the same slots. -/
theorem checkBacked_prune (l : Ledger) (b : Block) (looked slot : Slot) :
    checkBacked { l with voting := l.voting.prune looked b.height } b slot =
      l.checkBacked b slot := by
  simp only [checkBacked,
    Voting.decide?_congr (Voting.live_prune l.voting looked slot b.height)]

/-- **The slots of a block may change when each of them may**, by the votes as they were before. -/
theorem checkChanges_eq_ok :
    (l.checkChanges b .proposal slots).1 = .ok () ↔
      ∀ slot ∈ slots, Protocol.encryptionChangeMinHeight ≤ b.height ∧
        l.checkBacked b slot = .ok () := by
  induction slots generalizing l with
  | nil => simp [checkChanges]
  | cons first rest ih =>
    rw [List.forall_mem_cons, checkChanges]
    split
    · rename_i hlow
      simp [UInt64.not_le.mpr hlow]
    · rename_i hhigh
      rw [if_pos rfl]
      cases hbacked : l.checkBacked b first with
      | error e => simp
      | ok _ =>
        simp only [ih, checkBacked_prune, UInt64.not_lt.mp hhigh, true_and]

/-! ## 2. Changes that are committed -/

section

variable [SignatureSuite]

/-- **A block of an open round changes a slot only with the votes behind it**: from height three on,
and to the descriptor that the live votes back; then the votes of both slots begin anew.  A slot
whose bytes stay keeps its live scheme, and without a change all votes stay.  The live schemes are
again those that the last block declares. -/
theorem scheme_changes_backed {report : CommitReport}
    (h : l.commit b .proposal = (.ok report, l')) :
    (∀ slot, b.header.encryption.get slot ≠ l.lastBlock.header.encryption.get slot →
      3 ≤ b.height ∧
        ∃ current declared, l.lastBlock.header.descriptor slot = .ok current ∧
          b.header.descriptor slot = .ok declared ∧
          l.voting.Backs slot b.height l.accounts.totalStaked current declared ∧
          l'.schemes.get slot = declared ∧ ∀ other, l'.voting.tables.get other = ∅) ∧
    (∀ slot, b.header.encryption.get slot = l.lastBlock.header.encryption.get slot →
      l'.schemes.get slot = l.schemes.get slot) ∧
    (b.header.encryption = l.lastBlock.header.encryption → l'.voting = l.voting) ∧
    (declaredSchemes l.lastBlock.header = .ok l.schemes →
      declaredSchemes b.header = .ok l'.schemes) := by
  obtain ⟨txs, accounts, store, voting, haccepts, hchanges, rfl⟩ := commit_eq_ok h
  obtain ⟨live, hlive⟩ := declaredSchemes_of_checkBlock haccepts.checked
  have hschemes := (takeUpSchemes_of_declared hlive (b.changedSlots l.lastBlock) l.schemes).2
  refine ⟨fun slot hslot => ?_, fun slot hslot => ?_, fun hnone => ?_, fun hbefore => ?_⟩
  · have hmem := Block.mem_changedSlots.mpr hslot
    obtain ⟨hheight, hbacked⟩ :=
      checkChanges_eq_ok.mp (congrArg Prod.fst hchanges) slot hmem
    obtain ⟨current, declared, hcurrent, hdeclared, hdecided⟩ := checkBacked_eq_ok.mp hbacked
    refine ⟨hheight, current, declared, hcurrent, hdeclared, Voting.backs_of_decide? hdecided,
      ?_, ?_⟩
    · have hget := declaredSchemes_eq_ok.mp hlive slot
      rw [hdeclared] at hget
      exact (hschemes slot).trans ((if_pos hmem).trans (Except.ok.inj hget).symm)
    · intro other
      have hreset : b.changedSlots l.lastBlock ≠ [] := List.ne_nil_of_mem hmem
      simp only [committed, if_neg hreset]
      cases other <;> rfl
  · have hnot : slot ∉ b.changedSlots l.lastBlock := fun hmem =>
      Block.mem_changedSlots.mp hmem hslot
    exact (hschemes slot).trans (if_neg hnot)
  · have hempty := Block.changedSlots_of_encryption_eq hnone
    rw [hempty] at hchanges
    have hkept : l.voting = voting := congrArg (fun r => Ledger.voting r.2) hchanges
    simp only [committed, hempty, if_true, hkept]
  · rw [hlive]
    exact congrArg Except.ok (takeUpSchemes_changedSlots hbefore hlive).symm

end

/-! ## 3. A change of both slots -/

namespace Sample

local instance everySignature : SignatureSuite := suite

/-- Another scheme in the primary slot, and the secondary slot paused. -/
def proposed : LiveSchemes :=
  ⟨Descriptor.ofScheme .dilithium5 false, Descriptor.ofScheme .dilithium5 true⟩

/-- One vote for each of the two. -/
def votes : Voting :=
  ⟨60, proposed.map fun d => (∅ : VoteTable).insert 1 ⟨d.toBytes, 2, 30⟩⟩

/-- A block at height two. -/
def parent : Block := { Block.genesis with header := { Block.genesis.header with height := 2 } }

/-- A ledger at height two, in which all the stake is with an account that voted. -/
def voted : Ledger where
  store := Store.ofHistory (start (Address.ofPublicKey zeros)) []
  accounts :=
    { start (Address.ofPublicKey zeros) with
      staking := (∅ : Std.ExtTreeMap UInt8 StakingEntry).insert 1
        ⟨30, [Address.ofPublicKey zeros]⟩ }
  stats := ChainStats.empty
  schemes := LiveSchemes.initial
  voting := votes
  pools := Pools.empty .standard
  minStake := 0
  height := 2
  syncing := false
  lastBlock := parent

/-- The block that changes both slots. -/
def changing : Block :=
  Block.sealed
    { block zeros [] with
      header :=
        { (block zeros []).header with
          height := 3
          encryption := proposed.map Descriptor.toBytes
          merkleRoot := (Merkle.Tree.mk 3 []).root } }

theorem declaredSchemes_changing : declaredSchemes changing.header = .ok proposed := by
  refine declaredSchemes_eq_ok.mpr fun slot => ?_
  rw [changing, Block.header_sealed, Header.descriptor]
  cases slot <;> exact Descriptor.ofBytes_ofScheme ..

theorem declaredSchemes_parent : declaredSchemes parent.header = .ok LiveSchemes.initial :=
  History.declaredSchemes_genesis

/-- A block on top of `parent` that declares the given bytes. -/
def declaring (encryption : PerSlot Bytes) : Block :=
  Block.sealed
    { block zeros [] with
      header :=
        { (block zeros []).header with
          height := 3
          encryption := encryption
          merkleRoot := (Merkle.Tree.mk 3 []).root } }

theorem checkBlock_declaring {encryption : PerSlot Bytes} {declared : LiveSchemes}
    (hdeclared : declaredSchemes (declaring encryption).header = .ok declared) :
    voted.checkBlock (declaring encryption) = .ok () := by
  have hlinkage : (declaring encryption).verifyLinkage parent = .ok () :=
    Block.verifyLinkage_eq_ok.mpr ⟨rfl, rfl⟩
  have hsignature : (declaring encryption).header.verifySignature LiveSchemes.initial =
      .ok () := by
    simp only [Header.verifySignature, declaring, block, Block.header_sealed,
      verify_key operatorKey_zeros, ne_eq, not_true_eq_false, if_false]
  have hoperator : voted.checkOperator (declaring encryption) = .ok () := by
    simp [checkOperator, declaring, block, Block.header_sealed, voted, Accounts.stakingOf?]
  have heconomics : (declaring encryption).checkEconomics parent = .ok () := by
    have hblock : (block zeros []).checkEconomics Block.genesis = .ok () := checkEconomics_block
    obtain ⟨hcap, hreward, hsupply, hdifficulty, -⟩ := Block.checkEconomics_eq_ok.mp hblock
    exact Block.checkEconomics_eq_ok.mpr
      ⟨hcap, hreward, hsupply, hdifficulty, passes_one (declaring encryption).blockHash⟩
  exact checkBlock_eq_ok.mpr
    ⟨Block.checkBase_eq_ok.mpr
      ⟨hlinkage, Block.hash_sealed _, Block.contentHash_sealed _,
        ⟨_, Block.schemes_eq_ok.mpr hdeclared⟩,
        ⟨_, Block.schemes_eq_ok.mpr declaredSchemes_parent, hsignature⟩, heconomics, rfl, rfl⟩,
      hoperator⟩

theorem accepts_declaring {encryption : PerSlot Bytes} {declared : LiveSchemes}
    (hdeclared : declaredSchemes (declaring encryption).header = .ok declared) :
    ∃ accounts, voted.Accepts (declaring encryption) [] accounts := by
  have hsplit : Synergy.splitReward (declaring encryption).reward
      (declaring encryption).rewardPercentage = (0, 20700000000) := by
    have hwhole : Synergy.splitReward 20700000000 0 = (0, 20700000000) := by decide
    simp only [declaring, block, Block.reward_sealed, Block.rewardPercentage_sealed, hwhole]
  have hpaid := payShare_delegated (operatorKey_zeros.undelegated 1) 100 0
  have hmoved : voted.accounts.balances.transfers [] =
      .ok (balances (Address.ofPublicKey zeros) 100 0) := rfl
  have happlied := Accounts.applyBlock_of_delegated hsplit hmoved hpaid
  have hlive : voted.lastBlock.schemes = .ok LiveSchemes.initial :=
    Block.schemes_eq_ok.mpr declaredSchemes_parent
  exact ⟨_, checkBlock_declaring hdeclared, execute_eq_ok.mpr ⟨rfl, ⟨_, hlive, rfl⟩, happlied⟩⟩

theorem accepts_changing : ∃ accounts, voted.Accepts changing [] accounts :=
  accepts_declaring declaredSchemes_changing

theorem encryption_changing (slot : Slot) :
    changing.header.encryption.get slot ≠ parent.header.encryption.get slot := by
  intro hsame
  have hcurrent := declaredSchemes_eq_ok.mp declaredSchemes_parent slot
  have hdeclared := declaredSchemes_eq_ok.mp declaredSchemes_changing slot
  rw [Header.descriptor, hsame] at hdeclared
  rw [Header.descriptor, hdeclared] at hcurrent
  have hdiffers : proposed.get slot ≠ LiveSchemes.initial.get slot := by cases slot <;> decide
  exact hdiffers (Except.ok.inj hcurrent)

theorem decide?_votes (slot : Slot) :
    voted.voting.decide? slot changing.height voted.accounts.totalStaked (voted.schemes.get slot) =
      some (proposed.get slot) := by
  have hdecided : votes.decide? slot 3 30 (LiveSchemes.initial.get slot) =
      some (proposed.get slot) := by
    cases slot <;> decide +kernel
  exact hdecided

theorem checkBacked_changing (slot : Slot) : voted.checkBacked changing slot = .ok () := by
  have hcurrent := declaredSchemes_eq_ok.mp declaredSchemes_parent slot
  have hdeclared := declaredSchemes_eq_ok.mp declaredSchemes_changing slot
  exact checkBacked_eq_ok.mpr ⟨_, _, hcurrent, hdeclared, decide?_votes slot⟩

end Sample

/-- One block carries out the vote for another scheme in one slot and the vote that pauses the
other. -/
theorem scheme_changes_backed_both :
    ∃ (_ : SignatureSuite) (l l' : Ledger) (b : Block) (report : CommitReport),
      l.commit b .proposal = (.ok report, l') ∧
        ∀ slot, b.header.encryption.get slot ≠ l.lastBlock.header.encryption.get slot ∧
          l.voting.Backs slot b.height l.accounts.totalStaked (l.schemes.get slot)
            (l'.schemes.get slot) ∧
          l'.voting.tables.get slot = ∅ := by
  let := Sample.suite
  obtain ⟨accounts, haccepts⟩ := Sample.accepts_changing
  have hs : Sample.voted.store.Reliable := Store.reliable_ofHistory _ []
  have hallowed : Protocol.encryptionChangeMinHeight ≤ Sample.changing.height := by decide
  obtain ⟨looked, hcommit⟩ := commit_of_checkChanges hs haccepts
    (checkChanges_eq_ok.mpr fun slot _ => ⟨hallowed, Sample.checkBacked_changing slot⟩)
  refine ⟨Sample.suite, _, _, _, _, hcommit, fun slot => ?_⟩
  have hslot := Sample.encryption_changing slot
  obtain ⟨-, current, declared, hcurrent, -, hbacks, hlive, hempty⟩ :=
    (scheme_changes_backed hcommit).1 slot hslot
  have hbefore := declaredSchemes_eq_ok.mp Sample.declaredSchemes_parent slot
  have hsame : LiveSchemes.initial.get slot = current :=
    Except.ok.inj (hbefore.symm.trans hcurrent)
  refine ⟨hslot, ?_, hempty slot⟩
  rw [hlive]
  exact hsame ▸ hbacks

end Ledger

end SynergyNode
