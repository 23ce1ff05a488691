import SynergyNode.Proofs.Ledger.Run
import SynergyNode.Proofs.Merkle

/-!
# What the header of a block binds

An operator signs the header, and whoever passes a block on may put other things around it.
Of what stands outside the header

* header hash, supply and reward follow from header and predecessor, and the transactions from
  the root in the header as far as the tree binds its leaves;
* the time of assembly, the share of the operator and the oracle values are free: a block with
  others is accepted when the share is within its limit and the hash, taken anew, passes the
  target.

`accepted_of_header_eq` says exactly this, and `accepted_with_other_contents` shows it on a block.
-/

namespace SynergyNode.Block

section

variable [SignatureSuite] {b b' previous : Block}

/-- The block passes all checks that need only its predecessor. -/
def Accepted (b previous : Block) : Prop := ∃ tree, b.checkBase previous = .ok tree

/-! ## 1. Checks that read only the header -/

/-- Given its header, an accepted block can differ from another one only in what is not asked
for here. -/
theorem accepted_iff_of_header_eq (h : b.Accepted previous) (hheader : b'.header = b.header) :
    b'.Accepted previous ↔
      (b'.headerHash = b.headerHash ∧ b'.supply = b.supply ∧ b'.reward = b.reward ∧
          b'.tree.root = b.tree.root) ∧
        b'.rewardPercentage ≤ Protocol.maxRewardPercentage ∧ b'.contentHash = b'.blockHash ∧
        Synergy.passes b'.blockHash b'.header.difficulty = true := by
  obtain ⟨tree, htree⟩ := h
  obtain ⟨linked, hash, -, declared, signed, economics, root, -⟩ := checkBase_eq_ok.mp htree
  obtain ⟨-, reward, supply, difficulty, -⟩ := checkEconomics_eq_ok.mp economics
  constructor
  · rintro ⟨tree', htree'⟩
    obtain ⟨-, hash', content', -, -, economics', root', -⟩ := checkBase_eq_ok.mp htree'
    obtain ⟨percentage', reward', supply', -, passes'⟩ := checkEconomics_eq_ok.mp economics'
    have hreward : b'.reward = b.reward := reward'.trans reward.symm
    refine ⟨⟨?_, ?_, hreward, ?_⟩, percentage', content', passes'⟩
    · rw [← hash', ← hash, hheader]
    · rw [supply', supply, hreward]
    · rw [root', root, hheader]
  · rintro ⟨⟨hhash, hsupply, hreward, hroot⟩, percentage', content', passes'⟩
    refine ⟨b'.tree, checkBase_eq_ok.mpr ⟨?_, ?_, content', ?_, ?_, ?_, ?_, rfl⟩⟩
    · rw [verifyLinkage_eq_ok] at linked ⊢
      rwa [height, hheader]
    · rw [hheader, hash, hhash]
    · obtain ⟨live, hlive⟩ := declared
      refine ⟨live, ?_⟩
      rw [schemes_eq_ok] at hlive ⊢
      rwa [hheader]
    · rwa [hheader]
    · refine checkEconomics_eq_ok.mpr ⟨percentage', ?_, ?_, ?_, passes'⟩
      · rw [hreward, reward]
      · rw [hsupply, hreward, supply]
      · rw [expectedDifficulty, hheader]
        exact difficulty
    · rw [hroot, root, hheader]

/-- A block with other contents around the same header: a second later, with the largest share,
other oracle values and the given transactions. -/
def altered (b : Block) (hashes : List Hash) : Block :=
  { b with
    timestamp := b.timestamp + 1
    rewardPercentage := Protocol.maxRewardPercentage
    priceOracle := b.priceOracle + 1
    randOracle := b.randOracle + 1
    txHashes := hashes }.sealed

omit [SignatureSuite] in
theorem header_altered (hashes : List Hash) : (b.altered hashes).header = b.header := rfl

theorem accepted_altered (h : b.Accepted previous) {hashes : List Hash}
    (hroot : (Merkle.Tree.mk b.height hashes).root = b.tree.root)
    (hpasses : Synergy.passes (b.altered hashes).blockHash b.header.difficulty = true) :
    (b.altered hashes).Accepted previous := by
  have hhash : (b.altered hashes).headerHash = b.headerHash := by
    obtain ⟨tree, htree⟩ := h
    exact (checkBase_eq_ok.mp htree).2.1
  exact (accepted_iff_of_header_eq h (header_altered hashes)).mpr
    ⟨⟨hhash, rfl, rfl, hroot⟩, UInt16.le_refl _, contentHash_sealed _, hpasses⟩

/-! ## 2. Two blocks with one header -/

/-- **What can be changed around a signed header.**  Next to an accepted block, a block with the
same header is accepted exactly when it has the same header hash, supply, reward and root of the
transactions, its share is within the limit, and its own hash is that of its content and passes
the target.

If it lists equally many transactions, they are then the same ones, unless two different pairs
of nodes of the two trees are joined to the same hash.  And it is the same block exactly when it
agrees on the time of assembly, the share, the oracle values and the transactions. -/
theorem accepted_of_header_eq (h : b.Accepted previous) (hheader : b'.header = b.header) :
    (b'.Accepted previous ↔
      (b'.headerHash = b.headerHash ∧ b'.supply = b.supply ∧ b'.reward = b.reward ∧
          b'.tree.root = b.tree.root) ∧
        b'.rewardPercentage ≤ Protocol.maxRewardPercentage ∧ b'.contentHash = b'.blockHash ∧
        Synergy.passes b'.blockHash b'.header.difficulty = true) ∧
      (b'.Accepted previous →
        (b'.txHashes.length = b.txHashes.length →
          (∀ p ∈ b'.tree.joined, ∀ q ∈ b.tree.joined,
            Merkle.join p.1 p.2 = Merkle.join q.1 q.2 → p = q) →
          b'.txHashes = b.txHashes) ∧
        (b' = b ↔
          b'.timestamp = b.timestamp ∧ b'.rewardPercentage = b.rewardPercentage ∧
            b'.priceOracle = b.priceOracle ∧ b'.randOracle = b.randOracle ∧
            b'.txHashes = b.txHashes)) := by
  refine ⟨accepted_iff_of_header_eq h hheader, fun h' => ?_⟩
  obtain ⟨⟨hhash, hsupply, hreward, hroot⟩, -, content', -⟩ :=
    (accepted_iff_of_header_eq h hheader).mp h'
  refine ⟨fun hlength hjoin => Merkle.Tree.leaves_eq_of_root_eq hroot hlength hjoin, ?_⟩
  constructor
  · rintro rfl
    exact ⟨rfl, rfl, rfl, rfl, rfl⟩
  · rintro ⟨htimestamp, hpercentage, hprice, hrand, htxs⟩
    obtain ⟨tree, htree⟩ := h
    have content := (checkBase_eq_ok.mp htree).2.2.1
    -- All that the hash covers is the same, so the hash is.
    have hcovered : ({ b' with blockHash := Hash.zero } : Block) =
        { b with blockHash := Hash.zero } :=
      (mk.injEq ..).mpr ⟨hheader, hhash, htimestamp, hpercentage, hsupply, hreward, hprice, hrand,
        htxs, rfl⟩
    have hblockHash : b'.blockHash = b.blockHash := by
      rw [← content', ← content, contentHash, contentHash, hashedBytes, hashedBytes, hcovered]
    cases b
    cases b'
    exact (mk.injEq ..).mpr ⟨hheader, hhash, htimestamp, hpercentage, hsupply, hreward, hprice,
      hrand, htxs, hblockHash⟩

end

open Ledger Ledger.Sample

/-- Two blocks that are accepted on the first one, with the same header and transactions. -/
theorem accepted_of_header_eq_block :
    ∃ (_ : SignatureSuite) (b b' : Block),
      (b.Accepted genesis ∧ b'.Accepted genesis) ∧ b'.header = b.header ∧
        b'.headerHash = b.headerHash ∧ b'.tree.root = b.tree.root ∧ b' ≠ b := by
  let := Sample.suite
  have haccepted : (Sample.block zeros []).Accepted genesis :=
    ⟨_, (checkBlock_eq_ok.mp (checkBlock_block operatorKey_zeros)).1⟩
  have haltered : ((Sample.block zeros []).altered []).Accepted genesis :=
    accepted_altered haccepted rfl (passes_one _)
  have hboth := accepted_of_header_eq haccepted (header_altered [])
  obtain ⟨⟨hhash, -, -, hroot⟩, -⟩ := hboth.1.mp haltered
  refine ⟨Sample.suite, _, _, ⟨haccepted, haltered⟩, header_altered [], hhash, hroot,
    fun heq => ?_⟩
  have hpercentage := ((hboth.2 haltered).2.mp heq).2.1
  exact absurd hpercentage (by decide)

/-- **A header does not bind its block.**  Around the header of an accepted block of three
transactions stand another time, share and other oracle values, or one more transaction, and the
block is accepted as well. -/
theorem accepted_with_other_contents :
    ∃ (_ : SignatureSuite) (b b' b'' : Block),
      (b.Accepted genesis ∧ b'.Accepted genesis ∧ b''.Accepted genesis) ∧
        (b'.header = b.header ∧ b'.timestamp ≠ b.timestamp ∧
          b'.rewardPercentage ≠ b.rewardPercentage ∧ b'.priceOracle ≠ b.priceOracle ∧
          b'.randOracle ≠ b.randOracle) ∧
        b''.header = b.header ∧ b''.txHashes.length = b.txHashes.length + 1 := by
  let := Sample.suite
  let three : List Hash := List.replicate 3 Hash.zero
  have haccepted : (Sample.block zeros three).Accepted genesis :=
    ⟨_, (checkBlock_eq_ok.mp (checkBlock_block operatorKey_zeros)).1⟩
  have hroot : (Merkle.Tree.mk 1 (three ++ [Hash.zero])).root = (Merkle.Tree.mk 1 three).root :=
    Merkle.Tree.root_concat_zero (by simp [three]) (by decide)
  exact ⟨Sample.suite, _, _, _,
    ⟨haccepted, accepted_altered haccepted rfl (passes_one _),
      accepted_altered haccepted hroot (passes_one _)⟩,
    ⟨header_altered _, by decide, by decide, by decide, by decide⟩, header_altered _, rfl⟩

end SynergyNode.Block
