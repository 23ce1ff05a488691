import SynergyNode.Proofs.Ledger.Consistency
import SynergyNode.Proofs.Sync.Verdict

/-!
# What a chain is given up for

A ledger gives up its blocks for the first entry of a batch that differs from them.  The
signature of that block is looked at only if it names the block before it as its parent
(`Follower.onHeaders_forked`).  A block that names another parent need not be signed at all:
whoever knows the address of an operator can make a ledger give up the blocks from any height on
(`Ledger.Keeps.takeBatch_forged`).
-/

namespace SynergyNode

/-! ## 1. Signed headers -/

section

variable [SignatureSuite]

/-- The operator of a header holds its key, and the signature is valid under the descriptors of
some known schemes. -/
def Header.Signed (h : Header) : Prop :=
  ∃ live : LiveSchemes, (∀ slot, ∃ s, (live.get slot).validate = .ok s) ∧
    h.verifySignature live = .ok ()

theorem Header.not_signed_of_empty {h : Header} (hempty : h.signature = []) : ¬ h.Signed := by
  rintro ⟨live, -, hsigned⟩
  obtain ⟨-, hverify⟩ := Header.verifySignature_eq_ok.mp hsigned
  obtain ⟨-, s, -, hvalid⟩ := LiveSchemes.verify_eq_ok.mp hverify
  simp [Scheme.verify, hempty] at hvalid

/-- A block that is valid on another one is signed. -/
theorem Block.signed_of_checkBase {b parent : Block} {tree : Merkle.Tree}
    (h : b.checkBase parent = .ok tree) : b.header.Signed := by
  obtain ⟨-, -, -, -, ⟨live, hlive, hsigned⟩, -, -, -⟩ := Block.checkBase_eq_ok.mp h
  refine ⟨live, fun slot => ?_, hsigned⟩
  exact Descriptor.validate_of_ofBytes
    (Ledger.declaredSchemes_eq_ok.mp (Block.schemes_eq_ok.mp hlive) slot)

/-! ## 2. What a fork rests on -/

/-- **What a chain was given up for.**  All entries before the one that differs agreed with the
chain or went on from it.  The block that differs is meant for its height and names a listed
operator; it is signed if it names the block gone through before it, or else the stored one
below, as its parent. -/
theorem Follower.onHeaders_forked {f : Follower} {batch : HeaderBatch} {fork target : UInt64}
    (h : (f.onHeaders batch).1 = .ok (.forked fork target)) :
    ∃ before b after seen found own parent, batch = before ++ (fork, b) :: after ∧
      f.ledger.Passes none [] before seen found ∧
      f.ledger.storedBlock fork = .ok own ∧ own.blockHash ≠ b.blockHash ∧
      f.ledger.parentOf fork seen = .ok parent ∧ b.height = fork ∧ f.ledger.Lists b ∧
      (b.header.previousHash = parent.blockHash → b.header.Signed) := by
  rw [fst_onHeaders] at h
  rcases Ledger.takeBatch_cases f.ledger f.rollbackDistance batch with
    ⟨outcome, hrefusal, heq⟩ | ⟨fork', hverdict, -, heq⟩ | ⟨-, -, heq⟩
  · rw [heq] at h
    cases h
    cases hrefusal
  · rw [heq] at h
    have hsame : fork' = fork := by
      unfold Ledger.abandonFrom at h
      split at h
      · cases h
      · cases h
        rfl
    subst hsame
    obtain ⟨before, b, after, seen, found, hbatch, hpasses, hdiffers⟩ :=
      Ledger.examine_eq_fork.mp hverdict
    obtain ⟨own, hown, hother⟩ := hdiffers.stored
    obtain ⟨parent, hparent, hcompetes⟩ := hdiffers.competes
    exact ⟨before, b, after, seen, found, own, parent, hbatch, hpasses, hown, hother, hparent,
      hcompetes.height, hcompetes.listed,
      fun hlinked => Block.signed_of_checkBase (hcompetes.valid hlinked)⟩
  · rw [heq] at h
    exact absurd h (Ledger.commitBatch_ne_forked batch)

end

/-! ## 3. Blocks that nobody signed -/

/-- A hash other than the given one. -/
def Hash.other (h : Hash) : Hash :=
  if h = zero then ⟨List.replicate 32 1, List.length_replicate⟩ else zero

theorem Hash.other_ne (h : Hash) : h.other ≠ h := by
  unfold other
  split
  · rename_i hzero
    rw [hzero]
    decide
  · rename_i hother
    exact Ne.symm hother

/-- A block without key and signature.  It names an operator, but neither the given parent nor the
given hash. -/
def Block.forged (height : UInt64) (id : UInt8) (operator : Address) (parent own : Hash) : Block :=
  { Block.genesis with
    header :=
      { Block.genesis.header with
        previousHash := parent.other
        height := height
        delegatedId := id
        operator := operator }
    blockHash := own.other }

theorem Block.not_signed_forged [SignatureSuite] (height : UInt64) (id : UInt8)
    (operator : Address) (parent own : Hash) :
    ¬ (Block.forged height id operator parent own).header.Signed :=
  Header.not_signed_of_empty rfl

namespace Ledger

section

variable {start : Accounts} {l : Ledger} {c : History}

/-- Two entries of which the first is on the chain and the second above it are looked at. -/
theorem ignores?_pair (hlast : l.lastBlock.height = l.height) {k : UInt64} (low : k ≤ l.height)
    (hmax : l.height ≠ Word64.max) (b : Block) :
    l.ignores? [(k, b), (l.height + 1, b)] = none := by
  have hword := Word64.toNat_max
  have hlt := l.height.toNat_lt
  have hmax' : l.height.toNat ≠ Word64.max.toNat := fun h => hmax (UInt64.toNat_inj.mp h)
  have hnext : (l.height + 1).toNat = l.height.toNat + 1 := by
    rw [UInt64.toNat_add, UInt64.toNat_one]
    omega
  have hlonger : ¬ l.height + 1 < l.height := by
    rw [UInt64.lt_iff_toNat_lt]
    omega
  have hother : l.height + 1 ≠ l.height := by
    intro h
    rw [h] at hnext
    omega
  have hconnected : ¬ l.height < k := UInt64.not_lt.mpr low
  simp [ignores?, hlast, hlonger, hother, hconnected]

/-- A chain is given up from any height on, for a block that competes there and has another hash. -/
theorem Keeps.takeBatch_of_competes [SignatureSuite] (h : Keeps start l c)
    (hfollows : Follows start l c) (hfits : ∀ e ∈ c, e.Fits)
    (hstart : start.toBytes.length ≤ Protocol.maxMessageBytes) (hflag : l.syncing = false)
    (hmax : l.height ≠ Word64.max) {k : UInt64} (hpos : k ≠ 0) (low : k ≤ l.height) {b : Block}
    (hother : (c.cut k.toNat).tip.blockHash ≠ b.blockHash)
    (hcompetes : l.Competes k b (c.cut (k - 1).toNat).tip) (distance : UInt64) :
    (l.takeBatch distance [(k, b), (l.height + 1, b)]).1 =
      .ok (.forked k (Word64.saturatingSub k distance)) := by
  have hlast : l.lastBlock.height = l.height := by
    rw [hfollows.last, hfollows.height]
  have hbelow : k - 1 ≤ l.height := by
    have hone : k.toNat ≠ 0 := fun h => hpos (UInt64.toNat_inj.mp h)
    rw [UInt64.le_iff_toNat_le] at low ⊢
    rw [UInt64.toNat_sub_of_le k 1 (UInt64.le_iff_toNat_le.mpr (by rw [UInt64.toNat_one]; omega)),
      UInt64.toNat_one]
    omega
  have hdiffers : l.Differs none k b :=
    { pos := hpos
      low := by rw [hlast]; exact low
      stored := ⟨_, storedBlock_eq_ok.mpr (h.block? hfollows hfits low), hother⟩
      competes :=
        ⟨_, parentOf_eq_ok.mpr (Or.inr ⟨rfl, h.block? hfollows hfits hbelow⟩), hcompetes⟩ }
  have hraised : Follows start { l with syncing := true } c :=
    hfollows.recedes (Store.Recedes.refl 0 l.store) l.pools l.voting l.stats true
  have hok : (Ledger.rollback { l with syncing := true } (Word64.saturatingSub k distance)).1 =
      .ok () := by
    rcases Keeps.rollback (l := { l with syncing := true }) ⟨h.store, h.fresh⟩ hraised
        (Word64.saturatingSub k distance) with ⟨hok, -⟩ | ⟨-, hlong⟩
    · exact hok
    · exact absurd ⟨hstart, hfits⟩ hlong
  rw [takeBatch_of_fork distance (ignores?_pair hlast low hmax b) (hdiffers.examine _) hflag,
    abandonFrom_eq_forked hraised low hok]

/-- A block that nobody signed competes if it names a listed operator. -/
theorem competes_forged [SignatureSuite] {k : UInt64} {id : UInt8} {entry : StakingEntry}
    (hentry : l.accounts.stakingOf? id = some entry) {operator : Address}
    (hlisted : operator ∈ entry.operators) (hstake : l.minStake ≤ entry.staked) (parent : Block)
    (own : Hash) : l.Competes k (Block.forged k id operator parent.blockHash own) parent where
  height := rfl
  valid hlinked := absurd hlinked (Hash.other_ne _)
  listed := ⟨entry, hentry, hlisted, hstake⟩

/-- **A chain is given up for a block that nobody signed**, from any height on, if the block names
a listed operator. -/
theorem Keeps.takeBatch_forged [SignatureSuite] (h : Keeps start l c)
    (hfollows : Follows start l c) (hfits : ∀ e ∈ c, e.Fits)
    (hstart : start.toBytes.length ≤ Protocol.maxMessageBytes) (hflag : l.syncing = false)
    (hmax : l.height ≠ Word64.max) {k : UInt64} (hpos : k ≠ 0) (low : k ≤ l.height) {id : UInt8}
    {entry : StakingEntry} (hentry : l.accounts.stakingOf? id = some entry)
    {operator : Address} (hlisted : operator ∈ entry.operators)
    (hstake : l.minStake ≤ entry.staked) (distance : UInt64) {b : Block}
    (hb : b = Block.forged k id operator (c.cut (k - 1).toNat).tip.blockHash
      (c.cut k.toNat).tip.blockHash) :
    (l.takeBatch distance [(k, b), (l.height + 1, b)]).1 =
      .ok (.forked k (Word64.saturatingSub k distance)) := by
  subst hb
  exact h.takeBatch_of_competes hfollows hfits hstart hflag hmax hpos low
    (Ne.symm (Hash.other_ne _)) (competes_forged hentry hlisted hstake _ _) distance

end

namespace Sample

/-- The follower whose chain is the sample block. -/
def follower (key : Bytes) : Follower := .new (later key 1 70 30) 1

/-- A block at the height of the sample block that names its operator and is not signed. -/
def forged (key : Bytes) : Block :=
  Block.forged 1 1 (Address.ofPublicKey key) Block.genesis.blockHash
    (entry key 1 70 30).block.blockHash

variable {key : Bytes}

theorem blockHash_forged : (entry key 1 70 30).block.blockHash ≠ (forged key).blockHash :=
  Ne.symm (Hash.other_ne _)

theorem height_later : (later key 1 70 30).height = 1 := by
  simp only [later, committed, block, Block.height, Block.header_sealed]

theorem keeps_later (hkey : OperatorKey key) (n : Nat) (rest sum : UInt64) (hn : n ≤ 2)
    (hrest : (100 : UInt64).toNat = 30 * n + rest.toNat)
    (hsum : (0 : UInt64).toNat + 30 * n = sum.toNat) :
    Keeps (start (Address.ofPublicKey key)) (later key n rest sum) [entry key n rest sum] ∧
      Follows (start (Address.ofPublicKey key)) (later key n rest sum) [entry key n rest sum] := by
  let := suite
  have run := run_block hkey n rest sum hn hrest hsum
  exact ⟨(run.completes length_start).keeps, run.follows⟩

theorem fits_later (hkey : OperatorKey key) : ∀ e ∈ [entry key 1 70 30], e.Fits :=
  List.forall_mem_singleton.mpr (fits_entry hkey (by decide) 70 30)

theorem tip_cut_entry :
    (History.cut [entry key 1 70 30] (UInt64.toNat 1)).tip = (entry key 1 70 30).block ∧
      (History.cut [entry key 1 70 30] (UInt64.toNat (1 - 1))).tip = Block.genesis := by
  have hzero : UInt64.toNat (1 - 1) = 0 := rfl
  rw [History.cut_of_length_le (Nat.le_refl 1), hzero, History.cut_zero]
  exact ⟨rfl, rfl⟩

theorem storedBlock_later (hkey : OperatorKey key) :
    (later key 1 70 30).storedBlock 1 = .ok (entry key 1 70 30).block := by
  obtain ⟨hkeeps, hfollows⟩ := keeps_later hkey 1 70 30 (by decide) rfl rfl
  have hlow : 1 ≤ (later key 1 70 30).height := by
    rw [height_later]
    exact UInt64.le_refl 1
  rw [storedBlock_eq_ok, hkeeps.block? hfollows (fits_later hkey) hlow, tip_cut_entry.1]

theorem parentOf_later (hkey : OperatorKey key) :
    (later key 1 70 30).parentOf 1 none = .ok Block.genesis := by
  obtain ⟨hkeeps, hfollows⟩ := keeps_later hkey 1 70 30 (by decide) rfl rfl
  have hbelow : (1 : UInt64) - 1 ≤ (later key 1 70 30).height := by
    rw [height_later]
    decide
  have hstored := hkeeps.block? hfollows (fits_later hkey) hbelow
  rw [tip_cut_entry.2] at hstored
  exact parentOf_eq_ok.mpr (Or.inr ⟨rfl, hstored⟩)

/-- The chain is given up for any block that competes with the sample block. -/
theorem outcome_of_competes [SignatureSuite] (hkey : OperatorKey key) {b : Block}
    (hother : (entry key 1 70 30).block.blockHash ≠ b.blockHash)
    (hcompetes : (later key 1 70 30).Competes 1 b Block.genesis) :
    ((follower key).onHeaders [(1, b), (2, b)]).1 = .ok (.forked 1 0) := by
  obtain ⟨hkeeps, hfollows⟩ := keeps_later hkey 1 70 30 (by decide) rfl rfl
  have hlow : 1 ≤ (later key 1 70 30).height := by
    rw [height_later]
    exact UInt64.le_refl 1
  have hmax : (later key 1 70 30).height ≠ Word64.max := by
    rw [height_later]
    decide
  have hforked := hkeeps.takeBatch_of_competes hfollows (fits_later hkey) length_start rfl hmax
    (by decide) hlow (by rw [tip_cut_entry.1]; exact hother)
    (by rw [tip_cut_entry.2]; exact hcompetes) 1
  have htwo : (1 : UInt64) + 1 = 2 := rfl
  have hzero : Word64.saturatingSub 1 1 = 0 := by decide
  rw [height_later, htwo, hzero] at hforked
  rw [Follower.fst_onHeaders]
  exact hforked

/-- The chain is given up for the block that is not signed, whatever signatures are valid. -/
theorem outcome_forged [SignatureSuite] (hkey : OperatorKey key) :
    ((follower key).onHeaders [(1, forged key), (2, forged key)]).1 = .ok (.forked 1 0) := by
  have hentry : (later key 1 70 30).accounts.stakingOf? 1 =
      some ⟨0, [Address.ofPublicKey key]⟩ := rfl
  exact outcome_of_competes hkey blockHash_forged
    (competes_forged hentry (List.mem_singleton_self _) (UInt64.le_refl 0) Block.genesis
      (entry key 1 70 30).block.blockHash)

local instance everyHeader : SignatureSuite := suite

/-- A block that lists nothing is valid on the first one, and competes. -/
theorem competes_entry (hkey : OperatorKey key) :
    (later key 1 70 30).Competes 1 (entry key 0 100 0).block Block.genesis := by
  obtain ⟨hvalid, hlisted⟩ := checkBlock_eq_ok.mp (checkBlock_block hkey)
  obtain ⟨entry, hentry, hnamed, hstake⟩ := checkOperator_eq_ok.mp hlisted
  exact
    { height := by rw [Block.height, Sample.entry, block, Block.header_sealed]
      valid := fun _ => hvalid
      listed := ⟨entry, hentry, hnamed, hstake⟩ }

/-- Of the block that lists the transfer and the one that does not, the former has the lower
hash. -/
theorem compare_entry : compare (entry zeros 1 70 30).block.blockHash
    (entry zeros 0 100 0).block.blockHash = .lt := by decide +kernel

theorem blockHash_entry :
    (entry zeros 1 70 30).block.blockHash ≠ (entry zeros 0 100 0).block.blockHash := by
  intro hsame
  have hlower := compare_entry
  rw [hsame, Std.ReflOrd.compare_self] at hlower
  cases hlower

end Sample

/-- **A chain of one block is given up for a block that nobody signed**, whatever signatures are
valid. -/
theorem forked_for_unsigned :
    ∃ (f : Follower) (own b : Block), f.ledger.Consistent ∧ f.ledger.height = 1 ∧
      f.ledger.storedBlock 1 = .ok own ∧ own.blockHash ≠ b.blockHash ∧ ∀ _ : SignatureSuite,
        (f.onHeaders [(1, b), (2, b)]).1 = .ok (.forked 1 0) ∧ ¬ b.header.Signed := by
  have hkey := Sample.operatorKey_zeros
  have consistent : (Sample.later Sample.zeros 1 70 30).Consistent := by
    let := Sample.suite
    exact (Sample.run_block hkey 1 70 30 (by decide) rfl rfl).consistent Sample.length_start
  exact ⟨Sample.follower Sample.zeros, _, Sample.forged Sample.zeros, consistent,
    Sample.height_later, Sample.storedBlock_later hkey, Sample.blockHash_forged,
    fun _ => ⟨Sample.outcome_forged hkey, Block.not_signed_forged _ _ _ _ _⟩⟩

end Ledger

/-- A chain of one block is given up for one that is signed and names the same parent. -/
theorem Follower.onHeaders_forked_block :
    ∃ (_ : SignatureSuite) (f : Follower) (own b parent : Block),
      (f.onHeaders [(1, b), (2, b)]).1 = .ok (.forked 1 0) ∧
        f.ledger.storedBlock 1 = .ok own ∧ own.blockHash ≠ b.blockHash ∧
        f.ledger.parentOf 1 none = .ok parent ∧ b.header.previousHash = parent.blockHash ∧
        b.height = 1 ∧ f.ledger.Lists b ∧ b.header.Signed := by
  let := Ledger.Sample.suite
  have hkey := Ledger.Sample.operatorKey_zeros
  have hforked := Ledger.Sample.outcome_of_competes hkey Ledger.Sample.blockHash_entry
    (Ledger.Sample.competes_entry hkey)
  obtain ⟨before, b, after, seen, found, own, parent, hbatch, hpasses, hown, hother, hparent,
    hheight, hlisted, hsigned⟩ := Follower.onHeaders_forked hforked
  -- The entry that differs is the first one.
  rcases before with _ | ⟨e, before⟩
  · cases hbatch
    cases hpasses
    cases hparent.symm.trans (Ledger.Sample.parentOf_later hkey)
    have hlinked : (Ledger.Sample.entry Ledger.Sample.zeros 0 100 0).block.header.previousHash =
        Block.genesis.blockHash := by
      rw [Ledger.Sample.entry, Ledger.Sample.block, Block.header_sealed]
    exact ⟨Ledger.Sample.suite, _, own, _, _, hforked, hown, hother, hparent, hlinked, hheight,
      hlisted, hsigned hlinked⟩
  · rw [List.cons_append] at hbatch
    have hlater : (1, b) ∈ before ++ (1, b) :: after := by simp
    rw [← (List.cons.inj hbatch).2] at hlater
    cases congrArg Prod.fst (List.mem_singleton.mp hlater)

end SynergyNode
