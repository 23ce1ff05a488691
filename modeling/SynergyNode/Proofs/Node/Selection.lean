import SynergyNode.Proofs.Ledger.Supply
import SynergyNode.Proofs.Node.Places

/-!
# The transactions that are next in line

A transaction is verified when it comes in, under the schemes that are live then, and once more when
a block that lists it is committed, under those that the last block declares.  What is next in line
was verified once, is in no block of the chain, and is found again by who receives the block.  But
nothing goes through the pools when a block changes a slot, so its signature may no longer count.

* `Ledger.CameIn`, `exists_cameIn`: whatever a ledger has came in under schemes that took it;
* `Orderly.of_mem_peek`, `Orderly.collectTransactions_peek`: what is next in line is pending and not
  stored, and a block that lists it finds just that;
* `selection_stands_until_change`: it is valid for the next block as long as its slot is what it
  was, and nothing but a change of that slot makes a block refuse it;
* `selection_refused_behind_pause`: a transaction that waited while its slot was paused.
-/

namespace SynergyNode

section

variable [SignatureSuite]

/-! ## 1. Verified once, verified again -/

/-- A signature is judged by the descriptor of its slot alone. -/
theorem LiveSchemes.verify_congr {live before : LiveSchemes} {slot : Slot}
    (h : live.get slot = before.get slot) (publicKey message signature : Bytes) :
    live.verify slot publicKey message signature =
      before.verify slot publicKey message signature := by
  simp only [LiveSchemes.verify, h]

/-- Of a transaction that was valid once, the signature alone can make it invalid. -/
theorem Transaction.verify_iff_of_verified {t : Transaction} {live before : LiveSchemes}
    (h : t.verify before = .ok ()) :
    t.verify live = .ok () ↔
      live.verify t.slot t.publicKey t.hash.toList t.signature = .ok () := by
  obtain ⟨hhash, hsender, -⟩ := verify_eq_ok.mp h
  constructor
  · intro hverified
    exact (verify_eq_ok.mp hverified).2.2
  · intro hsignature
    exact verify_eq_ok.mpr ⟨hhash, hsender, hsignature⟩

theorem Transaction.verify_of_get_eq {t : Transaction} {live before : LiveSchemes}
    (h : t.verify before = .ok ()) (hslot : live.get t.slot = before.get t.slot) :
    t.verify live = .ok () := by
  rw [verify_iff_of_verified h, LiveSchemes.verify_congr hslot]
  exact (verify_eq_ok.mp h).2.2

/-! ## 2. What is next in line -/

namespace Ledger

variable {l₀ l : Ledger} {b : Block} {t : Transaction} {height : UInt64} {max : Nat}

/-- The schemes under which a transaction was taken: it was stored at first, or it came in on the
way while they were live. -/
structure CameIn (l₀ l : Ledger) (t : Transaction) (before : LiveSchemes) : Prop where
  verified : t.verify before = .ok ()
  way : l₀.store.transaction? t.hash = .ok (some t) ∨
    ∃ l₁, Leads l₀ l₁ ∧ Leads l₁ l ∧ l₁.Admits t ∧ l₁.schemes = before

/-- Whatever a ledger has came in under schemes that took it. -/
theorem exists_cameIn (h : l₀.Orderly) (hpools : l₀.pools.Vacant)
    (hstored : ∀ t, l₀.store.transaction? t.hash = .ok (some t) →
      ∃ before, t.verify before = .ok ())
    (hleads : Leads l₀ l) (ht : l.Carries t) : ∃ before, CameIn l₀ l t before := by
  rcases h.exists_admits hleads ht with (⟨kind, hpending⟩ | hfirst) | ⟨l₁, hto, hfrom, hadmits⟩
  · rw [hpools] at hpending
    cases hpending
  · obtain ⟨before, hverified⟩ := hstored t hfirst
    exact ⟨before, hverified, Or.inl hfirst⟩
  · exact ⟨l₁.schemes, hadmits.verified, Or.inr ⟨l₁, hto, hfrom, hadmits, rfl⟩⟩

omit [SignatureSuite] in
/-- What is next in line is pending, and it is not in the store. -/
theorem Orderly.of_mem_peek (h : l.Orderly) (ht : t ∈ l.pools.peek max height) :
    l.Carries t ∧ l.pools.find? t.hash = some t ∧ l.store.hasTransaction t.hash = .ok false := by
  obtain ⟨kind, hpending⟩ := Pools.get?_of_mem_peek ht
  refine ⟨Or.inl ⟨kind, hpending⟩, h.apart.pools.find?_of_get? hpending, ?_⟩
  rw [h.coherent.reliable.hasTransaction]
  refine congrArg Except.ok (Bool.eq_false_iff.mpr ?_)
  intro hcommitted
  rw [h.apart.get?_eq_none hcommitted kind] at hpending
  cases hpending

omit [SignatureSuite] in
/-- **A block that lists what is next in line finds just that.** -/
theorem Orderly.collectTransactions_peek (h : l.Orderly)
    (hlisted : b.txHashes = (l.pools.peek max height).map Transaction.hash) :
    l.collectTransactions b = .ok (l.pools.peek max height) := by
  have hlook : l.lookUp ((l.pools.peek max height).map Transaction.hash) =
      .ok (l.pools.peek max height, []) := by
    refine lookUp_of_pending ?_
    intro t ht
    exact (h.of_mem_peek ht).2
  simp only [collectTransactions, hlisted, hlook]

/-- A block is committed only when every transaction that it finds is valid. -/
theorem verify_of_commit_eq_ok {txs : List Transaction} {origin : BlockOrigin}
    {report : CommitReport} {live : LiveSchemes} (hcollect : l.collectTransactions b = .ok txs)
    (hlive : l.lastBlock.schemes = .ok live) (h : (l.commit b origin).1 = .ok report) :
    ∀ t ∈ txs, t.verify live = .ok () := by
  have hcommit : l.commit b origin = (.ok report, (l.commit b origin).2) := Prod.ext h rfl
  obtain ⟨txs', accounts, store, voting, haccepts, -, -⟩ := commit_eq_ok hcommit
  obtain ⟨hcollect', ⟨live', hlive', hverified⟩, -⟩ := execute_eq_ok.mp haccepts.executed
  rw [hcollect] at hcollect'
  rw [hlive] at hlive'
  cases hcollect'
  cases hlive'
  exact checkTransactions_eq_ok.mp hverified

end Ledger

/-! ## 3. Along a run -/

namespace Node

open Ledger (Leads CameIn)

/-- **What is next in line is valid until its slot changes.**  At each ledger to which the events of
a node lead it is not stored, and it came in under schemes that took it.  It is valid under those of
the last block exactly when its signature still counts, and so it is if they say of its slot what
the former said.  A block that lists what is next in line finds just that; it is refused for one of
its transactions only if the slot of that one changed, and it is never committed with one whose
signature does not count any more. -/
theorem selection_stands_until_change (n : Node) (hpools : n.ledger.pools.Vacant)
    (hstore : n.ledger.store.Coherent)
    (hstored : ∀ t, n.ledger.store.transaction? t.hash = .ok (some t) →
      ∃ before, t.verify before = .ok ())
    {l : Ledger} (hleads : Leads n.ledger l) {live : LiveSchemes}
    (hlive : l.lastBlock.schemes = .ok live) (max : Nat) :
    (∀ t ∈ l.pools.peek max (l.height + 1),
      l.store.hasTransaction t.hash = .ok false ∧
      (t.verify live = .ok () ↔
        live.verify t.slot t.publicKey t.hash.toList t.signature = .ok ()) ∧
      (∃ before, CameIn n.ledger l t before) ∧
      ∀ before, CameIn n.ledger l t before → live.get t.slot = before.get t.slot →
        t.verify live = .ok ()) ∧
    ∀ b, b.txHashes = (l.pools.peek max (l.height + 1)).map Transaction.hash →
      l.collectTransactions b = .ok (l.pools.peek max (l.height + 1)) ∧
      (∀ origin hash cause, (l.commit b origin).1 = .error (.transaction hash cause) →
        ∃ t ∈ l.pools.peek max (l.height + 1), t.hash = hash ∧ t.verify live = .error cause ∧
          ∀ before, CameIn n.ledger l t before → live.get t.slot ≠ before.get t.slot) ∧
      ∀ origin report, (l.commit b origin).1 = .ok report →
        ∀ t ∈ l.pools.peek max (l.height + 1),
          live.verify t.slot t.publicKey t.hash.toList t.signature = .ok () := by
  have hstart : n.ledger.Orderly := Ledger.Orderly.of_vacant hstore hpools
  have horderly : l.Orderly := hstart.leads hleads
  constructor
  · intro t ht
    obtain ⟨hcarries, -, hnew⟩ := horderly.of_mem_peek ht
    obtain ⟨before, hbefore⟩ := Ledger.exists_cameIn hstart hpools hstored hleads hcarries
    refine ⟨hnew, Transaction.verify_iff_of_verified hbefore.verified, ⟨before, hbefore⟩, ?_⟩
    intro earlier hearlier hslot
    exact Transaction.verify_of_get_eq hearlier.verified hslot
  · intro b hlisted
    have hcollect := horderly.collectTransactions_peek hlisted
    refine ⟨hcollect, ?_, ?_⟩
    · intro origin hash cause hrefused
      obtain ⟨-, hexecute⟩ :=
        Ledger.execute_of_commit_eq_error horderly.coherent.reliable hrefused trivial
      obtain ⟨txs, live', hcollect', hlive', t, ht, hhash, hinvalid⟩ :=
        Ledger.execute_eq_error_transaction hexecute
      rw [hcollect] at hcollect'
      rw [hlive] at hlive'
      cases hcollect'
      cases hlive'
      refine ⟨t, ht, hhash, hinvalid, ?_⟩
      intro before hbefore hslot
      rw [Transaction.verify_of_get_eq hbefore.verified hslot] at hinvalid
      cases hinvalid
    · intro origin report hcommit t ht
      have hverified := Ledger.verify_of_commit_eq_ok hcollect hlive hcommit t ht
      exact (Transaction.verify_eq_ok.mp hverified).2.2

end Node

end

/-! ## 4. A chain that pauses a slot -/

namespace Ledger.Sample

/-- Every signature is valid. -/
local instance signed : SignatureSuite := suite

/-- The schemes of a new chain, with the secondary slot paused or not. -/
def slots (paused : Bool) : LiveSchemes :=
  ⟨Descriptor.ofScheme .falcon512 false, Descriptor.ofScheme .dilithium5 paused⟩

/-- The next block of the operator, half a minute later. -/
def onTop (key : Bytes) (previous : Block) (paused : Bool) (hashes : List Hash) : Block :=
  Block.sealed
    { header :=
        { previousHash := previous.blockHash
          difficulty := 1
          height := previous.height + 1
          delegatedId := 1
          operator := Address.ofPublicKey key
          merkleRoot := (Merkle.Tree.mk (previous.height + 1) hashes).root
          encryption := (slots paused).map Descriptor.toBytes
          signerSlot := .primary
          signerKey := key
          signature := [0]
          timestamp := previous.timestamp + 30 }
      headerHash := Hash.zero
      timestamp := previous.timestamp + 30
      rewardPercentage := 0
      supply :=
        Word64.saturatingAdd previous.supply (Synergy.rewardForSupply previous.supply)
      reward := Synergy.rewardForSupply previous.supply
      priceOracle := 0
      randOracle := 0
      txHashes := hashes
      blockHash := Hash.zero }

/-- The operator can put a number of further blocks on the chain. -/
structure Extendable (key : Bytes) (paused : Bool) (n : Nat) (l : Ledger) : Prop where
  reliable : l.store.Reliable
  encryption : l.lastBlock.header.encryption = (slots paused).map Descriptor.toBytes
  difficulty : Synergy.adjustDifficulty l.lastBlock.header.difficulty 30 = 1
  timestamp : l.lastBlock.timestamp.toNat + 30 * n < UInt64.size
  staking : l.accounts.staking = (start (Address.ofPublicKey key)).staking
  minStake : l.minStake = 0
  money : l.accounts.balances.total + Protocol.maxTotalSupply.toNat * n < UInt64.size

variable {key : Bytes} {l : Ledger} {n : Nat} {paused : Bool}

theorem declaredSchemes_of_encryption {h : Header}
    (hencryption : h.encryption = (slots paused).map Descriptor.toBytes) :
    declaredSchemes h = .ok (slots paused) := by
  refine declaredSchemes_eq_ok.mpr ?_
  intro slot
  rw [Header.descriptor, hencryption]
  cases slot <;> exact Descriptor.ofBytes_ofScheme ..

theorem Extendable.schemes (h : Extendable key paused n l) :
    l.lastBlock.schemes = .ok (slots paused) :=
  Block.schemes_eq_ok.mpr (declaredSchemes_of_encryption h.encryption)

/-- Above the first block there is room for a few further ones. -/
theorem extendable_genesis (hlast : l.lastBlock = Block.genesis) (hs : l.store.Reliable)
    (hstaking : l.accounts.staking = (start (Address.ofPublicKey key)).staking)
    (hstake : l.minStake = 0) (hn : n ≤ 4) (hmoney : l.accounts.balances.total ≤ 100) :
    Extendable key false n l where
  reliable := hs
  encryption := hlast ▸ Block.encryption_genesis
  difficulty := by
    have hdifficulty : Block.genesis.header.difficulty = Protocol.initialDifficulty := rfl
    rw [hlast, hdifficulty]
    decide
  timestamp := by
    have htimestamp : Block.genesis.timestamp = Protocol.genesisTimestamp := rfl
    have hlong : Protocol.genesisTimestamp.toNat + 30 * 4 < UInt64.size := by decide
    rw [hlast, htimestamp]
    omega
  staking := hstaking
  minStake := hstake
  money := by
    have hmax : Protocol.maxTotalSupply.toNat = 230000000000000000 := rfl
    have hsize : UInt64.size = 2 ^ 64 := rfl
    rw [hmax]
    omega

theorem encryption_onTop (key : Bytes) (previous : Block) (paused : Bool) (hashes : List Hash) :
    (onTop key previous paused hashes).header.encryption =
      (slots paused).map Descriptor.toBytes := by
  rw [onTop, Block.header_sealed]

theorem Extendable.checkBlock (h : Extendable key paused (n + 1) l) (hkey : OperatorKey key)
    (later : Bool) (hashes : List Hash) :
    l.checkBlock (onTop key l.lastBlock later hashes) = .ok () := by
  have hlinkage : (onTop key l.lastBlock later hashes).verifyLinkage l.lastBlock = .ok () :=
    Block.verifyLinkage_eq_ok.mpr ⟨rfl, rfl⟩
  have hdeclared := Block.schemes_eq_ok.mpr
    (declaredSchemes_of_encryption (encryption_onTop key l.lastBlock later hashes))
  have hsignature : (onTop key l.lastBlock later hashes).header.verifySignature (slots paused) =
      .ok () := by
    refine Header.verifySignature_eq_ok.mpr ⟨rfl, ?_⟩
    have hslot : (slots paused).get .primary = LiveSchemes.initial.get .primary := rfl
    exact (LiveSchemes.verify_congr hslot key _ [0]).trans (verify_key hkey _)
  have htime : Word64.saturatingSub (l.lastBlock.timestamp + 30) l.lastBlock.timestamp = 30 := by
    have hfits := h.timestamp
    have hthirty : (30 : UInt64).toNat = 30 := rfl
    have hsize : UInt64.size = 2 ^ 64 := rfl
    refine UInt64.toNat_inj.mp ?_
    rw [Word64.toNat_saturatingSub, UInt64.toNat_add]
    omega
  have hdifficulty : (onTop key l.lastBlock later hashes).header.difficulty =
      (onTop key l.lastBlock later hashes).expectedDifficulty l.lastBlock := by
    have hexpected : (onTop key l.lastBlock later hashes).expectedDifficulty l.lastBlock =
        Synergy.adjustDifficulty l.lastBlock.header.difficulty
          (Word64.saturatingSub (l.lastBlock.timestamp + 30) l.lastBlock.timestamp) := rfl
    rw [hexpected, htime, h.difficulty]
    rfl
  have hcap : (onTop key l.lastBlock later hashes).rewardPercentage ≤
      Protocol.maxRewardPercentage := by
    have hzero : (onTop key l.lastBlock later hashes).rewardPercentage = 0 := rfl
    rw [hzero]
    decide
  have heconomics : (onTop key l.lastBlock later hashes).checkEconomics l.lastBlock = .ok () :=
    Block.checkEconomics_eq_ok.mpr ⟨hcap, rfl, rfl, hdifficulty, passes_one _⟩
  have hoperator : l.checkOperator (onTop key l.lastBlock later hashes) = .ok () := by
    simp [checkOperator, onTop, Block.header_sealed, Accounts.stakingOf?, h.staking, h.minStake,
      start]
  exact checkBlock_eq_ok.mpr
    ⟨Block.checkBase_eq_ok.mpr
      ⟨hlinkage, Block.hash_sealed _, Block.contentHash_sealed _, ⟨_, hdeclared⟩,
        ⟨_, h.schemes, hsignature⟩, heconomics, rfl, rfl⟩, hoperator⟩

/-- Transactions that the next block may list, and the balances that they lead to. -/
structure Listable (paused : Bool) (l : Ledger) (txs : List Transaction) (moved : Balances) :
    Prop where
  pending : ∀ t ∈ txs, l.pools.find? t.hash = some t ∧ l.store.hasTransaction t.hash = .ok false
  verified : checkTransactions (slots paused) txs = .ok ()
  paid : l.accounts.balances.transfers txs = .ok moved

theorem listable_nil (paused : Bool) (l : Ledger) : Listable paused l [] l.accounts.balances where
  pending _ h := by cases h
  verified := rfl
  paid := rfl

theorem Extendable.accepts (h : Extendable key paused (n + 1) l) (hkey : OperatorKey key)
    (later : Bool) {txs : List Transaction} {moved : Balances}
    (hlist : Listable paused l txs moved) :
    ∃ paid, moved.payShare (Address.delegated 1) (Synergy.rewardForSupply l.lastBlock.supply) =
        .ok paid ∧
      l.Accepts (onTop key l.lastBlock later (txs.map Transaction.hash)) txs
        { l.accounts with balances := paid } ∧
      paid.total ≤ l.accounts.balances.total + Protocol.maxTotalSupply.toNat := by
  have hmax : Protocol.maxTotalSupply.toNat = 230000000000000000 := rfl
  have hmoney := h.money
  have hreward := Synergy.rewardForSupply_le l.lastBlock.supply
  rw [hmax] at hmoney hreward ⊢
  have hzero : (onTop key l.lastBlock later (txs.map Transaction.hash)).rewardPercentage = 0 := rfl
  have hsplit : Synergy.splitReward (onTop key l.lastBlock later (txs.map Transaction.hash)).reward
      (onTop key l.lastBlock later (txs.map Transaction.hash)).rewardPercentage =
        (0, Synergy.rewardForSupply l.lastBlock.supply) := by
    rw [hzero]
    simp [Synergy.splitReward, onTop, Block.reward_sealed]
  have hcollect : l.collectTransactions (onTop key l.lastBlock later (txs.map Transaction.hash)) =
      .ok txs := by
    simp only [collectTransactions, onTop, Block.txHashes_sealed, lookUp_of_pending hlist.pending]
  have hkept : moved.total = l.accounts.balances.total := Balances.total_transfers hlist.paid
  rcases moved.payShare_cases (Address.delegated 1)
      (Synergy.rewardForSupply l.lastBlock.supply) with ⟨paid, hpaid, htotal⟩ | ⟨-, hlarge⟩
  · have happlied := Accounts.applyBlock_of_delegated hsplit hlist.paid hpaid
    refine ⟨paid, hpaid, ⟨h.checkBlock hkey later _,
      execute_eq_ok.mpr ⟨hcollect, ⟨_, h.schemes, hlist.verified⟩, happlied⟩⟩, ?_⟩
    omega
  · omega

/-- The block on top leaves room for one less. -/
theorem Extendable.committed (h : Extendable key paused (n + 1) l) (later : Bool)
    (hashes : List Hash) (txs : List Transaction) {paid : Balances}
    (htotal : paid.total ≤ l.accounts.balances.total + Protocol.maxTotalSupply.toNat)
    (voting : Voting) :
    Extendable key later n (Ledger.committed { l with voting := voting }
      (onTop key l.lastBlock later hashes) txs { l.accounts with balances := paid }) := by
  have hmax : Protocol.maxTotalSupply.toNat = 230000000000000000 := rfl
  have htime := h.timestamp
  have hmoney := h.money
  have hthirty : (30 : UInt64).toNat = 30 := rfl
  rw [hmax] at hmoney htotal
  exact
    { reliable := h.reliable.applyAll _
      encryption := encryption_onTop key l.lastBlock later hashes
      difficulty := by
        have hone : (onTop key l.lastBlock later hashes).header.difficulty = 1 := rfl
        rw [Ledger.committed, hone]
        decide
      timestamp := by
        have hnext : (onTop key l.lastBlock later hashes).timestamp =
            l.lastBlock.timestamp + 30 := rfl
        have hsize : UInt64.size = 2 ^ 64 := rfl
        rw [Ledger.committed, hnext, UInt64.toNat_add]
        omega
      staking := h.staking
      minStake := h.minStake
      money := by
        simp only [Ledger.committed, hmax]
        omega }

theorem length_onTop (hkey : OperatorKey key) (previous : Block) (paused : Bool)
    (hashes : List Hash) (hhashes : hashes.length ≤ 1) :
    (onTop key previous paused hashes).toBytes.length ≤ Protocol.maxMessageBytes := by
  have hmax : Protocol.maxMessageBytes = 16777216 := rfl
  have hsigner : (onTop key previous paused hashes).header.signerKey.length = 897 := hkey.length
  have hsignature : (onTop key previous paused hashes).header.signature.length = 1 := rfl
  have hlisted : (onTop key previous paused hashes).txHashes = hashes := rfl
  rw [Block.length_of_encryption (encryption_onTop key previous paused hashes), hsigner,
    hsignature, hlisted, hmax]
  omega

/-- **The operator puts a block without transactions on the chain.** -/
theorem Extendable.extend (h : Extendable key paused (n + 1) l) (hkey : OperatorKey key)
    (later : Bool) (hheight : later = paused ∨ 3 ≤ l.lastBlock.height + 1) :
    ∃ l', Leads l l' ∧ Extendable key later n l' ∧ l'.pools = l.pools ∧
      l'.height = l.lastBlock.height + 1 ∧ l'.lastBlock.height = l.lastBlock.height + 1 := by
  obtain ⟨paid, -, haccepts, htotal⟩ := h.accepts hkey later (listable_nil paused l)
  have hchanges : (l.checkChanges (onTop key l.lastBlock later []) .sync
      ((onTop key l.lastBlock later []).changedSlots l.lastBlock)).1 = .ok () := by
    rcases hheight with rfl | hhigh
    · have hnone : (onTop key l.lastBlock later []).changedSlots l.lastBlock = [] :=
        Block.changedSlots_of_encryption_eq ((encryption_onTop ..).trans h.encryption.symm)
      rw [hnone]
      rfl
    · have hallowed : Protocol.encryptionChangeMinHeight ≤
          (onTop key l.lastBlock later []).height := hhigh
      rw [checkChanges_sync_of_le hallowed]
  obtain ⟨looked, hcommit⟩ := commit_of_checkChanges h.reliable haccepts hchanges
  have hleads : Leads l (l.commit (onTop key l.lastBlock later []) .sync).2 :=
    leads_commit (length_onTop hkey l.lastBlock later [] (Nat.zero_le 1)) .sync
  rw [List.map_nil] at hcommit
  rw [hcommit] at hleads
  exact ⟨_, hleads, h.committed later [] [] htotal _, rfl, rfl, rfl⟩

/-- **Three blocks pause the secondary slot**, and the pools stay as they are. -/
theorem Extendable.pause (h : Extendable key false (n + 3) l) (hkey : OperatorKey key)
    (hzero : l.lastBlock.height = 0) :
    ∃ l', Leads l l' ∧ Extendable key true n l' ∧ l'.pools = l.pools ∧ l'.height = 3 := by
  obtain ⟨l₁, hfirst, h₁, hpools₁, -, hheight₁⟩ := h.extend hkey false (Or.inl rfl)
  obtain ⟨l₂, hsecond, h₂, hpools₂, -, hheight₂⟩ := h₁.extend hkey false (Or.inl rfl)
  have htwo : l₂.lastBlock.height = 2 := by
    rw [hheight₂, hheight₁, hzero]
    rfl
  have hallowed : 3 ≤ l₂.lastBlock.height + 1 := by
    rw [htwo]
    decide
  obtain ⟨l₃, hthird, h₃, hpools₃, hheight₃, -⟩ := h₂.extend hkey true (Or.inr hallowed)
  refine ⟨l₃, (hfirst.trans hsecond).trans hthird, h₃, ?_, ?_⟩
  · rw [hpools₃, hpools₂, hpools₁]
  · rw [hheight₃, htwo]
    rfl

/-- A transfer that is signed in the secondary slot. -/
def aside (key : Bytes) : Transaction :=
  ⟨(transfer key).body, .secondary, key,
    Transaction.contentHash (transfer key).body .secondary key, [0]⟩

theorem verify_aside (hkey : key.length = 2592) :
    (aside key).verify LiveSchemes.initial = .ok () := by
  have hscheme : (LiveSchemes.initial.get .secondary).scheme = .ok .dilithium5 := rfl
  have hvalid : Scheme.dilithium5.verify key (aside key).hash.toList [0] = true := by
    simp [Scheme.verify, hkey, Scheme.publicKeyLength, Scheme.signatureLength,
      SignatureSuite.valid]
  exact Transaction.verify_eq_ok.mpr
    ⟨rfl, rfl, LiveSchemes.verify_eq_ok.mpr ⟨rfl, _, hscheme, hvalid⟩⟩

theorem verify_aside_paused (key : Bytes) :
    (aside key).verify (slots true) = .error (.scheme (.paused .secondary)) := by
  have hhash : Transaction.contentHash (aside key).body (aside key).slot (aside key).publicKey =
      (aside key).hash := rfl
  have hsender : Address.ofPublicKey (aside key).publicKey = (aside key).body.sender := rfl
  have hpaused : (slots true).verify (aside key).slot (aside key).publicKey
      (aside key).hash.toList (aside key).signature = .error (.paused .secondary) := rfl
  simp only [Transaction.verify, hhash, hsender, hpaused, ne_eq, not_true_eq_false, if_false]

theorem length_aside (hkey : key.length = 2592) :
    (aside key).toBytes.length ≤ Protocol.maxMessageBytes := by
  have hdata : (aside key).body.data.length = 0 := rfl
  have hkey : (aside key).publicKey.length = 2592 := hkey
  have hsignature : (aside key).signature.length = 1 := rfl
  rw [Transaction.length_toBytes, hdata, hkey, hsignature]
  decide

/-- The pools in which it waits. -/
def waiting (key : Bytes) : Pools := ((Pools.empty .standard).add (aside key)).2

theorem peek_waiting (hkey : key.length = 2592) : (waiting key).peek 10 4 = [aside key] := by
  have hmax : Protocol.maxMessageBytes ≤ PoolLimits.standard.maxBytes := by decide
  have hheight : (aside key).body.height = 0 := rfl
  have heligible : Pool.isEligible 4 (aside key) = true := by
    rw [Pool.isEligible, hheight]
    decide
  exact Pools.peek_add_empty (by decide) ((length_aside hkey).trans hmax) heligible

end Ledger.Sample

namespace Node

open Ledger (Leads)

/-- Every signature is valid. -/
local instance permissive : SignatureSuite := Ledger.Sample.suite

namespace Sample

open Ledger.Sample (OperatorKey Extendable aside waiting)

variable {key other : Bytes}

theorem transaction?_opened (key : Bytes) (hash : Hash) :
    (opened key).store.transaction? hash = .ok none := by
  have hs : (opened key).store.Reliable := Store.reliable_ofHistory _ []
  exact hs.transaction?_eq_none.mpr Std.ExtTreeMap.getElem?_empty

/-- The ledger when the transfer has come in. -/
def heard (key other : Bytes) : Ledger := { opened key with pools := waiting other }

theorem leads_heard (hother : other.length = 2592) : Leads (opened key) (heard key other) := by
  have hfresh : (opened key).pools.contains (aside other).hash = false := by
    rw [Pools.contains_eq]
    rfl
  have hstored : (opened key).store.transactions.contains (aside other).hash = false :=
    Std.ExtTreeMap.contains_empty
  exact Ledger.leads_admits
    { verified := Ledger.Sample.verify_aside hother
      short := Ledger.Sample.length_aside hother
      fresh := hfresh
      unstored := hstored }

theorem extendable_heard (key other : Bytes) : Extendable key false 4 (heard key other) := by
  refine Ledger.Sample.extendable_genesis rfl (Store.reliable_ofHistory _ []) rfl rfl
    (Nat.le_refl 4) ?_
  have hbalances : (heard key other).accounts.balances =
      Ledger.Sample.balances (Address.ofPublicKey key) 100 0 := rfl
  rw [hbalances]
  exact Ledger.Sample.total_balances (Address.ofPublicKey key) 100 0

/-- A transfer comes in, and then the slot in which it was signed is paused. -/
theorem exists_stale : ∃ (key other : Bytes) (l : Ledger), OperatorKey key ∧
    Leads (opened key) l ∧ Extendable key true 1 l ∧ l.pools.peek 10 (l.height + 1) =
      [aside other] := by
  obtain ⟨key, hkey⟩ : ∃ key, OperatorKey key := ⟨_, Ledger.Sample.operatorKey_zeros⟩
  obtain ⟨other, hother⟩ : ∃ other : Bytes, other.length = 2592 :=
    ⟨List.replicate 2592 0, List.length_replicate⟩
  obtain ⟨l, hleads, h, hpools, hheight⟩ := (extendable_heard key other).pause hkey rfl
  have hwaiting : (heard key other).pools = waiting other := by simp only [heard]
  have hfour : (3 : UInt64) + 1 = 4 := rfl
  refine ⟨key, other, l, hkey, (leads_heard hother).trans hleads, h, ?_⟩
  rw [hpools, hheight, hwaiting, hfour]
  exact Ledger.Sample.peek_waiting hother

theorem schemes_ready (key : Bytes) : (ready key).lastBlock.schemes = .ok LiveSchemes.initial :=
  Block.schemes_eq_ok.mpr History.declaredSchemes_genesis

theorem peek_ready (hkey : OperatorKey key) :
    (ready key).pools.peek 10 ((ready key).height + 1) = [Ledger.Sample.transfer key] := by
  have hpools : (ready key).pools =
      ((Pools.empty .standard).add (Ledger.Sample.transfer key)).2 := by simp only [ready]
  have hone : (ready key).height + 1 = 1 := rfl
  rw [hpools, hone]
  exact Round.Sample.peek_transfer hkey

end Sample

/-- A transfer that came in is next in line, and the block that lists it is not refused for it. -/
theorem selection_stands_until_change_transfer :
    ∃ (_ : SignatureSuite) (n : Node) (l : Ledger) (live : LiveSchemes) (t : Transaction)
      (b : Block), n.ledger.pools.Vacant ∧ n.ledger.store.Coherent ∧ Leads n.ledger l ∧
        l.lastBlock.schemes = .ok live ∧ l.pools.peek 10 (l.height + 1) = [t] ∧
        l.store.hasTransaction t.hash = .ok false ∧ t.verify live = .ok () ∧
        b.txHashes = [t.hash] ∧ l.collectTransactions b = .ok [t] := by
  obtain ⟨key, hkey⟩ : ∃ key, Ledger.Sample.OperatorKey key := ⟨_, Ledger.Sample.operatorKey_zeros⟩
  have hvacant : (Sample.node key).ledger.pools.Vacant := Pools.vacant_empty .standard
  have hnone : ∀ t, (Sample.node key).ledger.store.transaction? t.hash = .ok (some t) →
      ∃ before, t.verify before = .ok () := by
    intro t hstored
    have hempty : (Sample.node key).ledger.store.transaction? t.hash = .ok none :=
      Sample.transaction?_opened key t.hash
    rw [hempty] at hstored
    cases hstored
  have hleads : Leads (Sample.node key).ledger (Sample.ready key) := Sample.leads_ready hkey
  obtain ⟨hselected, hlisting⟩ := selection_stands_until_change (Sample.node key) hvacant
    Sample.coherent_opened hnone hleads (Sample.schemes_ready key) 10
  rw [Sample.peek_ready hkey] at hselected hlisting
  obtain ⟨hnew, hiff, -, -⟩ := hselected _ List.mem_cons_self
  have hlisted : (Sample.listing key).txHashes = [(Ledger.Sample.transfer key).hash] :=
    Block.txHashes_sealed _
  obtain ⟨hcollect, -, -⟩ := hlisting (Sample.listing key) hlisted
  have hverified := hiff.mpr (Ledger.Sample.verify_key hkey _)
  exact ⟨_, Sample.node key, Sample.ready key, _, _, _, hvacant, Sample.coherent_opened, hleads,
    Sample.schemes_ready key, Sample.peek_ready hkey, hnew, hverified, hlisted, hcollect⟩

/-- **What is next in line need not be valid.**  A transfer that was verified when it came in is
still offered for the next block after three blocks paused its slot, and the block that lists it,
which passes all other checks, is refused for it. -/
theorem selection_refused_behind_pause :
    ∃ (_ : SignatureSuite) (n : Node) (l : Ledger) (live : LiveSchemes) (t : Transaction)
      (b : Block), n.ledger.pools.Vacant ∧ n.ledger.store.Coherent ∧
        (∀ hash, n.ledger.store.transaction? hash = .ok none) ∧ Leads n.ledger l ∧
        l.lastBlock.schemes = .ok live ∧ l.pools.peek 10 (l.height + 1) = [t] ∧
        t.verify live = .error (.scheme (.paused .secondary)) ∧
        b.txHashes = [t.hash] ∧ l.checkBlock b = .ok () ∧
        ∀ origin, (l.commit b origin).1 =
          .error (.transaction t.hash (.scheme (.paused .secondary))) := by
  obtain ⟨key, other, l, hkey, hleads, h, hpeek⟩ := Sample.exists_stale
  have hvacant : (Sample.node key).ledger.pools.Vacant := Pools.vacant_empty .standard
  have hstart : (Sample.opened key).Orderly :=
    Ledger.Orderly.of_vacant Sample.coherent_opened hvacant
  let b := Ledger.Sample.onTop key l.lastBlock true [(Ledger.Sample.aside other).hash]
  have hlisted : b.txHashes = [(Ledger.Sample.aside other).hash] := Block.txHashes_sealed _
  have hchecked : l.checkBlock b = .ok () := h.checkBlock hkey true _
  have hcollect : l.collectTransactions b = .ok [Ledger.Sample.aside other] := by
    rw [← hpeek]
    refine (hstart.leads hleads).collectTransactions_peek ?_
    rw [hpeek, hlisted, List.map_singleton]
  have hexecute : l.execute b =
      .error (.transaction (Ledger.Sample.aside other).hash (.scheme (.paused .secondary))) := by
    simp only [Ledger.execute, hcollect, h.schemes, Ledger.checkTransactions,
      Ledger.Sample.verify_aside_paused]
  have hslots : b.changedSlots l.lastBlock = [] :=
    Block.changedSlots_of_encryption_eq
      ((Ledger.Sample.encryption_onTop ..).trans h.encryption.symm)
  refine ⟨_, Sample.node key, l, _, _, b, hvacant, Sample.coherent_opened,
    Sample.transaction?_opened key, hleads, h.schemes, hpeek,
    Ledger.Sample.verify_aside_paused other, hlisted, hchecked, ?_⟩
  intro origin
  refine Ledger.commit_of_execute_eq_error hchecked ?_ hexecute
  rw [hslots]
  rfl

end Node

end SynergyNode
