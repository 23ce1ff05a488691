import SynergyNode.Proofs.Ledger.Run

/-!
# The stores and the ledger agree

Six tables and three values in memory say where the chain stands.  `Consistent` is what they
have to say together, read through the operations of the store as a node reads them.  It holds
along every run that stays within the limit of what can be decoded (`Run.consistent`), through
commits, refused commits and rollbacks of any depth.
-/

namespace SynergyNode.Ledger

/-- Store, height, last block and live schemes of a ledger fit together. -/
structure Consistent (l : Ledger) : Prop where
  /-- There is one height: the stored one, the ledger's and the last block's. -/
  storedHeight : l.store.height? = .ok (some l.height)
  lastHeight : l.lastBlock.height = l.height
  /-- Blocks are stored at the heights up to this one and at no other. -/
  block : ∀ k, k ≤ l.height → ∃ b, l.store.block? k = .ok (some b)
  noBlock : ∀ k, l.height < k → l.store.block? k = .ok none
  first : l.store.block? 0 = .ok (some Block.genesis)
  last : l.store.block? l.height = .ok (some l.lastBlock)
  linked : ∀ k b b', k < l.height → l.store.block? k = .ok (some b) →
    l.store.block? (k + 1) = .ok (some b') →
    b'.height = k + 1 ∧ b'.header.previousHash = b.blockHash
  /-- Trees are stored at the same heights except the first, with the root of the block. -/
  tree : ∀ k b, 0 < k → k ≤ l.height → l.store.block? k = .ok (some b) →
    ∃ t, l.store.merkleTree? k = .ok (some t) ∧ t.root = b.header.merkleRoot
  noTree : ∀ k, k = 0 ∨ l.height < k → l.store.merkleTree? k = .ok none
  /-- Snapshots are stored at the heights of the blocks. -/
  snapshot : ∀ k, k ≤ l.height →
    ∃ x a, l.store.snapshot? k = .ok (some x) ∧ Accounts.ofBytes x = .ok a
  noSnapshot : ∀ k, l.height < k → l.store.snapshot? k = .ok none
  /-- The stored transactions are those that the blocks above the first list. -/
  listed : ∀ hash, ∃ stored, l.store.hasTransaction hash = .ok stored ∧
    (stored = true ↔ ∃ k b, 0 < k ∧ k ≤ l.height ∧ l.store.block? k = .ok (some b) ∧
      hash ∈ b.txHashes)
  transaction : ∀ hash, l.store.hasTransaction hash = .ok true →
    ∃ t, l.store.transaction? hash = .ok (some t) ∧ t.hash = hash
  /-- The live schemes are those that the last block declares. -/
  schemes : ∀ slot, l.lastBlock.header.descriptor slot = .ok (l.schemes.get slot)

open History

/-! ## What can be read at each height -/

section

variable {start : Accounts} {l : Ledger} {c : History}

theorem Follows.not_toNat_le (h : Follows start l c) {k : UInt64} (hk : l.height < k) :
    ¬ k.toNat ≤ c.length := by
  rw [UInt64.lt_iff_toNat_lt, ← h.length] at hk
  omega

/-- The entry at a height above the first, and what it goes on from. -/
theorem Follows.entry_at (h : Follows start l c) {k : UInt64} (hpos : 0 < k)
    (hk : k ≤ l.height) :
    ∃ e, c.cut k.toNat = e :: c.cut (k.toNat - 1) ∧ e.Extends start (c.cut (k.toNat - 1)) := by
  have hone : 0 < k.toNat := UInt64.lt_iff_toNat_lt.mp hpos
  have hlen := h.toNat_le.mp hk
  obtain ⟨e, he⟩ := cut_succ (c := c) (n := k.toNat - 1) (by omega)
  rw [Nat.sub_add_cancel hone] at he
  have hsound := h.sound.cut k.toNat
  rw [he] at hsound
  exact ⟨e, he, hsound.1⟩

namespace Keeps

theorem block?_above (h : Keeps start l c) (hfollows : Follows start l c) {k : UInt64}
    (hk : l.height < k) : l.store.block? k = .ok none := by
  rw [hfollows.reliable.block?_eq_none, h.store, Store.blocks_ofHistory hfollows.sound,
    if_neg (hfollows.not_toNat_le hk)]

theorem merkleTree? (h : Keeps start l c) (hfollows : Follows start l c)
    (hfits : ∀ e ∈ c, e.Fits) {k : UInt64} (hpos : 0 < k) (hk : k ≤ l.height) :
    l.store.merkleTree? k = .ok (some (c.cut k.toNat).tip.tree) := by
  have hshort : (c.cut k.toNat).tip.tree.toBytes.length ≤ Protocol.maxMessageBytes :=
    Nat.le_trans (Block.length_tree_le _) (length_tip (fits_cut hfits _))
  refine hfollows.reliable.merkleTree?_eq_some.mpr
    ⟨_, ?_, Merkle.Tree.ofBytes?_toBytes hshort⟩
  rw [h.store, Store.trees_ofHistory hfollows.sound,
    if_pos ⟨UInt64.lt_iff_toNat_lt.mp hpos, hfollows.toNat_le.mp hk⟩]

theorem merkleTree?_elsewhere (h : Keeps start l c) (hfollows : Follows start l c) {k : UInt64}
    (hk : k = 0 ∨ l.height < k) : l.store.merkleTree? k = .ok none := by
  rw [hfollows.reliable.merkleTree?_eq_none, h.store, Store.trees_ofHistory hfollows.sound,
    if_neg]
  rintro ⟨hone, hlen⟩
  rcases hk with rfl | hk
  · exact absurd hone (by decide)
  · exact hfollows.not_toNat_le hk hlen

theorem snapshot? (h : Keeps start l c) (hfollows : Follows start l c) {k : UInt64}
    (hk : k ≤ l.height) :
    l.store.snapshot? k = .ok (some ((c.cut k.toNat).accounts start).toBytes) := by
  rw [hfollows.reliable.snapshot?, h.store, Store.snapshots_ofHistory hfollows.sound,
    if_pos (hfollows.toNat_le.mp hk)]

theorem snapshot?_above (h : Keeps start l c) (hfollows : Follows start l c) {k : UInt64}
    (hk : l.height < k) : l.store.snapshot? k = .ok none := by
  rw [hfollows.reliable.snapshot?, h.store, Store.snapshots_ofHistory hfollows.sound,
    if_neg (hfollows.not_toNat_le hk)]

/-- A transaction is stored exactly when a block above the first lists it. -/
theorem contains_iff (h : Keeps start l c) (hfollows : Follows start l c)
    (hfits : ∀ e ∈ c, e.Fits) (hash : Hash) :
    l.store.transactions.contains hash = true ↔
      ∃ k b, 0 < k ∧ k ≤ l.height ∧ l.store.block? k = .ok (some b) ∧ hash ∈ b.txHashes := by
  rw [h.store, Store.contains_transactions_ofHistory hfollows.sound, mem_txHashes_iff_cut,
    ← h.store]
  constructor
  · rintro ⟨n, hn, hmem⟩
    have hlt := hfollows.length_lt
    have hk : (UInt64.ofNat (n + 1)).toNat = n + 1 := UInt64.toNat_ofNat_of_lt' (by omega)
    have hle : UInt64.ofNat (n + 1) ≤ l.height := by
      rw [hfollows.toNat_le]
      omega
    refine ⟨UInt64.ofNat (n + 1), (c.cut (n + 1)).tip, ?_, hle, ?_, hmem⟩
    · rw [UInt64.lt_iff_toNat_lt, hk]
      exact Nat.succ_pos n
    · rw [h.block? hfollows hfits hle, hk]
  · rintro ⟨k, b, hpos, hk, hb, hmem⟩
    rw [h.block? hfollows hfits hk] at hb
    cases hb
    have hone : 0 < k.toNat := UInt64.lt_iff_toNat_lt.mp hpos
    have hlen := hfollows.toNat_le.mp hk
    refine ⟨k.toNat - 1, by omega, ?_⟩
    rw [Nat.sub_add_cancel hone]
    exact hmem

/-- An applied transaction is read back under its hash. -/
theorem transaction? (h : Keeps start l c) (hfollows : Follows start l c)
    (hfits : ∀ e ∈ c, e.Fits) {t : Transaction} (ht : t ∈ c.transactions) :
    l.store.transaction? t.hash = .ok (some t) := by
  obtain ⟨e, he, hte⟩ := List.mem_flatMap.mp ht
  refine hfollows.reliable.transaction?_of_stored ?_ ((hfits e he).transactions t hte)
  rw [h.store]
  exact Store.transactions_ofHistory hfollows.sound h.fresh ht

/-- Every stored transaction was applied, and is read back under its hash. -/
theorem transaction?_of_contains (h : Keeps start l c) (hfollows : Follows start l c)
    (hfits : ∀ e ∈ c, e.Fits) {hash : Hash}
    (hstored : l.store.transactions.contains hash = true) :
    ∃ t, l.store.transaction? hash = .ok (some t) ∧ t.hash = hash := by
  rw [h.store, Store.contains_transactions_ofHistory hfollows.sound,
    mem_txHashes_iff hfollows.sound] at hstored
  obtain ⟨t, ht, rfl⟩ := hstored
  exact ⟨t, h.transaction? hfollows hfits ht, rfl⟩

end Keeps

end

/-! ## The agreement -/

section

variable [SignatureSuite] {start : Accounts} {l : Ledger} {c : History}

/-- **Along every run within the limit, stores and ledger agree.** -/
theorem Run.consistent (run : Run Event.Fits start l c)
    (hstart : start.toBytes.length ≤ Protocol.maxMessageBytes) : l.Consistent := by
  have hfollows := run.follows
  have hkeeps := (run.completes hstart).keeps
  have hfits := run.fits
  have hblock {k : UInt64} (hk : k ≤ l.height) := hkeeps.block? hfollows hfits hk
  refine
    { storedHeight := ?_
      lastHeight := by rw [hfollows.last, hfollows.height]
      block := fun k hk => ⟨_, hblock hk⟩
      noBlock := fun k hk => hkeeps.block?_above hfollows hk
      first := ?_
      last := ?_
      linked := fun k b b' hk hb hb' => ?_
      tree := fun k b hpos hk hb => ?_
      noTree := fun k hk => hkeeps.merkleTree?_elsewhere hfollows hk
      snapshot := fun k hk => ⟨_, _, hkeeps.snapshot? hfollows hk, Accounts.ofBytes_toBytes ?_⟩
      noSnapshot := fun k hk => hkeeps.snapshot?_above hfollows hk
      listed := fun hash =>
        ⟨_, hfollows.reliable.hasTransaction hash, hkeeps.contains_iff hfollows hfits hash⟩
      transaction := fun hash hstored => ?_
      schemes := ?_ }
  · rw [hfollows.reliable.height?, hkeeps.store, Store.chainHeight_ofHistory, hfollows.height]
  · have hzero : (0 : UInt64) ≤ l.height := UInt64.le_iff_toNat_le.mpr (Nat.zero_le _)
    rw [hblock hzero]
    exact congrArg (fun c : History => Except.ok (some c.tip)) (cut_zero c)
  · rw [hblock (UInt64.le_refl _), cut_of_length_le (Nat.le_of_eq hfollows.length),
      hfollows.last]
  · have hlt := UInt64.lt_iff_toNat_lt.mp hk
    have hnext : (k + 1).toNat = k.toNat + 1 := by
      have := l.height.toNat_lt
      rw [UInt64.toNat_add, UInt64.toNat_one]
      omega
    have hle : k + 1 ≤ l.height := by
      rw [UInt64.le_iff_toNat_le]
      omega
    have hpos : 0 < k + 1 := by
      rw [UInt64.lt_iff_toNat_lt, hnext]
      exact Nat.succ_pos _
    obtain ⟨e, he, hext⟩ := hfollows.entry_at hpos hle
    rw [hblock (UInt64.le_of_lt hk)] at hb
    rw [hblock hle, he] at hb'
    cases hb
    cases hb'
    rw [hnext, Nat.add_sub_cancel] at hext
    have hlen : k.toNat ≤ c.length := hfollows.toNat_le.mp (UInt64.le_of_lt hk)
    refine ⟨UInt64.toNat_inj.mp ?_, hext.previousHash⟩
    rw [hnext]
    exact hext.height.trans (by rw [length_cut hlen])
  · obtain ⟨e, he, hext⟩ := hfollows.entry_at hpos hk
    rw [hblock hk, he] at hb
    cases hb
    refine ⟨_, hkeeps.merkleTree? hfollows hfits hpos hk, ?_⟩
    rw [he]
    exact hext.root
  · exact length_accounts (fits_cut hfits _) hstart
  · refine hkeeps.transaction?_of_contains hfollows hfits ?_
    rw [hfollows.reliable.hasTransaction] at hstored
    exact Except.ok.inj hstored
  · rw [hfollows.last]
    exact declaredSchemes_eq_ok.mp hfollows.schemes

end

theorem Run.consistent_block :
    ∃ (_ : SignatureSuite) (start : Accounts) (l : Ledger) (c : History),
      Run Event.Fits start l c ∧ start.toBytes.length ≤ Protocol.maxMessageBytes ∧
        c.length = 1 ∧ l.Consistent := by
  let := Sample.suite
  have run := Sample.run_block Sample.operatorKey_zeros 1 70 30 (by decide) rfl rfl
  exact ⟨Sample.suite, _, _, _, run, Sample.length_start, rfl,
    Run.consistent run Sample.length_start⟩

end SynergyNode.Ledger
