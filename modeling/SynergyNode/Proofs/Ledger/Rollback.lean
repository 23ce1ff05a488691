import SynergyNode.Ledger.Rollback
import SynergyNode.Proofs.Ledger.Commit

/-!
# What giving up blocks does

`discard` undoes the writes of one block (`discard_cases`), `discardAbove` those of all blocks
above a height.  Both may stop on the way, on a block or transaction that cannot be decoded.

* Wherever giving up stops, block and snapshot of a height have gone together or stayed
  together (`Store.Recedes`, `discardAbove_recedes`);
* when it gets to its end on the store of a history, the store of the history below is left
  (`discardAbove_ofHistory`);
* it gets to its end when all stored blocks and transactions can be decoded
  (`discardAbove_of_legible`).
-/

namespace SynergyNode

/-! ## 1. Stores with fewer heights -/

/-- At every height, block and snapshot have both stayed as they were, or both gone if the
height is above the base. -/
structure Store.Recedes (base : UInt64) (s s' : Store) : Prop where
  failure : s'.failure = s.failure
  heights : ∀ k : UInt64,
    (base < k ∧ s'.blocks[k]? = none ∧ s'.snapshots[k]? = none) ∨
      (s'.blocks[k]? = s.blocks[k]? ∧ s'.snapshots[k]? = s.snapshots[k]?)

theorem Store.Recedes.refl (base : UInt64) (s : Store) : s.Recedes base s :=
  ⟨rfl, fun _ => Or.inr ⟨rfl, rfl⟩⟩

theorem Store.Recedes.trans {base : UInt64} {s s' s'' : Store} (h : s.Recedes base s')
    (h' : s'.Recedes base s'') : s.Recedes base s'' := by
  refine ⟨h'.failure.trans h.failure, fun k => ?_⟩
  rcases h'.heights k with gone | ⟨hb', hs'⟩
  · exact Or.inl gone
  · rw [hb', hs']
    exact h.heights k

namespace Ledger

/-- The changes of the store that releasing transactions makes. -/
def releaseWrites (hashes : List Hash) : List StoreWrite := hashes.map .removeTransaction

/-- The changes of the store that giving up a block makes. -/
def discardWrites (height : UInt64) (hashes : List Hash) : List StoreWrite :=
  releaseWrites hashes ++ [.removeBlock height, .removeTree height, .removeSnapshot height]

end Ledger

namespace Store

theorem applyAll_append (s : Store) (ws ws' : List StoreWrite) :
    s.applyAll (ws ++ ws') = (s.applyAll ws).applyAll ws' := List.foldl_append

/-- Removing transactions touches no other table. -/
theorem applyAll_releaseWrites (s : Store) (hashes : List Hash) :
    s.applyAll (Ledger.releaseWrites hashes) =
      { s with transactions := hashes.foldl (fun m h => m.erase h) s.transactions } := by
  induction hashes generalizing s with
  | nil => rfl
  | cons hash rest ih =>
    have hstep : s.applyAll (Ledger.releaseWrites (hash :: rest)) =
        (s.apply (.removeTransaction hash)).applyAll (Ledger.releaseWrites rest) := rfl
    rw [hstep, ih]
    rfl

theorem applyAll_discardWrites (s : Store) (height : UInt64) (hashes : List Hash) :
    s.applyAll (Ledger.discardWrites height hashes) =
      { s with
        blocks := s.blocks.erase height
        trees := s.trees.erase height
        snapshots := s.snapshots.erase height
        transactions := hashes.foldl (fun m h => m.erase h) s.transactions } := by
  rw [Ledger.discardWrites, applyAll_append, applyAll_releaseWrites]
  rfl

theorem recedes_releaseWrites (base : UInt64) (s : Store) (hashes : List Hash) :
    s.Recedes base (s.applyAll (Ledger.releaseWrites hashes)) := by
  rw [applyAll_releaseWrites]
  exact ⟨rfl, fun _ => Or.inr ⟨rfl, rfl⟩⟩

theorem recedes_discardWrites {base height : UInt64} (h : base < height) (s : Store)
    (hashes : List Hash) :
    s.Recedes base (s.applyAll (Ledger.discardWrites height hashes)) := by
  rw [applyAll_discardWrites]
  refine ⟨rfl, fun k => ?_⟩
  simp only [Std.ExtTreeMap.getElem?_erase]
  split
  · rename_i heq
    rw [← Std.LawfulEqCmp.eq_of_compare heq]
    exact Or.inl ⟨h, rfl, rfl⟩
  · exact Or.inr ⟨rfl, rfl⟩

end Store

/-! ## 2. One block -/

namespace Ledger

variable {l : Ledger}

theorem releaseTransactions_cases : ∀ (hashes : List Hash) {l : Ledger}, l.store.Reliable →
    (∃ pools, l.releaseTransactions hashes =
      (.ok (), { l with
        store := l.store.applyAll (releaseWrites hashes), pools := pools })) ∨
    ∃ (e : LedgerError) (done : List Hash) (pools : Pools), l.releaseTransactions hashes =
      (.error e, { l with
        store := l.store.applyAll (releaseWrites done), pools := pools })
  | [], l, _ => Or.inl ⟨l.pools, rfl⟩
  | hash :: rest, l, hs => by
    unfold releaseTransactions
    split
    · rename_i e _
      exact Or.inr ⟨.store e, [], l.pools, rfl⟩
    · rename_i hnone
      -- A hash that is not stored is passed over, and erasing it would change nothing.
      have habsent : l.store.apply (.removeTransaction hash) = l.store := by
        simp only [Store.apply]
        rw [Table.erase_of_absent (hs.transaction?_eq_none.mp hnone)]
      have hstep : l.store.applyAll (releaseWrites (hash :: rest)) =
          l.store.applyAll (releaseWrites rest) := by
        conv => rhs; rw [← habsent]
        rfl
      rw [hstep]
      exact releaseTransactions_cases rest hs
    · rename_i t _
      have hremove : l.store.removeTransaction hash =
          .ok (l.store.applyAll [.removeTransaction hash]) := hs.perform _ _
      simp only [hremove]
      rcases releaseTransactions_cases rest
          (l := { l with
            store := l.store.applyAll [.removeTransaction hash], pools := (l.pools.add t).2 })
          (hs.applyAll _) with ⟨pools, h⟩ | ⟨e, done, pools, h⟩
      · exact Or.inl ⟨pools, h⟩
      · exact Or.inr ⟨e, hash :: done, pools, h⟩

theorem removeHeight_of_reliable {s : Store} (hs : s.Reliable) (height : UInt64) :
    removeHeight s height =
      (.ok (), s.applyAll [.removeBlock height, .removeTree height, .removeSnapshot height]) := by
  have h1 : s.removeBlock height = .ok (s.applyAll [.removeBlock height]) := hs.perform _ _
  have hs1 := hs.applyAll [.removeBlock height]
  have h2 : (s.applyAll [.removeBlock height]).removeTree height = _ := hs1.perform _ _
  have h3 := (hs1.applyAll [.removeTree height]).perform .removeSnapshot [.removeSnapshot height]
  simp only [removeHeight, h1, h2, Store.removeSnapshot, h3]
  rfl

/-- The hashes that are released when the block at a height is given up. -/
def Releases (s : Store) (height : UInt64) (hashes : List Hash) : Prop :=
  (s.blocks[height]? = none ∧ hashes = []) ∨
    ∃ x b, s.blocks[height]? = some x ∧ Block.ofBytes x = .ok b ∧ hashes = b.txHashes

/-- **What giving up a block does.**  Either it undoes the writes of the block that is stored at
the height, or it stops on the way and has taken out some transactions. -/
theorem discard_cases (hs : l.store.Reliable) (height : UInt64) :
    (∃ hashes pools, Releases l.store height hashes ∧
      l.discard height =
        (.ok (), { l with
          store := l.store.applyAll (discardWrites height hashes), pools := pools })) ∨
    ∃ (e : LedgerError) (done : List Hash) (pools : Pools), l.discard height =
      (.error e, { l with
        store := l.store.applyAll (releaseWrites done), pools := pools }) := by
  unfold discard releaseBlock
  cases hblock : l.store.block? height with
  | error e => exact Or.inr ⟨.store e, [], l.pools, rfl⟩
  | ok found =>
    cases found with
    | none =>
      have habsent := hs.block?_eq_none.mp hblock
      refine Or.inl ⟨[], l.pools, Or.inl ⟨habsent, rfl⟩, ?_⟩
      simp only [removeHeight_of_reliable hs]
      rfl
    | some b =>
      obtain ⟨x, hx, hb⟩ := hs.block?_eq_some.mp hblock
      rcases releaseTransactions_cases b.txHashes hs with ⟨pools, h⟩ | ⟨e, done, pools, h⟩
      · refine Or.inl ⟨b.txHashes, pools, Or.inr ⟨x, b, hx, hb, rfl⟩, ?_⟩
        simp only [h, removeHeight_of_reliable (hs.applyAll _)]
        rw [discardWrites, Store.applyAll_append]
      · exact Or.inr ⟨e, done, pools, by simp only [h]⟩

/-! ## 3. All blocks above a height -/

theorem toNat_add_ofNat {base : UInt64} {n : Nat} (h : base.toNat + n < UInt64.size) :
    (base + UInt64.ofNat n).toNat = base.toNat + n := by
  have hn : (UInt64.ofNat n).toNat = n := UInt64.toNat_ofNat_of_lt' (by omega)
  rw [UInt64.toNat_add, hn]
  exact Nat.mod_eq_of_lt h

/-- However far it gets, giving up blocks only takes heights above the base away; when it gets
to its end, all of them are gone. -/
theorem discardAbove_recedes (base : UInt64) : ∀ (n : Nat) {l : Ledger}, l.store.Reliable →
    base.toNat + n < UInt64.size →
    ∃ result store pools,
      l.discardAbove base n = (result, { l with store := store, pools := pools }) ∧
        l.store.Recedes base store ∧
        (result = .ok () → ∀ k : UInt64, base < k → k.toNat ≤ base.toNat + n →
          store.blocks[k]? = none ∧ store.snapshots[k]? = none)
  | 0, l, _, _ => by
    refine ⟨.ok (), l.store, l.pools, rfl, Store.Recedes.refl base _, fun _ k hlow hhigh => ?_⟩
    have := UInt64.lt_iff_toNat_lt.mp hlow
    omega
  | n + 1, l, hs, hsize => by
    have htop := toNat_add_ofNat hsize
    have habove : base < base + UInt64.ofNat (n + 1) := by
      rw [UInt64.lt_iff_toNat_lt]
      omega
    unfold discardAbove
    rcases discard_cases hs (base + UInt64.ofNat (n + 1)) with
      ⟨hashes, pools, -, h⟩ | ⟨e, done, pools, h⟩
    · obtain ⟨result, store, pools', hrest, hrecedes, hgone⟩ :=
        discardAbove_recedes base n
          (l := { l with
            store := l.store.applyAll (discardWrites (base + UInt64.ofNat (n + 1)) hashes)
            pools := pools })
          (hs.applyAll _) (by omega)
      have hfirst := Store.recedes_discardWrites habove l.store hashes
      refine ⟨result, store, pools', by simp only [h, hrest], hfirst.trans hrecedes, ?_⟩
      intro hok k hlow hhigh
      by_cases hk : k.toNat ≤ base.toNat + n
      · exact hgone hok k hlow hk
      · have hktop : k = base + UInt64.ofNat (n + 1) := by
          apply UInt64.toNat_inj.mp
          omega
        have herased := Store.applyAll_discardWrites l.store (base + UInt64.ofNat (n + 1)) hashes
        rcases hrecedes.heights k with ⟨-, gone⟩ | ⟨hb, hsnap⟩
        · exact gone
        · rw [hb, hsnap, herased, hktop]
          simp
    · exact ⟨.error e, _, pools, by simp only [h], Store.recedes_releaseWrites base l.store done,
        fun hok => nomatch hok⟩

/-! ## 4. On the store of a history -/

open History

variable {start : Accounts} {c : History} {e : Entry}

/-- Giving up the block at the top undoes what committing it wrote, except for the height. -/
theorem applyAll_discardWrites_ofHistory (hc : Sound start (e :: c)) (hfresh : Fresh (e :: c))
    (stored : Option UInt64) :
    ({ Store.ofHistory start (e :: c) with chainHeight := stored } : Store).applyAll
        (discardWrites e.block.height e.block.txHashes) =
      { Store.ofHistory start c with chainHeight := stored } := by
  have habove : ¬ e.block.height.toNat ≤ c.length := by
    rw [hc.1.height]
    omega
  have hblocks : (Store.ofHistory start c).blocks[e.block.height]? = none := by
    rw [Store.blocks_ofHistory hc.2, if_neg habove]
  have hsnapshots : (Store.ofHistory start c).snapshots[e.block.height]? = none := by
    rw [Store.snapshots_ofHistory hc.2, if_neg habove]
  have htrees : (Store.ofHistory start c).trees[e.block.height]? = none := by
    rw [Store.trees_ofHistory hc.2, if_neg fun h => habove h.2]
  have htransactions :
      e.block.txHashes.foldl (fun m h => m.erase h)
          (Store.ofHistory start (e :: c)).transactions =
        (Store.ofHistory start c).transactions := by
    refine Std.ExtTreeMap.ext_getElem? fun hash => ?_
    rw [Store.getElem?_eraseAll]
    split
    · rename_i hmem
      have hnot : ¬ (Store.ofHistory start c).transactions.contains hash = true := fun h =>
        hfresh.1 hash hmem ((Store.contains_transactions_ofHistory hc.2 hash).mp h)
      simpa using hnot
    · rename_i hmem
      rw [← hc.1.hashes] at hmem
      exact Store.getElem?_putTransactions_of_not_mem _ hmem
  rw [Store.applyAll_discardWrites]
  exact (Store.mk.injEq ..).mpr
    ⟨Table.erase_insert_of_absent hblocks, htransactions,
      Table.erase_insert_of_absent htrees,
      Table.erase_insert_of_absent hsnapshots, rfl, rfl⟩

/-- The block that is released from the store of a history is the one at the top. -/
theorem releases_ofHistory {s : Store} {hashes : List Hash}
    (hs : s.blocks = (Store.ofHistory start (e :: c)).blocks)
    (h : Releases s e.block.height hashes) : hashes = e.block.txHashes := by
  have htop : s.blocks[e.block.height]? = some e.block.toBytes := by
    rw [hs]
    exact Std.ExtTreeMap.getElem?_insert_self
  rcases h with ⟨hnone, -⟩ | ⟨x, b, hx, hb, rfl⟩
  · rw [htop] at hnone
    cases hnone
  · rw [htop] at hx
    cases hx
    rw [Block.eq_of_ofBytes_toBytes hb]

/-- Giving up the block at the top leaves the store of the history below it, except for the
height, or stops on the way. -/
theorem discard_ofHistory {stored : Option UInt64} {top : UInt64} (hc : Sound start (e :: c))
    (hfresh : Fresh (e :: c))
    (hstore : l.store = { Store.ofHistory start (e :: c) with chainHeight := stored })
    (htop : top.toNat = c.length + 1) :
    (∃ l', l.discard top = (.ok (), l') ∧
      l'.store = { Store.ofHistory start c with chainHeight := stored }) ∨
    ∃ err l', l.discard top = (.error err, l') := by
  have hs : l.store.Reliable := by
    rw [hstore]
    exact Store.reliable_ofHistory start (e :: c)
  have heq : top = e.block.height := UInt64.toNat_inj.mp (htop.trans hc.1.height.symm)
  subst heq
  rcases discard_cases hs e.block.height with ⟨hashes, pools, hreleases, h⟩ | ⟨err, _, _, h⟩
  · have hhashes : hashes = e.block.txHashes := releases_ofHistory (by rw [hstore]) hreleases
    refine Or.inl ⟨_, h, ?_⟩
    simp only [hhashes, hstore]
    exact applyAll_discardWrites_ofHistory hc hfresh stored
  · exact Or.inr ⟨err, _, h⟩

/-- **Giving up blocks undoes their commits.**  On the store of a history, getting to the end
leaves the store of the history up to the base, except for the height. -/
theorem discardAbove_ofHistory (base : UInt64) {stored : Option UInt64} :
    ∀ (n : Nat) {c : History} {l l' : Ledger}, c.Sound start → c.Fresh →
      c.length = base.toNat + n → c.length < UInt64.size →
      l.store = { Store.ofHistory start c with chainHeight := stored } →
      l.discardAbove base n = (.ok (), l') →
      l'.store = { Store.ofHistory start (c.cut base.toNat) with chainHeight := stored }
  | 0, c, l, l', _, _, hlen, _, hstore, h => by
    cases h
    rw [cut_of_length_le (by omega), hstore]
  | n + 1, [], l, l', _, _, hlen, _, _, _ => by
    simp only [List.length_nil] at hlen
    omega
  | n + 1, e :: c, l, l', hc, hfresh, hlen, hsize, hstore, h => by
    rw [List.length_cons] at hlen hsize
    have htop : (base + UInt64.ofNat (n + 1)).toNat = c.length + 1 := by
      rw [toNat_add_ofNat (by omega)]
      omega
    unfold discardAbove at h
    rcases discard_ofHistory hc hfresh hstore htop with ⟨l₁, hd, hstore₁⟩ | ⟨err, l₁, hd⟩
    · simp only [hd] at h
      rw [cut_cons_of_le (by omega)]
      exact discardAbove_ofHistory base n hc.2 hfresh.2 (by omega) (by omega) hstore₁ h
    · simp only [hd] at h
      cases h

/-! ## 5. Getting to the end -/

/-- Transactions are released as long as all stored ones can be decoded. -/
theorem releaseTransactions_of_decodable : ∀ (hashes : List Hash) {l : Ledger},
    l.store.Reliable →
    (∀ (hash : Hash) (x : Bytes), l.store.transactions[hash]? = some x →
      ∃ t, Transaction.ofBytes x = .ok t) →
    (l.releaseTransactions hashes).1 = .ok ()
  | [], _, _, _ => rfl
  | hash :: rest, l, hs, hdecodable => by
    unfold releaseTransactions
    cases hstored : l.store.transactions[hash]? with
    | none =>
      simp only [hs.transaction?_eq_none.mpr hstored]
      exact releaseTransactions_of_decodable rest hs hdecodable
    | some x =>
      obtain ⟨t, ht⟩ := hdecodable hash x hstored
      have hremove : l.store.removeTransaction hash =
          .ok (l.store.applyAll [.removeTransaction hash]) := hs.perform _ _
      simp only [hs.transaction?_eq_some.mpr ⟨x, hstored, ht⟩, hremove]
      refine releaseTransactions_of_decodable rest (hs.applyAll _) fun hash' x' h => ?_
      have herased : (l.store.transactions.erase hash)[hash']? = some x' := h
      rw [Std.ExtTreeMap.getElem?_erase] at herased
      split at herased
      · cases herased
      · exact hdecodable hash' x' herased

theorem decodable_ofHistory (hc : c.Sound start) (hfresh : c.Fresh) (hlegible : ∀ e ∈ c, e.Legible)
    {hash : Hash} {x : Bytes} (h : (Store.ofHistory start c).transactions[hash]? = some x) :
    ∃ t, Transaction.ofBytes x = .ok t := by
  obtain ⟨t, ht, -, rfl⟩ := Store.exists_of_transactions_ofHistory hc hfresh h
  obtain ⟨e, he, hte⟩ := List.mem_flatMap.mp ht
  exact ⟨t, Transaction.ofBytes_toBytes ((hlegible e he).transactions t hte)⟩

theorem discard_of_legible {stored : Option UInt64} (hc : Sound start (e :: c))
    (hfresh : Fresh (e :: c)) (hlegible : ∀ e' ∈ e :: c, e'.Legible)
    (hstore : l.store = { Store.ofHistory start (e :: c) with chainHeight := stored }) :
    (l.discard e.block.height).1 = .ok () := by
  have hs : l.store.Reliable := by
    rw [hstore]
    exact Store.reliable_ofHistory start (e :: c)
  have hblock : l.store.block? e.block.height = .ok (some e.block) := by
    refine hs.block?_of_stored ?_ (hlegible e List.mem_cons_self).block
    rw [hstore]
    exact Std.ExtTreeMap.getElem?_insert_self
  have hreleased : (l.releaseTransactions e.block.txHashes).1 = .ok () := by
    refine releaseTransactions_of_decodable _ hs fun hash x h => ?_
    rw [hstore] at h
    exact decodable_ofHistory hc hfresh hlegible h
  rcases releaseTransactions_cases e.block.txHashes hs with ⟨pools, h⟩ | ⟨err, done, pools, h⟩
  · simp only [discard, releaseBlock, hblock, h, removeHeight_of_reliable (hs.applyAll _)]
  · rw [h] at hreleased
    cases hreleased

/-- **Giving up blocks gets to its end** on the store of a history whose blocks and transactions
can all be decoded. -/
theorem discardAbove_of_legible (base : UInt64) {stored : Option UInt64} :
    ∀ (n : Nat) {c : History} {l : Ledger}, c.Sound start → c.Fresh → (∀ e ∈ c, e.Legible) →
      c.length = base.toNat + n → c.length < UInt64.size →
      l.store = { Store.ofHistory start c with chainHeight := stored } →
      (l.discardAbove base n).1 = .ok ()
  | 0, _, _, _, _, _, _, _, _ => rfl
  | n + 1, [], _, _, _, _, hlen, _, _ => by
    simp only [List.length_nil] at hlen
    omega
  | n + 1, e :: c, l, hc, hfresh, hlegible, hlen, hsize, hstore => by
    rw [List.length_cons] at hlen hsize
    have htop : (base + UInt64.ofNat (n + 1)).toNat = c.length + 1 := by
      rw [toNat_add_ofNat (by omega)]
      omega
    have hok : (l.discard (base + UInt64.ofNat (n + 1))).1 = .ok () := by
      rw [UInt64.toNat_inj.mp (htop.trans hc.1.height.symm)]
      exact discard_of_legible hc hfresh hlegible hstore
    unfold discardAbove
    rcases discard_ofHistory hc hfresh hstore htop with ⟨l₁, hd, hstore₁⟩ | ⟨err, l₁, hd⟩
    · simp only [hd]
      exact discardAbove_of_legible base n hc.2 hfresh.2
        (fun e' he' => hlegible e' (List.mem_cons_of_mem e he')) (by omega) (by omega) hstore₁
    · rw [hd] at hok
      cases hok

/-! ## 6. Standing at the block below -/

theorem takeUpSchemes_all {h : Header} {declared : LiveSchemes}
    (hdeclared : declaredSchemes h = .ok declared) (live : LiveSchemes) :
    takeUpSchemes h Slot.all live = (.ok (), declared) := by
  have hd := declaredSchemes_eq_ok.mp hdeclared
  simp only [Slot.all, takeUpSchemes, hd]
  rfl

/-- What is restored from a stored snapshot are the accounts it was made of. -/
theorem restoredAccounts_cases {s : Store} {height : UInt64} {accounts : Accounts}
    (hs : s.Reliable) (hsnapshot : s.snapshots[height]? = some accounts.toBytes)
    (current : Accounts) :
    restoredAccounts s height current = .ok accounts ∨
      (∃ e, restoredAccounts s height current = .error e) ∧
        Protocol.maxMessageBytes < accounts.toBytes.length := by
  unfold restoredAccounts
  simp only [hs.snapshot?, hsnapshot]
  cases hread : Accounts.ofBytes accounts.toBytes with
  | ok a => exact Or.inl (by rw [Accounts.eq_of_ofBytes_toBytes hread])
  | error e =>
    refine Or.inr ⟨⟨.account e, rfl⟩, Nat.lt_of_not_le fun h => ?_⟩
    rw [Accounts.ofBytes_toBytes h] at hread
    cases hread

/-- The ledger after it went back to a block. -/
def stoodAt (l : Ledger) (target : Block) (height : UInt64) (accounts : Accounts)
    (schemes : LiveSchemes) : Ledger :=
  { l with
    store := l.store.applyAll [.putHeight height]
    accounts := accounts
    schemes := schemes
    lastBlock := target
    height := height }

theorem standAt_cases {target : Block} {height : UInt64} {accounts : Accounts}
    {declared : LiveSchemes} (hs : l.store.Reliable)
    (hsnapshot : l.store.snapshots[height]? = some accounts.toBytes)
    (hdeclared : declaredSchemes target.header = .ok declared) :
    l.standAt target height = (.ok (), l.stoodAt target height accounts declared) ∨
      (∃ e, l.standAt target height = (.error e, l)) ∧
        Protocol.maxMessageBytes < accounts.toBytes.length := by
  unfold standAt
  rcases restoredAccounts_cases hs hsnapshot l.accounts with h | ⟨⟨e, h⟩, hlong⟩
  · have hput : l.store.putHeight height = .ok (l.store.applyAll [.putHeight height]) :=
      hs.perform _ _
    left
    simp only [h, hput, takeUpSchemes_all hdeclared, stoodAt]
  · right
    simp only [h]
    exact ⟨⟨e, rfl⟩, hlong⟩

/-- Standing at another block has nothing to do with pools, votes, figures and the stake that is
asked for, nor with what fails in the store. -/
theorem standAt_snd (l : Ledger) (target : Block) (height : UInt64) :
    ∃ store accounts schemes lastBlock height', store.failure = l.store.failure ∧
      (l.standAt target height).2 =
        { l with
          store := store, accounts := accounts, schemes := schemes, lastBlock := lastBlock
          height := height' } := by
  unfold standAt
  split
  · exact ⟨l.store, l.accounts, l.schemes, l.lastBlock, l.height, rfl, rfl⟩
  · rename_i accounts _
    simp only
    split
    · exact ⟨l.store, accounts, l.schemes, l.lastBlock, l.height, rfl, rfl⟩
    · rename_i store hput
      have hfailure : store.failure = l.store.failure := by
        rw [Store.eq_of_perform hput, Store.failure_applyAll]
      split
      · rename_i schemes _
        exact ⟨store, accounts, schemes, l.lastBlock, l.height, hfailure, rfl⟩
      · rename_i schemes _
        exact ⟨store, accounts, schemes, target, height, hfailure, rfl⟩

theorem rollback_of_le {height : UInt64} (h : l.height ≤ height) :
    l.rollback height = (.ok (), l) := by
  rw [rollback, if_pos h]

/-- **What a rollback does** when there are blocks to give up: it stops at once when there is
no block to go back to, or where giving up blocks stops, or it stands at the block it was to go
back to. -/
theorem rollback_cases {height : UInt64} (h : ¬ l.height ≤ height) :
    (∃ e, requireBlock l.store height = .error e ∧ l.rollback height = (.error e, l)) ∨
      ∃ target, requireBlock l.store height = .ok target ∧
        ((∃ e l', l.discardAbove height (l.height.toNat - height.toNat) = (.error e, l') ∧
            l.rollback height = (.error e, l')) ∨
          ∃ l', l.discardAbove height (l.height.toNat - height.toNat) = (.ok (), l') ∧
            l.rollback height = l'.standAt target height) := by
  simp only [rollback, if_neg h]
  cases hrequire : requireBlock l.store height with
  | error e => exact Or.inl ⟨e, rfl, rfl⟩
  | ok target =>
    refine Or.inr ⟨target, rfl, ?_⟩
    rcases hdiscard : l.discardAbove height (l.height.toNat - height.toNat) with ⟨e | u, l'⟩
    · exact Or.inl ⟨e, l', rfl, rfl⟩
    · exact Or.inr ⟨l', rfl, rfl⟩

/-- **Rolling back has nothing to do with votes, figures, the stake that is asked for and the
flag**, nor with what fails in the store. -/
theorem rollback_snd (hs : l.store.Reliable) (height : UInt64) :
    ∃ store pools accounts schemes lastBlock height', store.failure = l.store.failure ∧
      (l.rollback height).2 =
        { l with
          store := store, pools := pools, accounts := accounts, schemes := schemes
          lastBlock := lastBlock, height := height' } := by
  by_cases hle : l.height ≤ height
  · exact ⟨l.store, l.pools, l.accounts, l.schemes, l.lastBlock, l.height, rfl,
      by rw [rollback_of_le hle]⟩
  have hsize : height.toNat + (l.height.toNat - height.toNat) < UInt64.size := by
    have hlt : l.height.toNat < UInt64.size := l.height.toNat_lt
    rw [UInt64.le_iff_toNat_le] at hle
    omega
  obtain ⟨result, store, pools, hdiscard, hrecedes, -⟩ :=
    discardAbove_recedes height (l.height.toNat - height.toNat) hs hsize
  rcases rollback_cases hle with ⟨e, -, h⟩ | ⟨target, -, ⟨e, l', hstop, h⟩ | ⟨l', hend, h⟩⟩
  · exact ⟨l.store, l.pools, l.accounts, l.schemes, l.lastBlock, l.height, rfl, by rw [h]⟩
  · rw [hdiscard] at hstop
    cases hstop
    exact ⟨store, pools, l.accounts, l.schemes, l.lastBlock, l.height, hrecedes.failure,
      by rw [h]⟩
  · rw [hdiscard] at hend
    cases hend
    obtain ⟨store', accounts, schemes, lastBlock, height', hfailure, hstand⟩ := standAt_snd
      { l with store := store, pools := pools } target height
    exact ⟨store', pools, accounts, schemes, lastBlock, height', hfailure.trans hrecedes.failure,
      by rw [h, hstand]⟩

theorem requireBlock_eq_ok {s : Store} (hs : s.Reliable) {height : UInt64} {b : Block}
    (h : requireBlock s height = .ok b) :
    ∃ x, s.blocks[height]? = some x ∧ Block.ofBytes x = .ok b := by
  unfold requireBlock at h
  split at h
  · cases h
  · cases h
  · rename_i hread
    cases h
    exact hs.block?_eq_some.mp hread

end Ledger

end SynergyNode
