import SynergyNode.Proofs.Ledger.Run

/-!
# The writes of a rollback

A rollback gives up one block after the other, from the top, and writes the new height when all of
them are gone (`rollbackWrites`).  All of these writes together leave the store of the history that
is gone back to (`applyAll_rollbackWrites`), and whatever operations of the store fail, a rollback
makes the first few of them (`Keeps.rollback_made`).
-/

namespace SynergyNode

namespace Ledger

/-- The changes of the store that giving up some entries makes.  A hash that a block lists again is
not taken out again. -/
def dropWrites (dropped : History) : List StoreWrite :=
  dropped.flatMap fun e => discardWrites e.block.height e.block.txHashes.eraseDups

/-- The changes of the store that giving up some entries and going back to a height makes. -/
def rollbackWrites (height : UInt64) (dropped : History) : List StoreWrite :=
  dropWrites dropped ++ [.putHeight height]

theorem dropWrites_cons (e : Entry) (dropped : History) :
    dropWrites (e :: dropped) =
      discardWrites e.block.height e.block.txHashes.eraseDups ++ dropWrites dropped :=
  List.flatMap_cons

end Ledger

/-! ## 1. Stores -/

namespace Store

theorem applyAll_discardWrites_eraseDups (s : Store) (height : UInt64) (hashes : List Hash) :
    s.applyAll (Ledger.discardWrites height hashes.eraseDups) =
      s.applyAll (Ledger.discardWrites height hashes) := by
  have herased : hashes.eraseDups.foldl (fun m h => m.erase h) s.transactions =
      hashes.foldl (fun m h => m.erase h) s.transactions := by
    refine Std.ExtTreeMap.ext_getElem? fun hash => ?_
    simp only [getElem?_eraseAll, List.mem_eraseDups]
  rw [applyAll_discardWrites, applyAll_discardWrites, herased]

end Store

/-! ## 2. All writes -/

namespace Ledger

open History

variable {start : Accounts} {l : Ledger} {c : History}

theorem applyAll_dropWrites {stored : Option UInt64} : ∀ {dropped : History},
    Sound start (dropped ++ c) → Fresh (dropped ++ c) →
    ({ Store.ofHistory start (dropped ++ c) with chainHeight := stored } : Store).applyAll
        (dropWrites dropped) =
      { Store.ofHistory start c with chainHeight := stored }
  | [], _, _ => rfl
  | e :: dropped, hsound, hfresh => by
    have htop : ({ Store.ofHistory start (e :: (dropped ++ c)) with chainHeight := stored } :
        Store).applyAll (discardWrites e.block.height e.block.txHashes) =
        { Store.ofHistory start (dropped ++ c) with chainHeight := stored } :=
      applyAll_discardWrites_ofHistory hsound hfresh stored
    rw [dropWrites_cons, Store.applyAll_append, Store.applyAll_discardWrites_eraseDups,
      List.cons_append, htop]
    exact applyAll_dropWrites hsound.2 hfresh.2

/-- On the store of a history, the writes leave the store of the history that is gone back to. -/
theorem applyAll_rollbackWrites {height : UInt64} {dropped : History}
    (hsound : Sound start (dropped ++ c)) (hfresh : Fresh (dropped ++ c))
    (hheight : c.tip.height = height) :
    (Store.ofHistory start (dropped ++ c)).applyAll (rollbackWrites height dropped) =
      Store.ofHistory start c := by
  have hdropped : (Store.ofHistory start (dropped ++ c)).applyAll (dropWrites dropped) =
      { Store.ofHistory start c with
        chainHeight := (Store.ofHistory start (dropped ++ c)).chainHeight } :=
    applyAll_dropWrites hsound hfresh
  have hchain := Store.chainHeight_ofHistory start c
  rw [hheight] at hchain
  rw [rollbackWrites, Store.applyAll_append, hdropped]
  simp only [Store.applyAll, List.foldl_cons, List.foldl_nil, Store.apply, ← hchain]

/-! ## 3. When operations fail -/

/-- The hashes that are taken out when transactions are released: those that are stored, each
once. -/
def released (s : Store) (hashes : List Hash) : List Hash :=
  (hashes.filter s.transactions.contains).eraseDups

theorem released_cons_of_stored {s : Store} {hash : Hash} {rest : List Hash}
    (h : s.transactions.contains hash = true) :
    released s (hash :: rest) =
      hash :: released (s.applyAll [.removeTransaction hash]) rest := by
  have hcontains : (fun other => s.transactions.contains other && !other == hash) =
      (s.applyAll [.removeTransaction hash]).transactions.contains := by
    funext other
    have herase : (s.applyAll [.removeTransaction hash]).transactions.contains other =
        (!compare hash other == .eq && s.transactions.contains other) :=
      Std.ExtTreeMap.contains_erase
    by_cases heq : hash = other
    · subst heq
      simp [herase]
    · have hne : (other == hash) = false := beq_eq_false_iff_ne.mpr (Ne.symm heq)
      have hcmp : compare hash other ≠ .eq := fun hc => heq (Std.LawfulEqCmp.eq_of_compare hc)
      simp [herase, hne, hcmp]
  rw [released, List.filter_cons_of_pos h, List.eraseDups_cons, List.filter_filter, released,
    ← hcontains]
  simp only [Bool.and_comm]

/-- Releasing transactions takes the first few of them out, and all of them if it gets to its
end. -/
theorem releaseTransactions_made (hashes : List Hash) {l : Ledger} :
    ∃ result done pools, done <+: released l.store hashes ∧
      (result = .ok () → done = released l.store hashes) ∧
      l.releaseTransactions hashes =
        (result, { l with store := l.store.applyAll (releaseWrites done), pools := pools }) := by
  induction hashes generalizing l with
  | nil => exact ⟨.ok (), [], l.pools, List.nil_prefix, fun _ => rfl, rfl⟩
  | cons hash rest ih =>
    unfold releaseTransactions
    cases hread : l.store.transaction? hash with
    | error e => exact ⟨.error (.store e), [], l.pools, List.nil_prefix, by rintro ⟨⟩, rfl⟩
    | ok found =>
      have hcontains := Store.contains_of_transaction? hread
      cases found with
      | none =>
        have hpassed : released l.store (hash :: rest) = released l.store rest := by
          rw [released, List.filter_cons_of_neg (by simp [hcontains]), released]
        rw [hpassed]
        exact ih
      | some t =>
        rw [released_cons_of_stored hcontains]
        cases hremove : l.store.removeTransaction hash with
        | error e => exact ⟨.error (.store e), [], l.pools, List.nil_prefix, by rintro ⟨⟩, rfl⟩
        | ok s =>
          have hs := Store.eq_of_perform hremove
          subst hs
          obtain ⟨result, done, pools, hfirst, hall, h⟩ := ih (l := { l with
            store := l.store.applyAll [.removeTransaction hash], pools := (l.pools.add t).2 })
          exact ⟨result, hash :: done, pools, List.cons_prefix_cons.mpr ⟨rfl, hfirst⟩,
            fun hok => congrArg (hash :: ·) (hall hok), h⟩

theorem removeHeight_made (s : Store) (height : UInt64) :
    ∃ result made, made <+: [.removeBlock height, .removeTree height, .removeSnapshot height] ∧
      (result = .ok () →
        made = [.removeBlock height, .removeTree height, .removeSnapshot height]) ∧
      removeHeight s height = (result, s.applyAll made) := by
  unfold removeHeight
  cases hblock : s.removeBlock height with
  | error e => exact ⟨.error e, [], List.nil_prefix, by rintro ⟨⟩, rfl⟩
  | ok s₁ =>
    have h₁ := Store.eq_of_perform hblock
    subst h₁
    cases htree : (s.applyAll [.removeBlock height]).removeTree height with
    | error e =>
      refine ⟨.error e, [.removeBlock height], List.prefix_append _ _, by rintro ⟨⟩, ?_⟩
      simp only [htree]
    | ok s₂ =>
      have h₂ := Store.eq_of_perform htree
      subst h₂
      cases hsnapshot : ((s.applyAll [.removeBlock height]).applyAll
          [.removeTree height]).removeSnapshot height with
      | error e =>
        refine ⟨.error e, [.removeBlock height, .removeTree height], List.prefix_append _ _,
          by rintro ⟨⟩, ?_⟩
        simp only [htree, hsnapshot]
        rfl
      | ok s₃ =>
        have h₃ := Store.eq_of_perform hsnapshot
        subst h₃
        refine ⟨.ok (), _, List.prefix_refl _, fun _ => rfl, ?_⟩
        simp only [htree, hsnapshot]
        rfl

/-- Giving up a stored block makes the first few of its writes, and all of them if it gets to its
end. -/
theorem discard_made {l : Ledger} {b : Block}
    (hread : ∀ found, l.store.block? b.height = .ok found → found = some b) :
    ∃ result made pools, made <+: discardWrites b.height (released l.store b.txHashes) ∧
      (result = .ok () → made = discardWrites b.height (released l.store b.txHashes)) ∧
      l.discard b.height =
        (result, { l with store := l.store.applyAll made, pools := pools }) := by
  unfold discard releaseBlock
  cases hblock : l.store.block? b.height with
  | error e => exact ⟨.error (.store e), [], l.pools, List.nil_prefix, by rintro ⟨⟩, rfl⟩
  | ok found =>
    have hfound := hread found hblock
    subst hfound
    obtain ⟨result, done, pools, hfirst, hall, hrelease⟩ :=
      releaseTransactions_made b.txHashes (l := l)
    cases result with
    | error e =>
      exact ⟨.error e, releaseWrites done, pools,
        (hfirst.map _).trans (List.prefix_append _ _), by rintro ⟨⟩, by simp only [hrelease]⟩
    | ok _ =>
      have hdone := hall rfl
      subst hdone
      obtain ⟨removed, made, hmade, hend, hremove⟩ := removeHeight_made
        (l.store.applyAll (releaseWrites (released l.store b.txHashes))) b.height
      have hmade' := (List.prefix_append_right_inj
        (releaseWrites (released l.store b.txHashes))).mpr hmade
      cases removed with
      | error e =>
        exact ⟨.error (.store e), _, pools, hmade', by rintro ⟨⟩,
          by simp only [hrelease, hremove, Store.applyAll_append]⟩
      | ok _ =>
        exact ⟨.ok (), _, pools, hmade', fun _ => by rw [hend rfl, discardWrites],
          by simp only [hrelease, hremove, Store.applyAll_append]⟩

theorem found_of_block? {s : Store} {b : Block} {found : Option Block}
    (hstored : s.blocks[b.height]? = some b.toBytes)
    (hfits : b.toBytes.length ≤ Protocol.maxMessageBytes)
    (h : s.block? b.height = .ok found) : found = some b := by
  unfold Store.block? Store.fetch at h
  split at h
  · cases h
  · rw [hstored, Store.decoded, Block.ofBytes_toBytes hfits] at h
    exact (Except.ok.inj h).symm

/-- On the store of a history, every hash that the block at the top lists is released. -/
theorem released_ofHistory {s : Store} {e : Entry} (hsound : Sound start (e :: c))
    (hs : s.transactions = (Store.ofHistory start (e :: c)).transactions) :
    released s e.block.txHashes = e.block.txHashes.eraseDups := by
  have hstored : ∀ hash ∈ e.block.txHashes, s.transactions.contains hash = true := by
    intro hash hmem
    rw [hs, Store.contains_transactions_ofHistory hsound, txHashes, List.flatMap_cons]
    exact List.mem_append_left _ hmem
  rw [released, List.filter_eq_self.mpr hstored]

/-- On the store of a history, whatever operations fail, giving up blocks makes the first few of
its writes, and all of them if it gets to its end. -/
theorem discardAbove_made {stored : Option UInt64} {failure : StoreOperation → Option StoreError}
    {base : UInt64} (hbase : base.toNat = c.length) : ∀ {dropped : History} {l : Ledger},
    Sound start (dropped ++ c) → Fresh (dropped ++ c) → (∀ e ∈ dropped, e.Fits) →
    base.toNat + dropped.length < UInt64.size →
    l.store =
      ({ Store.ofHistory start (dropped ++ c) with chainHeight := stored } : Store).failing
        failure →
    ∃ result made pools, made <+: dropWrites dropped ∧
      (result = .ok () → made = dropWrites dropped) ∧
      l.discardAbove base dropped.length =
        (result, { l with store := l.store.applyAll made, pools := pools })
  | [], l, _, _, _, _, _ => ⟨.ok (), [], l.pools, List.nil_prefix, fun _ => rfl, rfl⟩
  | e :: dropped, l, hsound, hfresh, hfits, hsize, hstore => by
    rw [List.length_cons] at hsize
    have hheight : e.block.height.toNat = (dropped ++ c).length + 1 := hsound.1.height
    have htop : base + UInt64.ofNat (dropped.length + 1) = e.block.height := by
      apply UInt64.toNat_inj.mp
      rw [toNat_add_ofNat hsize, hheight, List.length_append]
      omega
    have hread : ∀ found, l.store.block? e.block.height = .ok found → found = some e.block := by
      refine fun found => found_of_block? ?_ (hfits e List.mem_cons_self).block
      rw [hstore]
      exact Std.ExtTreeMap.getElem?_insert_self
    have hreleased : released l.store e.block.txHashes = e.block.txHashes.eraseDups :=
      released_ofHistory hsound (by rw [hstore]; rfl)
    obtain ⟨result, made, pools, hfirst, hall, hdiscard⟩ := discard_made hread
    rw [hreleased] at hfirst hall
    rw [dropWrites_cons, List.length_cons, discardAbove, htop]
    cases result with
    | error err =>
      exact ⟨.error err, made, pools, hfirst.trans (List.prefix_append _ _), by rintro ⟨⟩,
        by simp only [hdiscard]⟩
    | ok _ =>
      have hmade := hall rfl
      subst hmade
      have hbelow : l.store.applyAll
            (discardWrites e.block.height e.block.txHashes.eraseDups) =
          ({ Store.ofHistory start (dropped ++ c) with chainHeight := stored } : Store).failing
            failure := by
        rw [hstore, Store.applyAll_discardWrites_eraseDups, Store.applyAll_failing]
        exact congrArg (fun s : Store => s.failing failure)
          (applyAll_discardWrites_ofHistory hsound hfresh stored)
      obtain ⟨result, made, pools', hfirst', hall', hrest⟩ := discardAbove_made hbase
        (l := { l with
          store := l.store.applyAll
            (discardWrites e.block.height e.block.txHashes.eraseDups), pools := pools })
        hsound.2 hfresh.2 (fun e' he' => hfits e' (List.mem_cons_of_mem _ he')) (by omega) hbelow
      refine ⟨result, _, pools', (List.prefix_append_right_inj _).mpr hfirst', fun hok => ?_, ?_⟩
      · rw [hall' hok]
      · simp only [hdiscard, hrest, Store.applyAll_append]

theorem standAt_made (l : Ledger) (target : Block) (height : UInt64) :
    ∃ made, made <+: [.putHeight height] ∧
      (l.standAt target height).2.store = l.store.applyAll made := by
  unfold standAt
  split
  · exact ⟨[], List.nil_prefix, rfl⟩
  · simp only
    split
    · exact ⟨[], List.nil_prefix, rfl⟩
    · rename_i s hput
      have hs := Store.eq_of_perform hput
      subst hs
      refine ⟨[.putHeight height], List.prefix_refl _, ?_⟩
      split <;> rfl

/-- **However a rollback ends, it has made the first few of its writes.**  Any operations of the
store may fail. -/
theorem Keeps.rollback_made (h : Keeps start l c) (hfollows : Follows start l c)
    (hfits : ∀ e ∈ c, e.Fits) {height : UInt64} (hlow : height < l.height)
    (failure : StoreOperation → Option StoreError) :
    ∃ made, made <+: rollbackWrites height (c.above height.toNat) ∧
      ((l.failing failure).rollback height).2.store =
        (l.store.failing failure).applyAll made := by
  have hsplit := above_append_cut c height.toNat
  have hlow' := UInt64.lt_iff_toNat_lt.mp hlow
  have hlength := hfollows.length
  have hbase : height.toNat = (c.cut height.toNat).length := by
    rw [length_cut (by omega)]
  have hcount : l.height.toNat - height.toNat = (c.above height.toNat).length := by
    rw [above, List.length_take]
    omega
  have hsize : height.toNat + (c.above height.toNat).length < UInt64.size := by
    have hlt : l.height.toNat < UInt64.size := l.height.toNat_lt
    omega
  have hstore : (l.failing failure).store =
      ({ Store.ofHistory start (c.above height.toNat ++ c.cut height.toNat) with
        chainHeight := (Store.ofHistory start c).chainHeight } : Store).failing failure := by
    rw [hsplit, failing, h.store]
  have hfits' : ∀ e ∈ c.above height.toNat, e.Fits :=
    fun e he => hfits e (List.mem_of_mem_take he)
  obtain ⟨result, made, pools, hfirst, hall, hdiscard⟩ := discardAbove_made hbase
    (hsplit.symm ▸ hfollows.sound) (hsplit.symm ▸ h.fresh) hfits' hsize hstore
  rw [Ledger.rollback, height_failing, if_neg (UInt64.not_le.mpr hlow), hcount]
  split
  · exact ⟨[], List.nil_prefix, rfl⟩
  · rename_i target _
    rw [hdiscard]
    cases result with
    | error e => exact ⟨made, hfirst.trans (List.prefix_append _ _), rfl⟩
    | ok _ =>
      have hmade := hall rfl
      subst hmade
      obtain ⟨last, hlast, hstand⟩ := standAt_made _ target height
      refine ⟨_, (List.prefix_append_right_inj _).mpr hlast, ?_⟩
      rw [Store.applyAll_append]
      exact hstand

end Ledger

end SynergyNode
