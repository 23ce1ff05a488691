import SynergyNode.Proofs.Ledger.Consistency
import SynergyNode.Proofs.Pool

/-!
# What giving up blocks does to the pools

The transactions of the blocks that are given up are offered to the pools, those of the latest
block first and each of them once, however often its block lists it (`Keeps.pools_rollback`).
Pools with room take all of them.
-/

namespace SynergyNode

/-! ## 1. First occurrences -/

section

variable {α : Type} [BEq α]

theorem eraseDups_sublist : ∀ as : List α, as.eraseDups.Sublist as
  | [] => List.Sublist.refl []
  | a :: as => by
    rw [List.eraseDups_cons]
    exact ((eraseDups_sublist _).trans List.filter_sublist).cons_cons a
termination_by as => as.length
decreasing_by exact Nat.lt_succ_of_le (List.length_filter_le ..)

theorem nodup_eraseDups [LawfulBEq α] : ∀ as : List α, as.eraseDups.Nodup
  | [] => List.nodup_nil
  | a :: as => by
    rw [List.eraseDups_cons]
    refine List.nodup_cons.mpr ⟨fun hmem => ?_, nodup_eraseDups _⟩
    have hother := (List.mem_filter.mp (List.mem_eraseDups.mp hmem)).2
    rw [beq_self_eq_true] at hother
    cases hother
termination_by as => as.length
decreasing_by exact Nat.lt_succ_of_le (List.length_filter_le ..)

end

namespace History

/-- The transactions that are offered when entries are given up, those of the first entry first. -/
def offered (dropped : History) : List Transaction :=
  dropped.flatMap fun e => e.transactions.eraseDups

theorem offered_sublist (dropped : History) : (offered dropped).Sublist (transactions dropped) := by
  induction dropped with
  | nil => exact List.Sublist.refl []
  | cons e dropped ih =>
    rw [offered, transactions, List.flatMap_cons, List.flatMap_cons]
    exact (eraseDups_sublist e.transactions).append ih

theorem mem_offered {dropped : History} {t : Transaction} :
    t ∈ offered dropped ↔ t ∈ transactions dropped := by
  simp only [offered, transactions, List.mem_flatMap, List.mem_eraseDups]

end History

namespace Ledger

open History

variable {l : Ledger}

/-! ## 2. One block -/

/-- The transactions that are offered when they are released: those that are stored, each once. -/
def handed (s : Store) (txs : List Transaction) : List Transaction :=
  (txs.filter fun t => s.transactions.contains t.hash).eraseDups

theorem handed_of_stored {s : Store} {txs : List Transaction}
    (hread : ∀ t ∈ txs, s.transaction? t.hash = .ok (some t)) : handed s txs = txs.eraseDups := by
  rw [handed, List.filter_eq_self.mpr fun t ht => Store.contains_of_transaction? (hread t ht)]

theorem handed_cons_of_stored {s : Store} {t : Transaction} {txs : List Transaction}
    (hfirst : s.transaction? t.hash = .ok (some t))
    (hrest : ∀ u ∈ txs, s.transaction? u.hash = .ok (some u) ∨ s.transaction? u.hash = .ok none) :
    handed s (t :: txs) = t :: handed (s.applyAll [.removeTransaction t.hash]) txs := by
  have hstored : s.transactions.contains t.hash = true := Store.contains_of_transaction? hfirst
  rw [handed, List.filter_cons, if_pos hstored, List.eraseDups_cons, List.filter_filter, handed]
  refine congrArg (fun us => t :: List.eraseDups us) (List.filter_congr fun u hu => ?_)
  have herase : (s.applyAll [.removeTransaction t.hash]).transactions.contains u.hash =
      (!compare t.hash u.hash == .eq && s.transactions.contains u.hash) :=
    Std.ExtTreeMap.contains_erase
  rw [herase]
  by_cases hhash : t.hash = u.hash
  · have hsame : u = t := by
      rcases hrest u hu with hu' | hu' <;> rw [← hhash, hfirst] at hu'
      · exact (Option.some.inj (Except.ok.inj hu')).symm
      · cases hu'
    simp [hsame]
  · have hne : (u == t) = false := beq_eq_false_iff_ne.mpr fun heq => hhash (heq ▸ rfl)
    have hcmp : compare t.hash u.hash ≠ .eq := fun hc => hhash (Std.LawfulEqCmp.eq_of_compare hc)
    simp [hne, hcmp]

theorem handed_cons_of_absent {s : Store} {t : Transaction} (txs : List Transaction)
    (hfirst : s.transaction? t.hash = .ok none) : handed s (t :: txs) = handed s txs := by
  have habsent : s.transactions.contains t.hash = false := Store.contains_of_transaction? hfirst
  rw [handed, List.filter_cons, if_neg (Bool.eq_false_iff.mp habsent), handed]

/-- Releasing transactions offers each of those that are stored to the pools, once. -/
theorem releaseTransactions_eq : ∀ (txs : List Transaction) {l : Ledger}, l.store.Reliable →
    (∀ t ∈ txs, l.store.transaction? t.hash = .ok (some t) ∨
      l.store.transaction? t.hash = .ok none) →
    l.releaseTransactions (txs.map Transaction.hash) =
      (.ok (), { l with
        store := l.store.applyAll (releaseWrites (txs.map Transaction.hash))
        pools := l.pools.addAll (handed l.store txs) })
  | [], l, _, _ => rfl
  | t :: txs, l, hs, hread => by
    obtain ⟨hfirst, hrest⟩ := List.forall_mem_cons.mp hread
    rw [List.map_cons]
    unfold releaseTransactions
    rcases hfirst with hstored | habsent
    · have hremove : l.store.removeTransaction t.hash =
          .ok (l.store.applyAll [.removeTransaction t.hash]) := hs.perform _ _
      have hread' : ∀ u ∈ txs,
          (l.store.applyAll [.removeTransaction t.hash]).transaction? u.hash = .ok (some u) ∨
            (l.store.applyAll [.removeTransaction t.hash]).transaction? u.hash = .ok none := by
        intro u hu
        rw [hs.transaction?_removeTransaction]
        split
        · exact Or.inr rfl
        · exact hrest u hu
      have h := releaseTransactions_eq txs
        (l := { l with
          store := l.store.applyAll [.removeTransaction t.hash], pools := (l.pools.add t).2 })
        (hs.applyAll _) hread'
      rw [handed_cons_of_stored hstored hrest]
      simp only [hstored, hremove, h]
      rfl
    · -- What is not stored is passed over, and erasing it would change nothing.
      have habsent' : l.store.apply (.removeTransaction t.hash) = l.store := by
        simp only [Store.apply]
        rw [Table.erase_of_absent (hs.transaction?_eq_none.mp habsent)]
      have hsame : l.store.applyAll (releaseWrites (t.hash :: txs.map Transaction.hash)) =
          l.store.applyAll (releaseWrites (txs.map Transaction.hash)) := by
        conv => rhs; rw [← habsent']
        rfl
      rw [handed_cons_of_absent txs habsent]
      simp only [habsent, releaseTransactions_eq txs hs hrest, hsame]

/-- **Releasing stored transactions offers all of them to the pools**, each once. -/
theorem releaseTransactions_of_stored {txs : List Transaction} (hs : l.store.Reliable)
    (hread : ∀ t ∈ txs, l.store.transaction? t.hash = .ok (some t)) :
    l.releaseTransactions (txs.map Transaction.hash) =
      (.ok (), { l with
        store := l.store.applyAll (releaseWrites (txs.map Transaction.hash))
        pools := l.pools.addAll txs.eraseDups }) := by
  rw [releaseTransactions_eq txs hs fun t ht => Or.inl (hread t ht), handed_of_stored hread]

variable {start : Accounts} {c : History} {e : Entry}

/-- Giving up the block at the top offers each of its transactions to the pools, once. -/
theorem discard_released {stored : Option UInt64} {top : UInt64} (hc : Sound start (e :: c))
    (hfresh : Fresh (e :: c)) (hfits : ∀ e' ∈ e :: c, e'.Fits)
    (hstore : l.store = { Store.ofHistory start (e :: c) with chainHeight := stored })
    (htop : top.toNat = c.length + 1) :
    ∃ l', l.discard top = (.ok (), l') ∧
      l'.store = { Store.ofHistory start c with chainHeight := stored } ∧
      l'.pools = l.pools.addAll e.transactions.eraseDups := by
  have hs : l.store.Reliable := by
    rw [hstore]
    exact Store.reliable_ofHistory start (e :: c)
  have heq : top = e.block.height := UInt64.toNat_inj.mp (htop.trans hc.1.height.symm)
  have hblock : l.store.block? top = .ok (some e.block) := by
    refine hs.block?_of_stored ?_ (hfits e List.mem_cons_self).block
    rw [hstore, heq]
    exact Std.ExtTreeMap.getElem?_insert_self
  have hread : ∀ t ∈ e.transactions, l.store.transaction? t.hash = .ok (some t) := by
    intro t ht
    refine hs.transaction?_of_stored ?_ ((hfits e List.mem_cons_self).transactions t ht)
    rw [hstore]
    exact Store.transactions_ofHistory hc hfresh (List.mem_append_left _ ht)
  have hrelease := releaseTransactions_of_stored hs hread
  rw [hc.1.hashes] at hrelease
  have hdiscard : l.discard top =
      (.ok (), { l with
        store := l.store.applyAll (discardWrites top e.block.txHashes)
        pools := l.pools.addAll e.transactions.eraseDups }) := by
    simp only [discard, releaseBlock, hblock, hrelease, removeHeight_of_reliable (hs.applyAll _),
      discardWrites, Store.applyAll_append]
  refine ⟨_, hdiscard, ?_, rfl⟩
  rcases discard_ofHistory hc hfresh hstore htop with ⟨l', h, hleft⟩ | ⟨err, l', h⟩
  · rw [hdiscard] at h
    cases h
    exact hleft
  · rw [hdiscard] at h
    cases h

/-! ## 3. All blocks above a height -/

theorem discardAbove_released (base : UInt64) {stored : Option UInt64} :
    ∀ (dropped : History) {l : Ledger}, Sound start (dropped ++ c) → Fresh (dropped ++ c) →
      (∀ e ∈ dropped ++ c, e.Fits) → c.length = base.toNat →
      (dropped ++ c).length < UInt64.size →
      l.store = { Store.ofHistory start (dropped ++ c) with chainHeight := stored } →
      ∃ l', l.discardAbove base dropped.length = (.ok (), l') ∧
        l'.pools = l.pools.addAll (offered dropped)
  | [], l, _, _, _, _, _, _ => ⟨l, rfl, rfl⟩
  | e :: dropped, l, hc, hfresh, hfits, hbase, hsize, hstore => by
    have hlen : (e :: dropped ++ c).length = base.toNat + (dropped.length + 1) := by
      rw [List.length_append, List.length_cons, hbase]
      omega
    have htop : (base + UInt64.ofNat (dropped.length + 1)).toNat = (dropped ++ c).length + 1 := by
      rw [toNat_add_ofNat (by omega), List.length_append]
      omega
    obtain ⟨l₁, hdiscard, hstore₁, hpools₁⟩ := discard_released hc hfresh hfits hstore htop
    have hsize' : (dropped ++ c).length < UInt64.size :=
      Nat.lt_of_succ_lt hsize
    obtain ⟨l₂, habove, hpools₂⟩ :=
      discardAbove_released base dropped hc.2 hfresh.2
        (fun e' he' => hfits e' (List.mem_cons_of_mem e he')) hbase hsize' hstore₁
    refine ⟨l₂, by simp only [List.length_cons, discardAbove, hdiscard, habove], ?_⟩
    rw [hpools₂, hpools₁, ← Pools.addAll_append, offered, offered, List.flatMap_cons]

/-- **A rollback offers the transactions of the blocks that are given up to the pools**, those of
the latest block first and each once for every block. -/
theorem Keeps.pools_rollback (h : Keeps start l c) (hfollows : Follows start l c)
    (hfits : ∀ e ∈ c, e.Fits) (height : UInt64) :
    (l.rollback height).2.pools = l.pools.addAll (offered (c.above height.toNat)) := by
  by_cases hle : l.height ≤ height
  · have hnone : c.above height.toNat = [] := by
      rw [above, Nat.sub_eq_zero_of_le (by rw [hfollows.length]; exact hle), List.take_zero]
    rw [rollback_of_le hle, hnone]
    rfl
  have hk : height.toNat ≤ c.length := by
    rw [UInt64.le_iff_toNat_le] at hle
    rw [hfollows.length]
    omega
  have hsplit := (above_append_cut c height.toNat).symm
  have hcount : (c.above height.toNat).length = l.height.toNat - height.toNat := by
    rw [above, List.length_take, hfollows.length]
    omega
  obtain ⟨l', hdiscard, hpools⟩ :=
    discardAbove_released (c := c.cut height.toNat) height (c.above height.toNat)
      (hsplit ▸ hfollows.sound) (hsplit ▸ h.fresh) (hsplit ▸ hfits) (length_cut hk)
      (hsplit ▸ hfollows.length_lt) (hsplit ▸ h.store)
  rw [hcount] at hdiscard
  have hblock := h.block? hfollows hfits (hfollows.toNat_le.mpr hk)
  obtain ⟨_, _, _, _, _, -, hstand⟩ := standAt_snd l' (c.cut height.toNat).tip height
  simp only [Ledger.rollback, if_neg hle, requireBlock, hblock, hdiscard, hstand, hpools]

end Ledger

end SynergyNode
