import SynergyNode.Ledger.Commit
import SynergyNode.Proofs.Store

/-!
# Histories of a chain

What a ledger has committed and not given up again: for each block above the first, the block,
its transactions and the accounts after it.  The history is not stored anywhere; it is what the
store, the accounts and the last block are compared with.

* `History.cut`, `History.above`: the history as it was at a lower height, and what is above it;
* `History.Sound`: every block goes on from the one below it, with the reward, the root and the
  accounts that it should have;
* `History.Fresh`: no block lists a transaction of a block below it;
* `Store.ofHistory`: the store that holds exactly a history, and what stands in its tables.
-/

namespace SynergyNode

/-- A committed block with its transactions and the accounts after it. -/
structure Entry where
  block : Block
  transactions : List Transaction
  accounts : Accounts

/-- Everything that is stored with an entry can be decoded again. -/
structure Entry.Fits (e : Entry) : Prop where
  block : e.block.toBytes.length ≤ Protocol.maxMessageBytes
  transactions : ∀ t ∈ e.transactions, t.toBytes.length ≤ Protocol.maxMessageBytes
  snapshot : e.accounts.toBytes.length ≤ Protocol.maxMessageBytes

/-- Block and transactions of an entry can be decoded again, whatever its accounts. -/
structure Entry.Legible (e : Entry) : Prop where
  block : e.block.toBytes.length ≤ Protocol.maxMessageBytes
  transactions : ∀ t ∈ e.transactions, t.toBytes.length ≤ Protocol.maxMessageBytes

theorem Entry.Fits.legible {e : Entry} (h : e.Fits) : e.Legible := ⟨h.block, h.transactions⟩

/-- The committed blocks above the first, the latest at the front. -/
abbrev History := List Entry

/-! ## 1. Reading a history -/

namespace History

/-- The latest block. -/
def tip : History → Block
  | [] => Block.genesis
  | e :: _ => e.block

/-- The accounts after the latest block. -/
def accounts (start : Accounts) : History → Accounts
  | [] => start
  | e :: _ => e.accounts

/-- All blocks, the latest at the front and the first block at the end. -/
def blocks : History → List Block
  | [] => [Block.genesis]
  | e :: c => e.block :: blocks c

/-- The hashes that the blocks list. -/
def txHashes (c : History) : List Hash := c.flatMap fun e => e.block.txHashes

/-- The transactions that were applied. -/
def transactions (c : History) : List Transaction := c.flatMap Entry.transactions

/-- The history up to a height. -/
def cut (c : History) (height : Nat) : History := c.drop (c.length - height)

/-- The entries above a height, the latest at the front. -/
def above (c : History) (height : Nat) : History := c.take (c.length - height)

theorem above_append_cut (c : History) (height : Nat) : c.above height ++ c.cut height = c :=
  List.take_append_drop _ c

theorem cut_of_length_le {c : History} {n : Nat} (h : c.length ≤ n) : c.cut n = c := by
  rw [cut, Nat.sub_eq_zero_of_le h, List.drop_zero]

theorem length_cut {c : History} {n : Nat} (h : n ≤ c.length) : (c.cut n).length = n := by
  rw [cut, List.length_drop]
  omega

theorem cut_cons_of_le {e : Entry} {c : History} {n : Nat} (h : n ≤ c.length) :
    cut (e :: c) n = cut c n := by
  have hlen : (e :: c).length - n = (c.length - n) + 1 := by
    rw [List.length_cons]
    omega
  rw [cut, hlen, List.drop_succ_cons, cut]

theorem cut_cut {c : History} {m n : Nat} (hm : m ≤ n) (hn : n ≤ c.length) :
    cut (cut c n) m = cut c m := by
  have hlen := length_cut hn
  rw [cut, hlen, cut, cut, List.drop_drop]
  congr 1
  omega

theorem cut_zero (c : History) : c.cut 0 = [] := List.drop_length

/-- One height further there is one more entry. -/
theorem cut_succ {c : History} {n : Nat} (h : n < c.length) :
    ∃ e, cut c (n + 1) = e :: cut c n := by
  have hdrop := List.drop_eq_getElem_cons (l := c) (i := c.length - (n + 1)) (by omega)
  have hnext : c.length - (n + 1) + 1 = c.length - n := by omega
  rw [hnext] at hdrop
  exact ⟨_, hdrop⟩

/-- A history that was built on another one is cut back to it. -/
theorem cut_append (d c : History) : cut (d ++ c) c.length = c := by
  rw [cut, List.length_append, Nat.add_sub_cancel, List.drop_left]

theorem cut_eq_of_suffix {c d : History} (h : c <:+ d) : d.cut c.length = c := by
  obtain ⟨above, rfl⟩ := h
  exact cut_append above c

theorem cut_induction {P : History → Prop} (hstep : ∀ e c, P (e :: c) → P c) {c : History}
    (h : P c) (n : Nat) : P (c.cut n) := by
  rw [cut]
  generalize c.length - n = k
  induction k generalizing c with
  | zero => simpa using h
  | succ k ih =>
    cases c with
    | nil => simpa using h
    | cons e c =>
      rw [List.drop_succ_cons]
      exact ih (hstep e c h)

end History

namespace History

variable {c : History}

theorem fits_cut (h : ∀ e ∈ c, e.Fits) (n : Nat) : ∀ e ∈ c.cut n, e.Fits :=
  fun e he => h e (List.mem_of_mem_drop he)

theorem length_tip_of_legible (h : ∀ e ∈ c, e.Legible) :
    c.tip.toBytes.length ≤ Protocol.maxMessageBytes := by
  cases c with
  | nil => exact Block.length_genesis
  | cons e c => exact (h e List.mem_cons_self).block

theorem length_tip (h : ∀ e ∈ c, e.Fits) : c.tip.toBytes.length ≤ Protocol.maxMessageBytes :=
  length_tip_of_legible fun e he => (h e he).legible

theorem length_accounts {start : Accounts} (h : ∀ e ∈ c, e.Fits)
    (hstart : start.toBytes.length ≤ Protocol.maxMessageBytes) :
    (c.accounts start).toBytes.length ≤ Protocol.maxMessageBytes := by
  cases c with
  | nil => exact hstart
  | cons e c => exact (h e List.mem_cons_self).snapshot

end History

/-! ## 2. Sound histories -/

/-- What a committed block is to the history below it. -/
structure Entry.Extends (start : Accounts) (e : Entry) (c : History) : Prop where
  height : e.block.height.toNat = c.length + 1
  previousHash : e.block.header.previousHash = c.tip.blockHash
  schemes : ∃ live, Ledger.declaredSchemes e.block.header = .ok live
  economics : e.block.checkEconomics c.tip = .ok ()
  root : e.block.tree.root = e.block.header.merkleRoot
  hashes : e.transactions.map Transaction.hash = e.block.txHashes
  determined : ∀ t ∈ e.transactions, ∀ t' ∈ e.transactions, t'.hash = t.hash → t' = t
  applied : (c.accounts start).applyBlock e.block e.transactions = .ok e.accounts

namespace History

variable {start : Accounts}

/-- Every block goes on from the history below it. -/
def Sound (start : Accounts) : History → Prop
  | [] => True
  | e :: c => e.Extends start c ∧ Sound start c

/-- No block lists a transaction of a block below it. -/
def Fresh : History → Prop
  | [] => True
  | e :: c => (∀ h ∈ e.block.txHashes, h ∉ txHashes c) ∧ Fresh c

theorem Sound.cut {c : History} (h : c.Sound start) (n : Nat) : (c.cut n).Sound start :=
  cut_induction (fun _ _ h => h.2) h n

theorem Fresh.cut {c : History} (h : c.Fresh) (n : Nat) : (c.cut n).Fresh :=
  cut_induction (fun _ _ h => h.2) h n

theorem Sound.tip_height {c : History} (h : c.Sound start) : c.tip.height.toNat = c.length := by
  cases c with
  | nil => rfl
  | cons e c => exact h.1.height

/-- An entry is at the top of the history up to its height. -/
theorem Sound.tip_cut_height {c : History} (h : c.Sound start) {e : Entry} (he : e ∈ c) :
    e.block.height.toNat ≤ c.length ∧ (c.cut e.block.height.toNat).tip = e.block := by
  induction c with
  | nil => cases he
  | cons e' c ih =>
    rcases List.mem_cons.mp he with rfl | hmem
    · have hheight : (e :: c).length = e.block.height.toNat := h.1.height.symm
      exact ⟨Nat.le_of_eq hheight.symm, by rw [cut_of_length_le (Nat.le_of_eq hheight), tip]⟩
    · obtain ⟨hle, htip⟩ := ih h.2 hmem
      exact ⟨Nat.le_succ_of_le hle, by rw [cut_cons_of_le hle, htip]⟩

theorem declaredSchemes_genesis :
    Ledger.declaredSchemes Block.genesis.header = .ok LiveSchemes.initial := by
  simp only [Ledger.declaredSchemes, Header.descriptor, Block.genesis, Block.sealed, PerSlot.get,
    PerSlot.map, LiveSchemes.initial, Descriptor.ofBytes_ofScheme]

theorem Sound.schemes {c : History} (h : c.Sound start) :
    ∃ live, Ledger.declaredSchemes c.tip.header = .ok live := by
  cases c with
  | nil => exact ⟨LiveSchemes.initial, declaredSchemes_genesis⟩
  | cons e c => exact h.1.schemes

/-- The hashes that the blocks list are those of the transactions, one by one. -/
theorem Sound.map_hash_transactions {c : History} (h : c.Sound start) :
    c.transactions.map Transaction.hash = c.txHashes := by
  induction c with
  | nil => rfl
  | cons e c ih =>
    have htail := ih h.2
    simp only [txHashes, transactions] at htail
    simp only [txHashes, transactions, List.flatMap_cons, List.map_append, h.1.hashes, htail]

theorem mem_txHashes_iff {c : History} (hc : c.Sound start) {hash : Hash} :
    hash ∈ c.txHashes ↔ ∃ t ∈ c.transactions, t.hash = hash := by
  rw [← hc.map_hash_transactions, List.mem_map]

/-- A hash is listed when one of the blocks above the first lists it. -/
theorem mem_txHashes_iff_cut {c : History} {hash : Hash} :
    hash ∈ c.txHashes ↔ ∃ n, n < c.length ∧ hash ∈ (c.cut (n + 1)).tip.txHashes := by
  induction c with
  | nil => simp [txHashes]
  | cons e c ih =>
    have hcons : hash ∈ txHashes (e :: c) ↔ hash ∈ e.block.txHashes ∨ hash ∈ txHashes c := by
      rw [txHashes, txHashes, List.flatMap_cons, List.mem_append]
    rw [hcons, ih, List.length_cons]
    constructor
    · rintro (hmem | ⟨n, hn, hmem⟩)
      · refine ⟨c.length, Nat.lt_succ_self _, ?_⟩
        rw [cut_of_length_le (Nat.le_of_eq List.length_cons)]
        exact hmem
      · refine ⟨n, Nat.lt_succ_of_lt hn, ?_⟩
        rw [cut_cons_of_le hn]
        exact hmem
    · rintro ⟨n, hn, hmem⟩
      rcases Nat.lt_or_eq_of_le (Nat.le_of_lt_succ hn) with hlt | rfl
      · rw [cut_cons_of_le hlt] at hmem
        exact Or.inr ⟨n, hlt, hmem⟩
      · rw [cut_of_length_le (Nat.le_of_eq List.length_cons)] at hmem
        exact Or.inl hmem

end History

/-! ## 3. The store of a history -/

/-- The store that holds a history and nothing else. -/
def Store.ofHistory (start : Accounts) : History → Store
  | [] => Store.empty.applyAll (Store.commitWrites Block.genesis [] start.toBytes)
  | e :: c =>
    (ofHistory start c).applyAll
      (Ledger.commitWrites e.block e.transactions e.accounts.toBytes)

namespace Store

open History

variable {start : Accounts} {c : History}

theorem reliable_ofHistory (start : Accounts) (c : History) : (ofHistory start c).Reliable := by
  induction c with
  | nil => exact reliable_empty.applyAll _
  | cons e c ih => exact ih.applyAll _

theorem chainHeight_ofHistory (start : Accounts) (c : History) :
    (ofHistory start c).chainHeight = some c.tip.height := by
  cases c <;> rfl

/-- A table that gets one more entry, under the height of the block, with every block. -/
theorem getElem?_byHeight {table : History → Std.ExtTreeMap UInt64 Bytes}
    {value : History → Bytes}
    (hcons : ∀ e c, table (e :: c) = (table c).insert e.block.height (value (e :: c)))
    (hc : c.Sound start) (k : UInt64) :
    (table c)[k]? =
      if 1 ≤ k.toNat ∧ k.toNat ≤ c.length then some (value (c.cut k.toNat))
      else (table [])[k]? := by
  induction c with
  | nil =>
    rw [if_neg]
    rintro ⟨h1, h2⟩
    simp only [List.length_nil] at h2
    omega
  | cons e c ih =>
    have hheight := hc.1.height
    rw [hcons, List.length_cons]
    by_cases heq : e.block.height = k
    · subst heq
      have hcut : History.cut (e :: c) e.block.height.toNat = e :: c :=
        cut_of_length_le (Nat.le_of_eq hheight.symm)
      rw [Std.ExtTreeMap.getElem?_insert_self, if_pos (by omega), hcut]
    · have hne : k.toNat ≠ c.length + 1 := fun h =>
        heq (UInt64.toNat_inj.mp (hheight.trans h.symm))
      rw [Table.getElem?_insert_of_ne heq, ih hc.2]
      by_cases hle : 1 ≤ k.toNat ∧ k.toNat ≤ c.length
      · rw [if_pos hle, if_pos (by omega), cut_cons_of_le hle.2]
      · rw [if_neg hle, if_neg (by omega)]

/-- The same when there is an entry for the first block as well. -/
theorem getElem?_fromFirst {table : History → Std.ExtTreeMap UInt64 Bytes}
    {value : History → Bytes}
    (hnil : table [] = (∅ : Std.ExtTreeMap UInt64 Bytes).insert 0 (value []))
    (hcons : ∀ e c, table (e :: c) = (table c).insert e.block.height (value (e :: c)))
    (hc : c.Sound start) (k : UInt64) :
    (table c)[k]? = if k.toNat ≤ c.length then some (value (c.cut k.toNat)) else none := by
  rw [getElem?_byHeight hcons hc, hnil]
  by_cases hzero : k = 0
  · subst hzero
    simp [cut_zero]
  · have hpos : 1 ≤ k.toNat := by
      have h0 : k.toNat ≠ 0 := fun h => hzero (UInt64.toNat_inj.mp h)
      omega
    rw [Table.getElem?_insert_of_ne (Ne.symm hzero)]
    simp [hpos]

theorem blocks_ofHistory (hc : c.Sound start) (k : UInt64) :
    (ofHistory start c).blocks[k]? =
      if k.toNat ≤ c.length then some (c.cut k.toNat).tip.toBytes else none :=
  @getElem?_fromFirst start c (fun c => (ofHistory start c).blocks) (fun c => c.tip.toBytes) rfl
    (fun _ _ => rfl) hc k

theorem snapshots_ofHistory (hc : c.Sound start) (k : UInt64) :
    (ofHistory start c).snapshots[k]? =
      if k.toNat ≤ c.length then some ((c.cut k.toNat).accounts start).toBytes else none :=
  @getElem?_fromFirst start c (fun c => (ofHistory start c).snapshots)
    (fun c => (c.accounts start).toBytes) rfl (fun _ _ => rfl) hc k

theorem trees_ofHistory (hc : c.Sound start) (k : UInt64) :
    (ofHistory start c).trees[k]? =
      if 1 ≤ k.toNat ∧ k.toNat ≤ c.length then some (c.cut k.toNat).tip.tree.toBytes else none := by
  rw [@getElem?_byHeight start c (fun c => (ofHistory start c).trees)
    (fun c => c.tip.tree.toBytes) (fun _ _ => rfl) hc k]
  rfl

theorem contains_transactions_ofHistory (hc : c.Sound start) (hash : Hash) :
    (ofHistory start c).transactions.contains hash = true ↔ hash ∈ c.txHashes := by
  induction c with
  | nil => simp [ofHistory, Store.applyAll, Store.commitWrites, Store.apply, Store.empty, txHashes]
  | cons e c ih =>
    have hput : (ofHistory start (e :: c)).transactions =
        ((ofHistory start c).apply (.putTransactions e.transactions)).transactions := rfl
    rw [hput, contains_putTransactions, hc.1.hashes, ih hc.2, txHashes, txHashes,
      List.flatMap_cons, List.mem_append]

/-- Every applied transaction can be read off the store, as long as no later block lists it. -/
theorem transactions_ofHistory (hc : c.Sound start) (hfresh : c.Fresh) {t : Transaction}
    (ht : t ∈ c.transactions) : (ofHistory start c).transactions[t.hash]? = some t.toBytes := by
  induction c with
  | nil => cases ht
  | cons e c ih =>
    have hput : (ofHistory start (e :: c)).transactions =
        ((ofHistory start c).apply (.putTransactions e.transactions)).transactions := rfl
    simp only [History.transactions, List.flatMap_cons, List.mem_append] at ht
    rw [hput]
    rcases ht with ht | ht
    · exact getElem?_putTransactions_of_mem _ ht (hc.1.determined t ht)
    · have hbelow : t.hash ∈ txHashes c := (mem_txHashes_iff hc.2).mpr ⟨t, ht, rfl⟩
      have hnot : t.hash ∉ e.transactions.map Transaction.hash := by
        rw [hc.1.hashes]
        exact fun h => hfresh.1 _ h hbelow
      rw [getElem?_putTransactions_of_not_mem _ hnot]
      exact ih hc.2 hfresh.2 ht

/-- Whatever stands in the table of transactions was applied. -/
theorem exists_of_transactions_ofHistory (hc : c.Sound start) (hfresh : c.Fresh) {hash : Hash}
    {x : Bytes} (h : (ofHistory start c).transactions[hash]? = some x) :
    ∃ t ∈ c.transactions, t.hash = hash ∧ x = t.toBytes := by
  have hcontains : (ofHistory start c).transactions.contains hash = true := by
    rw [Std.ExtTreeMap.contains_eq_isSome_getElem?, h]
    rfl
  obtain ⟨t, ht, rfl⟩ :=
    (mem_txHashes_iff hc).mp ((contains_transactions_ofHistory hc hash).mp hcontains)
  rw [transactions_ofHistory hc hfresh ht] at h
  exact ⟨t, ht, rfl, (Option.some.inj h).symm⟩

end Store

end SynergyNode
