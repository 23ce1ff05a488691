import SynergyNode.Proofs.Codec
import SynergyNode.Proofs.Table
import SynergyNode.Store

/-!
# A store that does not fail

A store is *reliable* when none of its operations meets a failure.  Its writes are then made
and its reads give what is in the tables, decoded.  No write changes which operations fail.

Section 3 holds what the two operations on many transactions do to a single hash.
-/

namespace SynergyNode.Store

/-- No operation of the store fails. -/
def Reliable (s : Store) : Prop := ∀ op, s.failure op = none

variable {s : Store}

/-! ## 1. Writes -/

theorem reliable_empty : Store.empty.Reliable := fun _ => rfl

@[simp] theorem failure_apply (s : Store) (w : StoreWrite) : (s.apply w).failure = s.failure := by
  cases w <;> rfl

@[simp] theorem failure_applyAll (s : Store) (ws : List StoreWrite) :
    (s.applyAll ws).failure = s.failure := by
  induction ws generalizing s with
  | nil => rfl
  | cons w ws ih =>
    have h : (s.applyAll (w :: ws)) = (s.apply w).applyAll ws := rfl
    rw [h, ih, failure_apply]

theorem Reliable.applyAll (hs : s.Reliable) (ws : List StoreWrite) : (s.applyAll ws).Reliable := by
  intro op
  rw [failure_applyAll]
  exact hs op

theorem Reliable.perform (hs : s.Reliable) (op : StoreOperation) (ws : List StoreWrite) :
    s.perform op ws = .ok (s.applyAll ws) := by
  simp only [Store.perform, hs op]

/-- An operation that does not fail has made its changes. -/
theorem eq_of_perform {s' : Store} {op : StoreOperation} {ws : List StoreWrite}
    (h : s.perform op ws = .ok s') : s' = s.applyAll ws := by
  unfold perform at h
  split at h
  · cases h
  · exact (Except.ok.inj h).symm

/-- The same tables in a store with other failures. -/
def failing (s : Store) (failure : StoreOperation → Option StoreError) : Store :=
  { s with failure := failure }

/-- The failure that a single operation meets. -/
def only (op : StoreOperation) (cause : StoreError) : StoreOperation → Option StoreError :=
  fun other => if other = op then some cause else none

theorem applyAll_failing (s : Store) (failure : StoreOperation → Option StoreError)
    (ws : List StoreWrite) : (s.failing failure).applyAll ws = (s.applyAll ws).failing failure := by
  induction ws generalizing s with
  | nil => rfl
  | cons w ws ih =>
    have hstep : (s.failing failure).apply w = (s.apply w).failing failure := by
      cases w <;> rfl
    exact (congrArg (fun s : Store => s.applyAll ws) hstep).trans (ih (s.apply w))

/-! ## 2. Reads -/

theorem Reliable.fetch (hs : s.Reliable) {α : Type} (op : StoreOperation) (a : α) :
    s.fetch op a = .ok a := by
  simp only [Store.fetch, hs op]

theorem decoded_eq_ok_none {α ε : Type} {decode : Bytes → Except ε α} {refusal : ε → StoreError}
    {found : Option Bytes} : decoded decode refusal (.ok found) = .ok none ↔ found = none := by
  cases found with
  | none => simp [decoded]
  | some x => cases h : decode x <;> simp [decoded, h]

theorem decoded_eq_ok_some {α ε : Type} {decode : Bytes → Except ε α} {refusal : ε → StoreError}
    {found : Option Bytes} {a : α} :
    decoded decode refusal (.ok found) = .ok (some a) ↔
      ∃ x, found = some x ∧ decode x = .ok a := by
  cases found with
  | none => simp [decoded]
  | some x => cases h : decode x <;> simp [decoded, h]

theorem Reliable.block?_eq_none (hs : s.Reliable) {height : UInt64} :
    s.block? height = .ok none ↔ s.blocks[height]? = none := by
  rw [Store.block?, hs.fetch, decoded_eq_ok_none]

theorem Reliable.block?_eq_some (hs : s.Reliable) {height : UInt64} {b : Block} :
    s.block? height = .ok (some b) ↔
      ∃ x, s.blocks[height]? = some x ∧ Block.ofBytes x = .ok b := by
  rw [Store.block?, hs.fetch, decoded_eq_ok_some]

/-- A stored block is read again when its form is short enough. -/
theorem Reliable.block?_of_stored (hs : s.Reliable) {height : UInt64} {b : Block}
    (hstored : s.blocks[height]? = some b.toBytes)
    (hshort : b.toBytes.length ≤ Protocol.maxMessageBytes) : s.block? height = .ok (some b) :=
  hs.block?_eq_some.mpr ⟨b.toBytes, hstored, Block.ofBytes_toBytes hshort⟩

theorem Reliable.transaction?_eq_none (hs : s.Reliable) {hash : Hash} :
    s.transaction? hash = .ok none ↔ s.transactions[hash]? = none := by
  rw [Store.transaction?, hs.fetch, decoded_eq_ok_none]

theorem Reliable.transaction?_eq_some (hs : s.Reliable) {hash : Hash} {t : Transaction} :
    s.transaction? hash = .ok (some t) ↔
      ∃ x, s.transactions[hash]? = some x ∧ Transaction.ofBytes x = .ok t := by
  rw [Store.transaction?, hs.fetch, decoded_eq_ok_some]

/-- A stored transaction is read again when its form is short enough. -/
theorem Reliable.transaction?_of_stored (hs : s.Reliable) {hash : Hash} {t : Transaction}
    (hstored : s.transactions[hash]? = some t.toBytes)
    (hshort : t.toBytes.length ≤ Protocol.maxMessageBytes) : s.transaction? hash = .ok (some t) :=
  hs.transaction?_eq_some.mpr ⟨t.toBytes, hstored, Transaction.ofBytes_toBytes hshort⟩

/-- Whatever was read of a transaction, the table has one under the hash or not. -/
theorem contains_of_transaction? {hash : Hash} {found : Option Transaction}
    (h : s.transaction? hash = .ok found) : s.transactions.contains hash = found.isSome := by
  unfold transaction? fetch at h
  rw [Std.ExtTreeMap.contains_eq_isSome_getElem?]
  split at h
  · cases h
  · cases found with
    | none =>
      rw [decoded_eq_ok_none.mp h]
      rfl
    | some t =>
      obtain ⟨x, hx, -⟩ := decoded_eq_ok_some.mp h
      rw [hx]
      rfl

theorem contains_of_hasTransaction {hash : Hash} {found : Bool}
    (h : s.hasTransaction hash = .ok found) : s.transactions.contains hash = found := by
  unfold hasTransaction fetch at h
  split at h
  · cases h
  · exact Except.ok.inj h

theorem Reliable.transaction?_removeTransaction (hs : s.Reliable) (hash hash' : Hash) :
    (s.applyAll [.removeTransaction hash]).transaction? hash' =
      if hash = hash' then .ok none else s.transaction? hash' := by
  have htable : (s.applyAll [.removeTransaction hash]).transactions = s.transactions.erase hash :=
    rfl
  rw [Store.transaction?, (hs.applyAll _).fetch, htable]
  by_cases heq : hash = hash'
  · subst heq
    rw [if_pos rfl, Std.ExtTreeMap.getElem?_erase_self, decoded_eq_ok_none]
  · rw [if_neg heq, Table.getElem?_erase_of_ne heq, Store.transaction?, hs.fetch]

theorem Reliable.hasTransaction (hs : s.Reliable) (hash : Hash) :
    s.hasTransaction hash = .ok (s.transactions.contains hash) :=
  hs.fetch _ _

theorem Reliable.snapshot? (hs : s.Reliable) (height : UInt64) :
    s.snapshot? height = .ok s.snapshots[height]? :=
  hs.fetch _ _

theorem Reliable.height? (hs : s.Reliable) : s.height? = .ok s.chainHeight := hs.fetch _ _

theorem Reliable.merkleTree?_eq_none (hs : s.Reliable) {height : UInt64} :
    s.merkleTree? height = .ok none ↔ s.trees[height]? = none := by
  rw [Store.merkleTree?, Store.tree?, hs.fetch, decoded_eq_ok_none]

theorem Reliable.merkleTree?_eq_some (hs : s.Reliable) {height : UInt64} {t : Merkle.Tree} :
    s.merkleTree? height = .ok (some t) ↔
      ∃ x, s.trees[height]? = some x ∧ Merkle.Tree.ofBytes? x = some t := by
  rw [Store.merkleTree?, Store.tree?, hs.fetch, decoded_eq_ok_some]
  refine exists_congr fun x => and_congr_right fun _ => ?_
  cases Merkle.Tree.ofBytes? x <;> simp

/-! ## 3. Many transactions at once -/

theorem getElem?_putTransactions_of_not_mem (s : Store) {txs : List Transaction} {hash : Hash}
    (h : hash ∉ txs.map Transaction.hash) :
    (s.apply (.putTransactions txs)).transactions[hash]? = s.transactions[hash]? := by
  simp only [Store.apply]
  generalize s.transactions = m
  induction txs generalizing m with
  | nil => rfl
  | cons t txs ih =>
    simp only [List.map_cons, List.mem_cons, not_or] at h
    rw [List.foldl_cons, ih h.2, Table.getElem?_insert_of_ne (Ne.symm h.1)]

/-- The last transaction put under a hash is the one stored; when the hash determines the
transaction, that is any of them. -/
theorem getElem?_putTransactions_of_mem (s : Store) {txs : List Transaction} {t : Transaction}
    (ht : t ∈ txs) (hsame : ∀ t' ∈ txs, t'.hash = t.hash → t' = t) :
    (s.apply (.putTransactions txs)).transactions[t.hash]? = some t.toBytes := by
  simp only [Store.apply]
  generalize s.transactions = m
  induction txs generalizing m with
  | nil => cases ht
  | cons u txs ih =>
    rw [List.foldl_cons]
    by_cases hin : t ∈ txs
    · exact ih hin (fun t' h' => hsame t' (List.mem_cons_of_mem u h')) _
    · have hu : u = t := by
        rcases List.mem_cons.mp ht with rfl | h
        · rfl
        · exact absurd h hin
      subst hu
      have hnot : u.hash ∉ txs.map Transaction.hash := by
        intro h
        obtain ⟨t', h', heq⟩ := List.mem_map.mp h
        exact hin (hsame t' (List.mem_cons_of_mem u h') heq ▸ h')
      have hrest := getElem?_putTransactions_of_not_mem
        { s with transactions := m.insert u.hash u.toBytes } hnot
      simp only [Store.apply] at hrest
      rw [hrest, Std.ExtTreeMap.getElem?_insert_self]

theorem contains_putTransactions (s : Store) (txs : List Transaction) (hash : Hash) :
    (s.apply (.putTransactions txs)).transactions.contains hash = true ↔
      hash ∈ txs.map Transaction.hash ∨ s.transactions.contains hash = true := by
  simp only [Store.apply]
  generalize s.transactions = m
  induction txs generalizing m with
  | nil => simp
  | cons t txs ih =>
    rw [List.foldl_cons, ih, Std.ExtTreeMap.contains_insert]
    simp only [List.map_cons, List.mem_cons, Bool.or_eq_true, beq_iff_eq,
      Std.LawfulEqCmp.compare_eq_iff_eq, eq_comm (a := hash)]
    exact or_assoc.symm.trans (or_congr_left or_comm)

theorem getElem?_eraseAll (m : Std.ExtTreeMap Hash Bytes) (hashes : List Hash) (hash : Hash) :
    (hashes.foldl (fun m h => m.erase h) m)[hash]? =
      if hash ∈ hashes then none else m[hash]? := by
  induction hashes generalizing m with
  | nil => simp
  | cons h hashes ih =>
    rw [List.foldl_cons, ih]
    by_cases heq : h = hash
    · simp [heq]
    · rw [Table.getElem?_erase_of_ne heq]
      simp [Ne.symm heq]

end SynergyNode.Store
