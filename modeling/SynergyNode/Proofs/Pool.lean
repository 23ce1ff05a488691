import Mathlib.Data.List.Flatten
import SynergyNode.Pool
import SynergyNode.Proofs.Table

/-!
# What the pools hold

The pools are seen through the transaction that each of them has under a hash.  Adding and
taking out change nothing under other hashes.

* `Pool.Refuses`: why a pool refuses a transaction;
* `Pool.add_cases`, `Pool.remove_cases`, `Pool.ban_eq`, `Pools.get_remove_cases`: all that an
  operation can do, from which the rest is read off;
* `Pools.entries_remove_of_ne`, `Pools.get?_add_of_ne`: other hashes;
* `Pools.find?_congr`: pools that have the same under a hash find the same;
* `Pools.find?_addAll`: pools with room for transactions take all of them, unless they are banned;
* `Pools.get?_addAll_self_cases`: whatever is offered is pending afterwards in the pool of its kind,
  or that pool bans it or is full;
* `Pools.Sheds`: taking out, banning and dropping what is too old only lose entries;
* `Pools.Apart.entries_removeAll`: when no transaction is in two pools, taking transactions out
  leaves none of them in any.
-/

namespace SynergyNode

/-! ## 1. One pool -/

namespace Pool

variable {p : Pool} {hash hash' : Hash} {t : Transaction}

/-- With one more transaction, the pool would go beyond its bounds. -/
def Full (p : Pool) (t : Transaction) : Prop :=
  p.limits.maxTransactions ≤ p.count ∨ p.limits.maxBytes < p.totalBytes + t.toBytes.length

/-- A pool refuses what it has, what it has banned and what it has no room for. -/
def Refuses (p : Pool) (t : Transaction) : Prop :=
  p.contains t.hash = true ∨ p.isBanned t.hash = true ∨ p.Full t

theorem keyed_enroll (p : Pool) (t : Transaction) :
    KeyedByHash (p.entries.insert t.hash ⟨t, t.toBytes.length, p.nextArrival⟩) :=
  p.keyed.insert ⟨t, t.toBytes.length, p.nextArrival⟩

/-- The pool with one more entry. -/
def enroll (p : Pool) (t : Transaction) : Pool :=
  { p with
    entries := p.entries.insert t.hash ⟨t, t.toBytes.length, p.nextArrival⟩
    keyed := p.keyed_enroll t
    order := p.order.insert p.nextArrival t.hash
    totalBytes := p.totalBytes + t.toBytes.length
    nextArrival := p.nextArrival + 1 }

theorem entries_enroll_self (p : Pool) (t : Transaction) :
    (p.enroll t).entries[t.hash]? = some ⟨t, t.toBytes.length, p.nextArrival⟩ :=
  Std.ExtTreeMap.getElem?_insert_self

/-- A transaction is refused, or it is neither pending nor banned nor too much and becomes the
latest entry. -/
theorem add_cases (p : Pool) (t : Transaction) :
    p.Refuses t ∧ p.add t = (false, p) ∨
      p.entries[t.hash]? = none ∧ p.isBanned t.hash = false ∧ ¬ p.Full t ∧
        p.add t = (true, p.enroll t) := by
  unfold add
  simp only
  split
  · rename_i hclosed
    rw [Bool.or_eq_true] at hclosed
    exact Or.inl ⟨hclosed.elim Or.inl fun hbanned => Or.inr (Or.inl hbanned), rfl⟩
  · rename_i hopen
    rw [Bool.or_eq_true, not_or, Bool.not_eq_true, Bool.not_eq_true] at hopen
    split
    · rename_i hfull
      exact Or.inl ⟨Or.inr (Or.inr hfull), rfl⟩
    · rename_i hfits
      refine Or.inr ⟨?_, hopen.2, hfits, rfl⟩
      rw [← Option.not_isSome_iff_eq_none, ← Std.ExtTreeMap.contains_eq_isSome_getElem?,
        Bool.not_eq_true]
      exact hopen.1

theorem add_of_refuses (h : p.Refuses t) : p.add t = (false, p) := by
  rcases p.add_cases t with ⟨-, hadd⟩ | ⟨hnew, hopen, hroom, -⟩
  · exact hadd
  · rcases h with hin | hbanned | hfull
    · rw [contains, Std.ExtTreeMap.contains_eq_isSome_getElem?, hnew] at hin
      cases hin
    · rw [hopen] at hbanned
      cases hbanned
    · exact absurd hfull hroom

theorem add_of_not_refuses (h : ¬ p.Refuses t) : p.add t = (true, p.enroll t) := by
  rcases p.add_cases t with ⟨hrefuses, -⟩ | ⟨-, -, -, hadd⟩
  · exact absurd hrefuses h
  · exact hadd

theorem keyed_dismiss (p : Pool) (hash : Hash) : KeyedByHash (p.entries.erase hash) :=
  p.keyed.erase hash

/-- The pool without an entry. -/
def dismiss (p : Pool) (hash : Hash) (e : PoolEntry) : Pool :=
  { p with
    entries := p.entries.erase hash
    keyed := p.keyed_dismiss hash
    order := p.order.erase e.arrival
    totalBytes := p.totalBytes - e.size }

/-- Nothing is pending under the hash, or its entry goes. -/
theorem remove_cases (p : Pool) (hash : Hash) :
    p.entries[hash]? = none ∧ p.remove hash = (none, p) ∨
      ∃ e, p.entries[hash]? = some e ∧
        p.remove hash = (some e.transaction, p.dismiss hash e) := by
  unfold remove
  split
  · exact Or.inl ⟨by assumption, rfl⟩
  · rename_i e he
    exact Or.inr ⟨e, he, rfl⟩

/-- Taking a transaction out does not touch the bans. -/
theorem remove_bans (p : Pool) (hash : Hash) :
    (p.remove hash).2.banned = p.banned ∧ (p.remove hash).2.bans = p.bans := by
  rcases p.remove_cases hash with ⟨-, hremove⟩ | ⟨e, -, hremove⟩ <;> rw [hremove] <;>
    exact ⟨rfl, rfl⟩

theorem remove_of_not_contains (h : p.contains hash = false) : p.remove hash = (none, p) := by
  rcases p.remove_cases hash with ⟨-, hremove⟩ | ⟨e, he, -⟩
  · exact hremove
  · rw [contains, Std.ExtTreeMap.contains_eq_isSome_getElem?, he] at h
    cases h

/-- What taking a transaction out keeps, dropping all that are too old keeps. -/
theorem pruneExpired_induction {P : Pool → Prop} (hremove : ∀ p hash, P p → P (p.remove hash).2)
    (h : P p) (height : UInt64) : P (p.pruneExpired height).2 := by
  unfold pruneExpired
  simp only
  generalize p.expired height = hashes
  induction hashes generalizing p with
  | nil => exact h
  | cons hash rest ih => exact ih (hremove p hash h)

/-- A ban takes the transaction out and changes nothing else but the bans. -/
theorem ban_eq (p : Pool) (hash : Hash) :
    ∃ banned bans, p.ban hash = { (p.remove hash).2 with banned := banned, bans := bans } := by
  unfold ban trimBans
  simp only
  split
  · exact ⟨_, _, rfl⟩
  · split
    · split
      · exact ⟨_, _, rfl⟩
      · exact ⟨_, _, rfl⟩
    · exact ⟨_, _, rfl⟩

theorem entries_remove_of_ne (h : hash ≠ hash') :
    (p.remove hash).2.entries[hash']? = p.entries[hash']? := by
  rcases p.remove_cases hash with ⟨-, hremove⟩ | ⟨e, -, hremove⟩
  · rw [hremove]
  · rw [hremove]
    exact Table.getElem?_erase_of_ne h

theorem entries_remove_self (p : Pool) (hash : Hash) :
    (p.remove hash).2.entries[hash]? = none := by
  rcases p.remove_cases hash with ⟨hnone, hremove⟩ | ⟨e, -, hremove⟩
  · rw [hremove]
    exact hnone
  · rw [hremove]
    exact Std.ExtTreeMap.getElem?_erase_self

theorem entries_add_of_ne (h : t.hash ≠ hash') :
    (p.add t).2.entries[hash']? = p.entries[hash']? := by
  rcases p.add_cases t with ⟨-, hadd⟩ | ⟨-, -, -, hadd⟩
  · rw [hadd]
  · rw [hadd]
    exact Table.getElem?_insert_of_ne h

theorem get?_add_of_ne (h : t.hash ≠ hash') : (p.add t).2.get? hash' = p.get? hash' := by
  rw [get?, get?, entries_add_of_ne h]

theorem get?_eq_none : p.get? hash = none ↔ p.entries[hash]? = none := Option.map_eq_none_iff

theorem contains_eq (p : Pool) (hash : Hash) : p.contains hash = (p.get? hash).isSome := by
  rw [contains, get?, Option.isSome_map, Std.ExtTreeMap.contains_eq_isSome_getElem?]

/-- With the given transactions, the pool would be within its bounds. -/
structure Room (p : Pool) (txs : List Transaction) : Prop where
  count : p.count + txs.length ≤ p.limits.maxTransactions
  bytes : p.totalBytes + (txs.flatMap Transaction.toBytes).length ≤ p.limits.maxBytes

theorem Room.sublist {txs txs' : List Transaction} (h : p.Room txs) (hs : txs'.Sublist txs) :
    p.Room txs' := by
  have hlength := hs.length_le
  have hbytes := (hs.flatMap Transaction.toBytes).length_le
  exact ⟨by have := h.count; omega, by have := h.bytes; omega⟩

/-- The room that is left after a transaction was added, or not. -/
theorem Room.add {rest : List Transaction} (h : p.Room (t :: rest)) : (p.add t).2.Room rest := by
  have hcount := h.count
  have hbytes := h.bytes
  rw [List.length_cons] at hcount
  rw [List.flatMap_cons, List.length_append] at hbytes
  have hkept : p.Room rest := ⟨by omega, by omega⟩
  rcases p.add_cases t with ⟨-, hadd⟩ | ⟨-, -, -, hadd⟩
  · rw [hadd]
    exact hkept
  · rw [hadd]
    have hsize := Std.ExtTreeMap.size_insert_le (t := p.entries) (k := t.hash)
      (v := ⟨t, t.toBytes.length, p.nextArrival⟩)
    simp only [Pool.count] at hcount
    exact ⟨by simp only [Pool.count, enroll]; omega, by simp only [enroll]; omega⟩

/-- Taking a transaction out makes no less room. -/
theorem Room.remove {txs : List Transaction} (h : p.Room txs) (hash : Hash) :
    (p.remove hash).2.Room txs := by
  have hcount := h.count
  have hbytes := h.bytes
  rcases p.remove_cases hash with ⟨-, hremove⟩ | ⟨e, -, hremove⟩
  · rw [hremove]
    exact h
  · rw [hremove]
    have hsize := Std.ExtTreeMap.size_erase_le (t := p.entries) (k := hash)
    simp only [Pool.count] at hcount
    exact ⟨by simp only [Pool.count, dismiss]; omega, by simp only [dismiss]; omega⟩

theorem Room.not_full {rest : List Transaction} (room : p.Room (t :: rest)) : ¬ p.Full t := by
  have hcount := room.count
  have hbytes := room.bytes
  rw [List.length_cons] at hcount
  rw [List.flatMap_cons, List.length_append] at hbytes
  unfold Full
  omega

/-- A pool that is not full takes a transaction that is not banned, unless it has one with its
hash. -/
theorem get?_add_self (hfits : ¬ p.Full t) (unbanned : p.isBanned t.hash = false) :
    (p.add t).2.get? t.hash = some ((p.get? t.hash).getD t) := by
  rcases p.add_cases t with ⟨hin | hbanned | hfull, hadd⟩ | ⟨hnew, -, -, hadd⟩
  · rw [contains_eq, Option.isSome_iff_exists] at hin
    obtain ⟨u, hu⟩ := hin
    rw [hadd, hu, Option.getD_some]
  · rw [unbanned] at hbanned
    cases hbanned
  · exact absurd hfull hfits
  · rw [hadd, get?_eq_none.mpr hnew, get?, entries_enroll_self, Option.map_some, Option.getD_none]

/-- What is new in a pool is what was added, and it was not banned. -/
theorem get?_add_new {u : Transaction} (h : (p.add t).2.get? hash = some u) :
    p.get? hash = some u ∨ u = t ∧ t.hash = hash ∧ p.isBanned t.hash = false := by
  by_cases hne : t.hash = hash
  · subst hne
    rcases p.add_cases t with ⟨-, hadd⟩ | ⟨-, hopen, -, hadd⟩ <;> rw [hadd] at h
    · exact Or.inl h
    · rw [get?, entries_enroll_self] at h
      cases h
      exact Or.inr ⟨rfl, rfl, hopen⟩
  · rw [get?_add_of_ne hne] at h
    exact Or.inl h

theorem get?_add_cases {u : Transaction} (h : (p.add t).2.get? hash = some u) :
    u = t ∨ p.get? hash = some u :=
  (get?_add_new h).symm.imp And.left id

/-- What a pool has it keeps when transactions are added. -/
theorem get?_add_of_some {u : Transaction} (h : p.get? hash = some u) :
    (p.add t).2.get? hash = some u := by
  by_cases hne : t.hash = hash
  · subst hne
    have hcontains : p.contains t.hash = true := by rw [contains_eq, h, Option.isSome_some]
    rw [add_of_refuses (Or.inl hcontains)]
    exact h
  · rw [get?_add_of_ne hne, h]

theorem isBanned_add (p : Pool) (t : Transaction) (hash : Hash) :
    (p.add t).2.isBanned hash = p.isBanned hash := by
  rcases p.add_cases t with ⟨-, hadd⟩ | ⟨-, -, -, hadd⟩ <;> rw [hadd]
  rfl

theorem isBanned_remove (p : Pool) (hash' hash : Hash) :
    (p.remove hash').2.isBanned hash = p.isBanned hash := by
  rw [isBanned, (p.remove_bans hash').1, isBanned]

/-- Where room ends it does not come back by adding more. -/
theorem Full.add {u : Transaction} (h : p.Full t) : (p.add u).2.Full t := by
  rcases p.add_cases u with ⟨-, hadd⟩ | ⟨-, -, -, hadd⟩ <;> rw [hadd]
  · exact h
  · rcases h with hcount | hbytes
    · exact Or.inl (Nat.le_trans hcount Std.ExtTreeMap.size_le_size_insert)
    · exact Or.inr (Nat.lt_of_lt_of_le hbytes
        (Nat.add_le_add_right (Nat.le_add_right p.totalBytes u.toBytes.length) _))

/-- **A transaction that was offered is in the pool**, or another with its hash, unless it is banned
or there is no room. -/
theorem get?_add_self_cases (p : Pool) (t : Transaction) :
    (∃ u, (p.add t).2.get? t.hash = some u) ∨ p.isBanned t.hash = true ∨ p.Full t := by
  by_cases hfull : p.Full t
  · exact Or.inr (Or.inr hfull)
  · cases hbanned : p.isBanned t.hash with
    | true => exact Or.inr (Or.inl rfl)
    | false => exact Or.inl ⟨_, get?_add_self hfull hbanned⟩

/-- A pool that has no entry that the first one does not have. -/
def Sheds (p p' : Pool) : Prop :=
  ∀ (hash : Hash) (e : PoolEntry), p'.entries[hash]? = some e → p.entries[hash]? = some e

theorem Sheds.refl (p : Pool) : p.Sheds p := fun _ _ h => h

theorem Sheds.trans {p' p'' : Pool} (h : p.Sheds p') (h' : p'.Sheds p'') : p.Sheds p'' :=
  fun hash e he => h hash e (h' hash e he)

theorem Sheds.get? {p' : Pool} (h : p.Sheds p') (hget : p'.get? hash = some t) :
    p.get? hash = some t := by
  obtain ⟨e, he, rfl⟩ := Option.map_eq_some_iff.mp hget
  exact Option.map_eq_some_iff.mpr ⟨e, h hash e he, rfl⟩

theorem Sheds.get?_eq_none {p' : Pool} (h : p.Sheds p') (hnone : p.get? hash = none) :
    p'.get? hash = none := by
  cases hget : p'.get? hash with
  | none => rfl
  | some t =>
    rw [h.get? hget] at hnone
    cases hnone

theorem sheds_remove (p : Pool) (hash : Hash) : p.Sheds (p.remove hash).2 := by
  intro hash' e he
  by_cases heq : hash = hash'
  · subst heq
    rw [entries_remove_self] at he
    cases he
  · rw [entries_remove_of_ne heq] at he
    exact he

theorem sheds_ban (p : Pool) (hash : Hash) : p.Sheds (p.ban hash) := by
  obtain ⟨banned, bans, hban⟩ := p.ban_eq hash
  rw [hban]
  exact sheds_remove p hash

theorem sheds_pruneExpired (p : Pool) (height : UInt64) : p.Sheds (p.pruneExpired height).2 :=
  pruneExpired_induction (P := p.Sheds) (fun q hash h => h.trans (sheds_remove q hash))
    (Sheds.refl p) height

/-- What a pool offers for a block is pending in it. -/
theorem get?_of_mem_peek {max : Nat} {height : UInt64} (h : t ∈ p.peek max height) :
    p.get? t.hash = some t := by
  have harrived := (List.mem_filter.mp (List.mem_of_mem_take h)).1
  obtain ⟨e, he, rfl⟩ := List.mem_map.mp harrived
  obtain ⟨⟨_, hash⟩, _, hentry⟩ := List.mem_filterMap.mp he
  rw [get?, p.keyed hash e hentry, hentry, Option.map_some]

/-- A transaction that an empty pool takes is the only one in it. -/
theorem arrivals_add_empty {kind : PoolKind} {limits : PoolLimits}
    (hcount : 0 < limits.maxTransactions) (hbytes : t.toBytes.length ≤ limits.maxBytes) :
    ((empty kind limits).add t).2.arrivals = [⟨t, t.toBytes.length, 0⟩] := by
  have hnew : (empty kind limits).contains t.hash = false := Std.ExtTreeMap.contains_empty
  have hunbanned : (empty kind limits).isBanned t.hash = false := Std.ExtTreeSet.contains_empty
  have hnone : (empty kind limits).count = 0 := Std.ExtTreeMap.size_empty
  have hlimits : (empty kind limits).limits = limits := rfl
  have hzero : (empty kind limits).totalBytes = 0 := rfl
  have hfits : ¬ (empty kind limits).Full t := by
    rw [Full, hnone, hlimits, hzero]
    omega
  have hopen : ¬ (empty kind limits).Refuses t := by
    rw [Refuses, hnew, hunbanned]
    simpa using hfits
  have horder : ((∅ : Std.ExtTreeMap Nat Hash).insert 0 t.hash).toList = [(0, t.hash)] := rfl
  rw [add_of_not_refuses hopen]
  simp only [arrivals, enroll, empty, horder, List.filterMap_cons, List.filterMap_nil,
    Std.ExtTreeMap.getElem?_insert_self]

end Pool

/-! ## 2. All pools -/

namespace Pools

variable {ps : Pools} {hash hash' : Hash} {t : Transaction}

@[simp] theorem get_set_self (ps : Pools) (kind : PoolKind) (p : Pool) :
    (ps.set kind p).get kind = p := by
  cases kind <;> rfl

theorem get_set_of_ne (ps : Pools) {kind kind' : PoolKind} (h : kind ≠ kind') (p : Pool) :
    (ps.set kind p).get kind' = ps.get kind' := by
  cases kind <;> cases kind' <;> first | exact absurd rfl h | rfl

/-- A property that the new pool and the old ones have is one of all pools after the change. -/
theorem forall_get_set {P : PoolKind → Pool → Prop} {kind : PoolKind} {p : Pool}
    (hnew : P kind p) (hold : ∀ k, P k (ps.get k)) (k : PoolKind) : P k ((ps.set kind p).get k) := by
  by_cases h : kind = k
  · subst h
    rw [get_set_self]
    exact hnew
  · rw [get_set_of_ne ps h]
    exact hold k

theorem find?_congr {ps' : Pools} (h : ∀ k, (ps.get k).get? hash = (ps'.get k).get? hash) :
    ps.find? hash = ps'.find? hash := by
  have hstandard : ps.standard.get? hash = ps'.standard.get? hash := h .standard
  have hescrow : ps.escrow.get? hash = ps'.escrow.get? hash := h .escrow
  have hmultiSig : ps.multiSig.get? hash = ps'.multiSig.get? hash := h .multiSig
  simp only [find?, toList, List.findSome?_cons, hstandard, hescrow, hmultiSig]

/-- What is found is in one of the pools. -/
theorem exists_of_find? (h : ps.find? hash = some t) : ∃ k, (ps.get k).get? hash = some t := by
  obtain ⟨p, hp, ht⟩ := List.exists_of_findSome?_eq_some h
  simp only [toList, List.mem_cons, List.not_mem_nil, or_false] at hp
  rcases hp with rfl | rfl | rfl
  · exact ⟨.standard, ht⟩
  · exact ⟨.escrow, ht⟩
  · exact ⟨.multiSig, ht⟩

theorem contains_eq (ps : Pools) (hash : Hash) : ps.contains hash = (ps.find? hash).isSome := by
  simp only [contains, find?, toList, List.any_cons, List.any_nil, Bool.or_false,
    List.findSome?_cons, List.findSome?_nil, Pool.contains_eq]
  cases ps.standard.get? hash <;> cases ps.escrow.get? hash <;> cases ps.multiSig.get? hash <;> rfl

/-- A pool loses the transaction that is taken out, or stays as it is: then it does not have the
transaction, or another pool has it too. -/
theorem get_remove_cases (ps : Pools) (hash : Hash) (k : PoolKind) :
    (ps.remove hash).2.get k = ((ps.get k).remove hash).2 ∨
      (ps.remove hash).2.get k = ps.get k ∧
        ((ps.get k).contains hash = true →
          ∃ k', k' ≠ k ∧ (ps.get k').contains hash = true) := by
  unfold remove
  split
  · rename_i hnone
    have hnot := List.find?_eq_none.mp hnone k (by cases k <;> decide)
    exact Or.inr ⟨rfl, fun hin => absurd hin hnot⟩
  · rename_i kind hfound
    have hin := List.find?_some hfound
    by_cases hkind : kind = k
    · subst hkind
      exact Or.inl (get_set_self ps kind _)
    · exact Or.inr ⟨get_set_of_ne ps hkind _, fun _ => ⟨kind, hkind, hin⟩⟩

theorem entries_remove_of_ne (h : hash ≠ hash') (k : PoolKind) :
    ((ps.remove hash).2.get k).entries[hash']? = (ps.get k).entries[hash']? := by
  rcases ps.get_remove_cases hash k with hget | ⟨hget, -⟩ <;> rw [hget]
  exact Pool.entries_remove_of_ne h

theorem get?_add_of_ne (h : t.hash ≠ hash') (k : PoolKind) :
    ((ps.add t).2.get k).get? hash' = (ps.get k).get? hash' :=
  forall_get_set (P := fun k p => p.get? hash' = (ps.get k).get? hash')
    (Pool.get?_add_of_ne h) (fun _ => rfl) k

/-- Taking out transactions changes nothing under other hashes. -/
theorem entries_removeAll_of_not_mem {txs : List Transaction} (h : hash ∉ txs.map Transaction.hash)
    (k : PoolKind) : ((txs.foldl (fun p t => (p.remove t.hash).2) ps).get k).entries[hash]? =
      (ps.get k).entries[hash]? := by
  induction txs generalizing ps with
  | nil => rfl
  | cons t txs ih =>
    rw [List.map_cons, List.mem_cons, not_or] at h
    rw [List.foldl_cons, ih h.2, entries_remove_of_ne (Ne.symm h.1)]

theorem find?_removeAll {txs : List Transaction} (h : hash ∉ txs.map Transaction.hash) :
    (txs.foldl (fun p t => (p.remove t.hash).2) ps).find? hash = ps.find? hash :=
  find?_congr fun k => by rw [Pool.get?, Pool.get?, entries_removeAll_of_not_mem h]

/-! ## 3. Adding many transactions -/

/-- Adds transactions in order. -/
def addAll (ps : Pools) (txs : List Transaction) : Pools :=
  txs.foldl (fun ps t => (ps.add t).2) ps

theorem addAll_cons (ps : Pools) (t : Transaction) (txs : List Transaction) :
    ps.addAll (t :: txs) = (ps.add t).2.addAll txs := rfl

theorem addAll_append (ps : Pools) (txs txs' : List Transaction) :
    ps.addAll (txs ++ txs') = (ps.addAll txs).addAll txs' := List.foldl_append

/-- Each pool has room for the transactions of its kind. -/
def Room (ps : Pools) (txs : List Transaction) : Prop :=
  ∀ k, (ps.get k).Room (txs.filter fun t => t.body.kind = k)

theorem Room.sublist {txs txs' : List Transaction} (h : ps.Room txs) (hs : txs'.Sublist txs) :
    ps.Room txs' := fun k => (h k).sublist (hs.filter _)

theorem Room.add {rest : List Transaction} (h : ps.Room (t :: rest)) :
    (ps.add t).2.Room rest := by
  have hrest := h.sublist (List.sublist_cons_self t rest)
  refine forall_get_set (P := fun k p => p.Room (rest.filter fun t => t.body.kind = k)) ?_ hrest
  have hfirst := h t.body.kind
  rw [List.filter_cons_of_pos (by simp)] at hfirst
  exact hfirst.add

theorem Room.addAll {rest : List Transaction} : ∀ {txs : List Transaction} {ps : Pools},
    ps.Room (txs ++ rest) → (ps.addAll txs).Room rest
  | [], _, h => h
  | t :: txs, ps, h => by
    rw [addAll_cons]
    exact Room.addAll h.add

theorem Room.remove {txs : List Transaction} (h : ps.Room txs) (hash : Hash) :
    (ps.remove hash).2.Room txs := by
  intro k
  rcases ps.get_remove_cases hash k with hget | ⟨hget, -⟩ <;> rw [hget]
  · exact (h k).remove hash
  · exact h k

theorem isBanned_eq_false : ps.isBanned hash = false ↔ ∀ k, (ps.get k).isBanned hash = false := by
  have hall : ps.isBanned hash = false ↔ ps.standard.isBanned hash = false ∧
      ps.escrow.isBanned hash = false ∧ ps.multiSig.isBanned hash = false := by
    simp [isBanned, toList]
  rw [hall]
  constructor
  · rintro ⟨hstandard, hescrow, hmultiSig⟩ (_ | _ | _)
    · exact hstandard
    · exact hescrow
    · exact hmultiSig
  · exact fun h => ⟨h .standard, h .escrow, h .multiSig⟩

theorem isBanned_add (h : ps.isBanned hash = false) (t : Transaction) :
    (ps.add t).2.isBanned hash = false := by
  rw [isBanned_eq_false] at h ⊢
  exact forall_get_set (P := fun _ p => p.isBanned hash = false)
    ((Pool.isBanned_add _ t hash).trans (h t.body.kind)) h

theorem isBanned_remove (h : ps.isBanned hash = false) (hash' : Hash) :
    (ps.remove hash').2.isBanned hash = false := by
  rw [isBanned_eq_false] at h ⊢
  intro k
  rcases ps.get_remove_cases hash' k with hget | ⟨hget, -⟩ <;> rw [hget]
  · rw [Pool.isBanned_remove, h k]
  · exact h k

theorem isBanned_addAll : ∀ (txs : List Transaction) {ps : Pools}, ps.isBanned hash = false →
    (ps.addAll txs).isBanned hash = false
  | [], _, h => h
  | t :: txs, ps, h => by
    rw [addAll_cons]
    exact isBanned_addAll txs (isBanned_add h t)

/-- No pool has another transaction under the hash of the given one. -/
def Only (ps : Pools) (t : Transaction) : Prop :=
  ∀ k u, (ps.get k).get? t.hash = some u → u = t

theorem find?_of_only (only : ps.Only t) {k : PoolKind}
    (h : (ps.get k).get? t.hash = some t) : ps.find? t.hash = some t := by
  cases hfound : ps.find? t.hash with
  | some u =>
    obtain ⟨p, hp, hu⟩ := List.exists_of_findSome?_eq_some hfound
    simp only [toList, List.mem_cons, List.not_mem_nil, or_false] at hp
    rcases hp with rfl | rfl | rfl
    · rw [only .standard u hu]
    · rw [only .escrow u hu]
    · rw [only .multiSig u hu]
  | none =>
    have hnone := List.findSome?_eq_none_iff.mp hfound
    have hmem : ps.get k ∈ ps.toList := by cases k <;> simp [get, toList]
    rw [hnone _ hmem] at h
    cases h

theorem Only.add {u : Transaction} (only : ps.Only t) (h : u.hash = t.hash → u = t) :
    (ps.add u).2.Only t := by
  intro k v hv
  by_cases hhash : u.hash = t.hash
  · have hor : v = u ∨ (ps.get k).get? t.hash = some v :=
      forall_get_set (P := fun k p => p.get? t.hash = some v →
          v = u ∨ (ps.get k).get? t.hash = some v)
        (fun h => Pool.get?_add_cases h) (fun _ h => Or.inr h) k hv
    rcases hor with rfl | hold
    · exact h hhash
    · exact only k v hold
  · rw [get?_add_of_ne hhash] at hv
    exact only k v hv

theorem Only.addAll : ∀ {txs : List Transaction} {ps : Pools}, ps.Only t →
    (∀ u ∈ txs, u.hash = t.hash → u = t) → (ps.addAll txs).Only t
  | [], _, only, _ => only
  | u :: txs, ps, only, h => by
    rw [addAll_cons]
    exact (only.add (h u List.mem_cons_self)).addAll fun v hv => h v (List.mem_cons_of_mem u hv)

theorem get?_addAll_of_some : ∀ (txs : List Transaction) {ps : Pools} {k : PoolKind}
    {u : Transaction}, (ps.get k).get? hash = some u →
    ((ps.addAll txs).get k).get? hash = some u
  | [], _, _, _, h => h
  | t :: txs, ps, k, u, h => by
    rw [addAll_cons]
    refine get?_addAll_of_some txs (forall_get_set (P := fun k p =>
      (ps.get k).get? hash = some u → p.get? hash = some u) ?_ (fun _ h => h) k h)
    exact fun h => Pool.get?_add_of_some h

/-- Adding transactions changes nothing under other hashes. -/
theorem find?_addAll_of_not_mem {txs : List Transaction} (h : hash ∉ txs.map Transaction.hash) :
    (ps.addAll txs).find? hash = ps.find? hash := by
  refine find?_congr fun k => ?_
  induction txs generalizing ps with
  | nil => rfl
  | cons t txs ih =>
    rw [List.map_cons, List.mem_cons, not_or] at h
    exact (ih h.2).trans (get?_add_of_ne (Ne.symm h.1) k)

/-- **Pools with room take all transactions**: unless they are banned or another one stands under
their hash, they are pending afterwards. -/
theorem find?_addAll : ∀ {txs : List Transaction} {ps : Pools}, ps.Room txs →
    (∀ hash, ps.isBanned hash = false) → ps.Only t → (∀ u ∈ txs, u.hash = t.hash → u = t) →
    t ∈ txs → (ps.addAll txs).find? t.hash = some t
  | u :: txs, ps, room, unbanned, only, hsame, hmem => by
    rw [addAll_cons]
    have only' := only.add (hsame u List.mem_cons_self)
    have hrest : ∀ v ∈ txs, v.hash = t.hash → v = t := fun v hv =>
      hsame v (List.mem_cons_of_mem u hv)
    by_cases hlater : t ∈ txs
    · exact find?_addAll room.add (fun hash => isBanned_add (unbanned hash) u) only' hrest hlater
    · have hfirst : t = u := by
        rcases List.mem_cons.mp hmem with rfl | h
        · rfl
        · exact absurd h hlater
      subst hfirst
      have hroom := room t.body.kind
      rw [List.filter_cons_of_pos (by simp)] at hroom
      have hadded : ((ps.add t).2.get t.body.kind).get? t.hash = some t := by
        have hself := Pool.get?_add_self hroom.not_full (isBanned_eq_false.mp (unbanned t.hash) _)
        rw [add, get_set_self, hself]
        cases hold : (ps.get t.body.kind).get? t.hash with
        | none => rfl
        | some v => rw [only _ v hold, Option.getD_some]
      exact find?_of_only (only'.addAll hrest) (get?_addAll_of_some txs hadded)

/-! ## 4. The kinds of what was added -/

theorem get_add_self (ps : Pools) (t : Transaction) :
    (ps.add t).2.get t.body.kind = ((ps.get t.body.kind).add t).2 := get_set_self ps _ _

/-- A pool only takes transactions of its kind. -/
theorem get_add_of_ne {k : PoolKind} (h : t.body.kind ≠ k) : (ps.add t).2.get k = ps.get k :=
  get_set_of_ne ps h _

theorem entries_addAll_of_forall {k : PoolKind} : ∀ {txs : List Transaction},
    (∀ t ∈ txs, t.hash = hash → t.body.kind ≠ k) → ∀ ps : Pools,
      ((ps.addAll txs).get k).entries[hash]? = (ps.get k).entries[hash]?
  | [], _, _ => rfl
  | t :: txs, h, ps => by
    obtain ⟨hfirst, hrest⟩ := List.forall_mem_cons.mp h
    rw [addAll_cons, entries_addAll_of_forall hrest]
    by_cases hkind : t.body.kind = k
    · have hne : t.hash ≠ hash := fun hhash => hfirst hhash hkind
      subst hkind
      rw [get_add_self]
      exact Pool.entries_add_of_ne hne
    · rw [get_add_of_ne hkind]

/-- What is new in the pools is what was added: it is in the pool of its kind, which had not banned
it. -/
theorem get?_add_new {k : PoolKind} {u : Transaction}
    (h : ((ps.add t).2.get k).get? hash = some u) :
    (ps.get k).get? hash = some u ∨
      u = t ∧ t.body.kind = k ∧ t.hash = hash ∧ (ps.get k).isBanned t.hash = false := by
  by_cases hkind : t.body.kind = k
  · subst hkind
    rw [get_add_self] at h
    exact (Pool.get?_add_new h).imp id fun ⟨heq, hhash, hopen⟩ => ⟨heq, rfl, hhash, hopen⟩
  · rw [get_add_of_ne hkind] at h
    exact Or.inl h

/-- What stands under a hash afterwards stood there before or was added. -/
theorem get?_add_cases {k : PoolKind} {u : Transaction}
    (h : ((ps.add t).2.get k).get? hash = some u) :
    (ps.get k).get? hash = some u ∨ u = t :=
  (get?_add_new h).imp id And.left

theorem get?_addAll_cases {k : PoolKind} {u : Transaction} : ∀ {txs : List Transaction}
    {ps : Pools}, ((ps.addAll txs).get k).get? hash = some u →
      (ps.get k).get? hash = some u ∨ u ∈ txs
  | [], _, h => Or.inl h
  | t :: txs, ps, h => by
    rw [addAll_cons] at h
    rcases get?_addAll_cases h with hfirst | hmem
    · rcases get?_add_cases hfirst with hold | rfl
      · exact Or.inl hold
      · exact Or.inr List.mem_cons_self
    · exact Or.inr (List.mem_cons_of_mem t hmem)

theorem isBanned_get_addAll (k : PoolKind) (hash : Hash) : ∀ (txs : List Transaction) (ps : Pools),
    ((ps.addAll txs).get k).isBanned hash = (ps.get k).isBanned hash
  | [], _ => rfl
  | t :: txs, ps => by
    rw [addAll_cons, isBanned_get_addAll k hash txs]
    exact forall_get_set (P := fun k p => p.isBanned hash = (ps.get k).isBanned hash)
      (Pool.isBanned_add _ t hash) (fun _ => rfl) k

theorem full_addAll (k : PoolKind) : ∀ (txs : List Transaction) {ps : Pools},
    (ps.get k).Full t → ((ps.addAll txs).get k).Full t
  | [], _, h => h
  | u :: txs, ps, h => by
    rw [addAll_cons]
    refine full_addAll k txs ?_
    exact forall_get_set (P := fun k p => (ps.get k).Full t → p.Full t) Pool.Full.add
      (fun _ h => h) k h

/-- **Every transaction that is offered is pending afterwards in the pool of its kind**, or another
with its hash, unless that pool bans it or is full. -/
theorem get?_addAll_self_cases : ∀ {txs : List Transaction}, t ∈ txs → ∀ ps : Pools,
    (∃ u, ((ps.addAll txs).get t.body.kind).get? t.hash = some u) ∨
      (ps.get t.body.kind).isBanned t.hash = true ∨ ((ps.addAll txs).get t.body.kind).Full t
  | u :: txs, h, ps => by
    rw [addAll_cons]
    rcases List.mem_cons.mp h with rfl | hrest
    · have hadded := get_add_self ps t
      rcases Pool.get?_add_self_cases (ps.get t.body.kind) t with ⟨v, hv⟩ | hbanned | hfull
      · rw [← hadded] at hv
        exact Or.inl ⟨v, get?_addAll_of_some txs hv⟩
      · exact Or.inr (Or.inl hbanned)
      · have hfull' := hfull.add (u := t)
        rw [← hadded] at hfull'
        exact Or.inr (Or.inr (full_addAll _ txs hfull'))
    · have hbans := isBanned_get_addAll t.body.kind t.hash [u] ps
      rcases get?_addAll_self_cases hrest (ps.add u).2 with hin | hbanned | hfull
      · exact Or.inl hin
      · exact Or.inr (Or.inl (hbans.symm.trans hbanned))
      · exact Or.inr (Or.inr hfull)

/-! ## 5. Losing transactions -/

/-- Pools that have no entry that the first ones do not have. -/
def Sheds (ps ps' : Pools) : Prop := ∀ k, (ps.get k).Sheds (ps'.get k)

theorem Sheds.refl (ps : Pools) : ps.Sheds ps := fun k => Pool.Sheds.refl (ps.get k)

theorem Sheds.trans {ps' ps'' : Pools} (h : ps.Sheds ps') (h' : ps'.Sheds ps'') : ps.Sheds ps'' :=
  fun k => (h k).trans (h' k)

theorem get_mapAll (f : Pool → Pool) (ps : Pools) (k : PoolKind) :
    (ps.mapAll f).get k = f (ps.get k) := by
  cases k <;> rfl

theorem sheds_remove (ps : Pools) (hash : Hash) : ps.Sheds (ps.remove hash).2 := by
  intro k
  rcases ps.get_remove_cases hash k with hget | ⟨hget, -⟩ <;> rw [hget]
  · exact Pool.sheds_remove (ps.get k) hash
  · exact Pool.Sheds.refl (ps.get k)

theorem sheds_removeAll (txs : List Transaction) (ps : Pools) :
    ps.Sheds (txs.foldl (fun p t => (p.remove t.hash).2) ps) := by
  induction txs generalizing ps with
  | nil => exact Sheds.refl ps
  | cons t txs ih => exact (sheds_remove ps t.hash).trans (ih _)

theorem sheds_banEverywhere (ps : Pools) (hash : Hash) : ps.Sheds (ps.banEverywhere hash) := by
  intro k
  rw [banEverywhere, get_mapAll]
  exact Pool.sheds_ban _ hash

theorem sheds_pruneExpired (ps : Pools) (height : UInt64) :
    ps.Sheds (ps.pruneExpired height).2 := by
  intro k
  rw [pruneExpired, get_mapAll]
  exact Pool.sheds_pruneExpired _ height

/-- No transaction is in two pools. -/
def Apart (ps : Pools) : Prop :=
  ∀ (hash : Hash) (k k' : PoolKind), (ps.get k).contains hash = true →
    (ps.get k').contains hash = true → k = k'

theorem contains_of_sheds {ps' : Pools} {k : PoolKind} (h : ps.Sheds ps')
    (hin : (ps'.get k).contains hash = true) : (ps.get k).contains hash = true := by
  rw [Pool.contains_eq, Option.isSome_iff_exists] at hin ⊢
  obtain ⟨t, ht⟩ := hin
  exact ⟨t, (h k).get? ht⟩

theorem Apart.sheds {ps' : Pools} (apart : ps.Apart) (h : ps.Sheds ps') : ps'.Apart :=
  fun hash k k' hk hk' => apart hash k k' (contains_of_sheds h hk) (contains_of_sheds h hk')

theorem find?_eq_none : ps.find? hash = none ↔ ∀ k, (ps.get k).get? hash = none := by
  rw [find?, List.findSome?_eq_none_iff]
  constructor
  · intro h k
    refine h (ps.get k) ?_
    cases k <;> simp [get, toList]
  · intro h p hp
    simp only [toList, List.mem_cons, List.not_mem_nil, or_false] at hp
    rcases hp with rfl | rfl | rfl
    · exact h .standard
    · exact h .escrow
    · exact h .multiSig

/-- What is not contained is in no pool. -/
theorem contains_eq_false : ps.contains hash = false ↔ ∀ k, (ps.get k).get? hash = none := by
  rw [contains_eq, Option.isSome_eq_false_iff, Option.isNone_iff_eq_none, find?_eq_none]

/-- Pools stay apart when they are given a transaction that none of them has. -/
theorem Apart.add (apart : ps.Apart) (h : ps.contains t.hash = false) :
    (ps.add t).2.Apart := by
  intro hash k k' hk hk'
  by_cases hhash : t.hash = hash
  · subst hhash
    have hown {k : PoolKind} (hin : ((ps.add t).2.get k).contains t.hash = true) :
        t.body.kind = k := Decidable.byContradiction fun hne => by
      rw [get_add_of_ne hne, Pool.contains_eq, contains_eq_false.mp h] at hin
      cases hin
    exact (hown hk).symm.trans (hown hk')
  · rw [Pool.contains_eq, get?_add_of_ne hhash, ← Pool.contains_eq] at hk hk'
    exact apart hash k k' hk hk'

/-- When no transaction is in two pools, taking one out takes it out of every pool. -/
theorem Apart.get_remove (apart : ps.Apart) (hash : Hash) (k : PoolKind) :
    (ps.remove hash).2.get k = ((ps.get k).remove hash).2 := by
  rcases ps.get_remove_cases hash k with hgone | ⟨hkept, hother⟩
  · exact hgone
  · have hnot : (ps.get k).contains hash = false := by
      refine Bool.eq_false_iff.mpr fun hin => ?_
      obtain ⟨k', hne, hin'⟩ := hother hin
      exact hne (apart hash k' k hin' hin)
    rw [hkept, Pool.remove_of_not_contains hnot]

theorem Apart.entries_remove_self (apart : ps.Apart) (hash : Hash) (k : PoolKind) :
    ((ps.remove hash).2.get k).entries[hash]? = none := by
  rw [apart.get_remove]
  exact Pool.entries_remove_self (ps.get k) hash

/-- When no transaction is in two pools, whatever is in one of them is found. -/
theorem Apart.find?_of_get? (apart : ps.Apart) {k : PoolKind}
    (h : (ps.get k).get? hash = some t) : ps.find? hash = some t := by
  cases hfound : ps.find? hash with
  | none =>
    rw [find?_eq_none.mp hfound] at h
    cases h
  | some u =>
    obtain ⟨k', hk'⟩ := exists_of_find? hfound
    have hsame : k = k' := by
      refine apart hash k k' ?_ ?_
      · rw [Pool.contains_eq, h, Option.isSome_some]
      · rw [Pool.contains_eq, hk', Option.isSome_some]
    rw [← hsame, h] at hk'
    exact hk'.symm

/-- No pool has any transaction. -/
def Vacant (ps : Pools) : Prop := ∀ (k : PoolKind) (hash : Hash), (ps.get k).get? hash = none

theorem vacant_empty (limits : PoolLimits) : (Pools.empty limits).Vacant := by
  intro k hash
  cases k <;> simp [empty, get, Pool.empty, Pool.get?]

theorem Vacant.apart (h : ps.Vacant) : ps.Apart := by
  intro hash k k' hk _
  rw [Pool.contains_eq, h] at hk
  cases hk

theorem isBanned_empty (limits : PoolLimits) (hash : Hash) : (empty limits).isBanned hash = false :=
  isBanned_eq_false.mpr fun k => by cases k <;> exact Std.ExtTreeSet.contains_empty

/-- Empty pools have room for whatever is within their bounds. -/
theorem room_empty {limits : PoolLimits} {txs : List Transaction}
    (hcount : txs.length ≤ limits.maxTransactions)
    (hbytes : (txs.flatMap Transaction.toBytes).length ≤ limits.maxBytes) :
    (empty limits).Room txs := by
  intro k
  have hnone : ((empty limits).get k).count = 0 := by cases k <;> exact Std.ExtTreeMap.size_empty
  have hzero : ((empty limits).get k).totalBytes = 0 := by cases k <;> rfl
  have hlimits : ((empty limits).get k).limits = limits := by cases k <;> rfl
  have hall : ((empty limits).get k).Room txs :=
    ⟨by rw [hnone, hlimits]; omega, by rw [hzero, hlimits]; omega⟩
  exact hall.sublist List.filter_sublist

/-- They take it. -/
theorem find?_add_empty {limits : PoolLimits} (hcount : 0 < limits.maxTransactions)
    (hbytes : t.toBytes.length ≤ limits.maxBytes) :
    ((empty limits).add t).2.find? t.hash = some t := by
  have hvacant := vacant_empty limits
  have hfresh : (empty limits).contains t.hash = false :=
    contains_eq_false.mpr fun k => hvacant k t.hash
  have hroom : (empty limits).Room [t] := room_empty hcount (by simpa using hbytes)
  have hfits : ¬ ((empty limits).get t.body.kind).Full t := by
    have hown := hroom t.body.kind
    rw [List.filter_cons, if_pos (decide_eq_true rfl)] at hown
    exact hown.not_full
  have hadded := Pool.get?_add_self hfits (isBanned_eq_false.mp (isBanned_empty limits t.hash) _)
  rw [hvacant, Option.getD_none, ← get_add_self] at hadded
  exact (hvacant.apart.add hfresh).find?_of_get? hadded

/-- They offer it for a block at once. -/
theorem peek_add_empty {limits : PoolLimits} {max : Nat} {height : UInt64}
    (hcount : 0 < limits.maxTransactions) (hbytes : t.toBytes.length ≤ limits.maxBytes)
    (heligible : Pool.isEligible height t = true) :
    ((empty limits).add t).2.peek (max + 1) height = [t] := by
  have hnone (kind : PoolKind) (m : Nat) : (Pool.empty kind limits).peek m height = [] := by
    have hempty : (Pool.empty kind limits).arrivals = [] := rfl
    rw [Pool.peek, hempty, List.map_nil, List.filter_nil, List.take_nil]
  have hone (kind : PoolKind) : ((Pool.empty kind limits).add t).2.peek (max + 1) height = [t] := by
    rw [Pool.peek, Pool.arrivals_add_empty hcount hbytes, List.map_singleton,
      List.filter_cons_of_pos heligible, List.filter_nil, List.take_succ_cons, List.take_nil]
  cases hkind : t.body.kind <;>
    simp only [add, hkind, get, set, peek, toList, empty, List.foldl_cons, List.foldl_nil,
      List.length_nil, Nat.sub_zero, hone, hnone, List.nil_append, List.append_nil]

/-- **Taking out transactions leaves none of them in any pool.** -/
theorem Apart.entries_removeAll {txs : List Transaction} (apart : ps.Apart)
    (h : hash ∈ txs.map Transaction.hash) (k : PoolKind) :
    ((txs.foldl (fun p t => (p.remove t.hash).2) ps).get k).entries[hash]? = none := by
  induction txs generalizing ps with
  | nil => cases h
  | cons t txs ih =>
    rw [List.foldl_cons]
    by_cases hrest : hash ∈ txs.map Transaction.hash
    · exact ih (apart.sheds (sheds_remove ps t.hash)) hrest
    · have hfirst : hash = t.hash := by
        rw [List.map_cons, List.mem_cons] at h
        exact h.resolve_right hrest
      rw [entries_removeAll_of_not_mem hrest, hfirst]
      exact apart.entries_remove_self t.hash k

/-- What the pools offer for a block is pending in one of them. -/
theorem get?_of_mem_peek {max : Nat} {height : UInt64} (h : t ∈ ps.peek max height) :
    ∃ k, (ps.get k).get? t.hash = some t := by
  have hstandard (n : Nat) (hmem : t ∈ ps.standard.peek n height) :
      ∃ k, (ps.get k).get? t.hash = some t := ⟨.standard, Pool.get?_of_mem_peek hmem⟩
  have hescrow (n : Nat) (hmem : t ∈ ps.escrow.peek n height) :
      ∃ k, (ps.get k).get? t.hash = some t := ⟨.escrow, Pool.get?_of_mem_peek hmem⟩
  have hmultiSig (n : Nat) (hmem : t ∈ ps.multiSig.peek n height) :
      ∃ k, (ps.get k).get? t.hash = some t := ⟨.multiSig, Pool.get?_of_mem_peek hmem⟩
  simp only [peek, toList, List.foldl_cons, List.foldl_nil, List.nil_append,
    List.mem_append] at h
  rcases h with (h | h) | h
  · exact hstandard _ h
  · exact hescrow _ h
  · exact hmultiSig _ h

end Pools

end SynergyNode
