import SynergyNode.Proofs.Pool.Bookkeeping

/-!
# What the pools offer

A pool is a row of transactions in the order of their insertion: a transaction that is taken in
goes to the end of the row, and the others only leave it (`Pool.pending_run`).  In this view
selecting is filtering and cutting, and dropping what is too old is filtering.

* `Pool.isEligible_iff`, `Pool.isExpired_iff`: the two checks of the height as inequalities of
  numbers, and `Pool.exists_isEligible_iff`: they meet;
* `Pool.pending_run`: the row after any steps;
* `Pools.peek_eq`: what the three pools offer is the front of the three rows;
* `Pools.peek_reached`: all of this of any pools that can be reached.
-/

namespace SynergyNode

namespace Pool

variable {p : Pool} {t : Transaction} {hash : Hash} {came : List Transaction}
  {height height' : UInt64}

/-! ## 1. Heights -/

/-- A transaction may be taken from its target height on, for as long as the longest delay. -/
theorem isEligible_iff : isEligible height t = true ↔ t.body.height ≤ height ∧
    height.toNat ≤ t.body.height.toNat + Protocol.maxTransactionDelay.toNat := by
  have hmax := height.toNat_lt
  have hlast : Word64.max.toNat = 2 ^ 64 - 1 := rfl
  rw [isEligible, decide_eq_true_iff, UInt64.le_iff_toNat_le (b := Word64.saturatingAdd _ _),
    Word64.toNat_saturatingAdd, Nat.le_min]
  refine and_congr_right fun _ => and_iff_left ?_
  omega

/-- A transaction is too old beyond the longest delay. -/
theorem isExpired_iff : isExpired height t = true ↔
    t.body.height.toNat + Protocol.maxTransactionDelay.toNat < height.toNat := by
  have hmax := height.toNat_lt
  have hlast : Word64.max.toNat = 2 ^ 64 - 1 := rfl
  rw [isExpired, decide_eq_true_iff, UInt64.lt_iff_toNat_lt, Word64.toNat_saturatingAdd]
  omega

/-- What is too old stays so. -/
theorem not_isExpired_of_isEligible (hle : height ≤ height') (h : isEligible height' t = true) :
    isExpired height t = false := by
  obtain ⟨-, hlast⟩ := isEligible_iff.mp h
  rw [UInt64.le_iff_toNat_le] at hle
  rw [← Bool.not_eq_true, isExpired_iff]
  omega

/-- **A transaction is not too old exactly when its time has not passed.** -/
theorem exists_isEligible_iff : (∃ height', height ≤ height' ∧ isEligible height' t = true) ↔
    isExpired height t = false := by
  constructor
  · rintro ⟨height', hle, heligible⟩
    exact not_isExpired_of_isEligible hle heligible
  · intro h
    rw [← Bool.not_eq_true, isExpired_iff] at h
    rcases UInt64.le_total t.body.height height with hstarted | hlater
    · exact ⟨height, UInt64.le_refl height, isEligible_iff.mpr ⟨hstarted, by omega⟩⟩
    · exact ⟨t.body.height, hlater, isEligible_iff.mpr ⟨UInt64.le_refl _, Nat.le_add_right _ _⟩⟩

/-! ## 2. The row of one pool -/

/-- The pending transactions in the order of their insertion. -/
def pending (p : Pool) : List Transaction := p.arrivals.map PoolEntry.transaction

theorem peek_eq (p : Pool) (max : Nat) (height : UInt64) :
    p.peek max height = (p.pending.filter (isEligible height)).take max := rfl

namespace Indexed

theorem mem_order (h : Indexed came p) {o : Nat × Hash} :
    o ∈ p.order.toList ↔ ∃ e, p.entries[o.2]? = some e ∧ e.arrival = o.1 := by
  rw [← h.index]
  exact Std.ExtTreeMap.mem_toList_iff_getElem?_eq_some

/-- The row has the hashes of the index. -/
theorem map_hash_pending (h : Indexed came p) :
    p.pending.map Transaction.hash = p.order.toList.map Prod.snd := by
  rw [pending, arrivals, List.map_map, List.map_filterMap, ← List.filterMap_eq_map]
  refine List.filterMap_congr fun o ho => ?_
  obtain ⟨e, he, -⟩ := h.mem_order.mp ho
  rw [he, Option.map_some, Function.comp_apply, p.keyed o.2 e he, Function.comp_apply]

/-- **The row has every pending transaction** and no other. -/
theorem mem_pending (h : Indexed came p) : t ∈ p.pending ↔ p.get? t.hash = some t := by
  rw [pending, List.mem_map, get?, Option.map_eq_some_iff]
  constructor
  · rintro ⟨e, he, rfl⟩
    obtain ⟨o, -, hentry⟩ := List.mem_filterMap.mp he
    rw [p.keyed o.2 e hentry]
    exact ⟨e, hentry, rfl⟩
  · rintro ⟨e, he, rfl⟩
    exact ⟨e, List.mem_filterMap.mpr ⟨(e.arrival, e.transaction.hash),
      h.mem_order.mpr ⟨e, he, rfl⟩, he⟩, rfl⟩

/-- It has each of them once. -/
theorem nodup_pending (h : Indexed came p) : (p.pending.map Transaction.hash).Nodup := by
  rw [h.map_hash_pending, List.Nodup, List.pairwise_map]
  refine (p.order.distinct_keys_toList.imp_of_mem fun {o o'} ho ho' hne heq => hne ?_)
  obtain ⟨e, he, harrival⟩ := h.mem_order.mp ho
  obtain ⟨e', he', harrival'⟩ := h.mem_order.mp ho'
  rw [heq, he'] at he
  cases he
  rw [← harrival, ← harrival']
  exact Std.ReflCmp.compare_self

theorem pending_enroll (h : Indexed came p) (hnew : p.entries[t.hash]? = none) :
    (p.enroll t).pending = p.pending ++ [t] := by
  have hlast : ∀ n hash, p.order[n]? = some hash → compare n p.nextArrival = .lt := by
    intro n hash ho
    obtain ⟨e, he, rfl⟩ := (h.index n hash).mp ho
    exact Nat.compare_eq_lt.mpr (h.arrival_lt he)
  have hkept : p.order.toList.filterMap (fun o => (p.enroll t).entries[o.2]?) = p.arrivals := by
    refine List.filterMap_congr fun o ho => ?_
    obtain ⟨e, he, -⟩ := h.mem_order.mp ho
    have hne : t.hash ≠ o.2 := fun heq => by
      rw [← heq, hnew] at he
      cases he
    rw [Pool.enroll, Table.getElem?_insert_of_ne hne]
  have horder : (p.enroll t).order.toList = p.order.toList ++ [(p.nextArrival, t.hash)] :=
    Table.toList_insert_of_last hlast t.hash
  rw [pending, arrivals, horder, List.filterMap_append, hkept, List.filterMap_cons,
    entries_enroll_self, List.filterMap_nil, List.map_append]
  rfl

theorem pending_dismiss (h : Indexed came p) {e : PoolEntry} (he : p.entries[hash]? = some e) :
    (p.dismiss hash e).pending = p.pending.filter fun t => t.hash != hash := by
  have hgone : (p.dismiss hash e).order.toList =
      p.order.toList.filter fun o => compare e.arrival o.1 != .eq := Table.toList_erase _ _
  rw [pending, arrivals, hgone, List.filterMap_filter, pending, List.filter_map, arrivals,
    List.filter_filterMap]
  refine congrArg (List.map PoolEntry.transaction) (List.filterMap_congr fun o ho => ?_)
  obtain ⟨e', he', harrival⟩ := h.mem_order.mp ho
  have hkeyed := p.keyed o.2 e' he'
  by_cases hhash : hash = o.2
  · subst hhash
    rw [he] at he'
    cases he'
    simp [Option.filter_some, he, harrival, hkeyed]
  · have hne : e.arrival ≠ o.1 := fun heq =>
      hhash (h.eq_of_arrival_eq he he' (heq.trans harrival.symm))
    simp [Pool.dismiss, Std.ExtTreeMap.getElem?_erase, Option.filter_some, hhash, hne, he', hkeyed,
      Ne.symm hhash]

theorem pending_remove (h : Indexed came p) (hash : Hash) :
    (p.remove hash).2.pending = p.pending.filter fun t => t.hash != hash := by
  rcases p.remove_cases hash with ⟨hnone, hremove⟩ | ⟨e, he, hremove⟩
  · rw [hremove, eq_comm, List.filter_eq_self]
    intro t ht
    rw [bne_iff_ne]
    rintro rfl
    rw [h.mem_pending, get?, hnone] at ht
    cases ht
  · rw [hremove]
    exact h.pending_dismiss he

theorem pending_ban (h : Indexed came p) (hash : Hash) :
    (p.ban hash).pending = p.pending.filter fun t => t.hash != hash := by
  obtain ⟨banned, bans, hban⟩ := p.ban_eq hash
  rw [hban]
  exact h.pending_remove hash

/-- **Dropping what is too old takes it out of the row.** -/
theorem pending_pruneExpired (h : Indexed came p) (height : UInt64) :
    (p.pruneExpired height).2.pending = p.pending.filter fun t => !isExpired height t := by
  have hdrop (hashes : List Hash) : ∀ {p : Pool}, Indexed came p →
      (hashes.foldl (fun p hash => (p.remove hash).2) p).pending =
        p.pending.filter fun t => !hashes.contains t.hash := by
    induction hashes with
    | nil =>
      intro p _
      exact (List.filter_eq_self.mpr fun _ _ => rfl).symm
    | cons hash rest ih =>
      intro p h
      rw [List.foldl_cons, ih (h.remove hash), h.pending_remove, List.filter_filter]
      refine List.filter_congr fun t _ => ?_
      rw [List.contains_cons, Bool.not_or, Bool.and_comm]
      rfl
  rw [pruneExpired, hdrop _ h]
  refine List.filter_congr fun t ht => congrArg _ ?_
  obtain ⟨e, he, rfl⟩ := Option.map_eq_some_iff.mp (h.mem_pending.mp ht)
  rw [Bool.eq_iff_iff, List.contains_iff_mem, expired, List.mem_map]
  constructor
  · rintro ⟨⟨hash', e'⟩, hmem, hhash⟩
    obtain ⟨hin, hold⟩ := List.mem_filter.mp hmem
    have he' := Std.ExtTreeMap.mem_toList_iff_getElem?_eq_some.mp hin
    rw [← p.keyed hash' e' he', hhash, he] at he'
    cases he'
    exact hold
  · intro hold
    exact ⟨(e.transaction.hash, e), List.mem_filter.mpr
      ⟨Std.ExtTreeMap.mem_toList_iff_getElem?_eq_some.mpr he, hold⟩, rfl⟩

end Indexed

/-- What a step makes of a row of transactions: one that is taken in goes to its end. -/
def Step.row (p : Pool) (txs : List Transaction) : Step → List Transaction
  | add t => txs ++ (Step.add t).taken p
  | remove hash => txs.filter fun t => t.hash != hash
  | ban hash => txs.filter fun t => t.hash != hash
  | pruneExpired height => txs.filter fun t => !isExpired height t

/-- What some steps make of a row of transactions. -/
def row (p : Pool) (txs : List Transaction) : List Step → List Transaction
  | [] => txs
  | s :: rest => (s.after p).row (s.row p txs) rest

/-- What one step makes of the pending transactions. -/
theorem Indexed.pending_after (h : Indexed came p) (s : Step) :
    (s.after p).pending = s.row p p.pending := by
  cases s with
  | add t =>
    rw [Step.after, Step.row, Step.taken]
    rcases p.add_cases t with ⟨-, hadd⟩ | ⟨hnew, -, -, hadd⟩
    · rw [hadd, if_neg Bool.false_ne_true, List.append_nil]
    · rw [hadd, if_pos rfl]
      exact h.pending_enroll hnew
  | remove hash => exact h.pending_remove hash
  | ban hash => exact h.pending_ban hash
  | pruneExpired height => exact h.pending_pruneExpired height

/-- **The pending transactions are in the order of their insertion.** -/
theorem Indexed.pending_run (h : Indexed came p) (steps : List Step) :
    (p.run steps).pending = p.row p.pending steps := by
  induction steps generalizing p came with
  | nil => rfl
  | cons s rest ih =>
    rw [row, ← h.pending_after s]
    exact ih (h.after s)

/-- Nothing is in a pool whose row is empty. -/
theorem Indexed.contains_eq_false (h : Indexed came p) (hnone : p.pending = []) (hash : Hash) :
    p.contains hash = false := by
  rw [contains_eq]
  cases hget : p.get? hash with
  | none => rfl
  | some t =>
    obtain ⟨e, he, rfl⟩ := Option.map_eq_some_iff.mp hget
    rw [← p.keyed hash e he, ← h.mem_pending, hnone] at hget
    cases hget

/-- A transaction that fits and is not banned is taken unless the pool has one with its hash. -/
theorem fst_add (hopen : p.contains t.hash = false → p.isBanned t.hash = false ∧ ¬ p.Full t) :
    (p.add t).1 = !p.contains t.hash := by
  cases hcontains : p.contains t.hash with
  | true =>
    rw [add_of_refuses (Or.inl hcontains)]
    rfl
  | false =>
    obtain ⟨unbanned, hfits⟩ := hopen hcontains
    have haccepts : ¬ p.Refuses t := by
      rw [Refuses, hcontains, unbanned]
      simpa using hfits
    rw [add_of_not_refuses haccepts]
    rfl

/-- **A pool with room takes every transaction that it does not have**, one behind the other. -/
theorem Indexed.pending_foldl_add : ∀ {txs : List Transaction} {p : Pool} {came : List Transaction},
    Indexed came p → (txs.map Transaction.hash).Nodup →
    p.Room (txs.filter fun t => !p.contains t.hash) →
    (∀ t ∈ txs.filter fun t => !p.contains t.hash, p.isBanned t.hash = false) →
    (txs.foldl (fun p t => (p.add t).2) p).pending =
      p.pending ++ txs.filter fun t => !p.contains t.hash
  | [], p, _, _, _, _, _ => (List.append_nil p.pending).symm
  | t :: txs, p, came, h, hnodup, room, unbanned => by
    rw [List.map_cons, List.nodup_cons] at hnodup
    have hother : (txs.filter fun u => !(p.add t).2.contains u.hash) =
        txs.filter fun u => !p.contains u.hash := by
      refine List.filter_congr fun u hu => ?_
      have hne : t.hash ≠ u.hash := fun heq => hnodup.1 (heq ▸ List.mem_map_of_mem hu)
      rw [contains_eq, get?_add_of_ne hne, ← contains_eq]
    have hopen : p.contains t.hash = false → p.isBanned t.hash = false ∧ ¬ p.Full t := by
      intro hnew
      rw [List.filter_cons_of_pos (by simp [hnew])] at room unbanned
      exact ⟨unbanned t List.mem_cons_self, room.not_full⟩
    have room' : (p.add t).2.Room (txs.filter fun u => !p.contains u.hash) := by
      rw [List.filter_cons] at room
      split at room
      · exact room.add
      · rename_i hold
        have hrefused : (p.add t).1 = false := (fst_add hopen).trans (Bool.eq_false_iff.mpr hold)
        rcases p.add_cases t with ⟨-, hadd⟩ | ⟨-, -, -, hadd⟩
        · rw [hadd]
          exact room
        · rw [hadd] at hrefused
          cases hrefused
    have unbanned' : ∀ u ∈ txs.filter fun u => !p.contains u.hash,
        (p.add t).2.isBanned u.hash = false := by
      intro u hu
      rw [isBanned_add]
      exact unbanned u (((List.sublist_cons_self t txs).filter _).subset hu)
    have hnext : Indexed (came ++ (Step.add t).taken p) (p.add t).2 := h.after (.add t)
    have hpending : (p.add t).2.pending = p.pending ++ (Step.add t).taken p :=
      h.pending_after (.add t)
    rw [← hother] at room' unbanned'
    rw [List.foldl_cons, hnext.pending_foldl_add hnodup.2 room' unbanned', hpending, hother,
      List.append_assoc, List.filter_cons, Step.taken, fst_add hopen]
    cases p.contains t.hash <;> rfl

end Pool

/-! ## 3. The three rows -/

namespace Pools

variable {ps : Pools} {t : Transaction} {height height' : UInt64}

/-- Pools that some steps lead to from empty ones, each with its own bounds. -/
def Reached (ps : Pools) : Prop :=
  ∀ k, ∃ limits steps, (Pool.empty k limits).run steps = ps.get k

namespace Reached

theorem empty (limits : PoolLimits) : (Pools.empty limits).Reached := by
  intro k
  refine ⟨limits, [], ?_⟩
  cases k <;> rfl

/-- A pool that can be reached can be reached after one more step. -/
theorem step {k : PoolKind} {p : Pool} (s : Pool.Step)
    (h : ∃ limits steps, (Pool.empty k limits).run steps = p) :
    ∃ limits steps, (Pool.empty k limits).run steps = s.after p := by
  obtain ⟨limits, steps, rfl⟩ := h
  exact ⟨limits, steps ++ [s], Pool.run_append _ steps [s]⟩

theorem add (h : ps.Reached) (t : Transaction) : (ps.add t).2.Reached :=
  forall_get_set (P := fun k p => ∃ limits steps, (Pool.empty k limits).run steps = p)
    (step (.add t) (h t.body.kind)) h

theorem addAll (h : ps.Reached) (txs : List Transaction) : (ps.addAll txs).Reached := by
  induction txs generalizing ps with
  | nil => exact h
  | cons t rest ih => exact ih (h.add t)

theorem remove (h : ps.Reached) (hash : Hash) : (ps.remove hash).2.Reached := by
  intro k
  rcases ps.get_remove_cases hash k with hget | ⟨hget, -⟩ <;> rw [hget]
  · exact step (.remove hash) (h k)
  · exact h k

theorem banEverywhere (h : ps.Reached) (hash : Hash) : (ps.banEverywhere hash).Reached := by
  intro k
  rw [Pools.banEverywhere, get_mapAll]
  exact step (.ban hash) (h k)

theorem pruneExpired (h : ps.Reached) (height : UInt64) : (ps.pruneExpired height).2.Reached := by
  intro k
  rw [Pools.pruneExpired, get_mapAll]
  exact step (.pruneExpired height) (h k)

/-- Their indices are right. -/
theorem indexed (h : ps.Reached) (k : PoolKind) : ∃ came, Pool.Indexed came (ps.get k) := by
  obtain ⟨limits, steps, hrun⟩ := h k
  exact hrun ▸ ⟨_, (Pool.Indexed.empty k limits).run steps⟩

end Reached

/-- The pending transactions of all pools: the standard ones, then those in escrow, then those with
several signers. -/
def pending (ps : Pools) : List Transaction :=
  ps.standard.pending ++ ps.escrow.pending ++ ps.multiSig.pending

/-- **What the pools offer is the front of their rows.** -/
theorem peek_eq (ps : Pools) (max : Nat) (height : UInt64) :
    ps.peek max height = (ps.pending.filter (Pool.isEligible height)).take max := by
  have hfold : ∀ (pools : List Pool) (taken : List Transaction),
      pools.foldl (fun taken p => taken ++ p.peek (max - taken.length) height) (taken.take max) =
        (taken ++ pools.flatMap fun p => p.pending.filter (Pool.isEligible height)).take max := by
    intro pools
    induction pools with
    | nil =>
      intro taken
      rw [List.foldl_nil, List.flatMap_nil, List.append_nil]
    | cons p rest ih =>
      intro taken
      have hleft : max - (taken.take max).length = max - taken.length := by
        rw [List.length_take]
        omega
      rw [List.foldl_cons, List.flatMap_cons, Pool.peek_eq, hleft, ← List.take_append, ih,
        List.append_assoc]
  have hall := hfold ps.toList []
  rw [List.take_nil, List.nil_append] at hall
  rw [peek, hall]
  simp only [toList, pending, List.flatMap_cons, List.flatMap_nil, List.append_nil,
    List.filter_append, List.append_assoc]

theorem pending_eq_flatMap (ps : Pools) :
    ps.pending = PoolKind.all.flatMap fun k => (ps.get k).pending := by
  simp only [pending, PoolKind.all, get, List.flatMap_cons, List.flatMap_nil, List.append_nil,
    List.append_assoc]

/-- When no transaction is in two pools, each is in the rows once. -/
theorem nodup_pending (h : ps.Reached) (apart : ps.Apart) :
    (ps.pending.map Transaction.hash).Nodup := by
  have hmem {k : PoolKind} {hash : Hash} (hhash : hash ∈ (ps.get k).pending.map Transaction.hash) :
      (ps.get k).contains hash = true := by
    obtain ⟨came, hindexed⟩ := h.indexed k
    obtain ⟨t, ht, rfl⟩ := List.mem_map.mp hhash
    rw [Pool.contains_eq, hindexed.mem_pending.mp ht, Option.isSome_some]
  have hkinds : PoolKind.all.Nodup := by decide
  rw [pending_eq_flatMap, List.map_flatMap, List.nodup_flatMap]
  refine ⟨fun k _ => ?_, hkinds.imp fun {k k'} hne hash hk hk' => ?_⟩
  · obtain ⟨came, hindexed⟩ := h.indexed k
    exact hindexed.nodup_pending
  · exact hne (apart hash k k' (hmem hk) (hmem hk'))

/-- Each pool is added the transactions of its kind. -/
theorem get_addAll (k : PoolKind) : ∀ (txs : List Transaction) (ps : Pools),
    (ps.addAll txs).get k =
      (txs.filter fun t => t.body.kind = k).foldl (fun p t => (p.add t).2) (ps.get k)
  | [], _ => rfl
  | t :: txs, ps => by
    rw [addAll_cons, get_addAll k txs]
    by_cases hkind : t.body.kind = k
    · subst hkind
      rw [List.filter_cons, if_pos (decide_eq_true rfl), List.foldl_cons, get_add_self]
    · rw [List.filter_cons_of_neg (by simp [hkind]), get_add_of_ne hkind]

/-- The transactions of a kind that its pool does not have. -/
def missing (ps : Pools) (k : PoolKind) (txs : List Transaction) : List Transaction :=
  (txs.filter fun t => t.body.kind = k).filter fun t => !(ps.get k).contains t.hash

theorem missing_sublist (ps : Pools) (k : PoolKind) (txs : List Transaction) :
    (ps.missing k txs).Sublist txs := List.filter_sublist.trans List.filter_sublist

theorem missing_of_pending_eq_nil (h : ps.Reached) {k : PoolKind}
    (hnone : (ps.get k).pending = []) (txs : List Transaction) :
    ps.missing k txs = txs.filter fun t => t.body.kind = k := by
  obtain ⟨came, hindexed⟩ := h.indexed k
  refine List.filter_eq_self.mpr fun t _ => ?_
  rw [hindexed.contains_eq_false hnone]
  rfl

/-- **A pool with room takes what it does not have**, one behind the other. -/
theorem pending_addAll (h : ps.Reached) {k : PoolKind} {txs : List Transaction}
    (hnodup : (txs.map Transaction.hash).Nodup) (room : (ps.get k).Room (ps.missing k txs))
    (unbanned : ∀ t ∈ ps.missing k txs, (ps.get k).isBanned t.hash = false) :
    ((ps.addAll txs).get k).pending = (ps.get k).pending ++ ps.missing k txs := by
  obtain ⟨came, hindexed⟩ := h.indexed k
  rw [get_addAll]
  exact hindexed.pending_foldl_add (hnodup.sublist (List.filter_sublist.map _)) room unbanned

/-- When no transaction is in two pools, one that is taken out leaves its row. -/
theorem pending_remove (h : ps.Reached) (apart : ps.Apart) (hash : Hash) (k : PoolKind) :
    ((ps.remove hash).2.get k).pending = (ps.get k).pending.filter fun t => t.hash != hash := by
  obtain ⟨came, hindexed⟩ := h.indexed k
  rw [apart.get_remove]
  exact hindexed.pending_remove hash

theorem pending_pruneExpired (h : ps.Reached) (height : UInt64) :
    (ps.pruneExpired height).2.pending =
      ps.pending.filter fun t => !Pool.isExpired height t := by
  rw [pending_eq_flatMap, pending_eq_flatMap, List.filter_flatMap]
  refine List.flatMap_congr fun k _ => ?_
  obtain ⟨came, hindexed⟩ := h.indexed k
  rw [pruneExpired, get_mapAll]
  exact hindexed.pending_pruneExpired height

/-- **Dropping what is too old changes no later offer.** -/
theorem peek_pruneExpired (h : ps.Reached) (hle : height ≤ height') (max : Nat) :
    (ps.pruneExpired height).2.peek max height' = ps.peek max height' := by
  rw [peek_eq, peek_eq, pending_pruneExpired h, List.filter_filter]
  refine congrArg (List.take max) (List.filter_congr fun t _ => ?_)
  cases heligible : Pool.isEligible height' t with
  | false => rfl
  | true => rw [Pool.not_isExpired_of_isEligible hle heligible]; rfl

/-- It leaves what may still be taken. -/
theorem get?_pruneExpired (h : ps.Reached) (height : UInt64) (k : PoolKind) (t : Transaction) :
    ((ps.pruneExpired height).2.get k).get? t.hash = some t ↔
      (ps.get k).get? t.hash = some t ∧
        ∃ height', height ≤ height' ∧ Pool.isEligible height' t = true := by
  obtain ⟨came, hindexed⟩ := h.indexed k
  obtain ⟨came', hindexed'⟩ := (h.pruneExpired height).indexed k
  rw [← hindexed'.mem_pending, ← hindexed.mem_pending, Pool.exists_isEligible_iff, pruneExpired,
    get_mapAll, hindexed.pending_pruneExpired, List.mem_filter, Bool.not_eq_true']

/-- **What the pools offer**, after any steps of each of them: the first of the transactions that
may be taken, from one row after the other, each in the order of insertion, and none twice when the
pools are apart.  Dropping what is too old changes no offer from then on, and it leaves exactly the
transactions that may be taken some time from then on. -/
theorem peek_reached {limits : PoolKind → PoolLimits} {steps : PoolKind → List Pool.Step}
    {ps : Pools} (hrun : ∀ k, (Pool.empty k (limits k)).run (steps k) = ps.get k) :
    (∀ k, (ps.get k).pending = (Pool.empty k (limits k)).row [] (steps k) ∧
      ∀ t, t ∈ (ps.get k).pending ↔ (ps.get k).get? t.hash = some t) ∧
    (∀ max height, ps.peek max height =
      ((ps.standard.pending ++ ps.escrow.pending ++ ps.multiSig.pending).filter
        (Pool.isEligible height)).take max) ∧
    (ps.Apart → ∀ max height, ((ps.peek max height).map Transaction.hash).Nodup) ∧
    (∀ max height height', height ≤ height' →
      (ps.pruneExpired height).2.peek max height' = ps.peek max height') ∧
    ∀ height k t, ((ps.pruneExpired height).2.get k).get? t.hash = some t ↔
      (ps.get k).get? t.hash = some t ∧
        ∃ height', height ≤ height' ∧ Pool.isEligible height' t = true := by
  have hreached : ps.Reached := fun k => ⟨limits k, steps k, hrun k⟩
  refine ⟨fun k => ?_, ps.peek_eq, fun apart max height => ?_, fun max height height' hle =>
    peek_pruneExpired hreached hle max, get?_pruneExpired hreached⟩
  · have hindexed := (Pool.Indexed.empty k (limits k)).run (steps k)
    have hrow := (Pool.Indexed.empty k (limits k)).pending_run (steps k)
    rw [hrun] at hindexed hrow
    exact ⟨hrow, fun t => hindexed.mem_pending⟩
  · rw [peek_eq]
    exact (nodup_pending hreached apart).sublist
      (((List.take_sublist _ _).trans List.filter_sublist).map _)

/-- A standard transaction is offered before one in escrow. -/
theorem peek_standard_before_escrow :
    let escrowed : Transaction :=
      ⟨⟨.escrow, default, default, 1, 0, 0, 0, 0, []⟩, .primary, [], Hash.zero, []⟩
    let plain : Transaction := { escrowed with body.kind := .standard }
    let ps : Pools :=
      ⟨((Pool.empty .standard .standard).add plain).2,
        ((Pool.empty .escrow .standard).add escrowed).2, Pool.empty .multiSig .standard⟩
    ps.peek 10 7 = [plain, escrowed] ∧ (ps.pruneExpired 5).2.peek 10 7 = ps.peek 10 7 := by
  intro escrowed plain ps
  obtain ⟨hrows, hpeek, -, hprune, -⟩ := @peek_reached (fun _ => .standard)
    (fun k => if k = .standard then [.add plain] else if k = .escrow then [.add escrowed] else []) ps
    (by rintro (_ | _ | _) <;> rfl)
  have hstandard : ps.standard.pending = [plain] := (hrows .standard).1.trans rfl
  have hescrow : ps.escrow.pending = [escrowed] := (hrows .escrow).1.trans rfl
  have hmultiSig : ps.multiSig.pending = [] := (hrows .multiSig).1.trans rfl
  have heligible : [plain, escrowed].filter (Pool.isEligible 7) = [plain, escrowed] := by
    have hheight : Pool.isEligible 7 escrowed = true := by decide
    exact List.filter_eq_self.mpr (List.forall_mem_cons.mpr
      ⟨hheight, List.forall_mem_singleton.mpr hheight⟩)
  refine ⟨?_, hprune 10 5 7 (by decide)⟩
  rw [hpeek, hstandard, hescrow, hmultiSig, List.append_nil, List.singleton_append, heligible]
  rfl

end Pools

end SynergyNode
