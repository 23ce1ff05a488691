import Mathlib.Algebra.Ring.Nat
import Mathlib.Data.List.Induction
import Mathlib.Data.List.Nodup
import SynergyNode.Proofs.Pool
import SynergyNode.Proofs.Table

/-!
# What a pool keeps in step

A pool holds the same facts several times: the entries and the index of their arrivals, the sizes
and their sum, the set of the banned hashes and their queue.  Four operations change these fields by
hand, and each of the invariants below is kept by each of them.

* `Pool.Indexed`: every entry is in the index once, under its number among the transactions that
  were taken in;
* `Pool.Measured`: the sum of the sizes is right, and the pool is within its limits;
* `Pool.Screened`: no banned transaction is pending, and the queue has the banned hashes, each once;
* `Pool.bans_run`: the queue has the latest of the hashes that were newly banned, as many as there
  is room for;
* `Pool.accounted_run`: so a pool is after any steps.
-/

namespace SynergyNode.Pool

variable {p : Pool} {t : Transaction} {hash : Hash} {came : List Transaction}

/-! ## 1. Steps -/

/-- What happens to a pool. -/
inductive Step where
  | add (t : Transaction)
  | remove (hash : Hash)
  | ban (hash : Hash)
  | pruneExpired (height : UInt64)

namespace Step

/-- The pool after a step. -/
def after (p : Pool) : Step → Pool
  | add t => (p.add t).2
  | remove hash => (p.remove hash).2
  | ban hash => p.ban hash
  | pruneExpired height => (p.pruneExpired height).2

/-- The transactions that a step takes in. -/
def taken (p : Pool) : Step → List Transaction
  | add t => if (p.add t).1 then [t] else []
  | remove _ => []
  | ban _ => []
  | pruneExpired _ => []

/-- The hashes that a step bans and that were not banned before. -/
def newBans (p : Pool) : Step → List Hash
  | add _ => []
  | remove _ => []
  | ban hash => if p.isBanned hash then [] else [hash]
  | pruneExpired _ => []

end Step

/-- The pool after some steps. -/
def run (p : Pool) (steps : List Step) : Pool := steps.foldl Step.after p

/-- The transactions that are taken in along some steps, in their order. -/
def taken (p : Pool) : List Step → List Transaction
  | [] => []
  | s :: rest => s.taken p ++ (s.after p).taken rest

/-- The hashes that are newly banned along some steps, in their order. -/
def newBans (p : Pool) : List Step → List Hash
  | [] => []
  | s :: rest => s.newBans p ++ (s.after p).newBans rest

theorem run_append (p : Pool) (steps later : List Step) :
    p.run (steps ++ later) = (p.run steps).run later := List.foldl_append

theorem newBans_append (p : Pool) (steps later : List Step) :
    p.newBans (steps ++ later) = p.newBans steps ++ (p.run steps).newBans later := by
  induction steps generalizing p with
  | nil => rfl
  | cons s rest ih =>
    rw [List.cons_append, newBans, newBans, ih, List.append_assoc]
    rfl

/-! ## 2. The index of arrivals -/

/-- The index of arrivals has every entry once, under its number among the transactions that were
taken in. -/
structure Indexed (came : List Transaction) (p : Pool) : Prop where
  index : ∀ (n : Nat) (hash : Hash), p.order[n]? = some hash ↔
    ∃ e, p.entries[hash]? = some e ∧ e.arrival = n
  number : ∀ (hash : Hash) (e : PoolEntry), p.entries[hash]? = some e →
    came[e.arrival]? = some e.transaction
  next : p.nextArrival = came.length

namespace Indexed

theorem empty (kind : PoolKind) (limits : PoolLimits) : Indexed [] (Pool.empty kind limits) where
  index n hash := by simp [Pool.empty]
  number hash e h := by simp [Pool.empty] at h
  next := rfl

/-- Every entry came before the next one. -/
theorem arrival_lt (h : Indexed came p) {e : PoolEntry} (he : p.entries[hash]? = some e) :
    e.arrival < p.nextArrival := by
  obtain ⟨hlt, -⟩ := List.getElem?_eq_some_iff.mp (h.number hash e he)
  rw [h.next]
  exact hlt

/-- Two entries that arrived at once are one. -/
theorem eq_of_arrival_eq (h : Indexed came p) {hash' : Hash} {e e' : PoolEntry}
    (he : p.entries[hash]? = some e) (he' : p.entries[hash']? = some e')
    (harrival : e.arrival = e'.arrival) : hash = hash' := by
  have hfirst := (h.index e.arrival hash).mpr ⟨e, he, rfl⟩
  rw [(h.index e.arrival hash').mpr ⟨e', he', harrival.symm⟩] at hfirst
  exact (Option.some.inj hfirst).symm

theorem congr {p' : Pool} (h : Indexed came p) (hentries : p'.entries = p.entries)
    (horder : p'.order = p.order) (hnext : p'.nextArrival = p.nextArrival) : Indexed came p' where
  index := by rw [hentries, horder]; exact h.index
  number := by rw [hentries]; exact h.number
  next := hnext.trans h.next

theorem enroll (h : Indexed came p) (hnew : p.entries[t.hash]? = none) :
    Indexed (came ++ [t]) (p.enroll t) where
  index n hash := by
    simp only [Pool.enroll, Std.ExtTreeMap.getElem?_insert, Std.LawfulEqCmp.compare_eq_iff_eq]
    by_cases hn : p.nextArrival = n
    · subst hn
      rw [if_pos rfl, Option.some.injEq]
      constructor
      · rintro rfl
        exact ⟨_, if_pos rfl, rfl⟩
      · rintro ⟨e, he, harrival⟩
        split at he
        · assumption
        · exact absurd harrival (Nat.ne_of_lt (h.arrival_lt he))
    · rw [if_neg hn, h.index]
      refine exists_congr fun e => and_congr_left fun harrival => ?_
      split
      · rename_i heq
        subst heq
        rw [hnew, Option.some.injEq]
        constructor
        · intro hnone
          cases hnone
        · rintro rfl
          exact absurd harrival hn
      · rfl
  number hash e he := by
    simp only [Pool.enroll, Std.ExtTreeMap.getElem?_insert] at he
    split at he
    · cases he
      rw [h.next, List.getElem?_concat_length]
    · exact List.getElem?_append_left (h.next ▸ h.arrival_lt he) ▸ h.number hash e he
  next := by
    have hnext : (p.enroll t).nextArrival = p.nextArrival + 1 := rfl
    rw [hnext, h.next, List.length_append, List.length_singleton]

theorem dismiss (h : Indexed came p) {e : PoolEntry} (he : p.entries[hash]? = some e) :
    Indexed came (p.dismiss hash e) where
  index n other := by
    simp only [Pool.dismiss, Std.ExtTreeMap.getElem?_erase, Std.LawfulEqCmp.compare_eq_iff_eq]
    by_cases hn : e.arrival = n
    · rw [if_pos hn]
      refine iff_of_false (Option.some_ne_none other).symm ?_
      rintro ⟨e', he', harrival⟩
      split at he'
      · cases he'
      · rename_i hne
        exact hne (h.eq_of_arrival_eq he he' (hn.trans harrival.symm))
    · rw [if_neg hn, h.index]
      refine exists_congr fun e' => and_congr_left fun harrival => ?_
      split
      · rename_i heq
        subst heq
        rw [he, Option.some.injEq]
        refine iff_of_false ?_ (Option.some_ne_none e').symm
        rintro rfl
        exact hn harrival
      · rfl
  number other e' he' := by
    simp only [Pool.dismiss, Std.ExtTreeMap.getElem?_erase] at he'
    split at he'
    · cases he'
    · exact h.number other e' he'
  next := h.next

theorem remove (h : Indexed came p) (hash : Hash) : Indexed came (p.remove hash).2 := by
  rcases p.remove_cases hash with ⟨-, hremove⟩ | ⟨e, he, hremove⟩
  · rw [hremove]
    exact h
  · rw [hremove]
    exact h.dismiss he

theorem ban (h : Indexed came p) (hash : Hash) : Indexed came (p.ban hash) := by
  obtain ⟨banned, bans, hban⟩ := p.ban_eq hash
  rw [hban]
  exact (h.remove hash).congr rfl rfl rfl

/-- **Every step keeps the index.** -/
theorem after (h : Indexed came p) (s : Step) : Indexed (came ++ s.taken p) (s.after p) := by
  cases s with
  | add t =>
    rw [Step.taken, Step.after]
    rcases p.add_cases t with ⟨-, hadd⟩ | ⟨hnew, -, -, hadd⟩
    · rw [hadd, if_neg Bool.false_ne_true, List.append_nil]
      exact h
    · rw [hadd, if_pos rfl]
      exact h.enroll hnew
  | remove hash =>
    rw [Step.taken, List.append_nil]
    exact h.remove hash
  | ban hash =>
    rw [Step.taken, List.append_nil]
    exact h.ban hash
  | pruneExpired height =>
    rw [Step.taken, List.append_nil]
    exact pruneExpired_induction (P := Indexed came) (fun _ hash h => h.remove hash) h height

theorem run (h : Indexed came p) (steps : List Step) :
    Indexed (came ++ p.taken steps) (p.run steps) := by
  induction steps generalizing p came with
  | nil =>
    rw [Pool.taken, List.append_nil]
    exact h
  | cons s rest ih =>
    rw [Pool.taken, ← List.append_assoc]
    exact ih (h.after s)

end Indexed

/-! ## 3. Sizes and limits -/

/-- The sum of the encoded sizes is that of the pending transactions, and the pool is within its
limits. -/
structure Measured (p : Pool) : Prop where
  size : ∀ (hash : Hash) (e : PoolEntry), p.entries[hash]? = some e →
    e.size = e.transaction.toBytes.length
  total : p.totalBytes = (p.entries.toList.map fun e => e.2.transaction.toBytes.length).sum
  count : p.count ≤ p.limits.maxTransactions
  bytes : p.totalBytes ≤ p.limits.maxBytes

namespace Measured

theorem empty (kind : PoolKind) (limits : PoolLimits) : Measured (Pool.empty kind limits) where
  size hash e h := by simp [Pool.empty] at h
  total := rfl
  count := Nat.zero_le _
  bytes := Nat.zero_le _

theorem congr {p' : Pool} (h : Measured p) (hentries : p'.entries = p.entries)
    (htotal : p'.totalBytes = p.totalBytes) (hlimits : p'.limits = p.limits) : Measured p' where
  size := by rw [hentries]; exact h.size
  total := by rw [hentries, htotal]; exact h.total
  count := by rw [Pool.count, hentries, hlimits]; exact h.count
  bytes := by rw [htotal, hlimits]; exact h.bytes

theorem enroll (h : Measured p) (hnew : p.entries[t.hash]? = none) (hfits : ¬ p.Full t) :
    Measured (p.enroll t) where
  size hash e he := by
    simp only [Pool.enroll, Std.ExtTreeMap.getElem?_insert] at he
    split at he
    · cases he
      rfl
    · exact h.size hash e he
  total := by
    have hperm := Table.toList_insert_of_absent hnew ⟨t, t.toBytes.length, p.nextArrival⟩
    have hsum := (hperm.map fun e => e.2.transaction.toBytes.length).sum_nat
    rw [List.map_cons, List.sum_cons] at hsum
    rw [Pool.enroll, h.total, hsum, Nat.add_comm]
  count := by
    have hsize := Std.ExtTreeMap.size_insert_le (t := p.entries) (k := t.hash)
      (v := ⟨t, t.toBytes.length, p.nextArrival⟩)
    rw [Full, not_or] at hfits
    have hroom := hfits.1
    rw [Pool.count] at hroom
    simp only [Pool.count, Pool.enroll]
    omega
  bytes := by
    rw [Full, not_or] at hfits
    exact Nat.le_of_not_lt hfits.2

theorem dismiss (h : Measured p) {e : PoolEntry} (he : p.entries[hash]? = some e) :
    Measured (p.dismiss hash e) where
  size other e' he' := by
    simp only [Pool.dismiss, Std.ExtTreeMap.getElem?_erase] at he'
    split at he'
    · cases he'
    · exact h.size other e' he'
  total := by
    have hsum := ((Table.toList_of_present he).map fun e => e.2.transaction.toBytes.length).sum_nat
    rw [List.map_cons, List.sum_cons] at hsum
    rw [Pool.dismiss, h.total, hsum, h.size hash e he, Nat.add_sub_cancel_left]
  count := Nat.le_trans Std.ExtTreeMap.size_erase_le h.count
  bytes := Nat.le_trans (Nat.sub_le _ _) h.bytes

theorem remove (h : Measured p) (hash : Hash) : Measured (p.remove hash).2 := by
  rcases p.remove_cases hash with ⟨-, hremove⟩ | ⟨e, he, hremove⟩
  · rw [hremove]
    exact h
  · rw [hremove]
    exact h.dismiss he

/-- **Every step keeps the sum and the limits.** -/
theorem after (h : Measured p) (s : Step) : Measured (s.after p) := by
  cases s with
  | add t =>
    rw [Step.after]
    rcases p.add_cases t with ⟨-, hadd⟩ | ⟨hnew, -, hfits, hadd⟩
    · rw [hadd]
      exact h
    · rw [hadd]
      exact h.enroll hnew hfits
  | remove hash => exact h.remove hash
  | ban hash =>
    obtain ⟨banned, bans, hban⟩ := p.ban_eq hash
    rw [Step.after, hban]
    exact (h.remove hash).congr rfl rfl rfl
  | pruneExpired height =>
    exact pruneExpired_induction (P := Measured) (fun _ hash h => h.remove hash) h height

theorem run (h : Measured p) (steps : List Step) : Measured (p.run steps) := by
  induction steps generalizing p with
  | nil => exact h
  | cons s rest ih => exact ih (h.after s)

end Measured

/-! ## 4. Bans -/

/-- The latest hashes of a row, as many as a pool remembers. -/
def latest (hashes : List Hash) : List Hash :=
  hashes.drop (hashes.length - Protocol.maxTransactionBans)

theorem latest_of_length_le {hashes : List Hash} (h : hashes.length ≤ Protocol.maxTransactionBans) :
    latest hashes = hashes := by
  rw [latest, Nat.sub_eq_zero_of_le h, List.drop_zero]

theorem length_latest_le (hashes : List Hash) :
    (latest hashes).length ≤ Protocol.maxTransactionBans := by
  rw [latest, List.length_drop]
  omega

theorem latest_latest_append (hashes later : List Hash) :
    latest (latest hashes ++ later) = latest (hashes ++ later) := by
  have hfront : latest hashes ++ later =
      (hashes ++ later).drop (hashes.length - Protocol.maxTransactionBans) :=
    (List.drop_append_of_le_length (Nat.sub_le _ _)).symm
  have hcount : hashes.length - Protocol.maxTransactionBans +
      ((hashes ++ later).length - (hashes.length - Protocol.maxTransactionBans) -
        Protocol.maxTransactionBans) = (hashes ++ later).length - Protocol.maxTransactionBans := by
    rw [List.length_append]
    omega
  rw [hfront, latest, List.length_drop, List.drop_drop, hcount, latest]

/-- The queue of the bans has the banned hashes, each once. -/
structure Listed (p : Pool) : Prop where
  queue : ∀ hash, p.isBanned hash = true ↔ hash ∈ p.bans.toList
  once : p.bans.toList.Nodup

namespace Listed

theorem congr {p' : Pool} (h : Listed p) (hbanned : p'.banned = p.banned) (hbans : p'.bans = p.bans) :
    Listed p' where
  queue := by rw [hbans]; simp only [isBanned, hbanned]; exact h.queue
  once := hbans ▸ h.once

/-- The set and the queue are equally large. -/
theorem size_banned (h : Listed p) : p.banned.size = p.bans.toList.length := by
  have hset : p.banned.toList.Nodup := by
    refine p.banned.distinct_toList.imp fun {a b} hne heq => hne ?_
    rw [heq]
    exact Std.ReflCmp.compare_self
  have hperm : p.banned.toList.Perm p.bans.toList := by
    refine (List.perm_ext_iff_of_nodup hset h.once).mpr fun hash => ?_
    rw [← h.queue, isBanned, Std.ExtTreeSet.mem_toList, Std.ExtTreeSet.mem_iff_contains]
  rw [← hperm.length_eq, Std.ExtTreeSet.length_toList]

/-- A new ban joins the set and the end of the queue. -/
theorem push (h : Listed p) (hnew : p.isBanned hash = false) :
    Listed { p with banned := p.banned.insert hash, bans := p.bans.push hash } where
  queue other := by
    rw [isBanned, Std.ExtTreeSet.contains_insert, Queue.toList_push, List.mem_append,
      List.mem_singleton, ← h.queue, isBanned, Bool.or_eq_true, beq_iff_eq,
      Std.LawfulEqCmp.compare_eq_iff_eq, or_comm, eq_comm (a := hash)]
  once := by
    have hnot : hash ∉ p.bans.toList := by
      rw [← h.queue, hnew]
      exact Bool.false_ne_true
    rw [Queue.toList_push]
    exact h.once.append (List.nodup_singleton hash) (List.disjoint_singleton.mpr hnot)

/-- A queue that is too long by one loses its oldest ban. -/
theorem trimBans (h : Listed p) (hlength : p.bans.toList.length ≤ Protocol.maxTransactionBans + 1) :
    Listed p.trimBans ∧ p.trimBans.bans.toList = latest p.bans.toList := by
  unfold Pool.trimBans
  rw [h.size_banned]
  split
  · rename_i hlong
    have hpop := p.bans.pop?_eq
    cases hqueue : p.bans.toList with
    | nil =>
      rw [hqueue] at hlong
      exact absurd hlong (Nat.not_lt_zero _)
    | cons old rest =>
      rw [hqueue] at hpop hlength hlong
      obtain ⟨⟨first, bans⟩, hsome, hparts⟩ := Option.map_eq_some_iff.mp hpop
      simp only [Prod.mk.injEq] at hparts
      obtain ⟨rfl, rfl⟩ := hparts
      have hone : (first :: bans.toList).length - Protocol.maxTransactionBans = 1 := by omega
      have hrest : latest (first :: bans.toList) = bans.toList := by
        rw [latest, hone, List.drop_one, List.tail_cons]
      have honce := h.once
      rw [hqueue, List.nodup_cons] at honce
      simp only [hsome]
      refine ⟨⟨fun other => ?_, honce.2⟩, hrest.symm⟩
      have hold := h.queue other
      rw [hqueue, List.mem_cons] at hold
      rw [isBanned] at hold ⊢
      rw [Std.ExtTreeSet.contains_erase, Bool.and_eq_true, hold, bne_iff_ne, ne_eq,
        Std.LawfulEqCmp.compare_eq_iff_eq]
      constructor
      · rintro ⟨hne, rfl | hmem⟩
        · exact absurd rfl hne
        · exact hmem
      · intro hmem
        exact ⟨fun heq => honce.1 (heq ▸ hmem), Or.inr hmem⟩
  · rename_i hshort
    exact ⟨h, (latest_of_length_le (Nat.le_of_not_lt hshort)).symm⟩

end Listed

/-- No banned transaction is pending, and the queue of the bans is right and not too long. -/
structure Screened (p : Pool) : Prop extends Listed p where
  apart : ∀ hash, p.isBanned hash = true → p.contains hash = false
  bounded : p.bans.toList.length ≤ Protocol.maxTransactionBans

namespace Screened

theorem empty (kind : PoolKind) (limits : PoolLimits) : Screened (Pool.empty kind limits) where
  queue hash := by
    rw [isBanned, Pool.empty, Std.ExtTreeSet.contains_empty, Queue.toList_empty]
    exact iff_of_false Bool.false_ne_true List.not_mem_nil
  once := List.nodup_nil
  apart hash h := by
    rw [isBanned, Pool.empty, Std.ExtTreeSet.contains_empty] at h
    cases h
  bounded := Nat.zero_le _

theorem remove (h : Screened p) (hash : Hash) : Screened (p.remove hash).2 where
  toListed := h.toListed.congr (remove_bans p hash).1 (remove_bans p hash).2
  apart other hban := by
    rw [isBanned, (remove_bans p hash).1] at hban
    have hnone := h.apart other hban
    rw [contains_eq, Option.isSome_eq_false_iff, Option.isNone_iff_eq_none] at hnone ⊢
    exact (sheds_remove p hash).get?_eq_none hnone
  bounded := by
    rw [(remove_bans p hash).2]
    exact h.bounded

/-- **A ban enters the queue at its end**, unless it is there, and the latest bans stay. -/
theorem ban_queue (h : Screened p) (hash : Hash) :
    Listed (p.ban hash) ∧
      (p.ban hash).bans.toList = latest (p.bans.toList ++ (Step.ban hash).newBans p) := by
  have hremoved := h.remove hash
  obtain ⟨hbanned, hbans⟩ := remove_bans p hash
  have hsame : (p.remove hash).2.isBanned hash = p.isBanned hash := congrArg (·.contains hash) hbanned
  rw [Step.newBans, ← hsame, ← hbans]
  unfold ban
  simp only
  split
  · rw [List.append_nil, latest_of_length_le hremoved.bounded]
    exact ⟨hremoved.toListed, rfl⟩
  · rename_i hnew
    rw [Bool.not_eq_true] at hnew
    have hqueue : ({ (p.remove hash).2 with
        banned := (p.remove hash).2.banned.insert hash
        bans := (p.remove hash).2.bans.push hash } : Pool).bans.toList =
          (p.remove hash).2.bans.toList ++ [hash] := Queue.toList_push _ hash
    rw [← hqueue]
    refine (hremoved.toListed.push hnew).trimBans ?_
    rw [hqueue, List.length_append]
    exact Nat.succ_le_succ hremoved.bounded

theorem ban (h : Screened p) (hash : Hash) : Screened (p.ban hash) where
  toListed := (h.ban_queue hash).1
  apart other hban := by
    obtain ⟨hlisted, hqueue⟩ := h.ban_queue hash
    rw [hlisted.queue, hqueue] at hban
    have hentries : (p.ban hash).contains other = (p.remove hash).2.contains other := by
      obtain ⟨banned, bans, hban⟩ := p.ban_eq hash
      rw [hban]
      rfl
    rw [hentries]
    rcases List.mem_append.mp (List.mem_of_mem_drop hban) with hold | hnew
    · refine (h.remove hash).apart other ?_
      rwa [(h.remove hash).queue, (remove_bans p hash).2]
    · rw [Step.newBans] at hnew
      split at hnew
      · cases hnew
      · rw [List.mem_singleton.mp hnew, contains_eq, Option.isSome_eq_false_iff,
          Option.isNone_iff_eq_none, get?_eq_none]
        exact entries_remove_self p hash
  bounded := by
    rw [(h.ban_queue hash).2]
    exact length_latest_le _

theorem enroll (h : Screened p) (hopen : p.isBanned t.hash = false) : Screened (p.enroll t) where
  toListed := h.toListed.congr rfl rfl
  apart hash hban := by
    have hne : t.hash ≠ hash := by
      rintro rfl
      rw [show (p.enroll t).isBanned t.hash = p.isBanned t.hash from rfl, hopen] at hban
      cases hban
    have hold := h.apart hash hban
    rw [contains, Std.ExtTreeMap.contains_eq_isSome_getElem?] at hold ⊢
    rw [Pool.enroll, Table.getElem?_insert_of_ne hne]
    exact hold
  bounded := h.bounded

/-- **Every step keeps the pool screened.** -/
theorem after (h : Screened p) (s : Step) : Screened (s.after p) := by
  cases s with
  | add t =>
    rw [Step.after]
    rcases p.add_cases t with ⟨-, hadd⟩ | ⟨-, hopen, -, hadd⟩
    · rw [hadd]
      exact h
    · rw [hadd]
      exact h.enroll hopen
  | remove hash => exact h.remove hash
  | ban hash => exact h.ban hash
  | pruneExpired height =>
    exact pruneExpired_induction (P := Screened) (fun _ hash h => h.remove hash) h height

/-- What a step does to the queue of the bans. -/
theorem bans_after (h : Screened p) (s : Step) :
    (s.after p).bans.toList = latest (p.bans.toList ++ s.newBans p) := by
  have hkept : latest (p.bans.toList ++ []) = p.bans.toList := by
    rw [List.append_nil, latest_of_length_le h.bounded]
  cases s with
  | add t =>
    rw [Step.newBans, hkept, Step.after]
    rcases p.add_cases t with ⟨-, hadd⟩ | ⟨-, -, -, hadd⟩ <;> rw [hadd]
    rfl
  | remove hash =>
    rw [Step.newBans, hkept]
    exact congrArg Queue.toList (remove_bans p hash).2
  | ban hash => exact (h.ban_queue hash).2
  | pruneExpired height =>
    rw [Step.newBans, hkept]
    exact congrArg Queue.toList (pruneExpired_induction (P := fun q => q.bans = p.bans)
      (fun q hash hq => (remove_bans q hash).2.trans hq) rfl height)

theorem run (h : Screened p) (steps : List Step) : Screened (p.run steps) := by
  induction steps generalizing p with
  | nil => exact h
  | cons s rest ih => exact ih (h.after s)

/-- **The queue has the latest of all hashes that were newly banned.** -/
theorem bans_run (h : Screened p) (steps : List Step) :
    (p.run steps).bans.toList = latest (p.bans.toList ++ p.newBans steps) := by
  induction steps generalizing p with
  | nil =>
    rw [newBans, List.append_nil, latest_of_length_le h.bounded]
    rfl
  | cons s rest ih =>
    have hrest := ih (h.after s)
    rw [h.bans_after s, latest_latest_append, List.append_assoc] at hrest
    exact hrest

end Screened

/-! ## 5. Together -/

/-- Every pending transaction stands under its hash and once in the index, under its number among
those that were taken in; the sizes and the bans are right; and the pool is within its limits. -/
structure Accounted (came : List Transaction) (p : Pool) : Prop
    extends Indexed came p, Measured p, Screened p where
  stored : KeyedByHash p.entries

theorem limits_after (p : Pool) (s : Step) : (s.after p).limits = p.limits := by
  have hremove (q : Pool) (hash : Hash) : (q.remove hash).2.limits = q.limits := by
    rcases q.remove_cases hash with ⟨-, hremove⟩ | ⟨e, -, hremove⟩ <;> rw [hremove]
    rfl
  cases s with
  | add t =>
    rw [Step.after]
    rcases p.add_cases t with ⟨-, hadd⟩ | ⟨-, -, -, hadd⟩ <;> rw [hadd]
    rfl
  | remove hash => exact hremove p hash
  | ban hash =>
    obtain ⟨banned, bans, hban⟩ := p.ban_eq hash
    rw [Step.after, hban]
    exact hremove p hash
  | pruneExpired height =>
    exact pruneExpired_induction (P := fun q => q.limits = p.limits)
      (fun q hash hq => (hremove q hash).trans hq) rfl height

theorem limits_run (p : Pool) (steps : List Step) : (p.run steps).limits = p.limits := by
  induction steps generalizing p with
  | nil => rfl
  | cons s rest ih => exact (ih (s.after p)).trans (limits_after p s)

/-- A banned transaction is refused. -/
theorem add_of_banned (h : p.isBanned t.hash = true) : p.add t = (false, p) := by
  rw [add, h, Bool.or_true, if_pos rfl]

theorem accounted_after_run (kind : PoolKind) (limits : PoolLimits) (steps : List Step) :
    Accounted ((Pool.empty kind limits).taken steps) ((Pool.empty kind limits).run steps) where
  toIndexed := (Indexed.empty kind limits).run steps
  toMeasured := (Measured.empty kind limits).run steps
  toScreened := (Screened.empty kind limits).run steps
  stored := ((Pool.empty kind limits).run steps).keyed

/-- Only what is not banned is newly banned. -/
theorem Step.unbanned_of_mem_newBans {s : Step} (h : hash ∈ s.newBans p) :
    p.isBanned hash = false := by
  cases s with
  | ban other =>
    rw [newBans] at h
    split at h
    · cases h
    · rename_i hnew
      rw [List.mem_singleton.mp h]
      exact Bool.eq_false_iff.mpr hnew
  | add t => cases h
  | remove other => cases h
  | pruneExpired height => cases h

namespace Screened

/-- The queue some steps after a new ban. -/
theorem bans_since (h : Screened p) (hnew : p.isBanned hash = false) (steps : List Step) :
    ((p.ban hash).run steps).bans.toList =
      latest (p.bans.toList ++ hash :: (p.ban hash).newBans steps) := by
  have hone : (Step.ban hash).newBans p = [hash] := by
    rw [Step.newBans, hnew, if_neg Bool.false_ne_true]
  rw [(h.ban hash).bans_run, (h.ban_queue hash).2, hone, latest_latest_append, List.append_assoc,
    List.singleton_append]

theorem isBanned_since (h : Screened p) (hnew : p.isBanned hash = false) {steps : List Step}
    (hroom : ((p.ban hash).newBans steps).length < Protocol.maxTransactionBans) :
    ((p.ban hash).run steps).isBanned hash = true := by
  rw [((h.ban hash).run steps).queue, h.bans_since hnew, latest, List.drop_append_of_le_length]
  · exact List.mem_append_right _ List.mem_cons_self
  · rw [List.length_append, List.length_cons]
    omega

/-- A hash is not newly banned again while no more others are than the queue has room for. -/
theorem not_mem_newBans (h : Screened p) (hnew : p.isBanned hash = false) {steps : List Step}
    (hroom : ((p.ban hash).newBans steps).length ≤ Protocol.maxTransactionBans) :
    hash ∉ (p.ban hash).newBans steps := by
  induction steps using List.reverseRecOn with
  | nil => exact List.not_mem_nil
  | append_singleton steps s ih =>
    have hlast : (p.ban hash).newBans (steps ++ [s]) =
        (p.ban hash).newBans steps ++ s.newBans ((p.ban hash).run steps) := by
      rw [newBans_append, newBans, newBans, List.append_nil]
    rw [hlast, List.length_append] at hroom
    rw [hlast, List.mem_append, not_or]
    refine ⟨ih (by omega), fun hmem => ?_⟩
    -- It would have left the queue before, but there was room for it.
    have hbefore : ((p.ban hash).newBans steps).length < Protocol.maxTransactionBans := by
      have hone := List.length_pos_of_mem hmem
      omega
    have hopen := Step.unbanned_of_mem_newBans hmem
    rw [h.isBanned_since hnew hbefore] at hopen
    cases hopen

/-- **A new ban is forgotten with the last of as many new bans as there is room for.** -/
theorem isBanned_since_iff (h : Screened p) (hnew : p.isBanned hash = false) {steps : List Step}
    (hroom : ((p.ban hash).newBans steps).length ≤ Protocol.maxTransactionBans) :
    ((p.ban hash).run steps).isBanned hash = true ↔
      ((p.ban hash).newBans steps).length < Protocol.maxTransactionBans := by
  refine ⟨fun hbanned => ?_, h.isBanned_since hnew⟩
  rcases Nat.lt_or_eq_of_le hroom with hless | hfull
  · exact hless
  · have hgone : latest (p.bans.toList ++ hash :: (p.ban hash).newBans steps) =
        (p.ban hash).newBans steps := by
      have hcut : (p.bans.toList ++ hash :: (p.ban hash).newBans steps).length -
          Protocol.maxTransactionBans = (p.bans.toList ++ [hash]).length := by
        rw [List.length_append, List.length_append, List.length_cons, List.length_singleton]
        omega
      rw [latest, hcut, List.append_cons _ _ ((p.ban hash).newBans steps), List.drop_left]
    rw [((h.ban hash).run steps).queue, h.bans_since hnew, hgone] at hbanned
    exact absurd hbanned (h.not_mem_newBans hnew hroom)

end Screened

/-- **What a pool keeps in step.**  After any steps from an empty pool every pending transaction
stands under its hash and once in the index of arrivals, under its number among the transactions
that were taken in; the sizes and the bans are right, and the pool is within its limits.  A hash
that is newly banned stays banned, and is refused, until as many others were newly banned as the
pool remembers. -/
theorem accounted_run {kind : PoolKind} {limits : PoolLimits} {steps : List Step} {p : Pool}
    (hrun : (Pool.empty kind limits).run steps = p) :
    p.limits = limits ∧ Accounted ((Pool.empty kind limits).taken steps) p ∧
      ∀ (hash : Hash) (later : List Step), p.isBanned hash = false →
        ((p.ban hash).newBans later).length ≤ Protocol.maxTransactionBans →
          (((p.ban hash).run later).isBanned hash = true ↔
            ((p.ban hash).newBans later).length < Protocol.maxTransactionBans) ∧
          (((p.ban hash).newBans later).length < Protocol.maxTransactionBans →
            ∀ t : Transaction, t.hash = hash →
              ((p.ban hash).run later).add t = (false, (p.ban hash).run later)) := by
  have hkept := accounted_after_run kind limits steps
  have hlimits := limits_run (Pool.empty kind limits) steps
  rw [hrun] at hkept hlimits
  refine ⟨hlimits, hkept, fun hash later hnew hroom => ?_⟩
  have hbanned := hkept.toScreened.isBanned_since_iff hnew hroom
  refine ⟨hbanned, fun hless t ht => ?_⟩
  subst ht
  exact add_of_banned (hbanned.mpr hless)

/-- A transaction that is taken in and banned is refused when it comes again. -/
theorem refused_after_ban :
    let t : Transaction :=
      ⟨⟨.standard, default, default, 1, 0, 0, 0, 0, []⟩, .primary, [], Hash.zero, []⟩
    let p := (Pool.empty .standard .standard).run [.add t]
    let p' := (p.ban t.hash).run [.remove t.hash]
    p.isBanned t.hash = false ∧ p'.isBanned t.hash = true ∧ p'.add t = (false, p') ∧
      Accounted ((Pool.empty .standard .standard).taken [.add t]) p := by
  intro t p p'
  obtain ⟨-, hkept, hbans⟩ := accounted_run (p := p) rfl
  have hnew : p.isBanned t.hash = false :=
    (isBanned_add _ t t.hash).trans Std.ExtTreeSet.contains_empty
  have hfew : ((p.ban t.hash).newBans [.remove t.hash]).length < Protocol.maxTransactionBans :=
    Nat.zero_lt_succ _
  obtain ⟨hbanned, hrefused⟩ := hbans t.hash [.remove t.hash] hnew (Nat.le_of_lt hfew)
  exact ⟨hnew, hbanned.mpr hfew, hrefused hfew t rfl, hkept⟩

end SynergyNode.Pool
