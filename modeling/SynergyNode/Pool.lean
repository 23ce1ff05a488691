import SynergyNode.Transaction
import SynergyNode.Queue
import SynergyNode.Words

/-!
# Pools of pending transactions

A pool keeps transactions by their own hash, remembers the order in which they came, and holds
a bounded set of banned hashes that it does not take again.  It is bounded by a number of
transactions and by the sum of their encoded sizes.

`Pools` holds one pool for each kind of transaction.
-/

namespace SynergyNode

/-- The bounds of a pool. -/
structure PoolLimits where
  maxTransactions : Nat
  maxBytes : Nat
deriving DecidableEq

/-- The bounds of a pool unless a node is set up otherwise. -/
def PoolLimits.standard : PoolLimits := ⟨Protocol.maxTransactionsInPool, Protocol.poolMaxBytes⟩

/-- A pending transaction, its encoded size and its place in the order of arrival. -/
structure PoolEntry where
  transaction : Transaction
  size : Nat
  arrival : Nat
deriving DecidableEq

/-- Figures about pools. -/
structure PoolStats where
  count : Nat
  bytes : Nat
  banned : Nat
deriving DecidableEq

/-- Every entry stands under the hash of its transaction. -/
def KeyedByHash (entries : Std.ExtTreeMap Hash PoolEntry) : Prop :=
  ∀ (hash : Hash) (e : PoolEntry), entries[hash]? = some e → e.transaction.hash = hash

theorem KeyedByHash.empty : KeyedByHash ∅ := by
  intro hash e h
  simp at h

theorem KeyedByHash.insert {entries : Std.ExtTreeMap Hash PoolEntry} (keyed : KeyedByHash entries)
    (e : PoolEntry) : KeyedByHash (entries.insert e.transaction.hash e) := by
  intro hash e' h
  rw [Std.ExtTreeMap.getElem?_insert] at h
  split at h
  · rename_i heq
    cases h
    exact Std.LawfulEqCmp.eq_of_compare heq
  · exact keyed hash e' h

theorem KeyedByHash.erase {entries : Std.ExtTreeMap Hash PoolEntry} (keyed : KeyedByHash entries)
    (hash : Hash) : KeyedByHash (entries.erase hash) := by
  intro hash' e h
  rw [Std.ExtTreeMap.getElem?_erase] at h
  split at h
  · cases h
  · exact keyed hash' e h

/-- The pending transactions of one kind. -/
structure Pool where
  kind : PoolKind
  limits : PoolLimits
  entries : Std.ExtTreeMap Hash PoolEntry
  keyed : KeyedByHash entries
  /-- The hashes by arrival. -/
  order : Std.ExtTreeMap Nat Hash
  banned : Std.ExtTreeSet Hash
  /-- The banned hashes, the oldest ban first. -/
  bans : Queue Hash
  totalBytes : Nat
  nextArrival : Nat

namespace Pool

/-- No pending transactions and no bans. -/
def empty (kind : PoolKind) (limits : PoolLimits) : Pool :=
  { kind := kind, limits := limits, entries := ∅, keyed := .empty, order := ∅, banned := ∅
    bans := Queue.empty, totalBytes := 0, nextArrival := 0 }

/-! ## 1. Looking up -/

/-- Whether a transaction is pending. -/
def contains (p : Pool) (hash : Hash) : Bool := p.entries.contains hash

/-- The pending transaction with a hash. -/
def get? (p : Pool) (hash : Hash) : Option Transaction :=
  p.entries[hash]?.map PoolEntry.transaction

/-- Whether a hash is banned. -/
def isBanned (p : Pool) (hash : Hash) : Bool := p.banned.contains hash

/-- The number of pending transactions. -/
def count (p : Pool) : Nat := p.entries.size

/-- Figures about the pool. -/
def stats (p : Pool) : PoolStats := ⟨p.count, p.totalBytes, p.banned.size⟩

/-- The pending entries in order of arrival. -/
def arrivals (p : Pool) : List PoolEntry :=
  p.order.toList.filterMap fun o => p.entries[o.2]?

/-- Whether a transaction may be taken at a height: from its target height on, until it is
older than the longest delay. -/
def isEligible (height : UInt64) (t : Transaction) : Bool :=
  decide (t.body.height ≤ height ∧
    height ≤ Word64.saturatingAdd t.body.height Protocol.maxTransactionDelay)

/-- Whether a transaction can no longer be taken at a height or later. -/
def isExpired (height : UInt64) (t : Transaction) : Bool :=
  decide (Word64.saturatingAdd t.body.height Protocol.maxTransactionDelay < height)

/-- The first `max` transactions, in order of arrival, that may be taken at a height. -/
def peek (p : Pool) (max : Nat) (height : UInt64) : List Transaction :=
  ((p.arrivals.map PoolEntry.transaction).filter (isEligible height)).take max

/-! ## 2. Changing -/

/-- Adds a transaction unless it is pending or banned already or does not fit; says whether it
was added. -/
def add (p : Pool) (t : Transaction) : Bool × Pool :=
  let size := t.toBytes.length
  if p.contains t.hash || p.isBanned t.hash then (false, p)
  else if p.limits.maxTransactions ≤ p.count ∨ p.limits.maxBytes < p.totalBytes + size then
    (false, p)
  else
    (true, { p with
      entries := p.entries.insert t.hash ⟨t, size, p.nextArrival⟩
      keyed := p.keyed.insert ⟨t, size, p.nextArrival⟩
      order := p.order.insert p.nextArrival t.hash
      totalBytes := p.totalBytes + size
      nextArrival := p.nextArrival + 1 })

/-- Takes a transaction out. -/
def remove (p : Pool) (hash : Hash) : Option Transaction × Pool :=
  match p.entries[hash]? with
  | none => (none, p)
  | some e =>
    (some e.transaction, { p with
      entries := p.entries.erase hash
      keyed := p.keyed.erase hash
      order := p.order.erase e.arrival
      totalBytes := p.totalBytes - e.size })

/-- Forgets the oldest ban when there are too many. -/
def trimBans (p : Pool) : Pool :=
  if Protocol.maxTransactionBans < p.banned.size then
    match p.bans.pop? with
    | some (old, bans) => { p with bans := bans, banned := p.banned.erase old }
    | none => p
  else p

/-- Takes a transaction out and does not let it in again until its ban is forgotten. -/
def ban (p : Pool) (hash : Hash) : Pool :=
  let p := (p.remove hash).2
  if p.isBanned hash then p
  else trimBans { p with banned := p.banned.insert hash, bans := p.bans.push hash }

/-- The hashes of the transactions that can no longer be taken. -/
def expired (p : Pool) (height : UInt64) : List Hash :=
  (p.entries.toList.filter fun e => isExpired height e.2.transaction).map
    fun e => e.2.transaction.hash

/-- Drops the transactions that can no longer be taken; gives their number. -/
def pruneExpired (p : Pool) (height : UInt64) : Nat × Pool :=
  let hashes := p.expired height
  (hashes.length, hashes.foldl (fun p h => (p.remove h).2) p)

end Pool

/-! ## 3. The three pools -/

/-- One pool for each kind of transaction. -/
structure Pools where
  standard : Pool
  escrow : Pool
  multiSig : Pool

namespace Pools

/-- Empty pools with the same bounds. -/
def empty (limits : PoolLimits) : Pools :=
  ⟨Pool.empty .standard limits, Pool.empty .escrow limits, Pool.empty .multiSig limits⟩

/-- The pool of a kind. -/
def get (ps : Pools) : PoolKind → Pool
  | .standard => ps.standard
  | .escrow => ps.escrow
  | .multiSig => ps.multiSig

/-- The pools with one replaced. -/
def set (ps : Pools) (kind : PoolKind) (p : Pool) : Pools :=
  match kind with
  | .standard => { ps with standard := p }
  | .escrow => { ps with escrow := p }
  | .multiSig => { ps with multiSig := p }

/-- The pools in the order in which blocks take from them. -/
def toList (ps : Pools) : List Pool := [ps.standard, ps.escrow, ps.multiSig]

/-- The same change in every pool. -/
def mapAll (f : Pool → Pool) (ps : Pools) : Pools := ⟨f ps.standard, f ps.escrow, f ps.multiSig⟩

/-- Adds a transaction to the pool of its kind; says whether it was added. -/
def add (ps : Pools) (t : Transaction) : Bool × Pools :=
  let (added, p) := (ps.get t.body.kind).add t
  (added, ps.set t.body.kind p)

/-- Whether a transaction is pending in any pool. -/
def contains (ps : Pools) (hash : Hash) : Bool := ps.toList.any fun p => p.contains hash

/-- The pending transaction with a hash. -/
def find? (ps : Pools) (hash : Hash) : Option Transaction :=
  ps.toList.findSome? fun p => p.get? hash

/-- Takes a transaction out of the first pool that has it. -/
def remove (ps : Pools) (hash : Hash) : Option Transaction × Pools :=
  match PoolKind.all.find? fun k => (ps.get k).contains hash with
  | none => (none, ps)
  | some k =>
    let (t, p) := (ps.get k).remove hash
    (t, ps.set k p)

/-- Bans a transaction in every pool. -/
def banEverywhere (ps : Pools) (hash : Hash) : Pools := ps.mapAll fun p => p.ban hash

/-- Whether a hash is banned in any pool. -/
def isBanned (ps : Pools) (hash : Hash) : Bool := ps.toList.any fun p => p.isBanned hash

/-- Up to `max` transactions that may be taken at a height, from one pool after the other. -/
def peek (ps : Pools) (max : Nat) (height : UInt64) : List Transaction :=
  ps.toList.foldl (fun taken p => taken ++ p.peek (max - taken.length) height) []

/-- Drops the transactions that can no longer be taken; gives their number. -/
def pruneExpired (ps : Pools) (height : UInt64) : Nat × Pools :=
  (ps.toList.foldl (fun n p => n + (p.pruneExpired height).1) 0,
    ps.mapAll fun p => (p.pruneExpired height).2)

/-- Sums over the pools. -/
def stats (ps : Pools) : PoolStats :=
  ps.toList.foldl (fun s p =>
    ⟨s.count + p.stats.count, s.bytes + p.stats.bytes, s.banned + p.stats.banned⟩) ⟨0, 0, 0⟩

/-- The number of pending transactions of each kind. -/
def counts (ps : Pools) : List Nat := ps.toList.map Pool.count

end Pools

end SynergyNode
