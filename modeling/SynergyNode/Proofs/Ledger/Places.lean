import SynergyNode.Proofs.Ledger.Release

/-!
# Where a transaction is

A transaction is pending in one of the three pools, or committed, or the ledger does not have it.
The pools and the table of the store are changed one entry at a time, so nothing but the order of
these changes keeps a transaction from being in two places.

* `Store.Coherent`: what the blocks of a store list is stored, and no transaction is listed at two
  heights; so it is for the store of every history within the limit (`coherent_ofHistory`);
* `Ledger.At`, `Ledger.Apart`: the places of a transaction, and that none is in two;
* `Ledger.GivesUp`: what giving up the blocks at some heights does, one block (`givesUp_discard`),
  all above a height (`givesUp_discardAbove`) and a whole rollback (`givesUp_rollback`).  It
  composes (`GivesUp.trans`) and keeps stores coherent and transactions apart.
-/

namespace SynergyNode

/-! ## 1. Coherent stores -/

namespace Store

variable {s s' : Store} {height : UInt64} {hash : Hash}

/-- The block that is stored at a height lists a transaction. -/
def Lists (s : Store) (height : UInt64) (hash : Hash) : Prop :=
  ∃ b, s.block? height = .ok (some b) ∧ hash ∈ b.txHashes

/-- The blocks and the transactions of a store fit together. -/
structure Coherent (s : Store) : Prop where
  reliable : s.Reliable
  block : ∀ height, ∃ found, s.block? height = .ok found
  transaction : ∀ hash, ∃ found, s.transaction? hash = .ok found ∧ ∀ t ∈ found, t.hash = hash
  /-- What a stored block lists is stored. -/
  listed : ∀ height hash, s.Lists height hash → ∃ t, s.transaction? hash = .ok (some t)
  once : ∀ height height' hash, s.Lists height hash → s.Lists height' hash → height = height'

theorem block?_congr (hfailure : s'.failure = s.failure)
    (hblocks : s'.blocks[height]? = s.blocks[height]?) : s'.block? height = s.block? height := by
  simp only [block?, fetch, hfailure, hblocks]

theorem transaction?_congr (hfailure : s'.failure = s.failure)
    (htransactions : s'.transactions[hash]? = s.transactions[hash]?) :
    s'.transaction? hash = s.transaction? hash := by
  simp only [transaction?, fetch, hfailure, htransactions]

theorem Lists.congr (hfailure : s'.failure = s.failure)
    (hblocks : s'.blocks[height]? = s.blocks[height]?) :
    s'.Lists height hash ↔ s.Lists height hash := by
  rw [Lists, Lists, block?_congr hfailure hblocks]

theorem Reliable.not_lists (hs : s.Reliable) (h : s.blocks[height]? = none) :
    ¬ s.Lists height hash := by
  rintro ⟨b, hb, -⟩
  rw [hs.block?_eq_none.mpr h] at hb
  cases hb

namespace Coherent

theorem hash_of_transaction? (h : s.Coherent) {t : Transaction}
    (ht : s.transaction? hash = .ok (some t)) : t.hash = hash := by
  obtain ⟨found, hfound, hhash⟩ := h.transaction hash
  rw [ht] at hfound
  cases hfound
  exact hhash t rfl

/-- The transactions of a stored block can be read, one for each hash that it lists. -/
theorem transactions_of_lists (h : s.Coherent) : ∀ {hashes : List Hash},
    (∀ hash ∈ hashes, s.Lists height hash) → ∃ txs : List Transaction,
      txs.map Transaction.hash = hashes ∧ ∀ t ∈ txs, s.transaction? t.hash = .ok (some t)
  | [], _ => ⟨[], rfl, by simp⟩
  | hash :: hashes, hlists => by
    obtain ⟨hfirst, hrest⟩ := List.forall_mem_cons.mp hlists
    obtain ⟨t, ht⟩ := h.listed height hash hfirst
    obtain ⟨txs, hmap, hall⟩ := h.transactions_of_lists hrest
    have hhash := h.hash_of_transaction? ht
    refine ⟨t :: txs, by rw [List.map_cons, hmap, hhash], List.forall_mem_cons.mpr ⟨?_, hall⟩⟩
    rw [hhash]
    exact ht

end Coherent

section

open History

variable {start : Accounts} {c : History}

theorem block?_ofHistory (hc : c.Sound start) (hfits : ∀ e ∈ c, e.Fits)
    (hle : height.toNat ≤ c.length) :
    (ofHistory start c).block? height = .ok (some (c.cut height.toNat).tip) := by
  refine (reliable_ofHistory start c).block?_of_stored ?_ (length_tip (fits_cut hfits _))
  rw [blocks_ofHistory hc, if_pos hle]

theorem lists_ofHistory (hc : c.Sound start) (hfits : ∀ e ∈ c, e.Fits) :
    (ofHistory start c).Lists height hash ↔
      height.toNat ≤ c.length ∧ hash ∈ (c.cut height.toNat).tip.txHashes := by
  have hs := reliable_ofHistory start c
  constructor
  · rintro ⟨b, hb, hmem⟩
    obtain ⟨x, hx, hread⟩ := hs.block?_eq_some.mp hb
    rw [blocks_ofHistory hc] at hx
    split at hx
    · rename_i hle
      cases hx
      rw [Block.eq_of_ofBytes_toBytes hread] at hmem
      exact ⟨hle, hmem⟩
    · cases hx
  · rintro ⟨hle, hmem⟩
    exact ⟨_, block?_ofHistory hc hfits hle, hmem⟩

/-- In a history no transaction is listed twice at different heights. -/
theorem eq_of_mem_tip : ∀ {c : History}, c.Fresh → ∀ {m n : Nat}, m ≤ c.length → n ≤ c.length →
    hash ∈ (c.cut m).tip.txHashes → hash ∈ (c.cut n).tip.txHashes → m = n
  | [], _, m, n, hm, hn, _, _ => by
    rw [List.length_nil] at hm hn
    omega
  | e :: c, hfresh, m, n, hm, hn, hmem, hmem' => by
    rw [List.length_cons] at hm hn
    -- Below the top a hash is in the history that the block at the top must not repeat.
    have hbelow {k : Nat} (hk : k ≤ c.length) (hin : hash ∈ (cut c k).tip.txHashes) :
        hash ∈ txHashes c := by
      cases k with
      | zero =>
        rw [cut_zero] at hin
        cases hin
      | succ k => exact mem_txHashes_iff_cut.mpr ⟨k, hk, hin⟩
    have htop : cut (e :: c) (c.length + 1) = e :: c := cut_of_length_le (Nat.le_refl _)
    by_cases hm' : m ≤ c.length
    · rw [cut_cons_of_le hm'] at hmem
      by_cases hn' : n ≤ c.length
      · rw [cut_cons_of_le hn'] at hmem'
        exact eq_of_mem_tip hfresh.2 hm' hn' hmem hmem'
      · obtain rfl : n = c.length + 1 := by omega
        rw [htop] at hmem'
        exact absurd (hbelow hm' hmem) (hfresh.1 hash hmem')
    · obtain rfl : m = c.length + 1 := by omega
      rw [htop] at hmem
      by_cases hn' : n ≤ c.length
      · rw [cut_cons_of_le hn'] at hmem'
        exact absurd (hbelow hn' hmem') (hfresh.1 hash hmem)
      · omega

/-- **The store of a history is coherent.** -/
theorem coherent_ofHistory (hc : c.Sound start) (hfresh : c.Fresh) (hfits : ∀ e ∈ c, e.Fits) :
    (ofHistory start c).Coherent where
  reliable := reliable_ofHistory start c
  block height := by
    by_cases hle : height.toNat ≤ c.length
    · exact ⟨_, block?_ofHistory hc hfits hle⟩
    · refine ⟨none, (reliable_ofHistory start c).block?_eq_none.mpr ?_⟩
      rw [blocks_ofHistory hc, if_neg hle]
  transaction hash := by
    cases hx : (ofHistory start c).transactions[hash]? with
    | none => exact ⟨none, (reliable_ofHistory start c).transaction?_eq_none.mpr hx, by simp⟩
    | some x =>
      obtain ⟨t, ht, hhash, rfl⟩ := exists_of_transactions_ofHistory hc hfresh hx
      obtain ⟨e, he, hte⟩ := List.mem_flatMap.mp ht
      have hread := (reliable_ofHistory start c).transaction?_of_stored hx
        ((hfits e he).transactions t hte)
      refine ⟨some t, hread, ?_⟩
      intro u hu
      cases hu
      exact hhash
  listed height hash hlisted := by
    obtain ⟨hle, hmem⟩ := (lists_ofHistory hc hfits).mp hlisted
    have hin : hash ∈ c.txHashes := by
      cases hheight : height.toNat with
      | zero =>
        rw [hheight, cut_zero] at hmem
        cases hmem
      | succ n =>
        rw [hheight] at hle hmem
        exact mem_txHashes_iff_cut.mpr ⟨n, hle, hmem⟩
    obtain ⟨t, ht, rfl⟩ := (mem_txHashes_iff hc).mp hin
    obtain ⟨e, he, hte⟩ := List.mem_flatMap.mp ht
    exact ⟨t, (reliable_ofHistory start c).transaction?_of_stored
      (transactions_ofHistory hc hfresh ht) ((hfits e he).transactions t hte)⟩
  once height height' hash hlisted hlisted' := by
    obtain ⟨hle, hmem⟩ := (lists_ofHistory hc hfits).mp hlisted
    obtain ⟨hle', hmem'⟩ := (lists_ofHistory hc hfits).mp hlisted'
    exact UInt64.toNat_inj.mp (eq_of_mem_tip hfresh hle hle' hmem hmem')

end

end Store

/-! ## 2. Places -/

/-- Where a transaction can be. -/
inductive Place where
  | pending (kind : PoolKind)
  | committed
deriving DecidableEq

namespace Ledger

variable {l l' : Ledger} {hash : Hash} {t : Transaction}

/-- The transaction with a hash is in a place. -/
def At (l : Ledger) (hash : Hash) : Place → Prop
  | .pending kind => (l.pools.get kind).contains hash = true
  | .committed => l.store.transactions.contains hash = true

/-- No transaction is in two places. -/
def Apart (l : Ledger) : Prop :=
  ∀ (hash : Hash) (p q : Place), l.At hash p → l.At hash q → p = q

/-- The ledger has the very transaction, in a pool or in the store. -/
def Carries (l : Ledger) (t : Transaction) : Prop :=
  (∃ kind, (l.pools.get kind).get? t.hash = some t) ∨ l.store.transaction? t.hash = .ok (some t)

theorem Apart.pools (h : l.Apart) : l.pools.Apart := by
  intro hash k k' hk hk'
  cases h hash (.pending k) (.pending k') hk hk'
  rfl

/-- What is committed is in no pool. -/
theorem Apart.get?_eq_none (h : l.Apart) (hcommitted : l.At hash .committed) (kind : PoolKind) :
    (l.pools.get kind).get? hash = none := by
  rw [← Option.not_isSome_iff_eq_none, ← Pool.contains_eq]
  intro hpending
  cases h hash (.pending kind) .committed hpending hcommitted

theorem Apart.not_pending (h : l.Apart) (ht : l.store.transaction? hash = .ok (some t))
    (kind : PoolKind) : (l.pools.get kind).get? hash = none :=
  h.get?_eq_none (Store.contains_of_transaction? ht) kind

theorem apart_of (hpools : l.pools.Apart)
    (hstore : ∀ hash kind, l.store.transactions.contains hash = true →
      (l.pools.get kind).get? hash = none) : l.Apart := by
  have hnot (hash : Hash) (kind : PoolKind) (hpending : l.At hash (.pending kind))
      (hcommitted : l.At hash .committed) : False := by
    have hin : ((l.pools.get kind).get? hash).isSome = true := by
      rw [← Pool.contains_eq]
      exact hpending
    rw [hstore hash kind hcommitted] at hin
    cases hin
  intro hash p q hp hq
  cases p with
  | pending k =>
    cases q with
    | pending k' => rw [hpools hash k k' hp hq]
    | committed => exact (hnot hash k hp hq).elim
  | committed =>
    cases q with
    | pending k' => exact (hnot hash k' hq hp).elim
    | committed => rfl

end Ledger

/-- The pools were offered a transaction: it is pending in the pool of its kind and in no other, or
in none, because that pool bans it or is full. -/
structure Pools.Offered (ps : Pools) (t : Transaction) : Prop where
  own : (ps.get t.body.kind).get? t.hash = some t ∨
    (ps.get t.body.kind).get? t.hash = none ∧
      ((ps.get t.body.kind).isBanned t.hash = true ∨ (ps.get t.body.kind).Full t)
  other : ∀ kind, kind ≠ t.body.kind → (ps.get kind).get? t.hash = none

/-- Pools that had nothing under the hash of a transaction were offered it when it was added. -/
theorem Pools.offered_addAll {ps : Pools} {t : Transaction} {txs : List Transaction}
    (hnone : ∀ kind, (ps.get kind).get? t.hash = none) (hmem : t ∈ txs)
    (hsame : ∀ u ∈ txs, u.hash = t.hash → u = t) : (ps.addAll txs).Offered t where
  own := by
    have hcases := get?_addAll_self_cases hmem ps
    rw [← isBanned_get_addAll t.body.kind t.hash txs ps] at hcases
    cases hfound : ((ps.addAll txs).get t.body.kind).get? t.hash with
    | none =>
      rw [hfound] at hcases
      rcases hcases with ⟨u, hu⟩ | hrefused
      · cases hu
      · exact Or.inr ⟨rfl, hrefused⟩
    | some u =>
      rcases get?_addAll_cases hfound with hbefore | hadded
      · rw [hnone] at hbefore
        cases hbefore
      · left
        rw [hsame u hadded (Pool.hash_of_get? hfound)]
  other kind hne := by
    have hkinds : ∀ u ∈ txs, u.hash = t.hash → u.body.kind ≠ kind := by
      intro u hu hhash hkind
      rw [hsame u hu hhash] at hkind
      exact hne hkind.symm
    rw [Pool.get?_eq_none, entries_addAll_of_forall hkinds, ← Pool.get?_eq_none]
    exact hnone kind

theorem Pools.Offered.mono {ps ps' : Pools} {t : Transaction} (h : ps.Offered t)
    (hentries : ∀ kind, (ps'.get kind).entries[t.hash]? = (ps.get kind).entries[t.hash]?)
    (hbans : ∀ kind, (ps'.get kind).isBanned t.hash = (ps.get kind).isBanned t.hash)
    (hfull : ∀ kind, (ps.get kind).Full t → (ps'.get kind).Full t) : ps'.Offered t := by
  have hget (kind : PoolKind) : (ps'.get kind).get? t.hash = (ps.get kind).get? t.hash := by
    rw [Pool.get?, Pool.get?, hentries]
  refine ⟨?_, fun kind hne => (hget kind).trans (h.other kind hne)⟩
  rw [hget, hbans]
  rcases h.own with hin | ⟨hnone, hbanned | hno⟩
  · exact Or.inl hin
  · exact Or.inr ⟨hnone, Or.inl hbanned⟩
  · exact Or.inr ⟨hnone, Or.inr (hfull _ hno)⟩

namespace Ledger

/-! ## 3. Giving up blocks -/

/-- What became of the places when the blocks at some heights were given up. -/
structure GivesUp (heights : UInt64 → Prop) (l l' : Ledger) : Prop where
  failure : l'.store.failure = l.store.failure
  gone : ∀ height, heights height → l'.store.blocks[height]? = none
  kept : ∀ height, ¬ heights height → l'.store.blocks[height]? = l.store.blocks[height]?
  /-- Every transaction of the blocks leaves the store and is offered to the pools. -/
  released : ∀ height hash, heights height → l.store.Lists height hash →
    ∃ t, l.store.transaction? hash = .ok (some t) ∧ l'.store.transactions[hash]? = none ∧
      l'.pools.Offered t
  /-- No other stays anywhere but where it was. -/
  stored : ∀ hash, (∀ height, heights height → ¬ l.store.Lists height hash) →
    l'.store.transactions[hash]? = l.store.transactions[hash]?
  pending : ∀ hash, (∀ height, heights height → ¬ l.store.Lists height hash) →
    ∀ kind, (l'.pools.get kind).entries[hash]? = (l.pools.get kind).entries[hash]?
  bans : ∀ kind hash, (l'.pools.get kind).isBanned hash = (l.pools.get kind).isBanned hash
  full : ∀ kind t, (l.pools.get kind).Full t → (l'.pools.get kind).Full t

namespace GivesUp

variable {l l₁ l₂ l' : Ledger} {heights heights' : UInt64 → Prop} {hash : Hash} {t : Transaction}

theorem refl (l : Ledger) : GivesUp (fun _ => False) l l where
  failure := rfl
  gone _ h := h.elim
  kept _ _ := rfl
  released _ _ h := h.elim
  stored _ _ := rfl
  pending _ _ _ := rfl
  bans _ _ := rfl
  full _ _ h := h

theorem congr (h : GivesUp heights l l') (hsame : ∀ height, heights height ↔ heights' height) :
    GivesUp heights' l l' := by
  have heq : heights = heights' := funext fun height => propext (hsame height)
  rw [← heq]
  exact h

theorem reliable (h : GivesUp heights l l') (hs : l.store.Reliable) : l'.store.Reliable := by
  intro op
  rw [h.failure]
  exact hs op

/-- The blocks that are left list what they did. -/
theorem lists (h : GivesUp heights l l') (hs : l.store.Reliable) {height : UInt64} :
    l'.store.Lists height hash ↔ ¬ heights height ∧ l.store.Lists height hash := by
  by_cases hin : heights height
  · have hnot : ¬ l'.store.Lists height hash := (h.reliable hs).not_lists (h.gone height hin)
    simp only [hin, not_true_eq_false, false_and, iff_false]
    exact hnot
  · rw [Store.Lists.congr h.failure (h.kept height hin)]
    simp only [hin, not_false_eq_true, true_and]

/-- What a block lists that is left is listed by none of those given up. -/
theorem not_listed (h : GivesUp heights l l') (hc : l.store.Coherent) {height : UInt64}
    (hlists : l'.store.Lists height hash) :
    ∀ height', heights height' → ¬ l.store.Lists height' hash := by
  intro height' hin hlists'
  obtain ⟨hleft, hbefore⟩ := (h.lists hc.reliable).mp hlists
  exact hleft (hc.once height height' hash hbefore hlists' ▸ hin)

/-- **A coherent store stays coherent.** -/
theorem coherent (h : GivesUp heights l l') (hc : l.store.Coherent) : l'.store.Coherent where
  reliable := h.reliable hc.reliable
  block height := by
    by_cases hin : heights height
    · exact ⟨none, (h.reliable hc.reliable).block?_eq_none.mpr (h.gone height hin)⟩
    · rw [Store.block?_congr h.failure (h.kept height hin)]
      exact hc.block height
  transaction hash := by
    by_cases hin : ∃ height, heights height ∧ l.store.Lists height hash
    · obtain ⟨height, hheight, hlists⟩ := hin
      obtain ⟨-, -, hnone, -⟩ := h.released height hash hheight hlists
      exact ⟨none, (h.reliable hc.reliable).transaction?_eq_none.mpr hnone, by simp⟩
    · rw [Store.transaction?_congr h.failure
        (h.stored hash fun height hheight hlists => hin ⟨height, hheight, hlists⟩)]
      exact hc.transaction hash
  listed height hash hlists := by
    rw [Store.transaction?_congr h.failure (h.stored hash (h.not_listed hc hlists))]
    exact hc.listed height hash ((h.lists hc.reliable).mp hlists).2
  once height height' hash hlists hlists' :=
    hc.once height height' hash ((h.lists hc.reliable).mp hlists).2
      ((h.lists hc.reliable).mp hlists').2

/-- **One part after another.** -/
theorem trans (h : GivesUp heights l l₁) (h' : GivesUp heights' l₁ l₂) (hc : l.store.Coherent) :
    GivesUp (fun height => heights height ∨ heights' height) l l₂ where
  failure := h'.failure.trans h.failure
  gone height hin := by
    by_cases hlater : heights' height
    · exact h'.gone height hlater
    · rw [h'.kept height hlater]
      exact h.gone height (hin.resolve_right hlater)
  kept height hout := by
    rw [not_or] at hout
    exact (h'.kept height hout.2).trans (h.kept height hout.1)
  released height hash hin hlists := by
    by_cases hfirst : heights height
    · -- The first part released it, and no block that the second part finds lists it.
      obtain ⟨t, ht, hnone, hoffered⟩ := h.released height hash hfirst hlists
      obtain rfl := hc.hash_of_transaction? ht
      have hnot : ∀ height', heights' height' → ¬ l₁.store.Lists height' t.hash := by
        intro height' _ hlists'
        exact h.not_listed hc hlists' height hfirst hlists
      exact ⟨t, ht, (h'.stored t.hash hnot).trans hnone,
        hoffered.mono (h'.pending t.hash hnot) (h'.bans · t.hash) (h'.full · t)⟩
    · have hlists' := (h.lists hc.reliable).mpr ⟨hfirst, hlists⟩
      obtain ⟨t, ht, hreleased⟩ :=
        h'.released height hash (hin.resolve_left hfirst) hlists'
      rw [Store.transaction?_congr h.failure (h.stored hash (h.not_listed hc hlists'))] at ht
      exact ⟨t, ht, hreleased⟩
  stored hash hnot := by
    have hnot' : ∀ height, heights' height → ¬ l₁.store.Lists height hash := fun height hin hlists =>
      hnot height (Or.inr hin) ((h.lists hc.reliable).mp hlists).2
    exact (h'.stored hash hnot').trans (h.stored hash fun height hin => hnot height (Or.inl hin))
  pending hash hnot kind := by
    have hnot' : ∀ height, heights' height → ¬ l₁.store.Lists height hash := fun height hin hlists =>
      hnot height (Or.inr hin) ((h.lists hc.reliable).mp hlists).2
    exact (h'.pending hash hnot' kind).trans
      (h.pending hash (fun height hin => hnot height (Or.inl hin)) kind)
  bans kind hash := (h'.bans kind hash).trans (h.bans kind hash)
  full kind t hfull := h'.full kind t (h.full kind t hfull)

/-- A transaction that is pending now was pending under that kind, or is one that was released and
is of that kind. -/
theorem pending_cases (h : GivesUp heights l l') (hc : l.store.Coherent) {kind : PoolKind}
    (hget : (l'.pools.get kind).get? hash = some t) :
    (l.pools.get kind).get? hash = some t ∧
        l'.store.transactions[hash]? = l.store.transactions[hash]? ∨
      l.store.transaction? hash = .ok (some t) ∧ l'.store.transactions[hash]? = none ∧
        kind = t.body.kind := by
  by_cases hin : ∃ height, heights height ∧ l.store.Lists height hash
  · obtain ⟨height, hheight, hlists⟩ := hin
    obtain ⟨u, hu, hnone, hoffered⟩ := h.released height hash hheight hlists
    obtain rfl := hc.hash_of_transaction? hu
    have hkind : kind = u.body.kind := Decidable.byContradiction fun hne => by
      rw [hoffered.other kind hne] at hget
      cases hget
    subst hkind
    rcases hoffered.own with hown | ⟨habsent, -⟩
    · rw [hown] at hget
      cases hget
      exact Or.inr ⟨hu, hnone, rfl⟩
    · rw [habsent] at hget
      cases hget
  · have hnot : ∀ height, heights height → ¬ l.store.Lists height hash := fun height hheight hlists =>
      hin ⟨height, hheight, hlists⟩
    rw [Pool.get?, h.pending hash hnot] at hget
    exact Or.inl ⟨hget, h.stored hash hnot⟩

/-- **What was apart stays apart.** -/
theorem apart (h : GivesUp heights l l') (hc : l.store.Coherent) (hapart : l.Apart) :
    l'.Apart := by
  have hsome {kind : PoolKind} {hash : Hash} (hin : (l'.pools.get kind).contains hash = true) :
      ∃ t, (l'.pools.get kind).get? hash = some t := by
    rw [Pool.contains_eq] at hin
    exact Option.isSome_iff_exists.mp hin
  refine apart_of (fun hash k k' hk hk' => ?_) fun hash kind hcommitted => ?_
  · obtain ⟨t, ht⟩ := hsome hk
    obtain ⟨t', ht'⟩ := hsome hk'
    rcases h.pending_cases hc ht with ⟨hold, -⟩ | ⟨hu, -, hkind⟩
    · rcases h.pending_cases hc ht' with ⟨hold', -⟩ | ⟨hu', -, -⟩
      · refine hapart.pools hash k k' ?_ ?_
        · rw [Pool.contains_eq, hold, Option.isSome_some]
        · rw [Pool.contains_eq, hold', Option.isSome_some]
      · rw [hapart.not_pending hu' k] at hold
        cases hold
    · rcases h.pending_cases hc ht' with ⟨hold', -⟩ | ⟨hu', -, hkind'⟩
      · rw [hapart.not_pending hu k'] at hold'
        cases hold'
      · rw [hu] at hu'
        cases hu'
        exact hkind.trans hkind'.symm
  · cases hget : (l'.pools.get kind).get? hash with
    | none => rfl
    | some t =>
      rw [Std.ExtTreeMap.contains_eq_isSome_getElem?] at hcommitted
      rcases h.pending_cases hc hget with ⟨hold, hsame⟩ | ⟨-, hnone, -⟩
      · rw [hsame, ← Std.ExtTreeMap.contains_eq_isSome_getElem?] at hcommitted
        rw [hapart.get?_eq_none hcommitted kind] at hold
        cases hold
      · rw [hnone] at hcommitted
        cases hcommitted

/-- No transaction appears. -/
theorem carries (h : GivesUp heights l l') (hc : l.store.Coherent) (ht : l'.Carries t) :
    l.Carries t := by
  rcases ht with ⟨kind, hpending⟩ | hstored
  · rcases h.pending_cases hc hpending with ⟨hold, -⟩ | ⟨hu, -, -⟩
    · exact Or.inl ⟨kind, hold⟩
    · exact Or.inr hu
  · right
    by_cases hin : ∃ height, heights height ∧ l.store.Lists height t.hash
    · obtain ⟨height, hheight, hlists⟩ := hin
      obtain ⟨-, -, hnone, -⟩ := h.released height t.hash hheight hlists
      rw [(h.reliable hc.reliable).transaction?_eq_none.mpr hnone] at hstored
      cases hstored
    · have hnot := h.stored t.hash fun height hheight hlists => hin ⟨height, hheight, hlists⟩
      rw [Store.transaction?_congr h.failure hnot] at hstored
      exact hstored

end GivesUp

/-! ## 4. Rolling back -/

variable {l l' : Ledger}

/-- Releasing the block at a height takes what it lists out of the store and offers it to the
pools. -/
theorem releaseBlock_of_coherent (hc : l.store.Coherent) (height : UInt64) :
    ∃ (hashes : List Hash) (released : List Transaction),
      (∀ hash, l.store.Lists height hash ↔ hash ∈ hashes) ∧
      (∀ t ∈ released, t.hash ∈ hashes ∧ l.store.transaction? t.hash = .ok (some t)) ∧
      (∀ hash ∈ hashes, ∃ t ∈ released, t.hash = hash) ∧
      l.releaseBlock height =
        (.ok (), { l with
          store := l.store.applyAll (releaseWrites hashes), pools := l.pools.addAll released }) := by
  obtain ⟨found, hfound⟩ := hc.block height
  cases found with
  | none =>
    refine ⟨[], [], fun hash => ?_, by simp, by simp, ?_⟩
    · simp only [Store.Lists, hfound, Except.ok.injEq, reduceCtorEq, false_and, exists_false,
        List.not_mem_nil]
    · simp only [releaseBlock, hfound]
      rfl
  | some b =>
    have hlists (hash : Hash) : l.store.Lists height hash ↔ hash ∈ b.txHashes := by
      constructor
      · rintro ⟨b', hb', hmem⟩
        rw [hfound] at hb'
        cases hb'
        exact hmem
      · exact fun hmem => ⟨b, hfound, hmem⟩
    obtain ⟨txs, hmap, hread⟩ := hc.transactions_of_lists fun hash hmem => (hlists hash).mpr hmem
    have hrelease := releaseTransactions_of_stored hc.reliable hread
    rw [hmap] at hrelease
    refine ⟨b.txHashes, txs.eraseDups, hlists, fun t ht => ?_, fun hash hmem => ?_, ?_⟩
    · have ht' := List.mem_eraseDups.mp ht
      rw [← hmap]
      exact ⟨List.mem_map_of_mem ht', hread t ht'⟩
    · rw [← hmap] at hmem
      obtain ⟨t, ht, hhash⟩ := List.mem_map.mp hmem
      exact ⟨t, List.mem_eraseDups.mpr ht, hhash⟩
    · simp only [releaseBlock, hfound, hrelease]

/-- **Giving up one block.** -/
theorem givesUp_discard (hc : l.store.Coherent) (hapart : l.Apart) (height : UInt64) :
    ∃ store pools, l.discard height = (.ok (), { l with store := store, pools := pools }) ∧
      GivesUp (fun k => k = height) l { l with store := store, pools := pools } := by
  obtain ⟨hashes, released, hlists, hread, hall, hrelease⟩ := releaseBlock_of_coherent hc height
  refine ⟨l.store.applyAll (discardWrites height hashes), l.pools.addAll released, ?_, ?_⟩
  · simp only [discard, hrelease, removeHeight_of_reliable (hc.reliable.applyAll _),
      discardWrites, Store.applyAll_append]
  have hnot {hash : Hash} (hfree : ∀ k, k = height → ¬ l.store.Lists k hash) : hash ∉ hashes :=
    fun hmem => hfree height rfl ((hlists hash).mpr hmem)
  rw [Store.applyAll_discardWrites]
  exact
    { failure := rfl
      gone := by
        rintro k rfl
        exact Std.ExtTreeMap.getElem?_erase_self
      kept := by
        intro k hk
        exact Table.getElem?_erase_of_ne (Ne.symm hk)
      released := by
        rintro k hash rfl hlisted
        have hmem := (hlists hash).mp hlisted
        obtain ⟨t, ht, rfl⟩ := hall hash hmem
        obtain ⟨-, hstored⟩ := hread t ht
        refine ⟨t, hstored, ?_, ?_⟩
        · simp only [Store.getElem?_eraseAll, if_pos hmem]
        · refine Pools.offered_addAll (hapart.not_pending hstored) ht fun u hu hhash => ?_
          obtain ⟨-, hu'⟩ := hread u hu
          rw [hhash, hstored] at hu'
          cases hu'
          rfl
      stored := by
        intro hash hfree
        simp only [Store.getElem?_eraseAll, if_neg (hnot hfree)]
      pending := by
        intro hash hfree kind
        refine Pools.entries_addAll_of_forall (fun t ht hhash => ?_) l.pools
        exact (hnot hfree (hhash ▸ (hread t ht).1)).elim
      bans := fun kind hash => Pools.isBanned_get_addAll kind hash released l.pools
      full := fun kind t hfull => Pools.full_addAll kind released hfull }

/-- **Giving up all blocks above a height**, as far up as a number of them reaches. -/
theorem givesUp_discardAbove (base : UInt64) : ∀ (n : Nat) {l : Ledger}, l.store.Coherent →
    l.Apart → base.toNat + n < UInt64.size → ∃ store pools,
      l.discardAbove base n = (.ok (), { l with store := store, pools := pools }) ∧
        GivesUp (fun k => base < k ∧ k.toNat ≤ base.toNat + n) l
          { l with store := store, pools := pools }
  | 0, l, _, _, _ => by
    refine ⟨l.store, l.pools, rfl, (GivesUp.refl l).congr fun k => ⟨False.elim, ?_⟩⟩
    rintro ⟨hlow, hhigh⟩
    rw [UInt64.lt_iff_toNat_lt] at hlow
    omega
  | n + 1, l, hc, hapart, hsize => by
    have htop := toNat_add_ofNat hsize
    obtain ⟨store, pools, hdiscard, hfirst⟩ :=
      givesUp_discard hc hapart (base + UInt64.ofNat (n + 1))
    obtain ⟨store', pools', habove, hrest⟩ :=
      givesUp_discardAbove base n (hfirst.coherent hc) (hfirst.apart hc hapart) (by omega)
    refine ⟨store', pools', by simp only [discardAbove, hdiscard, habove],
      (hfirst.trans hrest hc).congr fun k => ?_⟩
    simp only [← UInt64.toNat_inj, htop, UInt64.lt_iff_toNat_lt]
    omega

/-- Standing at a block changes no place. -/
theorem GivesUp.standAt {heights : UInt64 → Prop} (h : GivesUp heights l l') (target : Block)
    (height : UInt64) : GivesUp heights l (l'.standAt target height).2 := by
  have hsame {l'' : Ledger} (hpools : l''.pools = l'.pools)
      (hstore : ∃ stored, l''.store = { l'.store with chainHeight := stored }) :
      GivesUp heights l l'' := by
    obtain ⟨stored, hstore⟩ := hstore
    exact
      { failure := by rw [hstore]; exact h.failure
        gone := by rw [hstore]; exact h.gone
        kept := by rw [hstore]; exact h.kept
        released := by rw [hstore, hpools]; exact h.released
        stored := by rw [hstore]; exact h.stored
        pending := by rw [hpools]; exact h.pending
        bans := by rw [hpools]; exact h.bans
        full := by rw [hpools]; exact h.full }
  unfold Ledger.standAt
  split
  · exact h
  · simp only
    split
    · exact hsame rfl ⟨_, rfl⟩
    · rename_i s hput
      obtain rfl := Store.eq_of_perform hput
      split
      · exact hsame rfl ⟨some height, rfl⟩
      · exact hsame rfl ⟨some height, rfl⟩

/-- **What a rollback does to the places**, whatever becomes of it: nothing when there is no block
to go back to, and otherwise it gives up just the blocks above the height. -/
theorem givesUp_rollback (hc : l.store.Coherent) (hapart : l.Apart) (height : UInt64) :
    (l.store.block? height = .ok none → (l.rollback height).2 = l) ∧
      (l.store.block? height ≠ .ok none →
        GivesUp (fun k => height < k ∧ k ≤ l.height) l (l.rollback height).2) := by
  by_cases hle : l.height ≤ height
  · rw [rollback_of_le hle]
    refine ⟨fun _ => rfl, fun _ => (GivesUp.refl l).congr fun k => ?_⟩
    simp only [false_iff, not_and]
    exact fun habove hk => UInt64.lt_irrefl height (UInt64.lt_of_lt_of_le habove
      (UInt64.le_trans hk hle))
  rcases rollback_cases hle with ⟨e, hrequire, hrollback⟩ | ⟨target, hrequire, hrest⟩
  · refine ⟨fun _ => by rw [hrollback], fun hsome => ?_⟩
    obtain ⟨found, hfound⟩ := hc.block height
    cases found with
    | none => exact absurd hfound hsome
    | some b =>
      simp only [requireBlock, hfound] at hrequire
      cases hrequire
  · have hlow : height.toNat < l.height.toNat := by
      rw [UInt64.le_iff_toNat_le] at hle
      omega
    have hlt : l.height.toNat < UInt64.size := l.height.toNat_lt
    obtain ⟨store, pools, hdiscard, hgives⟩ :=
      givesUp_discardAbove height (l.height.toNat - height.toNat) hc hapart (by omega)
    have hheights (k : UInt64) :
        height < k ∧ k.toNat ≤ height.toNat + (l.height.toNat - height.toNat) ↔
          height < k ∧ k ≤ l.height := by
      refine and_congr_right fun _ => ?_
      rw [UInt64.le_iff_toNat_le]
      omega
    refine ⟨fun hnone => ?_, fun _ => ?_⟩
    · simp only [requireBlock, hnone] at hrequire
      cases hrequire
    · rcases hrest with ⟨e, l', hstop, -⟩ | ⟨l', hend, hrollback⟩
      · rw [hdiscard] at hstop
        cases hstop
      · rw [hdiscard] at hend
        cases hend
        rw [hrollback]
        exact (hgives.congr hheights).standAt target height

end Ledger

end SynergyNode
