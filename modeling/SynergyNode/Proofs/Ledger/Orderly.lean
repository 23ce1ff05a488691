import Mathlib.Logic.Relation
import SynergyNode.Proofs.Ledger.Places

/-!
# Ledgers that stay orderly

A ledger is orderly when its store is coherent, no transaction is in two places and each that it has
can be stored and read again.  What a node does to its ledger keeps it so: blocks and transactions
come in within the limit of what can be read, a transaction comes in only when it is nowhere, and
otherwise the pools only lose.

* `moves_commit`: a commit moves just the transactions that its block lists;
* `Event.Regular`, `Leads`: the events of a node, and the ledgers to which they lead;
* `Orderly.after`, `Orderly.leads`: one event and any number of them keep a ledger orderly;
* `exists_admits`: a transaction that the ledger has and did not have at first came in on the way.
-/

namespace SynergyNode

namespace Ledger

variable {l l' : Ledger} {b : Block} {t : Transaction}

/-- A coherent store, nothing in two places, and nothing that could not be stored and read again. -/
structure Orderly (l : Ledger) : Prop where
  coherent : l.store.Coherent
  apart : l.Apart
  short : ∀ t, l.Carries t → t.toBytes.length ≤ Protocol.maxMessageBytes

/-- **A ledger without pending transactions is orderly when its store is coherent.** -/
theorem Orderly.of_vacant (hc : l.store.Coherent) (hpools : l.pools.Vacant) : l.Orderly where
  coherent := hc
  apart := apart_of hpools.apart fun hash kind _ => hpools kind hash
  short t ht := by
    rcases ht with ⟨kind, hpending⟩ | hstored
    · rw [hpools] at hpending
      cases hpending
    · obtain ⟨x, -, hread⟩ := hc.reliable.transaction?_eq_some.mp hstored
      exact Transaction.length_of_ofBytes hread

theorem Orderly.congr (h : l.Orderly) (hstore : l'.store = l.store) (hpools : l'.pools = l.pools) :
    l'.Orderly := by
  have hat (hash : Hash) (p : Place) : l'.At hash p ↔ l.At hash p := by
    cases p <;> simp only [At, hstore, hpools]
  have hcarries (t : Transaction) : l'.Carries t ↔ l.Carries t := by
    simp only [Carries, hstore, hpools]
  exact
    { coherent := hstore ▸ h.coherent
      apart := fun hash p q hp hq => h.apart hash p q ((hat hash p).mp hp) ((hat hash q).mp hq)
      short := fun t ht => h.short t ((hcarries t).mp ht) }

/-- Pools that only lose transactions. -/
theorem Orderly.sheds (h : l.Orderly) {pools : Pools} (hsheds : l.pools.Sheds pools) :
    Orderly { l with pools := pools } where
  coherent := h.coherent
  apart := by
    refine apart_of (h.apart.pools.sheds hsheds) ?_
    intro hash kind hcommitted
    exact (hsheds kind).get?_eq_none (h.apart.get?_eq_none hcommitted kind)
  short := by
    rintro t (⟨kind, hpending⟩ | hstored)
    · exact h.short t (Or.inl ⟨kind, (hsheds kind).get? hpending⟩)
    · exact h.short t (Or.inr hstored)

/-! ## 1. Commits -/

/-- The transactions with these hashes went from the pools to the store, and no other moved. -/
structure Moves (hashes : List Hash) (l l' : Ledger) : Prop where
  moved : ∀ hash ∈ hashes, ∃ kind t, (l.pools.get kind).get? hash = some t ∧
    l.store.transaction? hash = .ok none ∧ l'.store.transaction? hash = .ok (some t) ∧
      ∀ kind, (l'.pools.get kind).get? hash = none
  stored : ∀ hash ∉ hashes, l'.store.transactions[hash]? = l.store.transactions[hash]?
  pending : ∀ hash ∉ hashes, ∀ kind,
    (l'.pools.get kind).entries[hash]? = (l.pools.get kind).entries[hash]?

/-- Nothing moves when pools and store stay. -/
theorem moves_nil (hpools : l'.pools = l.pools) (hstore : l'.store = l.store) : Moves [] l l' where
  moved _ h := by cases h
  stored _ _ := by rw [hstore]
  pending _ _ _ := by rw [hpools]

namespace Moves

variable {hashes : List Hash}

theorem get?_eq (h : Moves hashes l l') {hash : Hash} (hnot : hash ∉ hashes) (kind : PoolKind) :
    (l'.pools.get kind).get? hash = (l.pools.get kind).get? hash := by
  rw [Pool.get?, Pool.get?, h.pending hash hnot]

theorem apart (h : Moves hashes l l') (hapart : l.Apart) : l'.Apart := by
  refine apart_of (fun hash k k' hk hk' => ?_) fun hash kind hcommitted => ?_
  · by_cases hin : hash ∈ hashes
    · obtain ⟨_, _, -, -, -, hnone⟩ := h.moved hash hin
      rw [Pool.contains_eq, hnone] at hk
      cases hk
    · rw [Pool.contains_eq, h.get?_eq hin, ← Pool.contains_eq] at hk hk'
      exact hapart.pools hash k k' hk hk'
  · by_cases hin : hash ∈ hashes
    · obtain ⟨_, _, -, -, -, hnone⟩ := h.moved hash hin
      exact hnone kind
    · rw [Std.ExtTreeMap.contains_eq_isSome_getElem?, h.stored hash hin,
        ← Std.ExtTreeMap.contains_eq_isSome_getElem?] at hcommitted
      rw [h.get?_eq hin]
      exact hapart.get?_eq_none hcommitted kind

/-- No transaction appears. -/
theorem carries (h : Moves hashes l l') (hfailure : l'.store.failure = l.store.failure)
    (ht : l'.Carries t) : l.Carries t := by
  by_cases hin : t.hash ∈ hashes
  · obtain ⟨kind, u, hu, -, hstored, hnone⟩ := h.moved t.hash hin
    rcases ht with ⟨kind', hpending⟩ | hread
    · rw [hnone] at hpending
      cases hpending
    · rw [hstored] at hread
      cases hread
      exact Or.inl ⟨kind, hu⟩
  · rcases ht with ⟨kind, hpending⟩ | hread
    · rw [h.get?_eq hin] at hpending
      exact Or.inl ⟨kind, hpending⟩
    · rw [Store.transaction?_congr hfailure (h.stored t.hash hin)] at hread
      exact Or.inr hread

end Moves

variable [SignatureSuite]

/-- What a block lists that is committed moves. -/
theorem moves_committed {txs : List Transaction} {accounts : Accounts} (h : l.Orderly)
    (haccepts : l.Accepts b txs accounts) (voting : Voting) :
    Moves b.txHashes l (committed { l with voting := voting } b txs accounts) := by
  obtain ⟨hcollect, -, -⟩ := execute_eq_ok.mp haccepts.executed
  obtain ⟨hmap, hpending⟩ := collectTransactions_eq_ok hcollect
  have hs := h.coherent.reliable
  have hs' : (committed { l with voting := voting } b txs accounts).store.Reliable :=
    hs.applyAll _
  rw [← hmap]
  constructor
  · intro hash hmem
    obtain ⟨t, ht, rfl⟩ := List.mem_map.mp hmem
    obtain ⟨hfind, hnew⟩ := hpending t ht
    obtain ⟨kind, hget⟩ := Pools.exists_of_find? hfind
    refine ⟨kind, t, hget, ?_, ?_, fun kind => ?_⟩
    · rw [hs.hasTransaction, Std.ExtTreeMap.contains_eq_isSome_getElem?] at hnew
      exact hs.transaction?_eq_none.mpr
        (Option.isNone_iff_eq_none.mp (Option.isSome_eq_false_iff.mp (Except.ok.inj hnew)))
    · refine hs'.transaction?_of_stored ?_ (h.short t (Or.inl ⟨kind, hget⟩))
      rw [transactions_committed]
      exact Store.getElem?_putTransactions_of_mem _ ht fun u hu => eq_of_hash_eq hcollect ht hu
    · exact Pool.get?_eq_none.mpr (h.apart.pools.entries_removeAll hmem kind)
  · intro hash hnot
    rw [transactions_committed]
    exact Store.getElem?_putTransactions_of_not_mem _ hnot
  · intro hash hnot kind
    exact Pools.entries_removeAll_of_not_mem hnot kind

/-- **A commit moves just the transactions that its block lists**, from the pools to the store; one
that is refused moves none. -/
theorem moves_commit (h : l.Orderly) (b : Block) (origin : BlockOrigin) :
    (∀ report, (l.commit b origin).1 = .ok report → Moves b.txHashes l (l.commit b origin).2) ∧
      ∀ e, (l.commit b origin).1 = .error e → Moves [] l (l.commit b origin).2 := by
  rcases commit_cases h.coherent.reliable b origin with
    ⟨e, looked, hcommit⟩ | ⟨txs, accounts, looked, haccepts, hcommit⟩
  · rw [hcommit]
    constructor
    · intro report hok
      cases hok
    · intro _ _
      exact moves_nil rfl rfl
  · rw [hcommit]
    constructor
    · intro _ _
      exact moves_committed h haccepts _
    · intro e herror
      cases herror

/-- What is listed behind a commit is listed by its block, or was listed before and is not listed by
the block: what a block lists was not stored, and what was listed was. -/
theorem lists_committed {txs : List Transaction} {accounts : Accounts} {height : UInt64}
    {hash : Hash} (h : l.Orderly) (haccepts : l.Accepts b txs accounts)
    (hb : b.toBytes.length ≤ Protocol.maxMessageBytes) (voting : Voting)
    (hlisted : (committed { l with voting := voting } b txs accounts).store.Lists height hash) :
    height = b.height ∧ hash ∈ b.txHashes ∨ hash ∉ b.txHashes ∧ l.store.Lists height hash := by
  by_cases hheight : height = b.height
  · left
    obtain ⟨b', hb', hmem⟩ := hlisted
    rw [hheight, block?_committed_self (l := { l with voting := voting }) h.coherent.reliable hb]
      at hb'
    cases hb'
    exact ⟨hheight, hmem⟩
  · right
    have hold : l.store.Lists height hash :=
      (Store.Lists.congr (Store.failure_applyAll _ _)
        (getElem?_blocks_committed_of_ne hheight)).mp hlisted
    refine ⟨fun hmem => ?_, hold⟩
    obtain ⟨u, hu⟩ := h.coherent.listed height hash hold
    obtain ⟨-, -, -, hnone, -, -⟩ := (moves_committed h haccepts voting).moved hash hmem
    rw [hu] at hnone
    cases hnone

/-- Storing a block together with what it lists keeps a store coherent, when nothing of it was
stored before. -/
theorem coherent_committed {txs : List Transaction} {accounts : Accounts} (h : l.Orderly)
    (haccepts : l.Accepts b txs accounts) (hb : b.toBytes.length ≤ Protocol.maxMessageBytes)
    (voting : Voting) :
    (committed { l with voting := voting } b txs accounts).store.Coherent := by
  have hmoves := moves_committed h haccepts voting
  have hfailure : (committed { l with voting := voting } b txs accounts).store.failure =
      l.store.failure := Store.failure_applyAll _ _
  constructor
  case reliable => exact h.coherent.reliable.applyAll _
  case block =>
    intro height
    by_cases hheight : height = b.height
    · exact ⟨some b, hheight ▸ block?_committed_self h.coherent.reliable hb⟩
    · rw [Store.block?_congr hfailure (getElem?_blocks_committed_of_ne hheight)]
      exact h.coherent.block height
  case transaction =>
    intro hash
    by_cases hmem : hash ∈ b.txHashes
    · obtain ⟨_, t, hpending, -, hstored, -⟩ := hmoves.moved hash hmem
      refine ⟨some t, hstored, fun u hu => ?_⟩
      cases hu
      exact Pool.hash_of_get? hpending
    · rw [Store.transaction?_congr hfailure (hmoves.stored hash hmem)]
      exact h.coherent.transaction hash
  case listed =>
    intro height hash hlisted
    rcases lists_committed h haccepts hb voting hlisted with ⟨-, hmem⟩ | ⟨hnot, hold⟩
    · obtain ⟨_, t, -, -, hstored, -⟩ := hmoves.moved hash hmem
      exact ⟨t, hstored⟩
    · rw [Store.transaction?_congr hfailure (hmoves.stored hash hnot)]
      exact h.coherent.listed height hash hold
  case once =>
    intro height height' hash hlisted hlisted'
    rcases lists_committed h haccepts hb voting hlisted with ⟨rfl, hmem⟩ | ⟨hnot, hold⟩ <;>
      rcases lists_committed h haccepts hb voting hlisted' with ⟨rfl, hmem'⟩ | ⟨hnot', hold'⟩
    · rfl
    · exact absurd hmem hnot'
    · exact absurd hmem' hnot
    · exact h.coherent.once height height' hash hold hold'

/-! ## 2. The events of a node -/

/-- A transaction may come in: it is valid now, is neither pending nor committed, and can be stored
and read again. -/
structure Admits (l : Ledger) (t : Transaction) : Prop where
  verified : t.verify l.schemes = .ok ()
  short : t.toBytes.length ≤ Protocol.maxMessageBytes
  fresh : l.pools.contains t.hash = false
  unstored : l.store.transactions.contains t.hash = false

/-- What messages and the clock do to the ledger of a node: blocks come in that can be read again,
and the pools lose transactions or are given one that may come in. -/
def Event.Regular (l : Ledger) : Event → Prop
  | commit b _ => b.toBytes.length ≤ Protocol.maxMessageBytes
  | rollback _ => True
  | surroundings pools _ _ _ =>
    l.pools.Sheds pools ∨ ∃ t, l.Admits t ∧ pools = (l.pools.add t).2

/-- Pools that are given a transaction that is nowhere yet. -/
theorem Orderly.admits (h : l.Orderly) (ht : l.Admits t) :
    Orderly { l with pools := (l.pools.add t).2 } where
  coherent := h.coherent
  apart := by
    refine apart_of (h.apart.pools.add ht.fresh) ?_
    intro hash kind hcommitted
    by_cases hhash : t.hash = hash
    · subst hhash
      rw [ht.unstored] at hcommitted
      cases hcommitted
    · rw [Pools.get?_add_of_ne hhash]
      exact h.apart.get?_eq_none hcommitted kind
  short := by
    rintro u (⟨kind, hpending⟩ | hstored)
    · rcases Pools.get?_add_cases hpending with hold | rfl
      · exact h.short u (Or.inl ⟨kind, hold⟩)
      · exact ht.short
    · exact h.short u (Or.inr hstored)

/-- **Every event of a node keeps its ledger orderly.** -/
theorem Orderly.after (h : l.Orderly) (e : Event) (he : e.Regular l) : (e.after l).Orderly := by
  cases e with
  | commit b origin =>
    rcases commit_cases h.coherent.reliable b origin with
      ⟨e, looked, hcommit⟩ | ⟨txs, accounts, looked, haccepts, hcommit⟩
    · simp only [Event.after, hcommit]
      exact h.congr rfl rfl
    · have hmoves := moves_committed h haccepts (l.voting.look looked b.height)
      simp only [Event.after, hcommit]
      exact
        { coherent := coherent_committed h haccepts he _
          apart := hmoves.apart h.apart
          short := fun t ht => h.short t (hmoves.carries (Store.failure_applyAll _ _) ht) }
  | rollback height =>
    obtain ⟨hnone, hgives⟩ := givesUp_rollback h.coherent h.apart height
    by_cases hblock : l.store.block? height = .ok none
    · rw [Event.after, hnone hblock]
      exact h
    · have hgives := hgives hblock
      exact
        { coherent := hgives.coherent h.coherent
          apart := hgives.apart h.coherent h.apart
          short := fun t ht => h.short t (hgives.carries h.coherent ht) }
  | surroundings pools voting stats syncing =>
    rcases he with hsheds | ⟨t, ht, rfl⟩
    · exact (h.sheds hsheds).congr rfl rfl
    · exact (h.admits ht).congr rfl rfl

/-- **A transaction that a ledger has after an event it had before, or it came in.** -/
theorem Orderly.carries_after (h : l.Orderly) (e : Event) (he : e.Regular l)
    (ht : (e.after l).Carries t) : l.Carries t ∨ l.Admits t := by
  cases e with
  | commit b origin =>
    left
    rcases commit_cases h.coherent.reliable b origin with
      ⟨e, looked, hcommit⟩ | ⟨txs, accounts, looked, haccepts, hcommit⟩
    · simp only [Event.after, hcommit] at ht
      exact ht
    · simp only [Event.after, hcommit] at ht
      exact (moves_committed h haccepts _).carries (Store.failure_applyAll _ _) ht
  | rollback height =>
    left
    obtain ⟨hnone, hgives⟩ := givesUp_rollback h.coherent h.apart height
    by_cases hblock : l.store.block? height = .ok none
    · rw [Event.after, hnone hblock] at ht
      exact ht
    · exact (hgives hblock).carries h.coherent ht
  | surroundings pools voting stats syncing =>
    rcases ht with ⟨kind, hpending⟩ | hstored
    · rcases he with hsheds | ⟨u, hu, rfl⟩
      · exact Or.inl (Or.inl ⟨kind, (hsheds kind).get? hpending⟩)
      · rcases Pools.get?_add_cases hpending with hold | rfl
        · exact Or.inl (Or.inl ⟨kind, hold⟩)
        · exact Or.inr hu
    · exact Or.inl (Or.inr hstored)

/-! ## 3. Any number of events -/

/-- One regular event leads from the one ledger to the other. -/
def Step (l l' : Ledger) : Prop := ∃ e : Event, e.Regular l ∧ l' = e.after l

/-- Regular events lead from the one ledger to the other. -/
def Leads : Ledger → Ledger → Prop := Relation.ReflTransGen Step

theorem Leads.refl (l : Ledger) : Leads l l := Relation.ReflTransGen.refl

theorem Leads.trans {l₁ : Ledger} (h : Leads l l₁) (h' : Leads l₁ l') : Leads l l' :=
  Relation.ReflTransGen.trans h h'

theorem leads_commit (hb : b.toBytes.length ≤ Protocol.maxMessageBytes) (origin : BlockOrigin) :
    Leads l (l.commit b origin).2 :=
  .single ⟨.commit b origin, hb, rfl⟩

theorem leads_rollback (l : Ledger) (height : UInt64) : Leads l (l.rollback height).2 :=
  .single ⟨.rollback height, trivial, rfl⟩

theorem leads_sheds {pools : Pools} (h : l.pools.Sheds pools) (voting : Voting) (syncing : Bool) :
    Leads l { l with pools := pools, voting := voting, syncing := syncing } :=
  .single ⟨.surroundings pools voting l.stats syncing, Or.inl h, rfl⟩

theorem leads_admits (h : l.Admits t) : Leads l { l with pools := (l.pools.add t).2 } :=
  .single ⟨.surroundings _ l.voting l.stats l.syncing, Or.inr ⟨t, h, rfl⟩, rfl⟩

/-- Raising or lowering the flag that a batch is being taken. -/
theorem leads_setSyncing (l : Ledger) (flag : Bool) : Leads l { l with syncing := flag } :=
  leads_sheds (Pools.Sheds.refl l.pools) l.voting flag

/-- **Orderly ledgers lead to orderly ledgers.** -/
theorem Orderly.leads (h : l.Orderly) (hleads : Leads l l') : l'.Orderly := by
  induction hleads with
  | refl => exact h
  | tail _ hstep ih =>
    obtain ⟨e, he, rfl⟩ := hstep
    exact ih.after e he

/-- **Whatever a ledger has, it had at first or it came in on the way.** -/
theorem Orderly.exists_admits (h : l.Orderly) (hleads : Leads l l') (ht : l'.Carries t) :
    l.Carries t ∨ ∃ l₁, Leads l l₁ ∧ Leads l₁ l' ∧ l₁.Admits t := by
  induction hleads with
  | refl => exact Or.inl ht
  | tail hbefore hstep ih =>
    have horderly := h.leads hbefore
    obtain ⟨e, he, rfl⟩ := hstep
    rcases horderly.carries_after e he ht with hold | hadmits
    · rcases ih hold with hfirst | ⟨l₁, hto, hfrom, hadmits⟩
      · exact Or.inl hfirst
      · exact Or.inr ⟨l₁, hto, hfrom.tail ⟨e, he, rfl⟩, hadmits⟩
    · exact Or.inr ⟨_, hbefore, .single ⟨e, he, rfl⟩, hadmits⟩

end Ledger

end SynergyNode
