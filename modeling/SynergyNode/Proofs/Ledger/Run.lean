import SynergyNode.Proofs.Accounts
import SynergyNode.Proofs.Ledger.Rollback

/-!
# Runs of a ledger

A run starts with a ledger opened on an empty store and goes on in steps: a block is committed
or refused, blocks are given up, or something around the chain changes (pools, votes, figures).
Next to the ledger stands the history of what was committed and not given up again.

* `Follows` holds along every run (`Run.follows`): accounts, last block, height and schemes are
  those of the history, and the store holds no block or snapshot that is not the history's;
* `Keeps` holds along every run whose rollbacks get to their end (`Run.keeps`): the store is
  exactly the store of the history;
* `Run.completes`: rollbacks get to their end when whatever is committed can be decoded again;
* `Sample.run_block`: a run with one block, which lists a transfer up to twice.
-/

namespace SynergyNode.Ledger

open History

/-! ## 1. Steps and runs -/

/-- Something that happens to a ledger. -/
inductive Event where
  | commit (block : Block) (origin : BlockOrigin)
  | rollback (height : UInt64)
  /-- Pending transactions, votes or figures change, or a batch begins or ends. -/
  | surroundings (pools : Pools) (voting : Voting) (stats : ChainStats) (syncing : Bool)

section

variable [SignatureSuite]

namespace Event

/-- The ledger after an event. -/
def after (l : Ledger) : Event → Ledger
  | commit b origin => (l.commit b origin).2
  | rollback height => (l.rollback height).2
  | surroundings pools voting stats syncing =>
    { l with pools := pools, voting := voting, stats := stats, syncing := syncing }

/-- The history after an event: a committed block is put on top with its transactions and the
accounts that the ledger then has, and a rollback that gets to its end cuts back to its height. -/
def record (l : Ledger) (c : History) : Event → History
  | commit b origin =>
    match l.commit b origin, l.collectTransactions b with
    | (.ok _, l'), .ok txs => ⟨b, txs, l'.accounts⟩ :: c
    | _, _ => c
  | rollback height =>
    match (l.rollback height).1 with
    | .ok () => c.cut height.toNat
    | .error _ => c
  | surroundings _ _ _ _ => c

/-- A block is only offered as long as the next height fits in a word. -/
def Possible (l : Ledger) : Event → Prop
  | commit _ _ => l.lastBlock.height ≠ Word64.max
  | rollback _ => True
  | surroundings _ _ _ _ => True

/-- No condition. -/
def Any (_ : Ledger) (_ : Event) : Prop := True

/-- A rollback gets to its end. -/
def Completes (l : Ledger) : Event → Prop
  | commit _ _ => True
  | rollback height => (l.rollback height).1 = .ok ()
  | surroundings _ _ _ _ => True

/-- What a commit stores can be decoded again. -/
def Fits (l : Ledger) : Event → Prop
  | commit b _ => ∀ txs accounts, l.Accepts b txs accounts → Entry.Fits ⟨b, txs, accounts⟩
  | rollback _ => True
  | surroundings _ _ _ _ => True

theorem record_commit {l l' : Ledger} {c : History} {b : Block} {origin : BlockOrigin}
    {report : CommitReport} {txs : List Transaction}
    (hcommit : l.commit b origin = (.ok report, l'))
    (hcollect : l.collectTransactions b = .ok txs) :
    (commit b origin).record l c = ⟨b, txs, l'.accounts⟩ :: c := by
  simp only [record, hcommit, hcollect]

end Event

/-- The ledgers, each with its history, that are reached from given accounts by events of which
all are allowed. -/
inductive Run (allowed : Ledger → Event → Prop) (start : Accounts) : Ledger → History → Prop where
  | opened {stats : ChainStats} {voting : Voting} {pools : Pools} {minStake : UInt64} {l : Ledger}
      (h : openOn Store.empty start stats voting pools minStake = .ok l) :
      Run allowed start l []
  | step {l : Ledger} {c : History} (e : Event) (run : Run allowed start l c)
      (possible : e.Possible l) (ok : allowed l e) :
      Run allowed start (e.after l) (e.record l c)

variable {start : Accounts} {l : Ledger} {c : History}

theorem Run.mono {allowed allowed' : Ledger → Event → Prop}
    (h : ∀ l e, allowed l e → allowed' l e) (run : Run allowed start l c) :
    Run allowed' start l c := by
  induction run with
  | opened hopen => exact .opened hopen
  | step e _ possible ok ih => exact .step e ih possible (h _ e ok)

/-- A run goes on with a block that the ledger commits. -/
theorem Run.commit {allowed : Ledger → Event → Prop} {l' : Ledger} {b : Block}
    {origin : BlockOrigin} {report : CommitReport} {txs : List Transaction}
    (run : Run allowed start l c) (hcommit : l.commit b origin = (.ok report, l'))
    (hcollect : l.collectTransactions b = .ok txs) (possible : l.lastBlock.height ≠ Word64.max)
    (ok : allowed l (.commit b origin)) : Run allowed start l' (⟨b, txs, l'.accounts⟩ :: c) := by
  have hstep := run.step (.commit b origin) possible ok
  have hafter : (Event.commit b origin).after l = l' := congrArg Prod.snd hcommit
  rw [hafter, Event.record_commit hcommit hcollect] at hstep
  exact hstep

/-- A run goes on when the flag is raised or lowered that a batch is being committed. -/
theorem Run.setSyncing {allowed : Ledger → Event → Prop} (run : Run allowed start l c)
    (flag : Bool) (ok : allowed l (.surroundings l.pools l.voting l.stats flag)) :
    Run allowed start { l with syncing := flag } c :=
  run.step (.surroundings l.pools l.voting l.stats flag) trivial ok

end

/-! ## 2. What holds along every run -/

section

/-- At every height, nothing is stored, or block and snapshot of the history are. -/
def Within (start : Accounts) (c : History) (s : Store) : Prop :=
  ∀ k : UInt64,
    (s.blocks[k]? = none ∧ s.snapshots[k]? = none) ∨
      (k.toNat ≤ c.length ∧ s.blocks[k]? = some (c.cut k.toNat).tip.toBytes ∧
        s.snapshots[k]? = some ((c.cut k.toNat).accounts start).toBytes)

/-- The ledger stands where the history does. -/
structure Follows (start : Accounts) (l : Ledger) (c : History) : Prop where
  reliable : l.store.Reliable
  sound : c.Sound start
  last : l.lastBlock = c.tip
  height : l.height = c.tip.height
  accounts : l.accounts = c.accounts start
  schemes : declaredSchemes c.tip.header = .ok l.schemes
  within : Within start c l.store

variable {start : Accounts} {l : Ledger} {c : History}

theorem within_ofHistory (hc : c.Sound start) : Within start c (Store.ofHistory start c) := by
  intro k
  rw [Store.blocks_ofHistory hc, Store.snapshots_ofHistory hc]
  by_cases hk : k.toNat ≤ c.length
  · right
    simp only [if_pos hk, and_true]
    exact hk
  · left
    simp only [if_neg hk, true_and]

theorem Within.recedes {base : UInt64} {s s' : Store} (h : Within start c s)
    (hs : s.Recedes base s') : Within start c s' := by
  intro k
  rcases hs.heights k with ⟨-, gone⟩ | ⟨hb, hsnap⟩
  · exact Or.inl gone
  · rw [hb, hsnap]
    exact h k

namespace Follows

theorem length (h : Follows start l c) : c.length = l.height.toNat := by
  rw [h.height, h.sound.tip_height]

theorem length_lt (h : Follows start l c) : c.length < UInt64.size := by
  rw [h.length]
  exact l.height.toNat_lt

theorem toNat_le (h : Follows start l c) {k : UInt64} :
    k ≤ l.height ↔ k.toNat ≤ c.length := by
  rw [UInt64.le_iff_toNat_le, h.length]

/-- Nothing that the ledger stands on changes with its pools, votes, figures and flag, or when
its store recedes. -/
theorem recedes (h : Follows start l c) {base : UInt64} {s : Store}
    (hs : l.store.Recedes base s) (pools : Pools) (voting : Voting) (stats : ChainStats)
    (syncing : Bool) :
    Follows start
      { l with
        store := s, pools := pools, voting := voting, stats := stats, syncing := syncing } c where
  reliable op := by rw [hs.failure]; exact h.reliable op
  sound := h.sound
  last := h.last
  height := h.height
  accounts := h.accounts
  schemes := h.schemes
  within := h.within.recedes hs

theorem opened {stats : ChainStats} {voting : Voting} {pools : Pools} {minStake : UInt64}
    (h : openOn Store.empty start stats voting pools minStake = .ok l) :
    Follows start l [] ∧ l.store = Store.ofHistory start [] := by
  have hstart : startChain Store.empty start =
      .ok (Store.ofHistory start [], start, Block.genesis) := rfl
  have hheight : Store.empty.height? = .ok none := rfl
  simp only [openOn, hheight, Option.elim_none, hstart, declaredSchemes_genesis] at h
  cases h
  refine ⟨?_, rfl⟩
  exact
    { reliable := Store.reliable_ofHistory start []
      sound := trivial
      last := rfl
      height := rfl
      accounts := rfl
      schemes := declaredSchemes_genesis
      within := @within_ofHistory start [] trivial }

/-- An accepted block becomes the entry on top. -/
theorem committed [SignatureSuite] (h : Follows start l c) {b : Block} {txs : List Transaction}
    {accounts : Accounts} (haccepts : l.Accepts b txs accounts)
    (hheight : l.lastBlock.height ≠ Word64.max) (voting : Voting) :
    Follows start (Ledger.committed { l with voting := voting } b txs accounts)
      (⟨b, txs, accounts⟩ :: c) := by
  have hextends := haccepts.extends h.sound h.last h.accounts hheight
  have hnext : b.height.toNat = c.length + 1 := hextends.height
  obtain ⟨declared, hdeclared⟩ := hextends.schemes
  refine
    { reliable := h.reliable.applyAll _
      sound := ⟨hextends, h.sound⟩
      last := rfl
      height := rfl
      accounts := rfl
      schemes := ?_
      within := ?_ }
  · have hschemes : (takeUpSchemes b.header (b.changedSlots l.lastBlock) l.schemes).2 = declared :=
      takeUpSchemes_changedSlots (by rw [h.last]; exact h.schemes) hdeclared
    exact hdeclared.trans (congrArg Except.ok hschemes.symm)
  · intro k
    rw [Ledger.blocks_committed, Ledger.snapshots_committed, List.length_cons]
    by_cases heq : b.height = k
    · subst heq
      have hcut : History.cut (⟨b, txs, accounts⟩ :: c) b.height.toNat = ⟨b, txs, accounts⟩ :: c :=
        cut_of_length_le (Nat.le_of_eq hnext.symm)
      rw [Std.ExtTreeMap.getElem?_insert_self, Std.ExtTreeMap.getElem?_insert_self, hcut]
      exact Or.inr ⟨Nat.le_of_eq hnext, rfl, rfl⟩
    · rw [Table.getElem?_insert_of_ne heq, Table.getElem?_insert_of_ne heq]
      rcases h.within k with gone | ⟨hk, hb, hs⟩
      · exact Or.inl gone
      · rw [cut_cons_of_le hk]
        exact Or.inr ⟨Nat.le_succ_of_le hk, hb, hs⟩

/-- The block to go back to is the one that the history has at the height. -/
theorem requireBlock_eq_ok (h : Follows start l c) {height : UInt64} {target : Block}
    (hrequire : requireBlock l.store height = .ok target) :
    target = (c.cut height.toNat).tip ∧ height.toNat ≤ c.length ∧
      l.store.snapshots[height]? = some ((c.cut height.toNat).accounts start).toBytes := by
  obtain ⟨x, hx, hread⟩ := Ledger.requireBlock_eq_ok h.reliable hrequire
  rcases h.within height with ⟨hnone, -⟩ | ⟨hk, hblock, hsnapshot⟩
  · rw [hnone] at hx
    cases hx
  · rw [hblock] at hx
    cases hx
    exact ⟨Block.eq_of_ofBytes_toBytes hread, hk, hsnapshot⟩

/-- The ledger that went back to a block whose successors are gone stands where the history did
at its height. -/
theorem stoodAt (h : Follows start l c) {height : UInt64} (hheight : height.toNat ≤ c.length)
    (hgone : ∀ k : UInt64, height < k → k.toNat ≤ c.length →
      l.store.blocks[k]? = none ∧ l.store.snapshots[k]? = none)
    {declared : LiveSchemes}
    (hdeclared : declaredSchemes (c.cut height.toNat).tip.header = .ok declared) :
    Follows start
      (l.stoodAt (c.cut height.toNat).tip height ((c.cut height.toNat).accounts start) declared)
      (c.cut height.toNat) where
  reliable := h.reliable.applyAll _
  sound := h.sound.cut _
  last := rfl
  height := by
    apply UInt64.toNat_inj.mp
    rw [(h.sound.cut _).tip_height, length_cut hheight]
    rfl
  accounts := rfl
  schemes := hdeclared
  within k := by
    rw [length_cut hheight]
    by_cases hk : k.toNat ≤ height.toNat
    · rw [cut_cut hk hheight]
      rcases h.within k with gone | ⟨-, hb, hs⟩
      · exact Or.inl gone
      · exact Or.inr ⟨hk, hb, hs⟩
    · left
      have habove : height < k := by
        rw [UInt64.lt_iff_toNat_lt]
        omega
      rcases h.within k with gone | ⟨hle, -, -⟩
      · exact gone
      · exact hgone k habove hle

/-- A rollback that gets to its end leaves the ledger standing where the history did at the
height; one that stops on the way leaves it where it was. -/
theorem rollback (h : Follows start l c) (height : UInt64) :
    (l.rollback height).1 = .ok () ∧
        Follows start (l.rollback height).2 (c.cut height.toNat) ∨
      (∃ e, (l.rollback height).1 = .error e) ∧ Follows start (l.rollback height).2 c := by
  by_cases hle : l.height ≤ height
  · rw [rollback_of_le hle, cut_of_length_le (by rw [h.length]; exact hle)]
    exact Or.inl ⟨rfl, h⟩
  have hlow : height.toNat < l.height.toNat := by
    rw [UInt64.le_iff_toNat_le] at hle
    omega
  rcases rollback_cases hle with ⟨e, -, hrollback⟩ | ⟨target, hrequire, hrest⟩
  · rw [hrollback]
    exact Or.inr ⟨⟨e, rfl⟩, h⟩
  obtain ⟨htarget, hk, hsnapshot⟩ := h.requireBlock_eq_ok hrequire
  have hsize : height.toNat + (l.height.toNat - height.toNat) < UInt64.size := by
    have : l.height.toNat < UInt64.size := l.height.toNat_lt
    omega
  obtain ⟨result, store, pools, hdiscard, hrecedes, hgone⟩ :=
    discardAbove_recedes height (l.height.toNat - height.toNat) h.reliable hsize
  have hfollows := h.recedes hrecedes pools l.voting l.stats l.syncing
  rcases hrest with ⟨e, l', hstop, hrollback⟩ | ⟨l', hend, hrollback⟩
  · rw [hdiscard] at hstop
    cases hstop
    rw [hrollback]
    exact Or.inr ⟨⟨e, rfl⟩, hfollows⟩
  · rw [hdiscard] at hend
    cases hend
    obtain ⟨declared, hdeclared⟩ := (h.sound.cut height.toNat).schemes
    have hkept : store.snapshots[height]? = some ((c.cut height.toNat).accounts start).toBytes := by
      rcases hrecedes.heights height with ⟨habove, -⟩ | ⟨-, hs⟩
      · exact absurd habove (UInt64.lt_irrefl height)
      · rw [hs, hsnapshot]
    rw [hrollback, htarget]
    rcases standAt_cases hfollows.reliable hkept hdeclared with hstand | ⟨⟨e, hstand⟩, -⟩
    · rw [hstand]
      refine Or.inl ⟨rfl, hfollows.stoodAt hk ?_ hdeclared⟩
      intro k habove hle
      refine hgone rfl k habove ?_
      rw [h.length] at hle
      omega
    · rw [hstand]
      exact Or.inr ⟨⟨e, rfl⟩, hfollows⟩

end Follows

/-! ## 3. What holds when rollbacks get to their end -/

/-- The store is the store of the history, and no transaction is listed by two blocks. -/
structure Keeps (start : Accounts) (l : Ledger) (c : History) : Prop where
  store : l.store = Store.ofHistory start c
  fresh : c.Fresh

namespace Keeps

/-- The writes of an accepted block make the store of the longer history. -/
theorem committed [SignatureSuite] (h : Keeps start l c) (hfollows : Follows start l c)
    {b : Block} {txs : List Transaction} {accounts : Accounts}
    (haccepts : l.Accepts b txs accounts) (voting : Voting) :
    Keeps start (Ledger.committed { l with voting := voting } b txs accounts)
      (⟨b, txs, accounts⟩ :: c) := by
  obtain ⟨hmap, hnew⟩ := collectTransactions_eq_ok (execute_eq_ok.mp haccepts.executed).1
  refine ⟨?_, fun hash hmem hbelow => ?_, h.fresh⟩
  · simp only [Ledger.committed, h.store]
    rfl
  · have hmem' : hash ∈ txs.map Transaction.hash := by
      rw [hmap]
      exact hmem
    obtain ⟨t, ht, rfl⟩ := List.mem_map.mp hmem'
    have habsent := (hnew t ht).2
    have hpresent := (Store.contains_transactions_ofHistory hfollows.sound t.hash).mpr hbelow
    rw [hfollows.reliable.hasTransaction, h.store, hpresent] at habsent
    cases habsent

/-- Standing at the tip of a history whose store is left writes the height; only a snapshot
that is too long stands in the way. -/
theorem standAt (hsound : c.Sound start) (hfresh : c.Fresh) {height : UInt64}
    (hheight : height.toNat = c.length) {stored : Option UInt64}
    (hstore : l.store = { Store.ofHistory start c with chainHeight := stored }) :
    ((l.standAt c.tip height).1 = .ok () ∧ Keeps start (l.standAt c.tip height).2 c) ∨
      (∃ e, (l.standAt c.tip height).1 = .error e) ∧
        Protocol.maxMessageBytes < (c.accounts start).toBytes.length := by
  obtain ⟨declared, hdeclared⟩ := hsound.schemes
  have hs : l.store.Reliable := by
    rw [hstore]
    exact Store.reliable_ofHistory start c
  have hsnapshot : l.store.snapshots[height]? = some (c.accounts start).toBytes := by
    rw [hstore]
    simp only [Store.snapshots_ofHistory hsound, hheight, Nat.le_refl, if_true,
      cut_of_length_le]
  rcases standAt_cases hs hsnapshot hdeclared with hstand | ⟨⟨e, hstand⟩, hlong⟩
  · rw [hstand]
    refine Or.inl ⟨rfl, ?_, hfresh⟩
    have htip : c.tip.height = height := by
      apply UInt64.toNat_inj.mp
      rw [hsound.tip_height, hheight]
    have hchain := Store.chainHeight_ofHistory start c
    rw [htip] at hchain
    simp only [stoodAt, hstore, Store.applyAll, List.foldl_cons, List.foldl_nil, Store.apply,
      ← hchain]
  · rw [hstand]
    exact Or.inr ⟨⟨e, rfl⟩, hlong⟩

/-- What can be decoded again is read back: the block at a height is that of the history. -/
theorem block?_of_length (h : Keeps start l c) (hfollows : Follows start l c) {k : UInt64}
    (hk : k ≤ l.height) (hlength : (c.cut k.toNat).tip.toBytes.length ≤ Protocol.maxMessageBytes) :
    l.store.block? k = .ok (some (c.cut k.toNat).tip) := by
  refine hfollows.reliable.block?_of_stored ?_ hlength
  rw [h.store, Store.blocks_ofHistory hfollows.sound, if_pos (hfollows.toNat_le.mp hk)]

theorem block? (h : Keeps start l c) (hfollows : Follows start l c) (hfits : ∀ e ∈ c, e.Fits)
    {k : UInt64} (hk : k ≤ l.height) :
    l.store.block? k = .ok (some (c.cut k.toNat).tip) :=
  h.block?_of_length hfollows hk (length_tip (fits_cut hfits _))

/-- A rollback leaves the store of the history up to its height unless it stops: on the block to
go back to, on what is given up, or on a snapshot that is too long. -/
theorem rollback_cases (h : Keeps start l c) (hfollows : Follows start l c) (height : UInt64) :
    ((l.rollback height).1 = .ok () ∧
        Keeps start (l.rollback height).2 (c.cut height.toNat)) ∨
      ∃ e, (l.rollback height).1 = .error e ∧ height ≤ l.height ∧
        (requireBlock l.store height = .error e ∨
          (l.discardAbove height (l.height.toNat - height.toNat)).1 = .error e ∨
          Protocol.maxMessageBytes < ((c.cut height.toNat).accounts start).toBytes.length) := by
  by_cases hle : l.height ≤ height
  · rw [rollback_of_le hle, cut_of_length_le (by rw [hfollows.length]; exact hle)]
    exact Or.inl ⟨rfl, h⟩
  have hlow : height ≤ l.height := UInt64.le_of_lt (UInt64.not_le.mp hle)
  have hk : height.toNat ≤ c.length := hfollows.toNat_le.mp hlow
  have hsum : c.length = height.toNat + (l.height.toNat - height.toNat) := by
    have hlength := hfollows.length
    omega
  rcases Ledger.rollback_cases hle with ⟨e, hrequire, hrollback⟩ | ⟨target, hrequire, hrest⟩
  · exact Or.inr ⟨e, by rw [hrollback], hlow, Or.inl hrequire⟩
  obtain ⟨rfl, -, -⟩ := hfollows.requireBlock_eq_ok hrequire
  rcases hrest with ⟨e, l', hdiscard, hrollback⟩ | ⟨l', hdiscard, hrollback⟩
  · exact Or.inr ⟨e, by rw [hrollback], hlow, Or.inr (Or.inl (by rw [hdiscard]))⟩
  · have hstore := discardAbove_ofHistory height _ hfollows.sound h.fresh hsum
      hfollows.length_lt h.store hdiscard
    rw [hrollback]
    rcases standAt (hfollows.sound.cut height.toNat) (h.fresh.cut _) (length_cut hk).symm hstore
      with hok | ⟨⟨e, herror⟩, hlong⟩
    · exact Or.inl hok
    · exact Or.inr ⟨e, herror, hlow, Or.inr (Or.inr hlong)⟩

/-- **A rollback that gets to its end leaves the store of the history up to its height**, and it
gets to its end unless something that was stored cannot be decoded again. -/
theorem rollback (h : Keeps start l c) (hfollows : Follows start l c) (height : UInt64) :
    ((l.rollback height).1 = .ok () ∧
        Keeps start (l.rollback height).2 (c.cut height.toNat)) ∨
      (∃ e, (l.rollback height).1 = .error e) ∧
        ¬ (start.toBytes.length ≤ Protocol.maxMessageBytes ∧ ∀ e ∈ c, e.Fits) := by
  rcases h.rollback_cases hfollows height with hok | ⟨e, herror, hlow, hstop⟩
  · exact Or.inl hok
  refine Or.inr ⟨⟨e, herror⟩, fun ⟨hstart, hfits⟩ => ?_⟩
  rcases hstop with hrequire | hdiscard | hlong
  · simp only [requireBlock, h.block? hfollows hfits hlow] at hrequire
    cases hrequire
  · have hsum : c.length = height.toNat + (l.height.toNat - height.toNat) := by
      have hlength := hfollows.length
      rw [UInt64.le_iff_toNat_le] at hlow
      omega
    have hend := discardAbove_of_legible height _ hfollows.sound h.fresh
      (fun e he => (hfits e he).legible) hsum hfollows.length_lt h.store
    rw [hdiscard] at hend
    cases hend
  · have hshort := length_accounts (fits_cut hfits height.toNat) hstart
    omega

end Keeps

/-! ## 4. Every run -/

variable [SignatureSuite]

/-- What the event of a commit does to ledger and history. -/
theorem Event.commit_cases (hs : l.store.Reliable) (b : Block) (origin : BlockOrigin)
    (c : History) :
    (∃ voting, (Event.commit b origin).after l = { l with voting := voting } ∧
        (Event.commit b origin).record l c = c) ∨
      ∃ txs accounts voting, l.Accepts b txs accounts ∧
        (Event.commit b origin).after l = committed { l with voting := voting } b txs accounts ∧
        (Event.commit b origin).record l c = ⟨b, txs, accounts⟩ :: c := by
  rcases Ledger.commit_cases hs b origin with ⟨e, looked, h⟩ | ⟨txs, accounts, looked, haccepts, h⟩
  · exact Or.inl ⟨l.voting.look looked b.height, by simp only [after, h], by simp only [record, h]⟩
  · have hcollected := (execute_eq_ok.mp haccepts.executed).1
    exact Or.inr ⟨txs, accounts, l.voting.look looked b.height, haccepts,
      by simp only [after, h], record_commit h hcollected⟩

theorem Follows.step (h : Follows start l c) (e : Event) (possible : e.Possible l) :
    Follows start (e.after l) (e.record l c) := by
  cases e with
  | commit b origin =>
    rcases Event.commit_cases h.reliable b origin c with
      ⟨voting, hafter, hrecord⟩ | ⟨txs, accounts, voting, haccepts, hafter, hrecord⟩
    · rw [hafter, hrecord]
      exact h.recedes (Store.Recedes.refl 0 l.store) l.pools voting l.stats l.syncing
    · rw [hafter, hrecord]
      exact h.committed haccepts possible voting
  | rollback height =>
    simp only [Event.after, Event.record]
    rcases h.rollback height with ⟨hok, hfollows⟩ | ⟨⟨e, herror⟩, hfollows⟩
    · simp only [hok]
      exact hfollows
    · simp only [herror]
      exact hfollows
  | surroundings pools voting stats syncing =>
    exact h.recedes (Store.Recedes.refl 0 l.store) pools voting stats syncing

/-- **Along every run the ledger stands where its history does.** -/
theorem Run.follows {allowed : Ledger → Event → Prop} (run : Run allowed start l c) :
    Follows start l c := by
  induction run with
  | opened h => exact (Follows.opened h).1
  | step e _ possible _ ih => exact ih.step e possible

/-- A block that is committed although there is a word above the height of the chain goes on top
of the history, and the chain gets higher. -/
theorem Run.commit_accepted {allowed : Ledger → Event → Prop} {b : Block} {origin : BlockOrigin}
    {report : CommitReport} {txs : List Transaction} {accounts : Accounts} {index : UInt64}
    (run : Run allowed start l c) (haccepts : l.Accepts b txs accounts)
    (hcommit : l.commit b origin = (.ok report, l.committed b txs accounts))
    (above : ¬ index ≤ l.height) (ok : allowed l (.commit b origin)) :
    Run allowed start (l.committed b txs accounts) (⟨b, txs, accounts⟩ :: c) ∧
      l.height ≤ (l.committed b txs accounts).height := by
  have hpossible : l.lastBlock.height ≠ Word64.max := by
    rw [run.follows.last, ← run.follows.height]
    intro hmax
    refine above (UInt64.le_iff_toNat_le.mpr ?_)
    rw [hmax]
    exact Nat.le_of_lt_succ index.toNat_lt
  have run' := run.commit hcommit (execute_eq_ok.mp haccepts.executed).1 hpossible ok
  refine ⟨run', UInt64.le_iff_toNat_le.mpr ?_⟩
  rw [← run.follows.length, ← run'.follows.length]
  exact Nat.le_succ _

theorem Keeps.step (h : Keeps start l c) (hfollows : Follows start l c) (e : Event)
    (hcompletes : e.Completes l) : Keeps start (e.after l) (e.record l c) := by
  cases e with
  | commit b origin =>
    rcases Event.commit_cases hfollows.reliable b origin c with
      ⟨voting, hafter, hrecord⟩ | ⟨txs, accounts, voting, haccepts, hafter, hrecord⟩
    · rw [hafter, hrecord]
      exact ⟨h.store, h.fresh⟩
    · rw [hafter, hrecord]
      exact h.committed hfollows haccepts voting
  | rollback height =>
    have hok : (l.rollback height).1 = .ok () := hcompletes
    simp only [Event.after, Event.record, hok]
    rcases h.rollback hfollows height with ⟨-, hkeeps⟩ | ⟨⟨e, herror⟩, -⟩
    · exact hkeeps
    · rw [hok] at herror
      cases herror
  | surroundings pools voting stats syncing => exact ⟨h.store, h.fresh⟩

/-- **Along every run whose rollbacks get to their end, the store is exactly the store of the
history.** -/
theorem Run.keeps (run : Run Event.Completes start l c) : Keeps start l c := by
  induction run with
  | opened h => exact ⟨(Follows.opened h).2, trivial⟩
  | step e run possible hcompletes ih => exact ih.step run.follows e hcompletes

/-- What holds of all entries that the commits of a run may add holds of those in its history. -/
theorem Run.forall_entries {allowed : Ledger → Event → Prop} {P : Entry → Prop}
    (h : ∀ {l l' : Ledger} {b : Block} {origin : BlockOrigin} {report : CommitReport}
      {txs : List Transaction}, allowed l (.commit b origin) →
      l.commit b origin = (.ok report, l') → l.Accepts b txs l'.accounts →
      P ⟨b, txs, l'.accounts⟩)
    (run : Run allowed start l c) : ∀ e ∈ c, P e := by
  induction run with
  | opened _ =>
    intro e he
    cases he
  | @step l c e run possible ok ih =>
    cases e with
    | commit b origin =>
      rcases Ledger.commit_cases run.follows.reliable b origin with
        ⟨_, _, hcommit⟩ | ⟨txs, accounts, _, haccepts, hcommit⟩
      · simp only [Event.record, hcommit]
        exact ih
      · rw [Event.record_commit hcommit (execute_eq_ok.mp haccepts.executed).1]
        exact List.forall_mem_cons.mpr ⟨h ok hcommit haccepts, ih⟩
    | rollback height =>
      simp only [Event.record]
      split
      · exact fun e he => ih e (List.mem_of_mem_drop he)
      · exact ih
    | surroundings pools voting stats syncing => exact ih

/-- What was committed along a run that stays within the limit can be decoded again. -/
theorem Run.fits (run : Run Event.Fits start l c) : ∀ e ∈ c, e.Fits :=
  run.forall_entries fun hfits _ haccepts => hfits _ _ haccepts

/-- **Along a run that stays within the limit, all rollbacks get to their end.** -/
theorem Run.completes (run : Run Event.Fits start l c)
    (hstart : start.toBytes.length ≤ Protocol.maxMessageBytes) :
    Run Event.Completes start l c := by
  induction run with
  | opened h => exact .opened h
  | @step l c e run possible hfits ih =>
    refine .step e ih possible ?_
    cases e with
    | commit b origin => trivial
    | rollback height =>
      rcases ih.keeps.rollback run.follows height with ⟨hok, -⟩ | ⟨-, hlong⟩
      · exact hok
      · exact absurd ⟨hstart, run.fits⟩ hlong
    | surroundings pools voting stats syncing => trivial

/-- Such a run goes on with any rollback. -/
theorem Run.rollback (run : Run Event.Fits start l c)
    (hstart : start.toBytes.length ≤ Protocol.maxMessageBytes) (height : UInt64) :
    (l.rollback height).1 = .ok () ∧
      Run Event.Fits start (l.rollback height).2 (c.cut height.toNat) := by
  have hok : (l.rollback height).1 = .ok () := by
    rcases (run.completes hstart).keeps.rollback run.follows height with ⟨hok, -⟩ | ⟨-, hlong⟩
    · exact hok
    · exact absurd ⟨hstart, run.fits⟩ hlong
  have hstep := run.step (.rollback height) trivial trivial
  simp only [Event.record, hok] at hstep
  exact ⟨hok, hstep⟩

end

/-! ## 5. A run

An operator sends thirty units to a delegated account, and a block lists the transfer.  The key
of the operator is left open, so that nothing has to be hashed. -/

namespace Sample

/-- Every signature is valid. -/
local instance suite : SignatureSuite := ⟨fun _ _ _ _ => true, fun _ _ _ => [0]⟩

/-- A key of the length that the primary slot takes, of an address that is not delegated. -/
structure OperatorKey (key : Bytes) : Prop where
  length : key.length = 897
  undelegated : ∀ id, Address.ofPublicKey key ≠ Address.delegated id

/-- Such a key. -/
def zeros : Bytes := List.replicate 897 0

/-- The address of a delegated account begins with a zero. -/
theorem operatorKey_of_front {key : Bytes} (hlength : key.length = 897)
    (hfront : (Address.ofPublicKey key).bytes.toList.head? ≠ some 0) : OperatorKey key where
  length := hlength
  undelegated id h := by
    rw [h] at hfront
    exact hfront rfl

theorem operatorKey_zeros : OperatorKey zeros :=
  operatorKey_of_front List.length_replicate (by decide +kernel)

/-- The address that transfers go to. -/
def recipient : Address := Address.delegated 2

/-- The balances of an operator and the recipient. -/
def balances (operator : Address) (paying paid : UInt64) : Balances :=
  ((∅ : Balances).insert operator paying).insert recipient paid

/-- A hundred units with an operator, who signs for the first delegated account. -/
def start (operator : Address) : Accounts :=
  ⟨balances operator 100 0, (∅ : Std.ExtTreeMap UInt8 StakingEntry).insert 1 ⟨0, [operator]⟩⟩

/-- A transfer of thirty units from the owner of a key. -/
def transfer (key : Bytes) : Transaction :=
  let body : TransactionBody :=
    { kind := .standard, sender := Address.ofPublicKey key, recipient := recipient, amount := 30
      nonce := 0, chainId := 0, height := 0, sendingTime := 0, data := [] }
  ⟨body, .primary, key, Transaction.contentHash body .primary key, [0]⟩

/-- Pools that hold a transaction. -/
def pools (t : Transaction) : Pools :=
  { Pools.empty .standard with
    standard :=
      { Pool.empty .standard .standard with
        entries := (∅ : Std.ExtTreeMap Hash PoolEntry).insert t.hash ⟨t, 0, 0⟩
        keyed := KeyedByHash.empty.insert ⟨t, 0, 0⟩ } }

/-- The ledger that is opened with these accounts and pools. -/
def ledger (key : Bytes) : Ledger where
  store := Store.ofHistory (start (Address.ofPublicKey key)) []
  accounts := start (Address.ofPublicKey key)
  stats := ChainStats.empty
  schemes := LiveSchemes.initial
  voting := Voting.empty 60
  pools := pools (transfer key)
  minStake := 0
  height := Block.genesis.height
  syncing := false
  lastBlock := Block.genesis

/-- A block after the first that lists the given transactions. -/
def block (key : Bytes) (hashes : List Hash) : Block :=
  Block.sealed
    { header :=
        { previousHash := Block.genesis.blockHash
          difficulty := 1
          height := 1
          delegatedId := 1
          operator := Address.ofPublicKey key
          merkleRoot := (Merkle.Tree.mk 1 hashes).root
          encryption := LiveSchemes.initial.map Descriptor.toBytes
          signerSlot := .primary
          signerKey := key
          signature := [0]
          timestamp := 1700000030 }
      headerHash := Hash.zero
      timestamp := 1700000030
      rewardPercentage := 0
      supply := 23000020700000000
      reward := 20700000000
      priceOracle := 0
      randOracle := 0
      txHashes := hashes
      blockHash := Hash.zero }

variable {key : Bytes} {hashes : List Hash}

theorem openOn_empty (key : Bytes) (accounts : Accounts) (pools : Pools) :
    openOn Store.empty accounts ChainStats.empty (Voting.empty 60) pools 0 =
      .ok { ledger key with
        store := Store.ofHistory accounts [], accounts := accounts, pools := pools } := by
  have hstart : ∀ a, startChain Store.empty a = .ok (Store.ofHistory a [], a, Block.genesis) :=
    fun _ => rfl
  have hheight : Store.empty.height? = .ok none := rfl
  simp only [openOn, hheight, Option.elim_none, hstart, declaredSchemes_genesis, ledger]

theorem openOn_start :
    openOn Store.empty (start (Address.ofPublicKey key)) ChainStats.empty (Voting.empty 60)
      (pools (transfer key)) 0 = .ok (ledger key) :=
  openOn_empty key _ _

theorem verify_key (hkey : OperatorKey key) (message : Bytes) :
    LiveSchemes.initial.verify .primary key message [0] = .ok () := by
  have hscheme : (LiveSchemes.initial.get .primary).scheme = .ok .falcon512 := by rfl
  have hpaused : (LiveSchemes.initial.get .primary).paused = false := rfl
  simp [LiveSchemes.verify, hscheme, hpaused, Scheme.verify, hkey.length, Scheme.publicKeyLength,
    Scheme.signatureLength, SignatureSuite.valid]

/-- At difficulty one the target takes every hash. -/
theorem passes_one (hash : Hash) : Synergy.passes hash 1 = true := by
  have htarget : Synergy.target 1 = Word32.max := by decide
  have hle : Synergy.leadingWord hash ≤ Word32.max := by
    rw [UInt32.le_iff_toNat_le]
    exact Nat.le_of_lt_succ (Synergy.leadingWord hash).toNat_lt
  simp [Synergy.passes, htarget, hle]

theorem checkEconomics_block : (block key hashes).checkEconomics Block.genesis = .ok () := by
  have hreward : Synergy.rewardForSupply Protocol.initialSupply = 20700000000 := by decide
  have hsupply : Word64.saturatingAdd Protocol.initialSupply 20700000000 = 23000020700000000 := by
    decide
  have hdifficulty : Synergy.adjustDifficulty Protocol.initialDifficulty
      (Word64.saturatingSub 1700000030 Protocol.genesisTimestamp) = 1 := by
    decide
  have hpercentage : ¬ Protocol.maxRewardPercentage < 0 := by decide
  simp only [Block.checkEconomics, Block.expectedDifficulty, block, Block.sealed, Block.genesis,
    hreward, hsupply, hdifficulty, hpercentage, passes_one, ne_eq, not_true_eq_false, if_false,
    Bool.not_true, Bool.false_eq_true]

theorem checkBlock_block (hkey : OperatorKey key) :
    (ledger key).checkBlock (block key hashes) = .ok () := by
  have hlinkage : (block key hashes).verifyLinkage (ledger key).lastBlock = .ok () := by
    rw [Block.verifyLinkage_eq_ok]
    constructor
    · simp only [Block.height, block, Block.header_sealed, ledger, Block.genesis]
      rfl
    · simp only [block, Block.header_sealed, ledger]
  have hdeclared : (block key hashes).schemes = .ok LiveSchemes.initial := by
    rw [Block.schemes_eq_ok, ← declaredSchemes_genesis]
    simp only [declaredSchemes, Header.descriptor, block, Block.header_sealed,
      Block.encryption_genesis]
  have hbefore : (ledger key).lastBlock.schemes = .ok LiveSchemes.initial :=
    Block.schemes_eq_ok.mpr declaredSchemes_genesis
  have hsignature : (block key hashes).header.verifySignature LiveSchemes.initial = .ok () := by
    simp only [Header.verifySignature, block, Block.header_sealed, verify_key hkey, ne_eq,
      not_true_eq_false, if_false]
  have hoperator : (ledger key).checkOperator (block key hashes) = .ok () := by
    simp [checkOperator, block, Block.header_sealed, ledger, start, Accounts.stakingOf?]
  have hroot : (block key hashes).tree.root = (block key hashes).header.merkleRoot := rfl
  exact checkBlock_eq_ok.mpr
    ⟨Block.checkBase_eq_ok.mpr
      ⟨hlinkage, Block.hash_sealed _, Block.contentHash_sealed _, ⟨_, hdeclared⟩,
        ⟨_, hbefore, hsignature⟩, checkEconomics_block, hroot, rfl⟩, hoperator⟩

theorem encryption_block :
    (block key hashes).header.encryption = LiveSchemes.initial.map Descriptor.toBytes := by
  rw [block, Block.header_sealed]

theorem changedSlots_block : (block key hashes).changedSlots Block.genesis = [] := by
  refine Block.changedSlots_of_encryption_eq ?_
  rw [Block.encryption_genesis, encryption_block]

theorem hasTransaction_transfer (hash : Hash) :
    (ledger key).store.hasTransaction hash = .ok false := by
  have hs : (ledger key).store.Reliable := Store.reliable_ofHistory _ []
  have hempty : (ledger key).store.transactions = ∅ := rfl
  rw [hs.hasTransaction, hempty, Std.ExtTreeMap.contains_empty]

theorem find?_transfer (t : Transaction) : (pools t).find? t.hash = some t := by
  simp [pools, Pools.find?, Pools.toList, Pool.get?]

/-- What the block lists is found in whatever pools the transfer is pending. -/
theorem collectTransactions_pending {l : Ledger} (hstore : l.store = (ledger key).store)
    (hfind : l.pools.find? (transfer key).hash = some (transfer key)) (n : Nat) :
    l.collectTransactions (block key (List.replicate n (transfer key).hash)) =
      .ok (List.replicate n (transfer key)) := by
  have hlook : l.lookUp ((List.replicate n (transfer key)).map Transaction.hash) =
      .ok (List.replicate n (transfer key), []) := by
    refine lookUp_of_pending fun t ht => ?_
    rw [List.eq_of_mem_replicate ht, hstore]
    exact ⟨hfind, hasTransaction_transfer (transfer key).hash⟩
  rw [List.map_replicate] at hlook
  simp only [collectTransactions, block, Block.txHashes_sealed, hlook]

theorem collectTransactions_block (key : Bytes) (n : Nat) :
    (ledger key).collectTransactions (block key (List.replicate n (transfer key).hash)) =
      .ok (List.replicate n (transfer key)) :=
  collectTransactions_pending rfl (find?_transfer (transfer key)) n

theorem verify_transfer (hkey : OperatorKey key) :
    (transfer key).verify LiveSchemes.initial = .ok () := by
  simp only [Transaction.verify, transfer, verify_key hkey, ne_eq, not_true_eq_false, if_false]

theorem checkTransactions_transfer (hkey : OperatorKey key) (n : Nat) :
    checkTransactions LiveSchemes.initial (List.replicate n (transfer key)) = .ok () := by
  induction n with
  | zero => rfl
  | succ n ih => simp only [List.replicate_succ, checkTransactions, verify_transfer hkey, ih]

variable {operator : Address}

theorem insert_operator (hne : operator ≠ recipient) (paying paid amount : UInt64) :
    (balances operator paying paid).insert operator amount = balances operator amount paid := by
  refine Std.ExtTreeMap.ext_getElem? fun a => ?_
  simp only [balances, Std.ExtTreeMap.getElem?_insert, Std.LawfulEqCmp.compare_eq_iff_eq]
  by_cases ho : operator = a
  · subst ho
    simp [Ne.symm hne]
  · simp [ho]

theorem insert_recipient (paying paid amount : UInt64) :
    (balances operator paying paid).insert recipient amount = balances operator paying amount := by
  refine Std.ExtTreeMap.ext_getElem? fun a => ?_
  simp only [balances, Std.ExtTreeMap.getElem?_insert, Std.LawfulEqCmp.compare_eq_iff_eq]
  by_cases hr : recipient = a <;> simp [hr]

theorem get_balances (paying paid : UInt64) (a : Address) :
    (balances operator paying paid).get a =
      if recipient = a then paid else if operator = a then paying else 0 := by
  rw [balances, Balances.get_insert, Balances.get_insert]
  rfl

/-- Every transfer moves thirty units. -/
theorem transfers_transfer (hkey : OperatorKey key) (n : Nat) :
    ∀ {paying paid rest sum : UInt64}, paying.toNat = 30 * n + rest.toNat →
      paid.toNat + 30 * n = sum.toNat →
      (balances (Address.ofPublicKey key) paying paid).transfers
        (List.replicate n (transfer key)) = .ok (balances (Address.ofPublicKey key) rest sum) := by
  induction n with
  | zero =>
    intro paying paid rest sum hrest hsum
    have hpaying : paying = rest := UInt64.toNat_inj.mp (by omega)
    have hpaid : paid = sum := UInt64.toNat_inj.mp (by omega)
    rw [hpaying, hpaid]
    rfl
  | succ n ih =>
    intro paying paid rest sum hrest hsum
    have hne : Address.ofPublicKey key ≠ recipient := hkey.undelegated 2
    have hthirty : (30 : UInt64).toNat = 30 := rfl
    have hpaying : (paying - 30).toNat = paying.toNat - 30 :=
      UInt64.toNat_sub_of_le paying 30 (UInt64.le_iff_toNat_le.mpr (by omega))
    have hpaid : (paid + 30).toNat = paid.toNat + 30 := by
      have hlt := sum.toNat_lt
      rw [UInt64.toNat_add]
      omega
    have hsub : Word64.checkedSub? paying 30 = some (paying - 30) :=
      Word64.checkedSub?_eq_some_iff.mpr (by omega)
    have hadd : Word64.checkedAdd? paid 30 = some (paid + 30) :=
      Word64.checkedAdd?_eq_some_iff.mpr (by omega)
    have hone : (balances (Address.ofPublicKey key) paying paid).transfer (transfer key) =
        .ok (balances (Address.ofPublicKey key) (paying - 30) (paid + 30)) := by
      simp only [Balances.transfer, Balances.credit, transfer, get_balances, if_neg (Ne.symm hne),
        if_true, hsub, insert_operator hne, hadd, insert_recipient]
    simp only [List.replicate_succ, Balances.transfers, hone]
    exact ih (by omega) (by omega)

/-- The accounts after the block: the delegated account has the reward. -/
def after (operator : Address) (paying paid : UInt64) : Accounts :=
  { start operator with
    balances := (balances operator paying paid).insert (Address.delegated 1) 20700000000 }

theorem balance_after (operator : Address) (paying paid : UInt64) :
    (after operator paying paid).balance recipient = paid := by
  have hother : Address.delegated 1 ≠ recipient := by decide
  rw [Accounts.balance, after, Balances.get_insert, if_neg hother, get_balances, if_pos rfl]

theorem payShare_delegated (hone : operator ≠ Address.delegated 1) (paying paid : UInt64) :
    (balances operator paying paid).payShare (Address.delegated 1) 20700000000 =
      .ok (after operator paying paid).balances := by
  have hother : recipient ≠ Address.delegated 1 := by decide
  have hempty : (balances operator paying paid).get (Address.delegated 1) = 0 := by
    rw [get_balances, if_neg hother, if_neg hone]
  exact Balances.payShare_of_get_eq_zero hempty (by decide)

theorem applyBlock_block (hkey : OperatorKey key) {n : Nat} {rest sum : UInt64}
    (hrest : (100 : UInt64).toNat = 30 * n + rest.toNat)
    (hsum : (0 : UInt64).toNat + 30 * n = sum.toNat) :
    (start (Address.ofPublicKey key)).applyBlock (block key hashes)
        (List.replicate n (transfer key)) =
      .ok (after (Address.ofPublicKey key) rest sum) := by
  have hsplit : Synergy.splitReward (block key hashes).reward
      (block key hashes).rewardPercentage = (0, 20700000000) := by
    have hwhole : Synergy.splitReward 20700000000 0 = (0, 20700000000) := by decide
    simp only [block, Block.reward_sealed, Block.rewardPercentage_sealed, hwhole]
  have hpaid := payShare_delegated (hkey.undelegated 1) rest sum
  have hid : (block key hashes).header.delegatedId = 1 := by
    rw [block, Block.header_sealed]
  rw [← hid] at hpaid
  exact Accounts.applyBlock_of_delegated hsplit (transfers_transfer hkey n hrest hsum) hpaid

/-- In whatever pools the transfer is pending, the block is accepted. -/
theorem accepts_pending (hkey : OperatorKey key) {l : Ledger} {ps : Pools}
    (hl : l = { ledger key with pools := ps })
    (hfind : ps.find? (transfer key).hash = some (transfer key)) (n : Nat) (rest sum : UInt64)
    (hrest : (100 : UInt64).toNat = 30 * n + rest.toNat)
    (hsum : (0 : UInt64).toNat + 30 * n = sum.toNat) :
    l.Accepts (block key (List.replicate n (transfer key).hash))
      (List.replicate n (transfer key)) (after (Address.ofPublicKey key) rest sum) := by
  have hstore : l.store = (ledger key).store := by rw [hl]
  have haccounts : l.accounts = (ledger key).accounts := by rw [hl]
  have hlast : l.lastBlock = Block.genesis := by rw [hl, ledger]
  have hstake : l.minStake = (ledger key).minStake := by rw [hl]
  have hpools : l.pools = ps := by rw [hl]
  constructor
  · rw [checkBlock_congr haccounts hlast hstake]
    exact checkBlock_block hkey
  · refine execute_eq_ok.mpr ⟨collectTransactions_pending hstore (hpools ▸ hfind) n, ?_, ?_⟩
    · rw [hlast]
      exact ⟨_, Block.schemes_eq_ok.mpr declaredSchemes_genesis, checkTransactions_transfer hkey n⟩
    · rw [haccounts]
      exact applyBlock_block hkey hrest hsum

theorem accepts_block (hkey : OperatorKey key) (n : Nat) (rest sum : UInt64)
    (hrest : (100 : UInt64).toNat = 30 * n + rest.toNat)
    (hsum : (0 : UInt64).toNat + 30 * n = sum.toNat) :
    (ledger key).Accepts (block key (List.replicate n (transfer key).hash))
      (List.replicate n (transfer key)) (after (Address.ofPublicKey key) rest sum) :=
  accepts_pending hkey rfl (find?_transfer (transfer key)) n rest sum hrest hsum

/-- The ledger after the block. -/
def later (key : Bytes) (n : Nat) (paying paid : UInt64) : Ledger :=
  (ledger key).committed (block key (List.replicate n (transfer key).hash))
    (List.replicate n (transfer key)) (after (Address.ofPublicKey key) paying paid)

/-- The block with its transactions and the accounts after it. -/
def entry (key : Bytes) (n : Nat) (paying paid : UInt64) : Entry :=
  ⟨block key (List.replicate n (transfer key).hash), List.replicate n (transfer key),
    after (Address.ofPublicKey key) paying paid⟩

theorem commit_block {n : Nat} {rest sum : UInt64}
    (haccepts : (ledger key).Accepts (block key (List.replicate n (transfer key).hash))
      (List.replicate n (transfer key)) (after (Address.ofPublicKey key) rest sum)) :
    (ledger key).commit (block key (List.replicate n (transfer key).hash)) .sync =
      (.ok ⟨(block key (List.replicate n (transfer key).hash)).height, n, []⟩,
        later key n rest sum) := by
  have hs : (ledger key).store.Reliable := Store.reliable_ofHistory _ []
  have hcommit := commit_of_accepts hs haccepts changedSlots_block .sync
  rw [List.length_replicate] at hcommit
  exact hcommit

theorem length_block (hkey : OperatorKey key) (hhashes : hashes.length ≤ 2) :
    (block key hashes).toBytes.length ≤ Protocol.maxMessageBytes := by
  have hmax : Protocol.maxMessageBytes = 16777216 := rfl
  have hsigner : (block key hashes).header.signerKey.length = 897 := hkey.length
  have hsignature : (block key hashes).header.signature.length = 1 := rfl
  have hlisted : (block key hashes).txHashes = hashes := Block.txHashes_sealed _
  rw [Block.length_of_encryption encryption_block, hsigner, hsignature, hlisted, hmax]
  omega

theorem length_transfer (hkey : OperatorKey key) :
    (transfer key).toBytes.length ≤ Protocol.maxMessageBytes := by
  have hdata : (transfer key).body.data.length = 0 := rfl
  have hkey : (transfer key).publicKey.length = 897 := hkey.length
  have hsignature : (transfer key).signature.length = 1 := rfl
  rw [Transaction.length_toBytes, hdata, hkey, hsignature]
  decide

theorem size_balances (paying paid : UInt64) : (balances operator paying paid).size ≤ 2 := by
  have hempty : (∅ : Balances).size = 0 := Std.ExtTreeMap.size_empty
  have hpaying := @Std.ExtTreeMap.size_insert_le _ _ _ (∅ : Balances) _ operator paying
  have hpaid := @Std.ExtTreeMap.size_insert_le _ _ _
    ((∅ : Balances).insert operator paying) _ recipient paid
  rw [balances]
  omega

theorem length_accounts {b : Balances} (hsize : b.size ≤ 8) :
    ({ start operator with balances := b } : Accounts).toBytes.length ≤
      Protocol.maxMessageBytes := by
  have hstaking : (start operator).staking.toList = [(1, ⟨0, [operator]⟩)] := rfl
  have hone : (start operator).staking.size = 1 := rfl
  have hoperators : ([(1, ⟨0, [operator]⟩)] : List (UInt8 × StakingEntry)).flatMap
      (fun e => e.2.operators) = [operator] := rfl
  have hmax : Protocol.maxMessageBytes = 16777216 := rfl
  simp only [Accounts.length_toBytes, hstaking, hone, hoperators, List.length_singleton]
  omega

theorem length_start : (start operator).toBytes.length ≤ Protocol.maxMessageBytes :=
  length_accounts (Nat.le_trans (size_balances 100 0) (by decide))

theorem fits_entry (hkey : OperatorKey key) {n : Nat} (hn : n ≤ 2) (paying paid : UInt64) :
    (entry key n paying paid).Fits where
  block := length_block hkey (by rw [List.length_replicate]; exact hn)
  transactions t ht := by
    rw [List.eq_of_mem_replicate ht]
    exact length_transfer hkey
  snapshot := by
    have hsize := @size_balances (Address.ofPublicKey key) paying paid
    exact length_accounts (Nat.le_trans Std.ExtTreeMap.size_insert_le (by omega))

/-- The run that commits the block. -/
theorem run_block (hkey : OperatorKey key) (n : Nat) (rest sum : UInt64) (hn : n ≤ 2)
    (hrest : (100 : UInt64).toNat = 30 * n + rest.toNat)
    (hsum : (0 : UInt64).toNat + 30 * n = sum.toNat) :
    Run Event.Fits (start (Address.ofPublicKey key)) (later key n rest sum)
      [entry key n rest sum] := by
  have haccepts := accepts_block hkey n rest sum hrest hsum
  have hrun : Run Event.Fits (start (Address.ofPublicKey key)) (ledger key) [] :=
    .opened openOn_start
  have hpossible : (ledger key).lastBlock.height ≠ Word64.max := by
    simp only [Block.height, ledger, Block.genesis, Block.header_sealed]
    decide
  refine hrun.commit (commit_block haccepts) (collectTransactions_block key n) hpossible ?_
  intro txs accounts h
  have hsame := h.executed
  rw [haccepts.executed] at hsame
  cases hsame
  exact fits_entry hkey hn rest sum

end Sample

end SynergyNode.Ledger
