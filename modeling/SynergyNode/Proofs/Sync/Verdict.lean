import SynergyNode.Proofs.Ledger.Authority
import SynergyNode.Sync.Follower

/-!
# What a batch is found to be

A batch is gone through entry by entry, and the first entry that differs from the chain decides
that the chain is given up from there on.

* `Passes`: what was found out about the entries gone through, with one rule for each way to go
  on; `examine_eq_extension` and `examine_eq_fork` say what a verdict rests on;
* `Competes`: what was found out about the entry that differs.  Its signature was looked at only
  if it names the block gone through before it;
* `takeBatch_cases`: what a ledger does with a batch.
-/

namespace SynergyNode

namespace Ledger

variable {l : Ledger}

/-! ## 1. Single blocks -/

theorem storedBlock_eq_ok {height : UInt64} {b : Block} :
    l.storedBlock height = .ok b ↔ l.store.block? height = .ok (some b) := by
  unfold storedBlock requireBlock
  cases hread : l.store.block? height with
  | error e => simp
  | ok found => cases found <;> simp

theorem parentOf_eq_ok {height : UInt64} {previous : Option Block} {parent : Block} :
    l.parentOf height previous = .ok parent ↔
      previous = some parent ∨
        previous = none ∧ l.store.block? (height - 1) = .ok (some parent) := by
  cases previous with
  | none => simp [parentOf, storedBlock_eq_ok]
  | some b => simp [parentOf]

variable [SignatureSuite]

theorem checkOn_eq_ok {index : UInt64} {b parent : Block} :
    checkOn index b parent = .ok () ↔ b.checkBase parent = .ok b.tree := by
  unfold checkOn
  split
  · rename_i hrefused
    simp [hrefused]
  · rename_i tree hchecked
    have htree : b.tree = tree := (Block.checkBase_eq_ok.mp hchecked).2.2.2.2.2.2.2
    simp [hchecked, htree]

/-- A block for which a ledger gives up its own at a height.  Only a block that names the given
parent is checked any further than its height and its operator. -/
structure Competes (l : Ledger) (index : UInt64) (b parent : Block) : Prop where
  height : b.height = index
  valid : b.header.previousHash = parent.blockHash → b.checkBase parent = .ok b.tree
  listed : l.Lists b

theorem checkCompeting_eq_ok {index : UInt64} {b : Block} {previous : Option Block} :
    l.checkCompeting index b previous = .ok () ↔
      ∃ parent, l.parentOf index previous = .ok parent ∧ l.Competes index b parent := by
  unfold checkCompeting
  split
  · rename_i hheight
    simp only [reduceCtorEq, false_iff]
    rintro ⟨parent, -, h⟩
    exact hheight h.height
  · rename_i hheight
    rw [ne_eq, Decidable.not_not] at hheight
    split
    · rename_i hparent
      simp [hparent]
    · rename_i parent hparent
      simp only [hparent, Except.ok.injEq, exists_eq_left']
      split
      · rename_i hrefused
        simp only [reduceCtorEq, false_iff]
        intro h
        split at hrefused
        · rename_i hlinked
          rw [checkOn_eq_ok.mpr (h.valid hlinked)] at hrefused
          cases hrefused
        · cases hrefused
      · rename_i hchecked
        have hvalid : b.header.previousHash = parent.blockHash →
            b.checkBase parent = .ok b.tree := by
          intro hlinked
          rw [if_pos hlinked] at hchecked
          exact checkOn_eq_ok.mp hchecked
        split
        · rename_i hoperator
          simp only [reduceCtorEq, false_iff]
          intro h
          rw [checkOperator_eq_ok.mpr h.listed] at hoperator
          cases hoperator
        · rename_i hoperator
          exact ⟨fun _ => ⟨hheight, hvalid, checkOperator_eq_ok.mp hoperator⟩, fun _ => rfl⟩

/-! ## 2. Going through a batch -/

/-- Going through the entries of a batch, the ledger gets from a last block and the missing
transactions before them to those after them. -/
inductive Passes (l : Ledger) :
    Option Block → List Hash → HeaderBatch → Option Block → List Hash → Prop where
  | nil {previous : Option Block} {missing : List Hash} :
      Passes l previous missing [] previous missing
  /-- The first block is not looked at. -/
  | first {previous seen : Option Block} {missing found : List Hash} {b : Block}
      {rest : HeaderBatch} (later : Passes l previous missing rest seen found) :
      Passes l previous missing ((0, b) :: rest) seen found
  /-- Up to the height of the chain the hash has to be that of the stored block. -/
  | agrees {previous seen : Option Block} {missing found : List Hash} {index : UInt64}
      {b own : Block} {rest : HeaderBatch} (pos : index ≠ 0)
      (low : index ≤ l.lastBlock.height) (stored : l.storedBlock index = .ok own)
      (same : own.blockHash = b.blockHash) (later : Passes l (some own) missing rest seen found) :
      Passes l previous missing ((index, b) :: rest) seen found
  /-- Above it, a block has to be valid on the one before. -/
  | extends {previous seen : Option Block} {missing found more : List Hash} {index : UInt64}
      {b parent : Block} {rest : HeaderBatch} (high : ¬ index ≤ l.lastBlock.height)
      (height : b.height = index) (below : l.parentOf index previous = .ok parent)
      (valid : b.checkBase parent = .ok b.tree) (unknown : l.missingTransactions b = .ok more)
      (later : Passes l (some b) (missing ++ more) rest seen found) :
      Passes l previous missing ((index, b) :: rest) seen found

omit [SignatureSuite] in
theorem not_zero_of_not_le {index height : UInt64} (h : ¬ index ≤ height) : index ≠ 0 := by
  rintro rfl
  exact h (UInt64.le_iff_toNat_le.mpr (Nat.zero_le _))

variable {previous seen : Option Block} {missing found : List Hash}

/-- What was gone through does not matter for the rest, except for the last block and the
missing transactions. -/
theorem examine_append {before : HeaderBatch} (h : Passes l previous missing before seen found)
    (rest : HeaderBatch) :
    l.examine previous missing (before ++ rest) = l.examine seen found rest := by
  induction h with
  | nil => rfl
  | first _ ih => simp only [List.cons_append, examine, if_true, ih]
  | agrees pos low stored same _ ih =>
    simp only [List.cons_append, examine, if_neg pos, if_pos low, stored, if_pos same, ih]
  | «extends» high height below valid unknown _ ih =>
    simp only [List.cons_append, examine, if_neg (not_zero_of_not_le high), if_neg high, height,
      ne_eq, not_true_eq_false, if_false, below, checkOn_eq_ok.mpr valid, unknown, ih]

/-- The entry at which a batch differs from the chain. -/
structure Differs (l : Ledger) (seen : Option Block) (fork : UInt64) (b : Block) : Prop where
  pos : fork ≠ 0
  low : fork ≤ l.lastBlock.height
  stored : ∃ own, l.storedBlock fork = .ok own ∧ own.blockHash ≠ b.blockHash
  competes : ∃ parent, l.parentOf fork seen = .ok parent ∧ l.Competes fork b parent

theorem Differs.examine {fork : UInt64} {b : Block} (h : l.Differs previous fork b)
    (rest : HeaderBatch) : l.examine previous missing ((fork, b) :: rest) = .ok (.fork fork) := by
  obtain ⟨own, hstored, hother⟩ := h.stored
  simp only [Ledger.examine, if_neg h.pos, if_pos h.low, hstored, if_neg hother,
    checkCompeting_eq_ok.mpr h.competes]

/-- **What a verdict rests on.**  Either the whole batch was gone through, or an entry differs
from the chain and all entries before it were gone through. -/
theorem examine_eq_ok {verdict : BatchVerdict} : ∀ {batch : HeaderBatch}
    {previous : Option Block} {missing : List Hash},
    l.examine previous missing batch = .ok verdict →
      (∃ seen found, Passes l previous missing batch seen found ∧
        verdict = .extension found) ∨
      ∃ before fork b after seen found, batch = before ++ (fork, b) :: after ∧
        Passes l previous missing before seen found ∧ l.Differs seen fork b ∧
        verdict = .fork fork
  | [], previous, missing, h => by
    cases h
    exact Or.inl ⟨previous, missing, .nil, rfl⟩
  | (index, b) :: rest, previous, missing, h => by
    -- Once the entry is gone through, what is found about the rest holds of the whole batch.
    have hlater {previous' : Option Block} {missing' : List Hash}
        (hstep : ∀ {tail : HeaderBatch} {seen : Option Block} {found : List Hash},
          Passes l previous' missing' tail seen found →
            Passes l previous missing ((index, b) :: tail) seen found)
        (hrest : l.examine previous' missing' rest = .ok verdict) :
        (∃ seen found, Passes l previous missing ((index, b) :: rest) seen found ∧
          verdict = .extension found) ∨
        ∃ before fork b' after seen found,
          (index, b) :: rest = before ++ (fork, b') :: after ∧
            Passes l previous missing before seen found ∧ l.Differs seen fork b' ∧
            verdict = .fork fork := by
      rcases examine_eq_ok hrest with
        ⟨seen, found, hpasses, hverdict⟩ |
        ⟨before, fork, b', after, seen, found, rfl, hpasses, hdiffers, hverdict⟩
      · exact Or.inl ⟨seen, found, hstep hpasses, hverdict⟩
      · exact Or.inr ⟨(index, b) :: before, fork, b', after, seen, found, rfl, hstep hpasses,
          hdiffers, hverdict⟩
    unfold examine at h
    split at h
    · rename_i hfirst
      subst hfirst
      exact hlater .first h
    · rename_i hpos
      split at h
      · rename_i hlow
        split at h
        · cases h
        · rename_i own hstored
          split at h
          · rename_i hsame
            exact hlater (.agrees hpos hlow hstored hsame) h
          · rename_i hother
            split at h
            · cases h
            · rename_i hcompeting
              cases h
              exact Or.inr ⟨[], index, b, rest, previous, missing, rfl, .nil,
                ⟨hpos, hlow, ⟨own, hstored, hother⟩, checkCompeting_eq_ok.mp hcompeting⟩, rfl⟩
      · rename_i hhigh
        split at h
        · cases h
        · rename_i hheight
          rw [ne_eq, Decidable.not_not] at hheight
          split at h
          · cases h
          · rename_i parent hbelow
            split at h
            · cases h
            · rename_i hchecked
              split at h
              · cases h
              · rename_i more hunknown
                exact hlater (.extends hhigh hheight hbelow (checkOn_eq_ok.mp hchecked) hunknown) h

theorem examine_eq_extension {batch : HeaderBatch} {found : List Hash} :
    l.examine previous missing batch = .ok (.extension found) ↔
      ∃ seen, Passes l previous missing batch seen found := by
  constructor
  · intro h
    rcases examine_eq_ok h with
      ⟨seen, found', hpasses, hverdict⟩ | ⟨_, _, _, _, _, _, _, _, _, hverdict⟩
    · cases hverdict
      exact ⟨seen, hpasses⟩
    · cases hverdict
  · rintro ⟨seen, hpasses⟩
    have h := examine_append hpasses []
    rw [List.append_nil] at h
    exact h

theorem examine_eq_fork {batch : HeaderBatch} {fork : UInt64} :
    l.examine previous missing batch = .ok (.fork fork) ↔
      ∃ before b after seen found, batch = before ++ (fork, b) :: after ∧
        Passes l previous missing before seen found ∧ l.Differs seen fork b := by
  constructor
  · intro h
    rcases examine_eq_ok h with
      ⟨_, _, _, hverdict⟩ | ⟨before, fork', b, after, seen, found, hbatch, hpasses, hdiffers, hverdict⟩
    · cases hverdict
    · cases hverdict
      exact ⟨before, b, after, seen, found, hbatch, hpasses, hdiffers⟩
  · rintro ⟨before, b, after, seen, found, rfl, hpasses, hdiffers⟩
    rw [examine_append hpasses, hdiffers.examine]

/-! ## 3. Taking a batch -/

omit [SignatureSuite] in
/-- A change of the chain is made between raising and lowering the flag, or not at all. -/
theorem whileSyncing_cases (l : Ledger)
    (change : Ledger → Except SyncError BatchOutcome × Ledger) :
    (l.syncing = true ∧ l.whileSyncing change = (.error .busy, l)) ∨
      l.syncing = false ∧ l.whileSyncing change =
        ((change { l with syncing := true }).1, (change { l with syncing := true }).2.endSync) := by
  unfold whileSyncing beginSync
  cases hflag : l.syncing with
  | true =>
    have hraised : { l with syncing := true } = l := by
      rw [← hflag]
    exact Or.inl ⟨rfl, by simp only [Bool.not_true, hraised]⟩
  | false => exact Or.inr ⟨rfl, rfl⟩

/-- An outcome that leaves the ledger alone. -/
inductive Refusal : Except SyncError BatchOutcome → Prop where
  | failed (e : SyncError) : Refusal (.error e)
  | ignored (reason : IgnoredBatch) : Refusal (.ok (.ignored reason))
  | missing (hashes : List Hash) : Refusal (.ok (.missingTransactions hashes))

/-- **What a ledger does with a batch.**  It leaves everything as it was, or gives up its blocks
from the first on that differs, or goes on to commit the batch, every entry of which it has gone
through without missing a transaction. -/
theorem takeBatch_cases (l : Ledger) (distance : UInt64) (batch : HeaderBatch) :
    (∃ outcome, Refusal outcome ∧ l.takeBatch distance batch = (outcome, l)) ∨
      (∃ fork, l.examine none [] batch = .ok (.fork fork) ∧ l.syncing = false ∧
        l.takeBatch distance batch =
          ((abandonFrom { l with syncing := true } fork distance).1,
            (abandonFrom { l with syncing := true } fork distance).2.endSync)) ∨
      l.examine none [] batch = .ok (.extension []) ∧ l.syncing = false ∧
        l.takeBatch distance batch =
          ((commitBatch { l with syncing := true } [] batch).1,
            (commitBatch { l with syncing := true } [] batch).2.endSync) := by
  unfold takeBatch
  split
  · rename_i reason _
    exact Or.inl ⟨_, .ignored reason, rfl⟩
  · split
    · rename_i e _
      exact Or.inl ⟨_, .failed e, rfl⟩
    · rename_i fork hverdict
      rcases whileSyncing_cases l fun l => l.abandonFrom fork distance with
        ⟨-, hbusy⟩ | ⟨hflag, hdone⟩
      · exact Or.inl ⟨_, .failed .busy, hbusy⟩
      · exact Or.inr (Or.inl ⟨fork, hverdict, hflag, hdone⟩)
    · exact Or.inl ⟨_, .missing _, rfl⟩
    · rename_i hverdict
      rcases whileSyncing_cases l fun l => l.commitBatch [] batch with
        ⟨-, hbusy⟩ | ⟨hflag, hdone⟩
      · exact Or.inl ⟨_, .failed .busy, hbusy⟩
      · exact Or.inr (Or.inr ⟨hverdict, hflag, hdone⟩)

/-- A batch that is not passed over is taken as it is found to be: one that forks makes the
ledger give up its blocks. -/
theorem takeBatch_of_fork {batch : HeaderBatch} {fork : UInt64} (distance : UInt64)
    (hlooked : l.ignores? batch = none) (hverdict : l.examine none [] batch = .ok (.fork fork))
    (hflag : l.syncing = false) :
    l.takeBatch distance batch =
      ((abandonFrom { l with syncing := true } fork distance).1,
        (abandonFrom { l with syncing := true } fork distance).2.endSync) := by
  simp only [takeBatch, hlooked, hverdict, whileSyncing, beginSync, hflag, Bool.not_false]

/-- One that extends the chain and misses nothing is committed. -/
theorem takeBatch_of_extension {batch : HeaderBatch} (distance : UInt64)
    (hlooked : l.ignores? batch = none)
    (hverdict : l.examine none [] batch = .ok (.extension []))
    (hflag : l.syncing = false) :
    l.takeBatch distance batch =
      ((commitBatch { l with syncing := true } [] batch).1,
        (commitBatch { l with syncing := true } [] batch).2.endSync) := by
  simp only [takeBatch, hlooked, hverdict, whileSyncing, beginSync, hflag, Bool.not_false]

omit [SignatureSuite] in
/-- A ledger that gives up its blocks from one of them on says at which height it ends. -/
theorem abandonFrom_eq_forked {start : Accounts} {c : History} {fork distance : UInt64}
    (hfollows : Follows start l c) (low : fork ≤ l.height)
    (hok : (l.rollback (Word64.saturatingSub fork distance)).1 = .ok ()) :
    l.abandonFrom fork distance =
      (.ok (.forked fork (Word64.saturatingSub fork distance)),
        (l.rollback (Word64.saturatingSub fork distance)).2) := by
  have hback : Follows start (l.rollback (Word64.saturatingSub fork distance)).2
      (c.cut (Word64.saturatingSub fork distance).toNat) := by
    rcases hfollows.rollback (Word64.saturatingSub fork distance) with ⟨-, h⟩ | ⟨⟨e, h⟩, -⟩
    · exact h
    · rw [h] at hok
      cases hok
  have hheight : (l.rollback (Word64.saturatingSub fork distance)).2.height =
      Word64.saturatingSub fork distance := by
    apply UInt64.toNat_inj.mp
    rw [← hback.length, History.length_cut]
    rw [Word64.toNat_saturatingSub]
    have hlow := hfollows.toNat_le.mp low
    omega
  unfold abandonFrom
  split
  · rename_i heq
    rw [heq] at hok
    cases hok
  · rename_i heq
    rw [heq] at hheight ⊢
    rw [hheight]

/-- Committing a batch ends with reports, with transactions to be fetched, or with an error. -/
theorem commitBatch_outcome : ∀ (l : Ledger) (done : List CommitReport) (batch : HeaderBatch),
    (∃ reports, (l.commitBatch done batch).1 = .ok (.committed reports)) ∨
      (∃ hashes, (l.commitBatch done batch).1 = .ok (.missingTransactions hashes)) ∨
      ∃ e, (l.commitBatch done batch).1 = .error e
  | _, done, [] => Or.inl ⟨done, rfl⟩
  | l, done, (index, b) :: rest => by
    unfold commitBatch
    split
    · exact commitBatch_outcome l done rest
    · split
      · exact commitBatch_outcome _ _ rest
      · exact Or.inr (Or.inl ⟨_, rfl⟩)
      · split
        · exact Or.inr (Or.inr ⟨_, rfl⟩)
        · exact Or.inl ⟨_, rfl⟩

/-- Committing a batch does not give up blocks. -/
theorem commitBatch_ne_forked {fork height : UInt64} (batch : HeaderBatch) {done : List CommitReport} :
    (l.commitBatch done batch).1 ≠ .ok (.forked fork height) := by
  intro h
  rcases l.commitBatch_outcome done batch with ⟨reports, hend⟩ | ⟨hashes, hend⟩ | ⟨e, hend⟩ <;>
    simp [hend] at h

/-- **A batch is passed over for nothing but its heights and its tip**: once its blocks are looked
at it is not any more. -/
theorem ignores?_of_ignored {distance : UInt64} {batch : HeaderBatch} {reason : IgnoredBatch}
    (h : (l.takeBatch distance batch).1 = .ok (.ignored reason)) :
    l.ignores? batch = some reason := by
  cases hlooked : l.ignores? batch with
  | some reason' => simpa [takeBatch, hlooked] using h
  | none =>
    exfalso
    unfold takeBatch at h
    simp only [hlooked] at h
    split at h
    · cases h
    · rename_i fork hverdict
      rcases whileSyncing_cases l fun l => l.abandonFrom fork distance with
        ⟨-, hend⟩ | ⟨-, hend⟩
      · simp [hend] at h
      · rw [hend, abandonFrom] at h
        split at h <;> cases h
    · cases h
    · rcases whileSyncing_cases l fun l => l.commitBatch [] batch with ⟨-, hend⟩ | ⟨-, hend⟩
      · simp [hend] at h
      · rw [hend] at h
        rcases commitBatch_outcome { l with syncing := true } [] batch with
          ⟨reports, hdone⟩ | ⟨hashes, hdone⟩ | ⟨e, hdone⟩ <;> simp [hdone] at h

end Ledger

namespace Follower

variable [SignatureSuite] (f : Follower) (batch : HeaderBatch)

@[simp] theorem fst_onHeaders :
    (f.onHeaders batch).1 = (f.ledger.takeBatch f.rollbackDistance batch).1 := rfl

@[simp] theorem ledger_onHeaders :
    (f.onHeaders batch).2.ledger = (f.ledger.takeBatch f.rollbackDistance batch).2 := rfl

@[simp] theorem phase_onHeaders : (f.onHeaders batch).2.phase = .idle := rfl

@[simp] theorem rollbackDistance_onHeaders :
    (f.onHeaders batch).2.rollbackDistance = f.rollbackDistance := rfl

end Follower

end SynergyNode
