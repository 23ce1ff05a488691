import SynergyNode.Proofs.Except
import SynergyNode.Proofs.Ledger.History
import SynergyNode.Proofs.Voting

/-!
# What a commit does

A commit is either refused, and then at most votes were looked at, or it makes exactly the
writes of the block and moves the ledger to it (`commit_cases`); when the store may fail, a commit
that is not refused still leaves this ledger but for the store (`commit_eq_ok`), and what it is
refused for tells which step found it (`execute_of_commit_eq_error`).  What was checked
of an accepted block is `Accepts`; it is everything that `Entry.Extends` asks of the next entry of
a history (`Accepts.extends`).
-/

namespace SynergyNode

/-! ## 1. Transactions of a block -/

/-- A pool holds every transaction under its own hash. -/
theorem Pool.hash_of_get? {p : Pool} {hash : Hash} {t : Transaction} (h : p.get? hash = some t) :
    t.hash = hash := by
  obtain ⟨e, he, rfl⟩ := Option.map_eq_some_iff.mp h
  exact p.keyed hash e he

theorem Pools.hash_of_find? {ps : Pools} {hash : Hash} {t : Transaction}
    (h : ps.find? hash = some t) : t.hash = hash := by
  obtain ⟨p, _, hp⟩ := List.exists_of_findSome?_eq_some h
  exact Pool.hash_of_get? hp

namespace Ledger

variable {l : Ledger} {b : Block} {txs : List Transaction} {accounts : Accounts}

/-- What is found for a list of hashes: pending transactions with these hashes, none of them
committed, and nothing for the hashes that are reported missing. -/
theorem lookUp_eq_ok : ∀ {hashes : List Hash} {found : List Transaction},
    l.lookUp hashes = .ok (found, []) →
      found.map Transaction.hash = hashes ∧
        ∀ t ∈ found, l.pools.find? t.hash = some t ∧ l.store.hasTransaction t.hash = .ok false
  | [], found, h => by
    cases h
    exact ⟨rfl, by simp⟩
  | hash :: rest, found, h => by
    unfold lookUp at h
    split at h
    · cases h
    · cases h
    · rename_i hnew
      split at h
      · cases h
      · rename_i found' missing hrest
        split at h
        · rename_i t hfind
          cases h
          obtain ⟨hmap, hall⟩ := lookUp_eq_ok hrest
          have hhash : t.hash = hash := Pools.hash_of_find? hfind
          refine ⟨by rw [List.map_cons, hmap, hhash], ?_⟩
          intro t' ht'
          rcases List.mem_cons.mp ht' with rfl | ht'
          · rw [hhash]
            exact ⟨hfind, hnew⟩
          · exact hall t' ht'
        · cases h

/-- Transactions that are pending and not committed are found under their hashes, as often as
these are listed. -/
theorem lookUp_of_pending : ∀ {txs : List Transaction},
    (∀ t ∈ txs, l.pools.find? t.hash = some t ∧ l.store.hasTransaction t.hash = .ok false) →
      l.lookUp (txs.map Transaction.hash) = .ok (txs, [])
  | [], _ => rfl
  | t :: txs, h => by
    obtain ⟨⟨hfind, hnew⟩, hrest⟩ := List.forall_mem_cons.mp h
    simp only [List.map_cons, lookUp, hnew, lookUp_of_pending hrest, hfind]

theorem collectTransactions_eq_ok (h : l.collectTransactions b = .ok txs) :
    txs.map Transaction.hash = b.txHashes ∧
      ∀ t ∈ txs, l.pools.find? t.hash = some t ∧ l.store.hasTransaction t.hash = .ok false := by
  unfold collectTransactions at h
  split at h
  · cases h
  · rename_i hlook
    cases h
    exact lookUp_eq_ok hlook
  · cases h

/-- Among the transactions of a block the hash determines the transaction. -/
theorem eq_of_hash_eq (h : l.collectTransactions b = .ok txs) {t t' : Transaction} (ht : t ∈ txs)
    (ht' : t' ∈ txs) (hhash : t'.hash = t.hash) : t' = t := by
  have hall := (collectTransactions_eq_ok h).2
  have hfind := (hall t' ht').1
  rw [hhash, (hall t ht).1] at hfind
  exact (Option.some.inj hfind).symm

end Ledger

/-! ## 2. The checks on a block -/

namespace Block

variable {b previous : Block}

theorem verifyLinkage_eq_ok :
    b.verifyLinkage previous = .ok () ↔
      b.height = previous.height + 1 ∧ b.header.previousHash = previous.blockHash := by
  unfold verifyLinkage
  split
  · rename_i h
    constructor
    · intro e
      cases e
    · intro e
      exact absurd e.1 h
  · rename_i h
    split
    · rename_i h'
      constructor
      · intro e
        cases e
      · intro e
        exact absurd e.2 h'
    · rename_i h'
      exact ⟨fun _ => ⟨Decidable.not_not.mp h, Decidable.not_not.mp h'⟩, fun _ => rfl⟩

/-- A block declares schemes exactly when its header does. -/
theorem schemes_eq_ok {live : LiveSchemes} :
    b.schemes = .ok live ↔ Ledger.declaredSchemes b.header = .ok live := by
  unfold schemes Ledger.declaredSchemes
  cases b.header.descriptor .primary with
  | error e => simp
  | ok p => cases b.header.descriptor .secondary <;> simp

theorem changedSlots_of_encryption_eq
    (h : b.header.encryption = previous.header.encryption) : b.changedSlots previous = [] := by
  simp [changedSlots, h]

/-- What the reward, the supply, the difficulty and the hash of an accepted block are. -/
theorem checkEconomics_eq_ok :
    b.checkEconomics previous = .ok () ↔
      b.rewardPercentage ≤ Protocol.maxRewardPercentage ∧
        b.reward = Synergy.rewardForSupply previous.supply ∧
        b.supply = Word64.saturatingAdd previous.supply b.reward ∧
        b.header.difficulty = b.expectedDifficulty previous ∧
        Synergy.passes b.blockHash b.header.difficulty = true := by
  unfold checkEconomics
  constructor
  · intro h
    simp only at h
    split at h
    · cases h
    rename_i hcap
    split at h
    · cases h
    rename_i hreward
    split at h
    · cases h
    rename_i hsupply
    split at h
    · cases h
    rename_i hdifficulty
    split at h
    · cases h
    rename_i hpasses
    have hreward := Decidable.not_not.mp hreward
    have hsupply := Decidable.not_not.mp hsupply
    rw [← hreward] at hsupply
    exact ⟨UInt16.not_lt.mp hcap, hreward, hsupply, Decidable.not_not.mp hdifficulty,
      by simpa using hpasses⟩
  · rintro ⟨hcap, hreward, hsupply, hdifficulty, hpasses⟩
    simp only [if_neg (UInt16.not_lt.mpr hcap), ← hreward, ← hsupply, ← hdifficulty, hpasses,
      ne_eq, not_true_eq_false, if_false, Bool.not_true, Bool.false_eq_true]

theorem checkBase_eq_ok [SignatureSuite] {tree : Merkle.Tree} :
    b.checkBase previous = .ok tree ↔
      b.verifyLinkage previous = .ok () ∧ b.header.hash = b.headerHash ∧
        b.contentHash = b.blockHash ∧ (∃ declared, b.schemes = .ok declared) ∧
        (∃ live, previous.schemes = .ok live ∧ b.header.verifySignature live = .ok ()) ∧
        b.checkEconomics previous = .ok () ∧ b.tree.root = b.header.merkleRoot ∧
        b.tree = tree := by
  unfold checkBase
  simp only [bind_eq_ok, guard_eq_ok, ne_eq, Decidable.not_not]
  constructor
  · rintro ⟨⟨⟩, link, header, content, declared, hdeclared, live, hlive, ⟨⟩, signature, ⟨⟩,
      economics, root, htree⟩
    exact ⟨link, header, content, ⟨declared, hdeclared⟩, ⟨live, hlive, signature⟩, economics, root,
      Except.ok.inj htree⟩
  · rintro ⟨link, header, content, ⟨declared, hdeclared⟩, ⟨live, hlive, signature⟩, economics, root,
      rfl⟩
    exact ⟨(), link, header, content, declared, hdeclared, live, hlive, (), signature, (),
      economics, root, rfl⟩

end Block

/-! ## 3. The live schemes -/

namespace Ledger

theorem declaredSchemes_eq_ok {h : Header} {live : LiveSchemes} :
    declaredSchemes h = .ok live ↔ ∀ slot, h.descriptor slot = .ok (live.get slot) := by
  unfold declaredSchemes
  constructor
  · intro e slot
    split at e
    · cases e
    · rename_i p hp
      split at e
      · cases e
      · rename_i s hs
        cases e
        cases slot
        · exact hp
        · exact hs
  · intro e
    rw [e .primary, e .secondary]
    rfl

/-- Descriptors that can be read are put in force: only the given slots change, and they take up
what the header declares. -/
theorem takeUpSchemes_of_declared {h : Header} {declared : LiveSchemes}
    (hdeclared : declaredSchemes h = .ok declared) :
    ∀ (changed : List Slot) (live : LiveSchemes),
      (takeUpSchemes h changed live).1 = .ok () ∧
        ∀ slot, (takeUpSchemes h changed live).2.get slot =
          if slot ∈ changed then declared.get slot else live.get slot
  | [], live => by simp [takeUpSchemes]
  | s :: rest, live => by
    have hs := declaredSchemes_eq_ok.mp hdeclared s
    obtain ⟨hok, hget⟩ := takeUpSchemes_of_declared hdeclared rest (live.set s (declared.get s))
    simp only [takeUpSchemes, hs]
    refine ⟨hok, fun slot => ?_⟩
    rw [hget]
    by_cases hmem : slot ∈ rest
    · simp [hmem]
    · by_cases heq : slot = s
      · subst heq
        simp
      · simp [hmem, heq, PerSlot.get_set_of_ne heq]

/-- After a block that follows `previous`, the schemes that its header declares are live. -/
theorem takeUpSchemes_changedSlots {b previous : Block} {live declared : LiveSchemes}
    (hlive : declaredSchemes previous.header = .ok live)
    (hdeclared : declaredSchemes b.header = .ok declared) :
    (takeUpSchemes b.header (b.changedSlots previous) live).2 = declared := by
  refine PerSlot.ext fun slot => ?_
  rw [(takeUpSchemes_of_declared hdeclared _ live).2]
  split
  · rfl
  · rename_i hkept
    have hsame : b.header.encryption.get slot = previous.header.encryption.get slot := by
      have hall : slot ∈ Slot.all := by cases slot <;> simp [Slot.all]
      simpa [Block.changedSlots, hall] using hkept
    have hold := declaredSchemes_eq_ok.mp hlive slot
    have hnew := declaredSchemes_eq_ok.mp hdeclared slot
    rw [Header.descriptor, hsame] at hnew
    rw [Header.descriptor, hnew] at hold
    exact (Except.ok.inj hold).symm

/-! ## 4. Writing -/

/-- The ledger with operations of its store that fail. -/
def failing (l : Ledger) (failure : StoreOperation → Option StoreError) : Ledger :=
  { l with store := l.store.failing failure }

@[simp] theorem store_failing (l : Ledger) (failure : StoreOperation → Option StoreError) :
    (l.failing failure).store = l.store.failing failure := rfl

@[simp] theorem height_failing (l : Ledger) (failure : StoreOperation → Option StoreError) :
    (l.failing failure).height = l.height := rfl

variable {l : Ledger} {b : Block} {txs : List Transaction} {accounts : Accounts}

/-- The ledger after it committed a block. -/
def committed (l : Ledger) (b : Block) (txs : List Transaction) (accounts : Accounts) : Ledger :=
  { l with
    store := l.store.applyAll (commitWrites b txs accounts.toBytes)
    accounts := accounts
    pools := txs.foldl (fun p t => (p.remove t.hash).2) l.pools
    lastBlock := b
    height := b.height
    schemes := (takeUpSchemes b.header (b.changedSlots l.lastBlock) l.schemes).2
    voting := if b.changedSlots l.lastBlock = [] then l.voting else l.voting.reset
    stats := l.stats.update b l.lastBlock }

theorem blocks_committed (l : Ledger) (b : Block) (txs : List Transaction) (accounts : Accounts) :
    (l.committed b txs accounts).store.blocks = l.store.blocks.insert b.height b.toBytes := rfl

theorem snapshots_committed (l : Ledger) (b : Block) (txs : List Transaction)
    (accounts : Accounts) : (l.committed b txs accounts).store.snapshots =
      l.store.snapshots.insert b.height accounts.toBytes := rfl

theorem transactions_committed (l : Ledger) (b : Block) (txs : List Transaction)
    (accounts : Accounts) : (l.committed b txs accounts).store.transactions =
      (l.store.apply (.putTransactions txs)).transactions := rfl

theorem getElem?_blocks_committed_of_ne {height : UInt64} (hne : height ≠ b.height) :
    (l.committed b txs accounts).store.blocks[height]? = l.store.blocks[height]? := by
  rw [blocks_committed, Table.getElem?_insert_of_ne hne.symm]

/-- A block that was committed is read back, as long as it can be. -/
theorem block?_committed_self (hs : l.store.Reliable)
    (hb : b.toBytes.length ≤ Protocol.maxMessageBytes) :
    (l.committed b txs accounts).store.block? b.height = .ok (some b) :=
  have hreliable : (l.committed b txs accounts).store.Reliable := hs.applyAll _
  hreliable.block?_of_stored Std.ExtTreeMap.getElem?_insert_self hb

/-- Nothing can fail behind the writes when the block declares descriptors that can be read. -/
theorem advance_of_declared {declared : LiveSchemes}
    (hdeclared : declaredSchemes b.header = .ok declared) (l : Ledger) (store : Store)
    (txs : List Transaction) (accounts : Accounts) :
    advance { l with store := store, accounts := accounts } b txs (b.changedSlots l.lastBlock) =
      (.ok (), { l.committed b txs accounts with store := store }) := by
  have hok := (takeUpSchemes_of_declared hdeclared (b.changedSlots l.lastBlock) l.schemes).1
  unfold advance
  simp only
  split
  · rename_i e schemes htake
    rw [htake] at hok
    cases hok
  · rename_i schemes htake
    simp only [committed, htake]

theorem persist_of_reliable (hs : l.store.Reliable) (b : Block) (txs : List Transaction)
    (snapshot : Bytes) :
    persist l.store b txs snapshot =
      (.ok (), l.store.applyAll (commitWrites b txs snapshot)) := by
  have htree : l.store.putMerkleTree b.tree =
      .ok (l.store.applyAll [.putTree b.height b.tree.toBytes]) := hs.perform _ _
  have hrest := (hs.applyAll [.putTree b.height b.tree.toBytes]).perform .commit
    (Store.commitWrites b txs snapshot)
  simp only [persist, htree, Store.commit, hrest]
  rfl

theorem finish_of_reliable (hs : l.store.Reliable) {declared : LiveSchemes}
    (hdeclared : declaredSchemes b.header = .ok declared) (txs : List Transaction)
    (accounts : Accounts) :
    l.finish b txs accounts (b.changedSlots l.lastBlock) =
      (.ok ⟨b.height, txs.length, b.changedSlots l.lastBlock⟩, l.committed b txs accounts) := by
  simp only [finish, persist_of_reliable hs, advance_of_declared hdeclared]
  rfl

/-- What finishing a commit leaves when it is not refused, whatever the store did. -/
theorem finish_eq_ok {l' : Ledger} {report : CommitReport} {declared : LiveSchemes}
    (hdeclared : declaredSchemes b.header = .ok declared)
    (h : l.finish b txs accounts (b.changedSlots l.lastBlock) = (.ok report, l')) :
    ∃ store, l' = { l.committed b txs accounts with store := store } := by
  unfold finish at h
  split at h
  · rename_i store _
    rw [advance_of_declared hdeclared] at h
    cases h
    exact ⟨store, rfl⟩
  · split at h <;> cases h

/-- Checking the slots that change only looks at the votes of some slots. -/
theorem checkChanges_snd (l : Ledger) (b : Block) (origin : BlockOrigin) (slots : List Slot) :
    ∃ looked, (l.checkChanges b origin slots).2 =
      { l with voting := l.voting.look looked b.height } := by
  induction slots generalizing l with
  | nil => exact ⟨[], rfl⟩
  | cons slot rest ih =>
    unfold checkChanges
    split
    · exact ⟨[], rfl⟩
    · split
      · split
        · exact ⟨[slot], rfl⟩
        · obtain ⟨looked, h⟩ := ih { l with voting := l.voting.prune slot b.height }
          exact ⟨slot :: looked, h⟩
      · exact ih l

theorem checkChanges_of_fst {origin : BlockOrigin} {slots : List Slot}
    {result : Except LedgerError Unit} (h : (l.checkChanges b origin slots).1 = result) :
    ∃ looked, l.checkChanges b origin slots =
      (result, { l with voting := l.voting.look looked b.height }) := by
  obtain ⟨looked, hlooked⟩ := checkChanges_snd l b origin slots
  exact ⟨looked, Prod.ext h hlooked⟩

/-- From the first height on at which slots may change, all of them may in the history of a peer. -/
theorem checkChanges_sync_of_le (h : Protocol.encryptionChangeMinHeight ≤ b.height)
    (slots : List Slot) : l.checkChanges b .sync slots = (.ok (), l) := by
  induction slots with
  | nil => rfl
  | cons slot rest ih =>
    simp only [checkChanges, if_neg (UInt64.not_lt.mpr h), reduceCtorEq, if_false, ih]

/-- Slots that may change for one origin may change in the history of a peer. -/
theorem checkChanges_sync_of_ok {l₀ : Ledger} {b : Block} {origin : BlockOrigin}
    {slots : List Slot} (h : (l₀.checkChanges b origin slots).1 = .ok ()) (l : Ledger) :
    l.checkChanges b .sync slots = (.ok (), l) := by
  cases slots with
  | nil => rfl
  | cons slot rest =>
    refine checkChanges_sync_of_le (UInt64.not_lt.mp fun hlow => ?_) (slot :: rest)
    simp only [checkChanges, if_pos hlow] at h
    cases h

/-- Slots that change in the history of a peer need no votes, and none are forgotten. -/
theorem checkChanges_sync_snd (l : Ledger) (b : Block) (slots : List Slot) :
    (l.checkChanges b .sync slots).2 = l := by
  induction slots with
  | nil => rfl
  | cons slot rest ih =>
    unfold checkChanges
    split
    · rfl
    · exact ih

/-- Whether they may change is seen from the block alone. -/
theorem checkChanges_sync_fst (l l' : Ledger) (b : Block) (slots : List Slot) :
    (l'.checkChanges b .sync slots).1 = (l.checkChanges b .sync slots).1 := by
  induction slots with
  | nil => rfl
  | cons slot rest ih =>
    unfold checkChanges
    split
    · rfl
    · exact ih

/-- What is said of the slots depends on the last block, the accounts and the votes alone. -/
theorem checkChanges_fst_congr {l' : Ledger} (hlast : l'.lastBlock = l.lastBlock)
    (haccounts : l'.accounts = l.accounts) (hvoting : l'.voting = l.voting) (origin : BlockOrigin)
    (slots : List Slot) :
    (l'.checkChanges b origin slots).1 = (l.checkChanges b origin slots).1 := by
  induction slots generalizing l l' with
  | nil => rfl
  | cons slot rest ih =>
    have hbacked : l'.checkBacked b slot = l.checkBacked b slot := by
      simp only [checkBacked, hlast, haccounts, hvoting]
    simp only [checkChanges, hbacked, hvoting]
    split
    · rfl
    · split
      · split
        · rfl
        · exact ih hlast haccounts rfl
      · exact ih hlast haccounts hvoting

/-! ## 5. What a block is refused for -/

/-- What only carrying a block out can find, and none of the checks before. -/
def OfExecution : LedgerError → Prop
  | .account _ => True
  | .transaction _ _ => True
  | .missingTransactions _ => True
  | .alreadyCommitted _ => True
  | _ => False

theorem lookUp_eq_error {e : LedgerError} {hashes : List Hash} (h : l.lookUp hashes = .error e) :
    (∃ cause, e = .store cause) ∨ ∃ hash, e = .alreadyCommitted hash := by
  induction hashes with
  | nil => cases h
  | cons hash rest ih =>
    unfold lookUp at h
    split at h
    · cases h
      exact Or.inl ⟨_, rfl⟩
    · cases h
      exact Or.inr ⟨_, rfl⟩
    · split at h
      · rename_i hrest
        cases h
        exact ih hrest
      · split at h <;> cases h

theorem collectTransactions_eq_error {e : LedgerError} (h : l.collectTransactions b = .error e) :
    (∃ cause, e = .store cause) ∨ (∃ hash, e = .alreadyCommitted hash) ∨
      ∃ found missing, l.lookUp b.txHashes = .ok (found, missing) ∧ missing ≠ [] ∧
        e = .missingTransactions missing := by
  unfold collectTransactions at h
  split at h
  · rename_i hlook
    cases h
    rcases lookUp_eq_error hlook with hstore | hcommitted
    · exact Or.inl hstore
    · exact Or.inr (Or.inl hcommitted)
  · cases h
  · rename_i found missing hne hlook
    cases h
    exact Or.inr (Or.inr ⟨found, missing, hlook, hne, rfl⟩)

theorem checkTransactions_eq_ok [SignatureSuite] {live : LiveSchemes} {txs : List Transaction} :
    checkTransactions live txs = .ok () ↔ ∀ t ∈ txs, t.verify live = .ok () := by
  induction txs with
  | nil => simp [checkTransactions]
  | cons t rest ih =>
    rw [List.forall_mem_cons, ← ih, checkTransactions]
    cases t.verify live <;> simp

theorem checkTransactions_eq_error [SignatureSuite] {e : LedgerError} {live : LiveSchemes}
    {txs : List Transaction} (h : checkTransactions live txs = .error e) :
    ∃ t ∈ txs, ∃ cause, e = .transaction t.hash cause ∧ t.verify live = .error cause := by
  induction txs with
  | nil => cases h
  | cons t rest ih =>
    unfold checkTransactions at h
    split at h
    · rename_i cause hverify
      cases h
      exact ⟨t, List.mem_cons_self, cause, rfl, hverify⟩
    · obtain ⟨u, hu, hrefused⟩ := ih h
      exact ⟨u, List.mem_cons_of_mem t hu, hrefused⟩

theorem checkBlock_eq_error [SignatureSuite] {e : LedgerError} (h : l.checkBlock b = .error e) :
    ¬ OfExecution e := by
  unfold checkBlock at h
  split at h
  · cases h
    exact id
  · unfold checkOperator at h
    simp only at h
    split at h
    · cases h
      exact id
    · split at h
      · cases h
        exact id
      · cases h

theorem checkBacked_eq_error {e : LedgerError} {slot : Slot} (h : l.checkBacked b slot = .error e) :
    ¬ OfExecution e := by
  unfold checkBacked at h
  split at h
  · cases h
    exact id
  · split at h
    · cases h
      exact id
    · split at h
      · cases h
      · cases h
        exact id

theorem checkChanges_eq_error {e : LedgerError} {origin : BlockOrigin} {slots : List Slot}
    (h : (l.checkChanges b origin slots).1 = .error e) : ¬ OfExecution e := by
  induction slots generalizing l with
  | nil => cases h
  | cons slot rest ih =>
    unfold checkChanges at h
    split at h
    · cases h
      exact id
    · split at h
      · split at h
        · rename_i hbacked
          cases h
          exact checkBacked_eq_error hbacked
        · exact ih h
      · exact ih h

/-! ## 6. Commits -/

variable [SignatureSuite]

theorem execute_eq_ok :
    l.execute b = .ok (txs, accounts) ↔
      l.collectTransactions b = .ok txs ∧
        (∃ live, l.lastBlock.schemes = .ok live ∧ checkTransactions live txs = .ok ()) ∧
        l.accounts.applyBlock b txs = .ok accounts := by
  unfold execute
  constructor
  · intro h
    split at h
    · cases h
    · rename_i collected
      split at h
      · cases h
      · rename_i live hlive
        split at h
        · cases h
        · rename_i hverified
          split at h
          · cases h
          · rename_i happlied
            cases h
            exact ⟨collected, ⟨live, hlive, hverified⟩, happlied⟩
  · rintro ⟨collected, ⟨live, hlive, verified⟩, applied⟩
    simp only [collected, hlive, verified, applied]

/-- What holds of a block that the ledger accepts. -/
structure Accepts (l : Ledger) (b : Block) (txs : List Transaction) (accounts : Accounts) :
    Prop where
  checked : l.checkBlock b = .ok ()
  executed : l.execute b = .ok (txs, accounts)

theorem checkBlock_eq_ok :
    l.checkBlock b = .ok () ↔
      b.checkBase l.lastBlock = .ok b.tree ∧ l.checkOperator b = .ok () := by
  unfold checkBlock
  split
  · rename_i h
    simp [h]
  · rename_i tree h
    have htree : b.tree = tree := (Block.checkBase_eq_ok.mp h).2.2.2.2.2.2.2
    rw [h, htree]
    exact ⟨fun h => ⟨rfl, h⟩, fun h => h.2⟩

/-- A block that passes its checks declares descriptors that can be read. -/
theorem declaredSchemes_of_checkBlock (h : l.checkBlock b = .ok ()) :
    ∃ declared, declaredSchemes b.header = .ok declared := by
  obtain ⟨-, -, -, ⟨declared, hdeclared⟩, -⟩ := Block.checkBase_eq_ok.mp (checkBlock_eq_ok.mp h).1
  exact ⟨declared, Block.schemes_eq_ok.mp hdeclared⟩

/-- What the checks on a block look at. -/
theorem checkBlock_congr {l' : Ledger} (haccounts : l'.accounts = l.accounts)
    (hlast : l'.lastBlock = l.lastBlock) (hstake : l'.minStake = l.minStake) (b : Block) :
    l'.checkBlock b = l.checkBlock b := by
  simp only [checkBlock, checkOperator, haccounts, hlast, hstake]

/-- What carrying out a block looks at. -/
theorem execute_congr {l' : Ledger} (hstore : l'.store = l.store) (hpools : l'.pools = l.pools)
    (haccounts : l'.accounts = l.accounts) (hlast : l'.lastBlock = l.lastBlock) (b : Block) :
    l'.execute b = l.execute b := by
  have hlook : ∀ hashes, l'.lookUp hashes = l.lookUp hashes := by
    intro hashes
    induction hashes with
    | nil => rfl
    | cons hash rest ih => simp only [lookUp, hstore, hpools, ih]
  simp only [execute, collectTransactions, hlook, haccounts, hlast]

/-- Executing a block does not look at votes. -/
theorem execute_voting (l : Ledger) (b : Block) (voting : Voting) :
    execute { l with voting := voting } b = l.execute b := by
  refine execute_congr ?_ ?_ ?_ ?_ b <;> rfl

/-- **The stages of a commit**: the checks of the block, those of the slots that it changes,
carrying it out, and writing.  Each comes after those before it have passed, and up to the last one
the ledger does nothing but look at votes. -/
theorem commit_stages (l : Ledger) (b : Block) (origin : BlockOrigin) :
    (∃ e, l.checkBlock b = .error e ∧ l.commit b origin = (.error e, l)) ∨
      l.checkBlock b = .ok () ∧ ∃ looked,
        ((∃ e, l.checkChanges b origin (b.changedSlots l.lastBlock) =
              (.error e, { l with voting := l.voting.look looked b.height }) ∧
            l.commit b origin = (.error e, { l with voting := l.voting.look looked b.height })) ∨
          l.checkChanges b origin (b.changedSlots l.lastBlock) =
              (.ok (), { l with voting := l.voting.look looked b.height }) ∧
            ((∃ e, l.execute b = .error e ∧
                l.commit b origin =
                  (.error e, { l with voting := l.voting.look looked b.height })) ∨
              ∃ txs accounts, l.execute b = .ok (txs, accounts) ∧
                l.commit b origin =
                  finish { l with voting := l.voting.look looked b.height } b txs accounts
                    (b.changedSlots l.lastBlock))) := by
  unfold commit
  cases l.checkBlock b with
  | error e => exact Or.inl ⟨e, rfl, rfl⟩
  | ok _ =>
    obtain ⟨looked, hlooked⟩ := checkChanges_snd l b origin (b.changedSlots l.lastBlock)
    refine Or.inr ⟨rfl, looked, ?_⟩
    rcases hchanges : l.checkChanges b origin (b.changedSlots l.lastBlock) with ⟨e | _, l'⟩ <;>
      rw [hchanges] at hlooked <;> subst hlooked
    · exact Or.inl ⟨e, rfl, rfl⟩
    · refine Or.inr ⟨rfl, ?_⟩
      simp only [execute_voting]
      cases l.execute b with
      | error e => exact Or.inl ⟨e, rfl, rfl⟩
      | ok carried => exact Or.inr ⟨carried.1, carried.2, rfl, rfl⟩

/-- **What a commit does.**  Either it is refused and does nothing but look at votes, or the
block is accepted and the ledger moves to it. -/
theorem commit_cases (hs : l.store.Reliable) (b : Block) (origin : BlockOrigin) :
    (∃ e looked, l.commit b origin =
        (.error e, { l with voting := l.voting.look looked b.height })) ∨
      ∃ txs accounts looked, l.Accepts b txs accounts ∧
        l.commit b origin =
          (.ok ⟨b.height, txs.length, b.changedSlots l.lastBlock⟩,
            committed { l with voting := l.voting.look looked b.height } b txs accounts) := by
  rcases commit_stages l b origin with ⟨e, -, hcommit⟩ |
    ⟨hchecked, looked, ⟨e, -, hcommit⟩ | ⟨-, ⟨e, -, hcommit⟩ | ⟨txs, accounts, hexecute, hcommit⟩⟩⟩
  · exact Or.inl ⟨e, [], hcommit⟩
  · exact Or.inl ⟨e, looked, hcommit⟩
  · exact Or.inl ⟨e, looked, hcommit⟩
  · obtain ⟨declared, hdeclared⟩ := declaredSchemes_of_checkBlock hchecked
    have hfinish :=
      finish_of_reliable (l := { l with voting := l.voting.look looked b.height }) hs hdeclared txs
        accounts
    exact Or.inr ⟨txs, accounts, looked, ⟨hchecked, hexecute⟩, hcommit.trans hfinish⟩

/-- **What a commit that is not refused leaves**: but for the store it is the ledger that moved to
the block, whose slots had passed. -/
theorem commit_eq_ok {l' : Ledger} {origin : BlockOrigin} {report : CommitReport}
    (h : l.commit b origin = (.ok report, l')) :
    ∃ txs accounts store voting, l.Accepts b txs accounts ∧
      l.checkChanges b origin (b.changedSlots l.lastBlock) =
        (.ok (), { l with voting := voting }) ∧
      l' = { committed { l with voting := voting } b txs accounts with store := store } := by
  rcases commit_stages l b origin with ⟨_, -, hcommit⟩ |
    ⟨hchecked, looked, ⟨_, -, hcommit⟩ |
      ⟨hchanges, ⟨_, -, hcommit⟩ | ⟨txs, accounts, hexecute, hcommit⟩⟩⟩ <;> rw [h] at hcommit
  · cases hcommit
  · cases hcommit
  · cases hcommit
  · obtain ⟨declared, hdeclared⟩ := declaredSchemes_of_checkBlock hchecked
    obtain ⟨store, hstore⟩ := finish_eq_ok (l := { l with voting := _ }) hdeclared hcommit.symm
    exact ⟨txs, accounts, store, _, ⟨hchecked, hexecute⟩, hchanges, hstore⟩

theorem checkChanges_of_commit {l₀ l₁ : Ledger} {b : Block} {origin : BlockOrigin}
    {report : CommitReport} (h : l₀.commit b origin = (.ok report, l₁)) :
    (l₀.checkChanges b origin (b.changedSlots l₀.lastBlock)).1 = .ok () := by
  obtain ⟨_, _, _, _, -, hchanges, -⟩ := commit_eq_ok h
  rw [hchanges]

/-- A block that passes all checks is committed. -/
theorem commit_of_checkChanges (hs : l.store.Reliable) (h : l.Accepts b txs accounts)
    {origin : BlockOrigin}
    (hchanges : (l.checkChanges b origin (b.changedSlots l.lastBlock)).1 = .ok ()) :
    ∃ looked, l.commit b origin =
      (.ok ⟨b.height, txs.length, b.changedSlots l.lastBlock⟩,
        committed { l with voting := l.voting.look looked b.height } b txs accounts) := by
  obtain ⟨looked, hpassed⟩ := checkChanges_of_fst hchanges
  obtain ⟨declared, hdeclared⟩ := declaredSchemes_of_checkBlock h.checked
  have hfinish :=
    finish_of_reliable (l := { l with voting := l.voting.look looked b.height }) hs hdeclared txs
      accounts
  exact ⟨looked, by simp only [commit, h.checked, hpassed, execute_voting, h.executed, hfinish]⟩

/-- A block is refused for what is found when it is carried out. -/
theorem commit_of_execute_eq_error {origin : BlockOrigin} {e : LedgerError}
    (hchecked : l.checkBlock b = .ok ())
    (hchanges : (l.checkChanges b origin (b.changedSlots l.lastBlock)).1 = .ok ())
    (h : l.execute b = .error e) : (l.commit b origin).1 = .error e := by
  obtain ⟨looked, hpassed⟩ := checkChanges_of_fst hchanges
  simp only [commit, hchecked, hpassed, execute_voting, h]

/-- A block that passes the checks and changes no slot is committed. -/
theorem commit_of_accepts (hs : l.store.Reliable) (h : l.Accepts b txs accounts)
    (hslots : b.changedSlots l.lastBlock = []) (origin : BlockOrigin) :
    l.commit b origin = (.ok ⟨b.height, txs.length, []⟩, l.committed b txs accounts) := by
  obtain ⟨declared, hdeclared⟩ := declaredSchemes_of_checkBlock h.checked
  have hfinish := finish_of_reliable hs hdeclared txs accounts
  rw [hslots] at hfinish
  simp only [commit, h.checked, hslots, checkChanges, h.executed, hfinish]

/-- An accepted block goes on from the history that the ledger stands on, unless the next height
does not fit. -/
theorem Accepts.extends {start : Accounts} {c : History} (h : l.Accepts b txs accounts)
    (hc : c.Sound start) (hlast : l.lastBlock = c.tip) (haccounts : l.accounts = c.accounts start)
    (hheight : l.lastBlock.height ≠ Word64.max) :
    Entry.Extends start ⟨b, txs, accounts⟩ c := by
  obtain ⟨link, -, -, ⟨declared, hdeclared⟩, -, economics, root, -⟩ :=
    Block.checkBase_eq_ok.mp (checkBlock_eq_ok.mp h.checked).1
  obtain ⟨next, previousHash⟩ := Block.verifyLinkage_eq_ok.mp link
  obtain ⟨collected, -, applied⟩ := execute_eq_ok.mp h.executed
  have hmax : l.lastBlock.height.toNat ≠ Word64.max.toNat := fun h =>
    hheight (UInt64.toNat_inj.mp h)
  have hnext : b.height.toNat = l.lastBlock.height.toNat + 1 := by
    have hlt := l.lastBlock.height.toNat_lt
    have hword := Word64.toNat_max
    rw [next, UInt64.toNat_add, UInt64.toNat_one]
    omega
  rw [hlast] at hnext previousHash economics
  rw [haccounts] at applied
  exact
    { height := by rw [hnext, hc.tip_height]
      previousHash := previousHash
      schemes := ⟨declared, Block.schemes_eq_ok.mp hdeclared⟩
      economics := economics
      root := root
      hashes := (collectTransactions_eq_ok collected).1
      determined := fun _ ht _ ht' hhash => eq_of_hash_eq collected ht ht' hhash
      applied := applied }

/-- What stops a block from being carried out: its transactions are not to be had, the schemes that
the last block declares cannot be read, one of the transactions is not valid under them, or the
accounts cannot take the block. -/
theorem execute_eq_error {e : LedgerError} (h : l.execute b = .error e) :
    l.collectTransactions b = .error e ∨
      ∃ txs, l.collectTransactions b = .ok txs ∧
        ((∃ cause, e = .block cause ∧ l.lastBlock.schemes = .error cause) ∨
          (∃ live, l.lastBlock.schemes = .ok live ∧
            ∃ t ∈ txs, ∃ cause, e = .transaction t.hash cause ∧ t.verify live = .error cause) ∨
          ∃ cause, e = .account cause ∧ l.accounts.applyBlock b txs = .error cause) := by
  unfold execute at h
  split at h
  · rename_i hcollect
    cases h
    exact Or.inl hcollect
  rename_i txs hcollect
  refine Or.inr ⟨txs, hcollect, ?_⟩
  split at h
  · rename_i cause hlive
    cases h
    exact Or.inl ⟨cause, rfl, hlive⟩
  rename_i live hlive
  split at h
  · rename_i hverify
    cases h
    exact Or.inr (Or.inl ⟨live, hlive, checkTransactions_eq_error hverify⟩)
  · split at h
    · rename_i cause happly
      cases h
      exact Or.inr (Or.inr ⟨cause, rfl, happly⟩)
    · cases h

theorem execute_eq_error_account {cause : AccountError}
    (h : l.execute b = .error (.account cause)) :
    ∃ txs, l.collectTransactions b = .ok txs ∧ l.accounts.applyBlock b txs = .error cause := by
  rcases execute_eq_error h with
    hcollect | ⟨txs, hcollect, ⟨_, he, -⟩ | ⟨_, -, _, -, _, he, -⟩ | ⟨_, he, happly⟩⟩
  · rcases collectTransactions_eq_error hcollect with
      ⟨_, he⟩ | ⟨_, he⟩ | ⟨_, _, -, -, he⟩ <;> cases he
  · cases he
  · cases he
  · cases he
    exact ⟨txs, hcollect, happly⟩

theorem execute_of_applyBlock_eq_error {live : LiveSchemes} {cause : AccountError}
    (hcollect : l.collectTransactions b = .ok txs) (hlive : l.lastBlock.schemes = .ok live)
    (hverified : checkTransactions live txs = .ok ())
    (h : l.accounts.applyBlock b txs = .error cause) : l.execute b = .error (.account cause) := by
  simp only [execute, hcollect, hlive, hverified, h]

/-- A block is refused for one of its transactions when that transaction is not valid under the
schemes that the last block declares. -/
theorem execute_eq_error_transaction {hash : Hash} {cause : TransactionError}
    (h : l.execute b = .error (.transaction hash cause)) :
    ∃ txs live, l.collectTransactions b = .ok txs ∧ l.lastBlock.schemes = .ok live ∧
      ∃ t ∈ txs, t.hash = hash ∧ t.verify live = .error cause := by
  rcases execute_eq_error h with
    hcollect | ⟨txs, hcollect, ⟨_, he, -⟩ | ⟨live, hlive, t, ht, _, he, hrefused⟩ | ⟨_, he, -⟩⟩
  · rcases collectTransactions_eq_error hcollect with
      ⟨_, he⟩ | ⟨_, he⟩ | ⟨_, _, -, -, he⟩ <;> cases he
  · cases he
  · cases he
    exact ⟨txs, live, hcollect, hlive, t, ht, rfl, hrefused⟩
  · cases he

/-- **What only carrying a block out can find was found by it**, after all checks were passed. -/
theorem execute_of_commit_eq_error (hs : l.store.Reliable) {origin : BlockOrigin}
    {e : LedgerError} (h : (l.commit b origin).1 = .error e) (he : OfExecution e) :
    l.checkBlock b = .ok () ∧ l.execute b = .error e := by
  rcases commit_stages l b origin with ⟨_, hrefused, hcommit⟩ |
    ⟨hchecked, looked, ⟨_, hchanges, hcommit⟩ |
      ⟨-, ⟨_, hexecute, hcommit⟩ | ⟨txs, accounts, -, hcommit⟩⟩⟩ <;> rw [hcommit] at h
  · cases h
    exact absurd he (checkBlock_eq_error hrefused)
  · cases h
    exact absurd he (checkChanges_eq_error (congrArg Prod.fst hchanges))
  · cases h
    exact ⟨hchecked, hexecute⟩
  · obtain ⟨declared, hdeclared⟩ := declaredSchemes_of_checkBlock hchecked
    have hfinish :=
      finish_of_reliable (l := { l with voting := l.voting.look looked b.height }) hs hdeclared txs
        accounts
    rw [hfinish] at h
    cases h

/-- **A commit that is refused for the accounts was refused by them**: the block passed all its
checks and its transactions were found, but carrying it out failed. -/
theorem commit_eq_error_account (hs : l.store.Reliable) {origin : BlockOrigin}
    {cause : AccountError} (h : (l.commit b origin).1 = .error (.account cause)) :
    l.checkBlock b = .ok () ∧
      ∃ txs, l.collectTransactions b = .ok txs ∧ l.accounts.applyBlock b txs = .error cause := by
  obtain ⟨hchecked, hexecute⟩ := execute_of_commit_eq_error hs h trivial
  exact ⟨hchecked, execute_eq_error_account hexecute⟩

end Ledger

end SynergyNode
