import SynergyNode.Proofs.Node.Selection
import SynergyNode.Proofs.Pool.Selection

/-!
# The order in which transactions come back

A rollback offers the transactions of the blocks that it gives up to the pools.  What comes back
goes behind what is pending, but the blocks are gone through from the top, and each of them from its
front: the row is neither that of the chain nor its reverse.

* `flatMap_reverse_eq_iff`: joining rows from the last one on changes the result as soon as two rows
  have something;
* `Keeps.pending_rollback`: the rows of the pools after a rollback;
* `Run.returned_order`: what comes back is in the order of the chain exactly when no more than one
  of the blocks has something for the pool;
* `returned_backwards`: a transfer that comes back in front of the one that funds it.
-/

namespace SynergyNode

/-! ## 1. Rows joined backwards -/

/-- **Joining rows from the last one on changes the result** as soon as two of them have something,
provided that nothing comes twice. -/
theorem flatMap_reverse_eq_iff {α β : Type} {as : List α} {f : α → List β}
    (hnodup : (as.flatMap f).Nodup) :
    as.reverse.flatMap f = as.flatMap f ↔ (as.filter fun a => !(f a).isEmpty).length ≤ 1 := by
  have hdrop (as : List α) : as.flatMap f = (as.filter fun a => !(f a).isEmpty).flatMap f := by
    have hrows : (as.filter fun a => !(f a).isEmpty).map f =
        (as.map f).filter fun row => !row.isEmpty := by rw [List.filter_map]; rfl
    rw [List.flatMap_def, List.flatMap_def, hrows, List.flatten_filter_not_isEmpty]
  have hsome : ∀ a ∈ as.filter fun a => !(f a).isEmpty, f a ≠ [] := by
    intro a ha hempty
    have hmem := (List.mem_filter.mp ha).2
    rw [hempty] at hmem
    cases hmem
  rw [hdrop as] at hnodup
  rw [hdrop as, hdrop as.reverse, List.filter_reverse]
  generalize as.filter (fun a => !(f a).isEmpty) = rows at hnodup hsome
  match rows with
  | [] => exact iff_of_true rfl (Nat.zero_le 1)
  | [a] => exact iff_of_true rfl (Nat.le_refl 1)
  | a :: b :: rest =>
    refine iff_of_false (fun hsame => ?_) (by simp)
    -- The first transaction of the last row would be the first of the first row.
    obtain ⟨hfirst, hrest⟩ := List.forall_mem_cons.mp hsome
    rw [List.flatMap_cons, List.nodup_append] at hnodup
    have hlater : (b :: rest).reverse.flatMap f ≠ [] := by
      rw [ne_eq, List.flatMap_eq_nil_iff]
      intro hall
      exact hrest b List.mem_cons_self (hall b (List.mem_reverse.mpr List.mem_cons_self))
    obtain ⟨x, xs, hx⟩ := List.exists_cons_of_ne_nil hfirst
    obtain ⟨y, ys, hy⟩ := List.exists_cons_of_ne_nil hlater
    have hfront : (a :: b :: rest).flatMap f = x :: (xs ++ (b :: rest).flatMap f) := by
      rw [List.flatMap_cons, hx, List.cons_append]
    have hback : (a :: b :: rest).reverse.flatMap f = y :: (ys ++ [a].flatMap f) := by
      rw [List.reverse_cons, List.flatMap_append, hy, List.cons_append]
    rw [hfront, hback] at hsame
    have hmem : y ∈ (b :: rest).flatMap f := by
      have hy' : y ∈ (b :: rest).reverse.flatMap f := hy ▸ List.mem_cons_self
      simpa only [List.mem_flatMap, List.mem_reverse] using hy'
    exact hnodup.2.2 x (hx ▸ List.mem_cons_self) y hmem (List.head_eq_of_cons_eq hsame).symm

/-! ## 2. What comes back -/

namespace History

variable {start : Accounts} {c : History}

/-- No two of the transactions that are offered have one hash. -/
theorem nodup_offered (hc : c.Sound start) (hfresh : c.Fresh) :
    ((offered c).map Transaction.hash).Nodup := by
  induction c with
  | nil => exact List.nodup_nil
  | cons e c ih =>
    have hlater : ∀ t ∈ offered c, t.hash ∈ txHashes c := fun t ht =>
      (mem_txHashes_iff hc.2).mpr ⟨t, mem_offered.mp ht, rfl⟩
    rw [offered, List.flatMap_cons, List.map_append, List.nodup_append]
    refine ⟨(nodup_eraseDups e.transactions).map_on fun t ht u hu heq => ?_, ih hc.2 hfresh.2, ?_⟩
    · exact hc.1.determined u (List.mem_eraseDups.mp hu) t (List.mem_eraseDups.mp ht) heq
    · rintro hash hown _ hbelow rfl
      obtain ⟨t, ht, rfl⟩ := List.mem_map.mp hown
      obtain ⟨u, hu, heq⟩ := List.mem_map.mp hbelow
      refine hfresh.1 t.hash ?_ (heq ▸ hlater u hu)
      rw [← hc.1.hashes]
      exact List.mem_map_of_mem (List.mem_eraseDups.mp ht)

theorem nodup_offered_above (hc : c.Sound start) (hfresh : c.Fresh) (height : Nat) :
    ((offered (c.above height)).map Transaction.hash).Nodup := by
  have hall := nodup_offered hc hfresh
  rw [← above_append_cut c height, offered, List.flatMap_append] at hall
  exact hall.sublist ((List.sublist_append_left _ _).map _)

end History

namespace Ledger

open History

section

variable {start : Accounts} {l : Ledger} {c : History} {k : PoolKind}

/-- What a pool does not have of what is offered, entry by entry. -/
theorem missing_offered (ps : Pools) (k : PoolKind) (dropped : History) :
    ps.missing k (offered dropped) =
      dropped.flatMap fun e => ps.missing k e.transactions.eraseDups := by
  simp only [Pools.missing, offered, List.filter_flatMap]

/-- **What a rollback gives up goes to the end of the rows**, that of the latest block first. -/
theorem Keeps.pending_rollback (h : Keeps start l c) (hfollows : Follows start l c)
    (hfits : ∀ e ∈ c, e.Fits) (hreached : l.pools.Reached) (height : UInt64)
    (room : (l.pools.get k).Room (l.pools.missing k (offered (c.above height.toNat))))
    (unbanned : ∀ t ∈ l.pools.missing k (offered (c.above height.toNat)),
      (l.pools.get k).isBanned t.hash = false) :
    ((l.rollback height).2.pools.get k).pending =
      (l.pools.get k).pending ++ l.pools.missing k (offered (c.above height.toNat)) := by
  rw [h.pools_rollback hfollows hfits]
  exact Pools.pending_addAll hreached (nodup_offered_above hfollows.sound h.fresh height.toNat) room
    unbanned

variable [SignatureSuite]

/-- **The order in which transactions come back.**  A rollback of a ledger whose pools have room and
do not ban what is given up puts it behind what is pending in each pool: what the pool does not have
yet, the transactions of the latest block first, those of one block in its order.  This is what the
pools offer afterwards, and it is the order in which the chain had applied the transactions exactly
when no more than one of the blocks has something for the pool. -/
theorem Run.returned_order (run : Run Event.Fits start l c)
    (hstart : start.toBytes.length ≤ Protocol.maxMessageBytes) (height : UInt64)
    (hreached : l.pools.Reached)
    (room : ∀ k, (l.pools.get k).Room (l.pools.missing k (offered (c.above height.toNat))))
    (unbanned : ∀ k, ∀ t ∈ l.pools.missing k (offered (c.above height.toNat)),
      (l.pools.get k).isBanned t.hash = false) :
    (l.rollback height).1 = .ok () ∧
    (∀ k, ((l.rollback height).2.pools.get k).pending =
      (l.pools.get k).pending ++ l.pools.missing k (offered (c.above height.toNat))) ∧
    (∀ max next, (l.rollback height).2.pools.peek max next =
      ((PoolKind.all.flatMap fun k =>
        (l.pools.get k).pending ++ l.pools.missing k (offered (c.above height.toNat))).filter
          (Pool.isEligible next)).take max) ∧
    ∀ k, l.pools.missing k (offered (c.above height.toNat)) =
        l.pools.missing k (offered (c.above height.toNat).reverse) ↔
      ((c.above height.toNat).filter fun e =>
        !(l.pools.missing k e.transactions.eraseDups).isEmpty).length ≤ 1 := by
  have hkeeps := (run.completes hstart).keeps
  have hrows (k : PoolKind) :=
    hkeeps.pending_rollback run.follows run.fits hreached height (room k) (unbanned k)
  refine ⟨(run.rollback hstart height).1, hrows, fun max next => ?_, fun k => ?_⟩
  · rw [Pools.peek_eq, Pools.pending_eq_flatMap]
    simp only [hrows]
  · have hnodup := (nodup_offered_above run.follows.sound hkeeps.fresh height.toNat).sublist
      ((l.pools.missing_sublist k _).map _)
    rw [missing_offered] at hnodup
    rw [eq_comm, missing_offered, missing_offered]
    exact flatMap_reverse_eq_iff hnodup.of_map

end

/-! ## 3. A transfer that spends what another one brought -/

namespace Sample

/-- Every signature is valid. -/
local instance assenting : SignatureSuite := suite

/-- A transfer of thirty units from the owner of one key to that of another. -/
def gift (key other : Bytes) : Transaction :=
  let body := { (transfer key).body with recipient := Address.ofPublicKey other }
  ⟨body, .primary, key, Transaction.contentHash body .primary key, [0]⟩

/-- Two owners of keys who may send transfers to each other. -/
structure Partners (key other : Bytes) : Prop where
  giver : OperatorKey key
  taker : OperatorKey other
  apart : Address.ofPublicKey key ≠ Address.ofPublicKey other
  distinct : (gift key other).hash ≠ (gift other key).hash

theorem Partners.symm {key other : Bytes} (hp : Partners key other) : Partners other key :=
  ⟨hp.taker, hp.giver, hp.apart.symm, hp.distinct.symm⟩

/-- Another key. -/
def ones : Bytes := List.replicate 897 1

theorem partners_zeros_ones : Partners zeros ones where
  giver := operatorKey_zeros
  taker := operatorKey_of_front List.length_replicate (by decide +kernel)
  apart h := by
    have hfront : (Address.ofPublicKey zeros).bytes.toList.head? ≠
        (Address.ofPublicKey ones).bytes.toList.head? := by decide +kernel
    exact hfront (by rw [h])
  distinct h := by
    have hfront : (gift zeros ones).hash.toList.head? ≠ (gift ones zeros).hash.toList.head? := by
      decide +kernel
    exact hfront (by rw [h])

variable {key other : Bytes}

theorem verify_gift (hkey : OperatorKey key) (other : Bytes) :
    (gift key other).verify (slots false) = .ok () :=
  Transaction.verify_eq_ok.mpr ⟨rfl, rfl, verify_key hkey _⟩

theorem length_gift (hkey : OperatorKey key) (other : Bytes) :
    (gift key other).toBytes.length = 1036 := by
  have hdata : (gift key other).body.data.length = 0 := rfl
  have hkey : (gift key other).publicKey.length = 897 := hkey.length
  have hsignature : (gift key other).signature.length = 1 := rfl
  rw [Transaction.length_toBytes, hdata, hkey, hsignature]

/-- The balances after such a transfer. -/
def given (b : Balances) (key other : Bytes) : Balances :=
  (b.insert (Address.ofPublicKey key) (b.get (Address.ofPublicKey key) - 30)).insert
    (Address.ofPublicKey other) (b.get (Address.ofPublicKey other) + 30)

theorem get_given (b : Balances) (key other : Bytes) :
    (given b key other).get (Address.ofPublicKey other) =
      b.get (Address.ofPublicKey other) + 30 := by
  rw [given, Balances.get_insert, if_pos rfl]

theorem size_given_le (b : Balances) (key other : Bytes) :
    (given b key other).size ≤ b.size + 2 := by
  have hpaid := @Std.ExtTreeMap.size_insert_le _ _ _ b _ (Address.ofPublicKey key)
    (b.get (Address.ofPublicKey key) - 30)
  have hreached := @Std.ExtTreeMap.size_insert_le _ _ _ (b.insert (Address.ofPublicKey key)
    (b.get (Address.ofPublicKey key) - 30)) _ (Address.ofPublicKey other)
    (b.get (Address.ofPublicKey other) + 30)
  rw [given]
  omega

/-- Who has thirty units can send them, -/
theorem transfers_gift {b : Balances} (hne : Address.ofPublicKey key ≠ Address.ofPublicKey other)
    (hle : 30 ≤ b.get (Address.ofPublicKey key)) (hfits : b.total < UInt64.size)
    (rest : List Transaction) :
    b.transfers (gift key other :: rest) = (given b key other).transfers rest := by
  have hone : b.transfer (gift key other) = .ok (given b key other) :=
    Balances.transfer_of_le hne hle hfits
  simp only [Balances.transfers, hone]

/-- and who has less cannot. -/
theorem transfers_gift_of_lt {b : Balances} (hlt : b.get (Address.ofPublicKey key) < 30)
    (rest : List Transaction) :
    b.transfers (gift key other :: rest) =
      .error (.insufficientBalance (Address.ofPublicKey key) (gift key other).hash) := by
  have hone : b.transfer (gift key other) =
      .error (.insufficientBalance (Address.ofPublicKey key) (gift key other).hash) :=
    Balances.transfer_of_lt hlt
  simp only [Balances.transfers, hone]

/-- Pools with these pending transactions, which have room for both transfers. -/
structure Waiting (key other : Bytes) (ps : Pools) (txs : List Transaction) : Prop where
  reached : ps.Reached
  apart : ps.Apart
  room : ps.Room [gift other key, gift key other]
  unbanned : ∀ hash, ps.isBanned hash = false
  pending : ∀ k, (ps.get k).pending = txs.filter fun t => t.body.kind = k

/-- The pools in which both transfers are pending. -/
def exchange (key other : Bytes) : Pools :=
  (Pools.empty .standard).addAll [gift key other, gift other key]

theorem waiting_exchange (hp : Partners key other) :
    Waiting key other (exchange key other) [gift key other, gift other key] := by
  have hvacant := Pools.vacant_empty .standard
  have hreached := Pools.Reached.empty .standard
  have hunbanned := Pools.isBanned_empty .standard
  have hroom : (Pools.empty .standard).Room ([gift key other, gift other key] ++
      [gift other key, gift key other]) := by
    have hcount : 4 ≤ PoolLimits.standard.maxTransactions := by decide
    have hbytes : 4 * 1036 ≤ PoolLimits.standard.maxBytes := by decide
    refine Pools.room_empty hcount (Nat.le_trans (Nat.le_of_eq ?_) hbytes)
    simp [length_gift hp.giver, length_gift hp.taker]
  have hnodup : ([gift key other, gift other key].map Transaction.hash).Nodup := by
    simpa using hp.distinct
  have hfirst : ((Pools.empty .standard).add (gift key other)).2.Apart :=
    hvacant.apart.add (Pools.contains_eq_false.mpr fun k => hvacant k _)
  have hsecond : ((Pools.empty .standard).add (gift key other)).2.contains (gift other key).hash =
      false := by
    refine Pools.contains_eq_false.mpr fun k => ?_
    rw [Pools.get?_add_of_ne hp.distinct]
    exact hvacant k _
  refine
    { reached := hreached.addAll _
      apart := hfirst.add hsecond
      room := hroom.addAll
      unbanned := fun hash => Pools.isBanned_addAll _ (hunbanned hash)
      pending := fun k => ?_ }
  have hrow : ((Pools.empty .standard).get k).pending = [] := by cases k <;> rfl
  have hmissing := Pools.missing_of_pending_eq_nil hreached hrow
  have htaken := Pools.pending_addAll hreached (k := k) hnodup
  rw [hmissing, hrow, List.nil_append] at htaken
  exact htaken (hroom.sublist (List.sublist_append_left _ _) k)
    fun t _ => Pools.isBanned_eq_false.mp (hunbanned t.hash) k

namespace Waiting

variable {ps : Pools} {txs : List Transaction}

theorem remove (h : Waiting key other ps txs) (hash : Hash) :
    Waiting key other (ps.remove hash).2 (txs.filter fun t => t.hash != hash) where
  reached := h.reached.remove hash
  apart := h.apart.sheds (Pools.sheds_remove ps hash)
  room := h.room.remove hash
  unbanned hash' := Pools.isBanned_remove (h.unbanned hash') hash
  pending k := by
    rw [Pools.pending_remove h.reached h.apart, h.pending, List.filter_filter, List.filter_filter]
    simp only [Bool.and_comm]

theorem find? (h : Waiting key other ps txs) {t : Transaction} (ht : t ∈ txs) :
    ps.find? t.hash = some t := by
  obtain ⟨came, hindexed⟩ := h.reached.indexed t.body.kind
  refine h.apart.find?_of_get? (hindexed.mem_pending.mp ?_)
  rw [h.pending]
  exact List.mem_filter.mpr ⟨ht, decide_eq_true rfl⟩

end Waiting

/-- The run goes on with a block of the operator that lists one transaction. -/
theorem Extendable.run_commit {base : Accounts} {l : Ledger} {c : History} {n : Nat}
    {t : Transaction} {moved : Balances}
    (h : Extendable key false (n + 1) l) (hkey : OperatorKey key) (run : Run Event.Fits base l c)
    (possible : l.lastBlock.height ≠ Word64.max) (hlist : Listable false l [t] moved)
    (hshort : t.toBytes.length ≤ Protocol.maxMessageBytes) (hsize : moved.size ≤ 7) :
    ∃ l' e, Run Event.Fits base l' (e :: c) ∧ Extendable key false n l' ∧ e.transactions = [t] ∧
      l'.pools = (l.pools.remove t.hash).2 ∧ l'.lastBlock.height = l.lastBlock.height + 1 ∧
      moved.payShare (Address.delegated 1) (Synergy.rewardForSupply l.lastBlock.supply) =
        .ok l'.accounts.balances := by
  obtain ⟨paid, hpaid, haccepts, htotal⟩ := h.accepts hkey false hlist
  let b := onTop key l.lastBlock false [t.hash]
  have haccepts : l.Accepts b [t] { l.accounts with balances := paid } := haccepts
  have hslots : b.changedSlots l.lastBlock = [] :=
    Block.changedSlots_of_encryption_eq ((encryption_onTop ..).trans h.encryption.symm)
  have hcommit := commit_of_accepts h.reliable haccepts hslots .sync
  have hsnapshot : ({ l.accounts with balances := paid } : Accounts).toBytes.length ≤
      Protocol.maxMessageBytes := by
    have hgrown := Balances.size_payShare_le hpaid
    have haccounts : ({ l.accounts with balances := paid } : Accounts) =
        { start (Address.ofPublicKey key) with balances := paid } :=
      congrArg (Accounts.mk paid) h.staking
    rw [haccounts]
    exact length_accounts (by omega)
  have hfits : Event.Fits l (.commit b .sync) := by
    intro txs accounts h'
    have hsame := h'.executed
    rw [haccepts.executed] at hsame
    cases hsame
    exact
      { block := length_onTop hkey l.lastBlock false [t.hash] (Nat.le_refl 1)
        transactions := List.forall_mem_singleton.mpr hshort
        snapshot := hsnapshot }
  have run' := run.commit hcommit (execute_eq_ok.mp haccepts.executed).1 possible hfits
  exact ⟨_, _, run', h.committed false [t.hash] [t] htotal l.voting, rfl, rfl, rfl, hpaid⟩

/-- The block may list a transfer that is pending, new and covered; then it has reached its
recipient. -/
theorem Extendable.run_gift {base : Accounts} {l : Ledger} {c : History} {n : Nat} {signer : Bytes}
    (h : Extendable signer false (n + 1) l) (hsigner : OperatorKey signer)
    (run : Run Event.Fits base l c) (possible : l.lastBlock.height ≠ Word64.max)
    (hstart : base.toBytes.length ≤ Protocol.maxMessageBytes) (hp : Partners key other)
    (hpending : l.pools.find? (gift key other).hash = some (gift key other))
    (hnew : (gift key other).hash ∉ txHashes c)
    (hcovered : 30 ≤ l.accounts.balances.get (Address.ofPublicKey key))
    (hsize : l.accounts.balances.size ≤ 5) :
    ∃ l' e, Run Event.Fits base l' (e :: c) ∧ Extendable signer false n l' ∧
      e.transactions = [gift key other] ∧ l'.pools = (l.pools.remove (gift key other).hash).2 ∧
      l'.lastBlock.height = l.lastBlock.height + 1 ∧
      l'.accounts.balances.size ≤ l.accounts.balances.size + 3 ∧
      l'.accounts.balances.get (Address.ofPublicKey other) =
        l.accounts.balances.get (Address.ofPublicKey other) + 30 := by
  have hfits : l.accounts.balances.total < UInt64.size :=
    Nat.lt_of_le_of_lt (Nat.le_add_right _ _) h.money
  have hunstored : l.store.hasTransaction (gift key other).hash = .ok false := by
    rw [run.follows.reliable.hasTransaction, (run.completes hstart).keeps.store]
    refine congrArg Except.ok (Bool.eq_false_iff.mpr fun hstored => hnew ?_)
    exact (Store.contains_transactions_ofHistory run.follows.sound _).mp hstored
  have hlist : Listable false l [gift key other] (given l.accounts.balances key other) :=
    { pending := List.forall_mem_singleton.mpr ⟨hpending, hunstored⟩
      verified := by simp only [checkTransactions, verify_gift hp.giver]
      paid := transfers_gift hp.apart hcovered hfits [] }
  have hlong : (gift key other).toBytes.length ≤ Protocol.maxMessageBytes := by
    rw [length_gift hp.giver]
    decide
  have hsmall := size_given_le l.accounts.balances key other
  obtain ⟨l', e, run', h', htxs, hpools, hheight, hreward⟩ :=
    h.run_commit hsigner run possible hlist hlong (by omega)
  refine ⟨l', e, run', h', htxs, hpools, hheight, ?_, ?_⟩
  · have hgrown := Balances.size_payShare_le hreward
    omega
  · rw [Balances.get_payShare_of_ne (hp.taker.undelegated 1).symm hreward, get_given]

/-- A hundred units with the owner of a key, who signs for the first delegated account. -/
def funds (key : Bytes) : Accounts :=
  { start (Address.ofPublicKey key) with
    balances := (∅ : Balances).insert (Address.ofPublicKey key) 100 }

/-- The ledger that is opened with these accounts and both transfers. -/
def dealing (key other : Bytes) : Ledger :=
  { ledger key with
    store := Store.ofHistory (funds key) [], accounts := funds key, pools := exchange key other }

theorem total_funds (key : Bytes) : (funds key).balances.total = 100 := by
  have hnone : (∅ : Balances)[Address.ofPublicKey key]? = none := Std.ExtTreeMap.getElem?_empty
  exact Balances.total_insert_of_absent hnone 100

theorem get_funds (hp : Partners key other) :
    (funds key).balances.get (Address.ofPublicKey key) = 100 ∧
      (funds key).balances.get (Address.ofPublicKey other) = 0 := by
  rw [funds, Balances.get_insert, Balances.get_insert, if_pos rfl, if_neg hp.apart]
  exact ⟨rfl, rfl⟩

/-- The transfers succeed one after the other, -/
theorem checkTransfers_funds (hp : Partners key other) :
    (funds key).checkTransfers [gift key other, gift other key] = .ok () := by
  obtain ⟨hfirst, hsecond⟩ := get_funds hp
  have hfits : (funds key).balances.total < UInt64.size := by
    have hsize : UInt64.size = 2 ^ 64 := rfl
    rw [total_funds, hsize]
    omega
  have hpaying : 30 ≤ (funds key).balances.get (Address.ofPublicKey key) := by
    rw [hfirst]
    decide
  have hmoved := transfers_gift hp.apart hpaying hfits
  have hkept : (given (funds key).balances key other).total < UInt64.size := by
    have hsame := Balances.total_transfers (hmoved [])
    rw [hsame]
    exact hfits
  have hcovered : 30 ≤ (given (funds key).balances key other).get (Address.ofPublicKey other) := by
    rw [get_given, hsecond]
    decide
  rw [Accounts.checkTransfers, hmoved, transfers_gift hp.symm.apart hcovered hkept,
    Balances.transfers]

/-- and not the other way round. -/
theorem checkTransfers_funds_backwards (hp : Partners key other) :
    (funds key).checkTransfers [gift other key, gift key other] =
      .error (.insufficientBalance (Address.ofPublicKey other) (gift other key).hash) := by
  have hnothing : (funds key).balances.get (Address.ofPublicKey other) < 30 := by
    rw [(get_funds hp).2]
    decide
  rw [Accounts.checkTransfers, transfers_gift_of_lt hnothing]

theorem length_funds (key : Bytes) : (funds key).toBytes.length ≤ Protocol.maxMessageBytes :=
  length_accounts (Nat.le_trans Std.ExtTreeMap.size_insert_le (by decide))

theorem extendable_dealing (key other : Bytes) : Extendable key false 2 (dealing key other) :=
  extendable_genesis rfl (Store.reliable_ofHistory _ []) rfl rfl (by decide)
    (Nat.le_of_eq (total_funds key))

/-- **The run in which one transfer spends what another one brought.** -/
theorem exists_dealt (hp : Partners key other) :
    ∃ l e e', Run Event.Fits (funds key) l [e', e] ∧ e.transactions = [gift key other] ∧
      e'.transactions = [gift other key] ∧ Waiting key other l.pools [] := by
  have run : Run Event.Fits (funds key) (dealing key other) [] := .opened (openOn_empty key _ _)
  have h := extendable_dealing key other
  have hpools : (dealing key other).pools = exchange key other := by rw [dealing]
  have hwaiting := waiting_exchange hp
  rw [← hpools] at hwaiting
  have hbalances : (dealing key other).accounts.balances =
      (∅ : Balances).insert (Address.ofPublicKey key) 100 := by rw [dealing, funds]
  have hcovered : 30 ≤ (dealing key other).accounts.balances.get (Address.ofPublicKey key) := by
    rw [hbalances, Balances.get_insert, if_pos rfl]
    decide
  have hsize : (dealing key other).accounts.balances.size ≤ 1 := by
    rw [hbalances]
    exact Std.ExtTreeMap.size_insert_le
  have hzero : (dealing key other).lastBlock.height = 0 := rfl
  have hstart := length_funds key
  obtain ⟨l₁, e, run₁, h₁, htxs₁, hpools₁, hheight₁, hsize₁, hreached⟩ :=
    (extendable_dealing key other).run_gift hp.giver run (by rw [hzero]; decide) hstart hp
      (hwaiting.find? List.mem_cons_self) List.not_mem_nil hcovered (by omega)
  have hwaiting₁ := hwaiting.remove (gift key other).hash
  have hleft : ([gift key other, gift other key].filter fun t => t.hash != (gift key other).hash) =
      [gift other key] := by simp [hp.distinct.symm]
  rw [← hpools₁, hleft] at hwaiting₁
  have hnew : (gift other key).hash ∉ txHashes [e] := by
    rw [txHashes, List.flatMap_singleton, ← run₁.follows.sound.1.hashes, htxs₁, List.map_singleton,
      List.mem_singleton]
    exact hp.distinct.symm
  have hcovered₁ : 30 ≤ l₁.accounts.balances.get (Address.ofPublicKey other) := by
    have hnothing : (∅ : Balances).get (Address.ofPublicKey other) = 0 := rfl
    rw [hreached, hbalances, Balances.get_insert, if_neg hp.apart, hnothing]
    decide
  obtain ⟨l₂, e', run₂, -, htxs₂, hpools₂, -, -, -⟩ :=
    h₁.run_gift hp.giver run₁ (by rw [hheight₁, hzero]; decide) hstart hp.symm
      (hwaiting₁.find? List.mem_cons_self) hnew hcovered₁ (by omega)
  have hwaiting₂ := hwaiting₁.remove (gift other key).hash
  rw [← hpools₂, List.filter_cons_of_neg (by simp), List.filter_nil] at hwaiting₂
  exact ⟨l₂, e, e', run₂, htxs₁, htxs₂, hwaiting₂⟩

theorem offered_cons {e : Entry} {t : Transaction} (htxs : e.transactions = [t])
    (dropped : History) : offered (e :: dropped) = t :: offered dropped := by
  rw [offered, List.flatMap_cons, htxs]
  rfl

/-- Pools without pending transactions miss all transfers. -/
theorem Waiting.missing {ps : Pools} (h : Waiting key other ps []) (k : PoolKind)
    (txs : List Transaction) : ps.missing k txs = txs.filter fun t => t.body.kind = k :=
  Pools.missing_of_pending_eq_nil h.reached (h.pending k) txs

/-- Transfers in the row of the standard pool are offered for a block. -/
theorem peek_gifts {ps : Pools} {txs : List Transaction} {next : UInt64}
    (hrows : ∀ k, (ps.get k).pending = txs.filter fun t => t.body.kind = k)
    (hgifts : ∀ t ∈ txs, ∃ key other, t = gift key other) (hlength : txs.length ≤ 10)
    (hnext : next.toNat ≤ Protocol.maxTransactionDelay.toNat) : ps.peek 10 next = txs := by
  have hstandard : txs.filter (fun t => t.body.kind = .standard) = txs := by
    refine List.filter_eq_self.mpr fun t ht => ?_
    obtain ⟨key, other, rfl⟩ := hgifts t ht
    rfl
  have hother {k : PoolKind} (hk : PoolKind.standard ≠ k) :
      txs.filter (fun t => t.body.kind = k) = [] := by
    refine List.filter_eq_nil_iff.mpr fun t ht => ?_
    obtain ⟨key, other, rfl⟩ := hgifts t ht
    exact fun hkind => hk (of_decide_eq_true hkind)
  have heligible : txs.filter (Pool.isEligible next) = txs := by
    refine List.filter_eq_self.mpr fun t ht => ?_
    obtain ⟨key, other, rfl⟩ := hgifts t ht
    have hzero : (gift key other).body.height = 0 := rfl
    rw [Pool.isEligible_iff, hzero]
    exact ⟨UInt64.zero_le, Nat.le_trans hnext (Nat.le_add_left _ _)⟩
  have hall : ps.pending = txs := by
    have hfirst := hrows .standard
    have hsecond := hrows .escrow
    have hthird := hrows .multiSig
    rw [hstandard] at hfirst
    rw [hother (by decide)] at hsecond hthird
    simp only [Pools.get] at hfirst hsecond hthird
    rw [Pools.pending, hfirst, hsecond, hthird, List.append_nil, List.append_nil]
  rw [Pools.peek_eq, hall, heligible, List.take_of_length_le hlength]

end Sample

/-- When only the latest block is given up, what comes back is in the order of the chain. -/
theorem returned_order_latest :
    ∃ (_ : SignatureSuite) (start : Accounts) (l : Ledger) (c : History) (t : Transaction),
      Run Event.Fits start l c ∧ start.toBytes.length ≤ Protocol.maxMessageBytes ∧
        l.pools.Reached ∧ c.length = 2 ∧ (l.rollback 1).1 = .ok () ∧
        (l.rollback 1).2.pools.peek 10 2 = [t] ∧
        ∀ k, l.pools.missing k (offered (c.above 1)) =
          l.pools.missing k (offered (c.above 1).reverse) := by
  let := Sample.suite
  obtain ⟨key, other, hp⟩ : ∃ key other, Sample.Partners key other :=
    ⟨_, _, Sample.partners_zeros_ones⟩
  obtain ⟨l, e, e', run, -, htxs', hwaiting⟩ := Sample.exists_dealt hp
  have habove : above [e', e] (1 : UInt64).toNat = [e'] := rfl
  have hoffered : offered [e'] = [Sample.gift other key] := Sample.offered_cons htxs' []
  have hroom : l.pools.Room [Sample.gift other key] :=
    hwaiting.room.sublist (List.sublist_append_left [Sample.gift other key] _)
  have hunbanned (k : PoolKind) (t : Transaction) : (l.pools.get k).isBanned t.hash = false :=
    Pools.isBanned_eq_false.mp (hwaiting.unbanned t.hash) k
  obtain ⟨hok, hrows, -, horder⟩ := Run.returned_order run (Sample.length_funds key) 1
    hwaiting.reached (fun k => by rw [habove, hoffered, hwaiting.missing]; exact hroom k)
    (fun k t _ => hunbanned k t)
  simp only [habove, hoffered, hwaiting.missing, hwaiting.pending, List.filter_nil,
    List.nil_append] at hrows
  refine ⟨_, _, l, [e', e], Sample.gift other key, run, Sample.length_funds key, hwaiting.reached,
    rfl, hok, ?_, fun k => (horder k).mpr (List.length_filter_le _ [e'])⟩
  refine Sample.peek_gifts hrows ?_ (Nat.le_of_ble_eq_true rfl) (by decide)
  exact List.forall_mem_singleton.mpr ⟨_, _, rfl⟩

/-- **A transfer comes back in front of the one that funds it.**  The chain had applied the two one
block after the other; when both blocks are given up, the pools offer them the other way round, and
the check of a block's transfers then fails for the one that is funded too late. -/
theorem returned_backwards :
    ∃ (_ : SignatureSuite) (start : Accounts) (l : Ledger) (c : History) (t u : Transaction),
      Run Event.Fits start l c ∧ start.toBytes.length ≤ Protocol.maxMessageBytes ∧
        l.pools.Reached ∧ l.pools.Room (offered c) ∧ (∀ hash, l.pools.isBanned hash = false) ∧
        transactions c.reverse = [t, u] ∧ (l.rollback 0).1 = .ok () ∧
        (l.rollback 0).2.pools.peek 10 1 = [u, t] ∧
        (l.rollback 0).2.accounts.checkTransfers [t, u] = .ok () ∧
        (l.rollback 0).2.accounts.checkTransfers [u, t] =
          .error (.insufficientBalance u.body.sender u.hash) := by
  let := Sample.suite
  obtain ⟨key, other, hp⟩ : ∃ key other, Sample.Partners key other :=
    ⟨_, _, Sample.partners_zeros_ones⟩
  obtain ⟨l, e, e', run, htxs, htxs', hwaiting⟩ := Sample.exists_dealt hp
  have hstart := Sample.length_funds key
  obtain ⟨hok, hback⟩ := run.rollback hstart 0
  have hoffered : offered [e', e] = [Sample.gift other key, Sample.gift key other] := by
    rw [Sample.offered_cons htxs', Sample.offered_cons htxs]
    rfl
  have hrows (k : PoolKind) : ((l.rollback 0).2.pools.get k).pending =
      [Sample.gift other key, Sample.gift key other].filter fun t => t.body.kind = k := by
    have habove : above [e', e] (0 : UInt64).toNat = [e', e] := rfl
    have hrow := (run.completes hstart).keeps.pending_rollback (k := k) run.follows run.fits
      hwaiting.reached 0
    rw [habove, hoffered, hwaiting.missing, hwaiting.pending] at hrow
    exact hrow (hwaiting.room k) fun t _ => Pools.isBanned_eq_false.mp (hwaiting.unbanned t.hash) k
  have hpeek : (l.rollback 0).2.pools.peek 10 1 =
      [Sample.gift other key, Sample.gift key other] := by
    refine Sample.peek_gifts hrows ?_ (Nat.le_of_ble_eq_true rfl) (by decide)
    exact List.forall_mem_cons.mpr ⟨⟨_, _, rfl⟩, List.forall_mem_singleton.mpr ⟨_, _, rfl⟩⟩
  have haccounts : (l.rollback 0).2.accounts = Sample.funds key := hback.follows.accounts
  refine ⟨_, _, l, [e', e], Sample.gift key other, Sample.gift other key, run, hstart,
    hwaiting.reached, hoffered ▸ hwaiting.room, hwaiting.unbanned, ?_, hok, hpeek, ?_, ?_⟩
  · simp only [transactions, List.reverse_cons, List.reverse_nil, List.nil_append,
      List.singleton_append, List.flatMap_cons, List.flatMap_nil, List.append_nil, htxs, htxs']
  · rw [haccounts]
    exact Sample.checkTransfers_funds hp
  · rw [haccounts]
    exact Sample.checkTransfers_funds_backwards hp

end Ledger

end SynergyNode
