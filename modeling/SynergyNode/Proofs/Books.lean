import SynergyNode.Proofs.Accounts
import SynergyNode.Proofs.Ledger.Commit

/-!
# Transfers over unbounded integers

Transfers are checked with words of 64 bits, one account at a time, and an account may be on both
sides of a transfer or have a part in the reward as well.  What is meant is simpler: everybody's
balance is an integer without bounds (`Books`), a transfer takes its amount from the sender and then
adds it for the recipient, and it must not leave the sender below zero or the recipient above what a
balance can hold.

* `Balances.transfer_cases_books`, `Balances.payShare_cases_books`: what one step does is what it
  does to the books;
* `Balances.transfers_eq_ok_iff`, `Balances.transfers_eq_error_iff`: so is what a whole list does,
  and the error is that of the first transfer that cannot be made;
* `Accounts.applyBlock_books`: a block makes its transfers and pays its reward, or leaves the
  accounts as they were.
-/

namespace SynergyNode

/-- Everybody's balance, as integers without bounds. -/
abbrev Books := Address → Int

namespace Books

/-! ## 1. Entries -/

/-- The most that a balance can hold. -/
def limit : Int := Word64.max.toNat

/-- Adds an amount, which may be negative, for one account. -/
def enter (m : Books) (a : Address) (amount : Int) : Books :=
  fun x => if x = a then m x + amount else m x

/-- The sender has paid. -/
def pay (m : Books) (t : Transaction) : Books := m.enter t.body.sender (-t.body.amount.toNat)

/-- The sender has paid, and the recipient has been credited. -/
def move (m : Books) (t : Transaction) : Books :=
  (m.pay t).enter t.body.recipient t.body.amount.toNat

/-- The books after transfers, whether they may be made or not. -/
def after (m : Books) (txs : List Transaction) : Books := txs.foldl move m

/-- The operator's share of the reward of a block. -/
def operatorShare (b : Block) : Nat := (Synergy.splitReward b.reward b.rewardPercentage).1.toNat

/-- The delegated account's share. -/
def delegatedShare (b : Block) : Nat := (Synergy.splitReward b.reward b.rewardPercentage).2.toNat

/-- The books after the reward of a block; one account may get both shares. -/
def reward (m : Books) (b : Block) : Books :=
  (m.enter b.header.operator (operatorShare b)).enter (Address.delegated b.header.delegatedId)
    (delegatedShare b)

@[simp] theorem enter_self (m : Books) (a : Address) (amount : Int) :
    m.enter a amount a = m a + amount := if_pos rfl

theorem enter_zero (m : Books) (a : Address) : m.enter a 0 = m := by
  funext x
  simp only [enter, Int.add_zero, ite_self]

theorem le_enter (m : Books) (a : Address) (n : Nat) (x : Address) : m x ≤ m.enter a n x := by
  unfold enter
  split <;> omega

/-! ## 2. Which transfers may be made -/

/-- A transfer may be made: the sender is not taken below zero, nor the recipient above what a
balance can hold. -/
structure Admits (m : Books) (t : Transaction) : Prop where
  sender : 0 ≤ m.pay t t.body.sender
  recipient : m.move t t.body.recipient ≤ limit

/-- Why a transfer is refused.  An overdraft names the transaction. -/
inductive Refuses (m : Books) (t : Transaction) : AccountError → Prop where
  | overdraft (sender : m.pay t t.body.sender < 0) :
      Refuses m t (.insufficientBalance t.body.sender t.hash)
  | overflow (sender : 0 ≤ m.pay t t.body.sender) (recipient : limit < m.move t t.body.recipient) :
      Refuses m t (.overflow t.body.recipient)

/-- Each of the transfers may be made after those before it. -/
def Performs (m : Books) (txs : List Transaction) : Prop :=
  ∀ before t rest, txs = before ++ t :: rest → (m.after before).Admits t

/-- The first of the transfers that may not be made is refused for this reason. -/
def Stops (m : Books) (txs : List Transaction) (e : AccountError) : Prop :=
  ∃ before t rest, txs = before ++ t :: rest ∧ m.Performs before ∧ (m.after before).Refuses t e

theorem Refuses.unique {m : Books} {t : Transaction} {e e' : AccountError} (h : m.Refuses t e)
    (h' : m.Refuses t e') : e = e' := by
  cases h with
  | overdraft sender =>
    cases h' with
    | overdraft _ => rfl
    | overflow sender' _ => omega
  | overflow sender _ =>
    cases h' with
    | overdraft sender' => omega
    | overflow _ _ => rfl

theorem Refuses.not_admits {m : Books} {t : Transaction} {e : AccountError} (h : m.Refuses t e) :
    ¬ m.Admits t := by
  rintro ⟨sender, recipient⟩
  cases h with
  | overdraft sender' => omega
  | overflow _ recipient' => omega

theorem performs_nil (m : Books) : m.Performs [] := by
  rintro (_ | _) _ _ h <;> cases h

theorem performs_cons {m : Books} {t : Transaction} {txs : List Transaction} :
    m.Performs (t :: txs) ↔ m.Admits t ∧ (m.move t).Performs txs := by
  constructor
  · intro h
    refine ⟨h [] t txs rfl, ?_⟩
    rintro before u rest rfl
    exact h (t :: before) u rest rfl
  · rintro ⟨hadmits, hrest⟩ (_ | ⟨u, before⟩) v rest h
    · cases h
      exact hadmits
    · cases h
      exact hrest before v rest rfl

theorem stops_cons {m : Books} {t : Transaction} {txs : List Transaction} {e : AccountError} :
    m.Stops (t :: txs) e ↔ m.Refuses t e ∨ m.Admits t ∧ (m.move t).Stops txs e := by
  constructor
  · rintro ⟨_ | ⟨u, before⟩, v, rest, h, hbefore, hrefuses⟩
    · cases h
      exact Or.inl hrefuses
    · cases h
      obtain ⟨hadmits, hbefore⟩ := performs_cons.mp hbefore
      exact Or.inr ⟨hadmits, before, v, rest, rfl, hbefore, hrefuses⟩
  · rintro (hrefuses | ⟨hadmits, before, v, rest, rfl, hbefore, hrefuses⟩)
    · exact ⟨[], t, txs, rfl, performs_nil m, hrefuses⟩
    · exact ⟨t :: before, v, rest, rfl, performs_cons.mpr ⟨hadmits, hbefore⟩, hrefuses⟩

end Books

/-! ## 3. Balances -/

namespace Balances

/-- The books of balances. -/
def books (b : Balances) : Books := fun a => (b.get a).toNat

theorem books_le (b : Balances) (a : Address) : b.books a ≤ Books.limit := by
  have hlt := (b.get a).toNat_lt
  simp only [books, Books.limit, Word64.toNat_max]
  omega

theorem books_insert {b : Balances} {a : Address} {v : UInt64} {amount : Int}
    (hv : (v.toNat : Int) = b.books a + amount) :
    books (b.insert a v) = b.books.enter a amount := by
  funext x
  simp only [books, Books.enter, get_insert, eq_comm (a := x)]
  split
  · rename_i heq
    subst heq
    exact hv
  · rfl

theorem credit_cases_books (b : Balances) (a : Address) (amount : UInt64) :
    (∃ b', b.credit a amount = .ok b' ∧ b'.books = b.books.enter a amount.toNat ∧
        b.books.enter a amount.toNat a ≤ Books.limit) ∨
      b.credit a amount = .error (.overflow a) ∧
        Books.limit < b.books.enter a amount.toNat a := by
  unfold credit
  have hbalance : b.books a = (b.get a).toNat := rfl
  have hmax := Word64.toNat_max
  rw [Books.enter_self, hbalance, Books.limit]
  cases hsum : Word64.checkedAdd? (b.get a) amount with
  | some sum =>
    have hadd := Word64.checkedAdd?_eq_some_iff.mp hsum
    have hlt := sum.toNat_lt
    exact Or.inl ⟨_, rfl, books_insert (by omega), by omega⟩
  | none =>
    refine Or.inr ⟨rfl, ?_⟩
    unfold Word64.checkedAdd? at hsum
    split at hsum
    · cases hsum
    · omega

/-- **A transfer of words is one of integers.** -/
theorem transfer_cases_books (b : Balances) (t : Transaction) :
    (∃ b', b.transfer t = .ok b' ∧ b'.books = b.books.move t ∧ b.books.Admits t) ∨
      ∃ e, b.transfer t = .error e ∧ b.books.Refuses t e := by
  have hpaid : b.books.pay t t.body.sender =
      (b.get t.body.sender).toNat - t.body.amount.toNat := Books.enter_self _ _ _
  unfold transfer
  cases hrest : Word64.checkedSub? (b.get t.body.sender) t.body.amount with
  | none =>
    refine Or.inr ⟨_, rfl, .overdraft ?_⟩
    unfold Word64.checkedSub? at hrest
    split at hrest
    · cases hrest
    · rename_i hlt
      rw [UInt64.le_iff_toNat_le] at hlt
      omega
  | some rest =>
    have hsub := Word64.checkedSub?_eq_some_iff.mp hrest
    have hsender : 0 ≤ b.books.pay t t.body.sender := by omega
    have hbooks : books (b.insert t.body.sender rest) = b.books.pay t :=
      books_insert (by simp only [books]; omega)
    rcases credit_cases_books (b.insert t.body.sender rest) t.body.recipient t.body.amount with
      ⟨b', hok, hbooks', hle⟩ | ⟨herror, hlt⟩
    · rw [hbooks] at hbooks' hle
      exact Or.inl ⟨b', hok, hbooks', hsender, hle⟩
    · rw [hbooks] at hlt
      exact Or.inr ⟨_, herror, .overflow hsender hlt⟩

/-- So is a list of them, up to the first that may not be made. -/
theorem transfers_cases_books (b : Balances) (txs : List Transaction) :
    (∃ b', b.transfers txs = .ok b' ∧ b'.books = b.books.after txs ∧ b.books.Performs txs) ∨
      ∃ e, b.transfers txs = .error e ∧ b.books.Stops txs e := by
  induction txs generalizing b with
  | nil => exact Or.inl ⟨b, rfl, rfl, Books.performs_nil _⟩
  | cons t txs ih =>
    unfold transfers
    rcases transfer_cases_books b t with ⟨b', hok, hmoved, hadmits⟩ | ⟨e, herror, hrefuses⟩
    · simp only [hok]
      rcases ih b' with ⟨b'', hrest, hbooks, hperforms⟩ | ⟨e, hrest, hstops⟩
      · rw [hmoved] at hbooks hperforms
        exact Or.inl ⟨b'', hrest, hbooks, Books.performs_cons.mpr ⟨hadmits, hperforms⟩⟩
      · rw [hmoved] at hstops
        exact Or.inr ⟨e, hrest, Books.stops_cons.mpr (Or.inr ⟨hadmits, hstops⟩)⟩
    · simp only [herror]
      exact Or.inr ⟨e, rfl, Books.stops_cons.mpr (Or.inl hrefuses)⟩

end Balances

namespace Books

/-- Transfers that can be made do not stop. -/
theorem Stops.not_performs {m : Books} {txs : List Transaction} {e : AccountError}
    (h : m.Stops txs e) : ¬ m.Performs txs := by
  obtain ⟨before, t, rest, rfl, -, hrefuses⟩ := h
  exact fun hperforms => hrefuses.not_admits (hperforms before t rest rfl)

/-- And there is only one reason for which they do. -/
theorem Stops.unique {m : Books} {txs : List Transaction} {e e' : AccountError}
    (h : m.Stops txs e) (h' : m.Stops txs e') : e = e' := by
  induction txs generalizing m with
  | nil =>
    obtain ⟨_ | _, _, _, hnil, -⟩ := h <;> cases hnil
  | cons t txs ih =>
    rcases stops_cons.mp h with hrefuses | ⟨hadmits, hrest⟩
    · rcases stops_cons.mp h' with hrefuses' | ⟨hadmits', -⟩
      · exact hrefuses.unique hrefuses'
      · exact absurd hadmits' hrefuses.not_admits
    · rcases stops_cons.mp h' with hrefuses' | ⟨-, hrest'⟩
      · exact absurd hadmits hrefuses'.not_admits
      · exact ih hrest hrest'

end Books

namespace Balances

variable {b b' : Balances} {txs : List Transaction}

theorem transfers_eq_ok_iff : (∃ b', b.transfers txs = .ok b') ↔ b.books.Performs txs := by
  rcases transfers_cases_books b txs with ⟨b', hok, -, hperforms⟩ | ⟨e, herror, hstops⟩
  · exact ⟨fun _ => hperforms, fun _ => ⟨b', hok⟩⟩
  · constructor
    · rintro ⟨b', hok⟩
      rw [herror] at hok
      cases hok
    · exact fun hperforms => absurd hperforms hstops.not_performs

theorem transfers_eq_error_iff {e : AccountError} :
    b.transfers txs = .error e ↔ b.books.Stops txs e := by
  rcases transfers_cases_books b txs with ⟨b', hok, -, hperforms⟩ | ⟨e', herror, hstops⟩
  · constructor
    · intro herror
      rw [hok] at herror
      cases herror
    · exact fun hstops => absurd hperforms hstops.not_performs
  · constructor
    · intro h
      rw [herror] at h
      cases h
      exact hstops
    · intro h
      rw [herror, h.unique hstops]

theorem books_transfers (h : b.transfers txs = .ok b') : b'.books = b.books.after txs := by
  rcases transfers_cases_books b txs with ⟨_, hok, hbooks, -⟩ | ⟨_, herror, -⟩
  · rw [h] at hok
    cases hok
    exact hbooks
  · rw [h] at herror
    cases herror

/-- A share is paid if the account can hold it. -/
theorem payShare_cases_books (b : Balances) (a : Address) (share : UInt64) :
    (∃ b', b.payShare a share = .ok b' ∧ b'.books = b.books.enter a share.toNat ∧
        b.books.enter a share.toNat a ≤ Books.limit) ∨
      b.payShare a share = .error (.overflow a) ∧
        Books.limit < b.books.enter a share.toNat a := by
  unfold payShare
  split
  · rename_i hzero
    subst hzero
    have hnothing : b.books.enter a (0 : UInt64).toNat = b.books := Books.enter_zero _ _
    rw [hnothing]
    exact Or.inl ⟨b, rfl, rfl, books_le b a⟩
  · exact credit_cases_books b a share

end Balances

/-! ## 4. Blocks -/

namespace Accounts

/-- The books of all accounts. -/
def books (a : Accounts) : Books := a.balances.books

theorem checkTransfers_eq_ok_iff {a : Accounts} {txs : List Transaction} :
    a.checkTransfers txs = .ok () ↔ a.books.Performs txs := by
  rw [books, ← Balances.transfers_eq_ok_iff, checkTransfers]
  cases a.balances.transfers txs <;> simp

theorem checkTransfers_eq_error_iff {a : Accounts} {txs : List Transaction} {e : AccountError} :
    a.checkTransfers txs = .error e ↔ a.books.Stops txs e := by
  rw [books, ← Balances.transfers_eq_error_iff, checkTransfers]
  cases a.balances.transfers txs <;> simp

theorem applyBlock_of_checkTransfers {a : Accounts} {txs : List Transaction} {e : AccountError}
    (h : a.checkTransfers txs = .error e) (b : Block) : a.applyBlock b txs = .error e := by
  rw [checkTransfers_eq_error_iff, books, ← Balances.transfers_eq_error_iff] at h
  rw [applyBlock, h]
  rfl

/-- Transfers that can be made are made, and then the reward is paid if everybody can hold what is
due. -/
theorem applyBlock_cases_books {a : Accounts} {txs : List Transaction}
    (h : a.books.Performs txs) (b : Block) :
    (∃ a', a.applyBlock b txs = .ok a' ∧ a'.books = (a.books.after txs).reward b) ∨
      ∃ x, a.applyBlock b txs = .error (.overflow x) ∧
        Books.limit < (a.books.after txs).reward b x := by
  obtain ⟨moved, hmoved⟩ := Balances.transfers_eq_ok_iff.mpr h
  have hafter : moved.books = a.books.after txs := Balances.books_transfers hmoved
  unfold applyBlock
  simp only [hmoved, bind, Except.bind, pure, Except.pure]
  rw [← hafter]
  rcases moved.payShare_cases_books b.header.operator
      (Synergy.splitReward b.reward b.rewardPercentage).1 with
    ⟨paid, hpaid, hbooks, -⟩ | ⟨hpaid, hlarge⟩
  · simp only [hpaid]
    rcases paid.payShare_cases_books (Address.delegated b.header.delegatedId)
        (Synergy.splitReward b.reward b.rewardPercentage).2 with
      ⟨both, hboth, hbooks', -⟩ | ⟨hboth, hlarge⟩
    · rw [hbooks] at hbooks'
      simp only [hboth]
      exact Or.inl ⟨_, rfl, hbooks'⟩
    · rw [hbooks] at hlarge
      simp only [hboth]
      exact Or.inr ⟨_, rfl, hlarge⟩
  · simp only [hpaid]
    -- The second share only adds to what is too much already.
    exact Or.inr ⟨_, rfl, Int.lt_of_lt_of_le hlarge (Books.le_enter _ _ _ _)⟩

theorem performs_of_applyBlock {a a' : Accounts} {b : Block} {txs : List Transaction}
    (h : a.applyBlock b txs = .ok a') : a.books.Performs txs := by
  rw [← checkTransfers_eq_ok_iff]
  cases hcheck : a.checkTransfers txs with
  | ok _ => rfl
  | error e =>
    rw [applyBlock_of_checkTransfers hcheck b] at h
    cases h

theorem books_applyBlock {a a' : Accounts} {b : Block} {txs : List Transaction}
    (h : a.applyBlock b txs = .ok a') : a'.books = (a.books.after txs).reward b := by
  rcases applyBlock_cases_books (performs_of_applyBlock h) b with
    ⟨_, hok, hbooks⟩ | ⟨_, herror, -⟩
  · rw [h] at hok
    cases hok
    exact hbooks
  · rw [h] at herror
    cases herror

theorem applyBlock_eq_ok_iff {a : Accounts} {b : Block} {txs : List Transaction} :
    (∃ a', a.applyBlock b txs = .ok a') ↔
      a.books.Performs txs ∧ ∀ x, (a.books.after txs).reward b x ≤ Books.limit := by
  constructor
  · rintro ⟨a', h⟩
    refine ⟨performs_of_applyBlock h, fun x => ?_⟩
    rw [← books_applyBlock h]
    exact a'.balances.books_le x
  · rintro ⟨hperforms, hfit⟩
    rcases applyBlock_cases_books hperforms b with ⟨a', hok, -⟩ | ⟨x, -, hlarge⟩
    · exact ⟨a', hok⟩
    · have hle := hfit x
      omega

/-- A block carried out on accounts that are kept in place: the balances are changed in a copy,
which takes their place when nothing can fail any more. -/
def applyInPlace (b : Block) (txs : List Transaction) : EStateM AccountError Accounts Unit := do
  let shares := Synergy.splitReward b.reward b.rewardPercentage
  let moved ← ofExcept ((← get).balances.transfers txs)
  let paid ← ofExcept (moved.payShare b.header.operator shares.1)
  let both ← ofExcept (paid.payShare (Address.delegated b.header.delegatedId) shares.2)
  modify fun a => { a with balances := both }

theorem run_applyInPlace (a : Accounts) (b : Block) (txs : List Transaction) :
    (applyInPlace b txs).run a =
      match a.applyBlock b txs with
      | .ok a' => .ok () a'
      | .error e => .error e a := by
  have hget : EStateM.get a = (.ok a a : EStateM.Result AccountError Accounts Accounts) := rfl
  unfold applyInPlace applyBlock
  simp only [bind, Except.bind, pure, Except.pure, EStateM.run, EStateM.bind, get, getThe,
    MonadStateOf.get, hget]
  cases a.balances.transfers txs with
  | error e => rfl
  | ok moved =>
    simp only [ofExcept, pure, EStateM.pure]
    cases moved.payShare b.header.operator
        (Synergy.splitReward b.reward b.rewardPercentage).1 with
    | error e => rfl
    | ok paid =>
      simp only [EStateM.pure]
      cases paid.payShare (Address.delegated b.header.delegatedId)
          (Synergy.splitReward b.reward b.rewardPercentage).2 <;> rfl

end Accounts

/-! ## 5. Ledgers -/

namespace Ledger

variable [SignatureSuite] {l : Ledger} {b : Block} {txs : List Transaction}

theorem execute_of_applyBlock_error {e : AccountError}
    (hcollect : l.collectTransactions b = .ok txs)
    (h : l.accounts.applyBlock b txs = .error e) : ∃ e', l.execute b = .error e' := by
  cases hexecute : l.execute b with
  | error e' => exact ⟨e', rfl⟩
  | ok done =>
    obtain ⟨hcollect', -, happly⟩ := execute_eq_ok.mp hexecute
    rw [hcollect] at hcollect'
    cases hcollect'
    rw [h] at happly
    cases happly

/-- A block that cannot be carried out leaves the accounts alone. -/
theorem accounts_commit_of_execute_error {e : LedgerError} (h : l.execute b = .error e)
    (origin : BlockOrigin) : (l.commit b origin).2.accounts = l.accounts := by
  rcases commit_stages l b origin with ⟨_, -, hcommit⟩ |
    ⟨-, looked, ⟨_, -, hcommit⟩ | ⟨-, ⟨_, -, hcommit⟩ | ⟨_, _, hexecute, -⟩⟩⟩
  · rw [hcommit]
  · rw [hcommit]
  · rw [hcommit]
  · rw [h] at hexecute
    cases hexecute

end Ledger

/-- **A block does to balances of 64 bits what it does to integers without bounds.**

Checking transfers succeeds just when each of them may be made after those before it, and gives the
error of the first that may not.  A block with such transfers is refused with the same error.
Carrying a block out makes the transfers and adds the two shares of the reward, which make up the
reward; it succeeds just when the transfers may be made and nobody gets more than a balance can
hold.  When it fails, accounts that are kept in place are as they were, and so are those of a ledger
that was to commit the block. -/
theorem Accounts.applyBlock_books [SignatureSuite] (a : Accounts) (b : Block)
    (txs : List Transaction) :
    (a.checkTransfers txs = .ok () ↔ a.books.Performs txs) ∧
    (∀ e, a.checkTransfers txs = .error e ↔ a.books.Stops txs e) ∧
    (∀ e, a.checkTransfers txs = .error e → a.applyBlock b txs = .error e) ∧
    (∀ a', a.applyBlock b txs = .ok a' →
      a'.books = (a.books.after txs).reward b ∧ a'.staking = a.staking) ∧
    Books.operatorShare b + Books.delegatedShare b = b.reward.toNat ∧
    ((∃ a', a.applyBlock b txs = .ok a') ↔
      a.books.Performs txs ∧ ∀ x, (a.books.after txs).reward b x ≤ Books.limit) ∧
    (applyInPlace b txs).run a =
      (match a.applyBlock b txs with
      | .ok a' => .ok () a'
      | .error e => .error e a) ∧
    (∀ (l : Ledger) (origin : BlockOrigin) (e : AccountError), l.accounts = a →
      l.collectTransactions b = .ok txs → a.applyBlock b txs = .error e →
      (l.commit b origin).2.accounts = a) := by
  refine ⟨checkTransfers_eq_ok_iff, fun e => checkTransfers_eq_error_iff,
    fun e h => applyBlock_of_checkTransfers h b,
    fun a' h => ⟨books_applyBlock h, staking_applyBlock h⟩,
    Synergy.splitReward_sum b.reward b.rewardPercentage, applyBlock_eq_ok_iff,
    run_applyInPlace a b txs, ?_⟩
  rintro l origin e rfl hcollect happly
  obtain ⟨e', hexecute⟩ := Ledger.execute_of_applyBlock_error hcollect happly
  exact Ledger.accounts_commit_of_execute_error hexecute origin

end SynergyNode
