import SynergyNode.Accounts
import SynergyNode.Proofs.Table

/-!
# The sum of all balances

Transfers move money, a block adds its reward, and nothing else changes how much there is.
`Balances.total` is the exact sum of all balances; it may be more than one balance can hold.

For each step the lemma says what a success does to the sum, and that a balance can only get too
large when the sum with what is added does (`Accounts.applyBlock_cases` at the end).
-/

namespace SynergyNode

namespace Balances

/-! ## 1. Entering a balance -/

/-- The sum of all balances. -/
def total (b : Balances) : Nat := b.toList.foldr (fun e sum => e.2.toNat + sum) 0

theorem total_insert_of_absent {b : Balances} {a : Address} (h : b[a]? = none) (v : UInt64) :
    total (b.insert a v) = total b + v.toNat := by
  have hperm := Table.toList_insert_of_absent h v
  have hfold := hperm.foldr_eq' (fun e _ e' _ sum => Nat.add_left_comm e'.2.toNat e.2.toNat sum) 0
  rw [total, hfold, List.foldr_cons, total]
  exact Nat.add_comm _ _

/-- Entering a balance adds it to the sum and takes out the one it replaces. -/
theorem total_insert (b : Balances) (a : Address) (v : UInt64) :
    total (b.insert a v) + (b.get a).toNat = total b + v.toNat := by
  have hgone : (b.erase a)[a]? = none := by simp
  have hinsert : ∀ w, total (b.insert a w) = total (b.erase a) + w.toNat := by
    intro w
    rw [← Table.insert_erase, total_insert_of_absent hgone]
  have hold : total b = total (b.erase a) + (b.get a).toNat := by
    cases hb : b[a]? with
    | none => simp [Table.erase_of_absent hb, get, hb]
    | some w =>
      have hw := hinsert w
      rw [Table.insert_of_present hb] at hw
      simp [hw, get, hb]
  have hnew := hinsert v
  omega

/-- A single balance is part of the sum. -/
theorem get_le_total (b : Balances) (a : Address) : (b.get a).toNat ≤ total b := by
  have h := total_insert b a 0
  have hzero : (0 : UInt64).toNat = 0 := rfl
  omega

theorem get_insert (b : Balances) (a : Address) (v : UInt64) (a' : Address) :
    get (b.insert a v) a' = if a = a' then v else b.get a' := by
  simp only [get, Std.ExtTreeMap.getElem?_insert, Std.LawfulEqCmp.compare_eq_iff_eq]
  split <;> rfl

/-! ## 2. Credits and transfers -/

theorem credit_cases (b : Balances) (a : Address) (amount : UInt64) :
    (∃ b', b.credit a amount = .ok b' ∧ total b' = total b + amount.toNat) ∨
      b.credit a amount = .error (.overflow a) ∧ UInt64.size ≤ total b + amount.toNat := by
  unfold credit
  cases hsum : Word64.checkedAdd? (b.get a) amount with
  | some sum =>
    have hadd := Word64.checkedAdd?_eq_some_iff.mp hsum
    have htotal := total_insert b a sum
    refine Or.inl ⟨_, rfl, ?_⟩
    omega
  | none =>
    refine Or.inr ⟨rfl, ?_⟩
    have hle := get_le_total b a
    have hmax := Word64.toNat_max
    unfold Word64.checkedAdd? at hsum
    split at hsum
    · cases hsum
    · simp only [UInt64.size]
      omega

/-- The sender's payment leaves the sum as it was before the recipient is credited. -/
theorem transfer_cases (b : Balances) (t : Transaction) :
    (∃ b', b.transfer t = .ok b' ∧ total b' = total b) ∨
      b.transfer t = .error (.insufficientBalance t.body.sender t.hash) ∨
      ∃ a, b.transfer t = .error (.overflow a) ∧ UInt64.size ≤ total b := by
  unfold transfer
  cases hrest : Word64.checkedSub? (b.get t.body.sender) t.body.amount with
  | none => exact Or.inr (Or.inl rfl)
  | some rest =>
    have hsub := Word64.checkedSub?_eq_some_iff.mp hrest
    have hpaid := total_insert b t.body.sender rest
    rcases credit_cases (b.insert t.body.sender rest) t.body.recipient t.body.amount with
      ⟨b', hok, htotal⟩ | ⟨herror, hlarge⟩
    · exact Or.inl ⟨b', hok, by omega⟩
    · exact Or.inr (Or.inr ⟨_, herror, by omega⟩)

/-- A sender who can pay another account does so. -/
theorem transfer_of_le {b : Balances} {t : Transaction} (hne : t.body.sender ≠ t.body.recipient)
    (hle : t.body.amount ≤ b.get t.body.sender) (hfits : total b < UInt64.size) :
    b.transfer t =
      .ok ((b.insert t.body.sender (b.get t.body.sender - t.body.amount)).insert t.body.recipient
        (b.get t.body.recipient + t.body.amount)) := by
  have hrest : (b.get t.body.sender - t.body.amount).toNat =
      (b.get t.body.sender).toNat - t.body.amount.toNat := UInt64.toNat_sub_of_le _ _ hle
  rw [UInt64.le_iff_toNat_le] at hle
  have hsub : Word64.checkedSub? (b.get t.body.sender) t.body.amount =
      some (b.get t.body.sender - t.body.amount) :=
    Word64.checkedSub?_eq_some_iff.mpr (by omega)
  -- The two balances together are no more than all of them.
  have hpaid := total_insert b t.body.sender (b.get t.body.sender - t.body.amount)
  have hpart := get_le_total (b.insert t.body.sender (b.get t.body.sender - t.body.amount))
    t.body.recipient
  rw [get_insert, if_neg hne] at hpart
  have hsum : (b.get t.body.recipient + t.body.amount).toNat =
      (b.get t.body.recipient).toNat + t.body.amount.toNat := by
    rw [UInt64.toNat_add]
    have hsize : UInt64.size = 2 ^ 64 := rfl
    omega
  have hadd : Word64.checkedAdd? (b.get t.body.recipient) t.body.amount =
      some (b.get t.body.recipient + t.body.amount) :=
    Word64.checkedAdd?_eq_some_iff.mpr hsum.symm
  simp only [transfer, hsub, credit, get_insert, if_neg hne, hadd]

/-- One who cannot pay is the one who is named. -/
theorem transfer_of_lt {b : Balances} {t : Transaction}
    (hlt : b.get t.body.sender < t.body.amount) :
    b.transfer t = .error (.insufficientBalance t.body.sender t.hash) := by
  have hnone : Word64.checkedSub? (b.get t.body.sender) t.body.amount = none := by
    rw [Option.eq_none_iff_forall_ne_some]
    intro rest hrest
    have hsub := Word64.checkedSub?_eq_some_iff.mp hrest
    rw [UInt64.lt_iff_toNat_lt] at hlt
    omega
  simp only [transfer, hnone]

theorem transfers_cases : ∀ (txs : List Transaction) (b : Balances),
    (∃ b', b.transfers txs = .ok b' ∧ total b' = total b) ∨
      (∃ a hash, b.transfers txs = .error (.insufficientBalance a hash)) ∨
      ∃ a, b.transfers txs = .error (.overflow a) ∧ UInt64.size ≤ total b
  | [], b => Or.inl ⟨b, rfl, rfl⟩
  | t :: txs, b => by
    unfold transfers
    rcases transfer_cases b t with ⟨b', hok, htotal⟩ | herror | ⟨a, herror, hlarge⟩
    · simp only [hok]
      rw [← htotal]
      exact transfers_cases txs b'
    · simp only [herror]
      exact Or.inr (Or.inl ⟨_, _, rfl⟩)
    · simp only [herror]
      exact Or.inr (Or.inr ⟨a, rfl, hlarge⟩)

/-- Transfers leave the sum as it was. -/
theorem total_transfers {b b' : Balances} {txs : List Transaction}
    (h : b.transfers txs = .ok b') : total b' = total b := by
  rcases transfers_cases txs b with ⟨_, hok, htotal⟩ | ⟨_, _, herror⟩ | ⟨_, herror, -⟩
  · rw [h] at hok
    cases hok
    exact htotal
  · rw [h] at herror
    cases herror
  · rw [h] at herror
    cases herror

theorem payShare_cases (b : Balances) (a : Address) (share : UInt64) :
    (∃ b', b.payShare a share = .ok b' ∧ total b' = total b + share.toNat) ∨
      b.payShare a share = .error (.overflow a) ∧ UInt64.size ≤ total b + share.toNat := by
  unfold payShare
  split
  · rename_i hzero
    subst hzero
    exact Or.inl ⟨b, rfl, rfl⟩
  · exact credit_cases b a share

/-- A share goes to its account and to no other. -/
theorem get_payShare_of_ne {b b' : Balances} {a a' : Address} {share : UInt64} (hne : a ≠ a')
    (h : b.payShare a share = .ok b') : b'.get a' = b.get a' := by
  unfold payShare credit at h
  split at h
  · cases h
    rfl
  · split at h
    · cases h
      rw [get_insert, if_neg hne]
    · cases h

theorem size_payShare_le {b b' : Balances} {a : Address} {share : UInt64}
    (h : b.payShare a share = .ok b') : b'.size ≤ b.size + 1 := by
  unfold payShare credit at h
  split at h
  · cases h
    exact Nat.le_succ _
  · split at h
    · cases h
      exact Std.ExtTreeMap.size_insert_le
    · cases h

theorem payShare_of_get_eq_zero {b : Balances} {a : Address} {share : UInt64}
    (hempty : b.get a = 0) (hshare : share ≠ 0) : b.payShare a share = .ok (b.insert a share) := by
  have hadd : Word64.checkedAdd? 0 share = some share :=
    Word64.checkedAdd?_eq_some_iff.mpr (Nat.zero_add _)
  simp only [payShare, if_neg hshare, credit, hempty, hadd]

end Balances

/-! ## 3. Blocks -/

/-- The two parts of a reward make up the reward. -/
theorem Synergy.splitReward_sum (reward : UInt64) (perMille : UInt16) :
    (splitReward reward perMille).1.toNat + (splitReward reward perMille).2.toNat =
      reward.toNat := by
  have hle : reward.toNat * min perMille.toNat 1000 / 1000 ≤ reward.toNat := by
    apply Nat.div_le_of_le_mul
    rw [Nat.mul_comm]
    exact Nat.mul_le_mul_right _ (Nat.min_le_right _ _)
  have hshare : (UInt64.ofNat (reward.toNat * min perMille.toNat 1000 / 1000)).toNat =
      reward.toNat * min perMille.toNat 1000 / 1000 :=
    UInt64.toNat_ofNat_of_lt' (Nat.lt_of_le_of_lt hle reward.toNat_lt)
  simp only [splitReward]
  rw [UInt64.toNat_sub_of_le _ _ (by rw [UInt64.le_iff_toNat_le, hshare]; exact hle), hshare]
  omega

/-- A block that leaves the whole reward to the delegated account. -/
theorem Accounts.applyBlock_of_delegated {a : Accounts} {b : Block} {txs : List Transaction}
    {share : UInt64} {moved paid : Balances}
    (hsplit : Synergy.splitReward b.reward b.rewardPercentage = (0, share))
    (hmoved : a.balances.transfers txs = .ok moved)
    (hpaid : moved.payShare (Address.delegated b.header.delegatedId) share = .ok paid) :
    a.applyBlock b txs = .ok { a with balances := paid } := by
  have hnothing : moved.payShare b.header.operator 0 = .ok moved := if_pos rfl
  simp only [applyBlock, hsplit, hmoved, hnothing, hpaid, bind, Except.bind, pure, Except.pure]

/-- **A block adds its reward to the sum of all balances.**  It is refused when a sender cannot
pay, or when the sum and the reward together are more than a balance can hold. -/
theorem Accounts.applyBlock_cases (a : Accounts) (b : Block) (txs : List Transaction) :
    (∃ a', a.applyBlock b txs = .ok a' ∧
        a'.balances.total = a.balances.total + b.reward.toNat) ∨
      (∃ address hash, a.applyBlock b txs = .error (.insufficientBalance address hash)) ∨
      ∃ address, a.applyBlock b txs = .error (.overflow address) ∧
        UInt64.size ≤ a.balances.total + b.reward.toNat := by
  have hshares := Synergy.splitReward_sum b.reward b.rewardPercentage
  unfold applyBlock
  simp only [bind, Except.bind, pure, Except.pure]
  rcases a.balances.transfers_cases txs with
    ⟨b₁, h₁, ht₁⟩ | ⟨address, hash, h₁⟩ | ⟨address, h₁, hlarge⟩
  · simp only [h₁]
    rcases b₁.payShare_cases b.header.operator
        (Synergy.splitReward b.reward b.rewardPercentage).1 with ⟨b₂, h₂, ht₂⟩ | ⟨h₂, hlarge⟩
    · simp only [h₂]
      rcases b₂.payShare_cases (Address.delegated b.header.delegatedId)
          (Synergy.splitReward b.reward b.rewardPercentage).2 with ⟨b₃, h₃, ht₃⟩ | ⟨h₃, hlarge⟩
      · simp only [h₃]
        exact Or.inl ⟨_, rfl, by simp only; omega⟩
      · simp only [h₃]
        exact Or.inr (Or.inr ⟨_, rfl, by omega⟩)
    · simp only [h₂]
      exact Or.inr (Or.inr ⟨_, rfl, by omega⟩)
  · simp only [h₁]
    exact Or.inr (Or.inl ⟨_, _, rfl⟩)
  · simp only [h₁]
    exact Or.inr (Or.inr ⟨_, rfl, by omega⟩)

/-- Blocks do not change who stakes. -/
theorem Accounts.staking_applyBlock {a a' : Accounts} {b : Block} {txs : List Transaction}
    (h : a.applyBlock b txs = .ok a') : a'.staking = a.staking := by
  unfold applyBlock at h
  simp only [bind, Except.bind, pure, Except.pure] at h
  split at h
  · cases h
  · split at h
    · cases h
    · split at h
      · cases h
      · cases h
        rfl

end SynergyNode
