import SynergyNode.Proofs.Accounts
import SynergyNode.Proofs.Ledger.Run

/-!
# Money and difficulty along the chain

The sum of all balances grows with the supply that the blocks declare, and by nothing else.
The supply never falls and never passes its bound, and the difficulty never falls to zero.

As long as the money at the start leaves room for everything that can still be minted, no
balance ever gets too large for a block to be committed (`Run.money_conserved`).
-/

namespace SynergyNode

open Protocol

/-! ## 1. One block -/

/-- What is minted is a part of what can still be minted. -/
theorem Synergy.rewardForSupply_le (supply : UInt64) :
    (rewardForSupply supply).toNat ≤ maxTotalSupply.toNat - supply.toNat := by
  rw [rewardForSupply, UInt64.toNat_div, Word64.toNat_saturatingSub]
  exact Nat.div_le_self _ _

/-- The supply of a chain lies between what it started with and its bound. -/
def SupplyBounded (b : Block) : Prop := initialSupply ≤ b.supply ∧ b.supply ≤ maxTotalSupply

/-- A block mints its reward: the supply grows by it and stays within the bound. -/
theorem Block.supply_step {b previous : Block} (h : b.checkEconomics previous = .ok ())
    (hbounded : SupplyBounded previous) :
    b.supply.toNat = previous.supply.toNat + b.reward.toNat ∧ SupplyBounded b ∧
      previous.supply ≤ b.supply := by
  obtain ⟨-, hreward, hsupply, -, -⟩ := checkEconomics_eq_ok.mp h
  obtain ⟨hlow, hhigh⟩ := hbounded
  simp only [SupplyBounded, UInt64.le_iff_toNat_le] at hlow hhigh ⊢
  have hle := Synergy.rewardForSupply_le previous.supply
  rw [← hreward] at hle
  have hsum : b.supply.toNat = previous.supply.toNat + b.reward.toNat := by
    have hmax : maxTotalSupply.toNat ≤ Word64.max.toNat := by decide
    rw [hsupply, Word64.toNat_saturatingAdd]
    omega
  omega

/-- The difficulty is lowered at most to one. -/
theorem Synergy.adjustDifficulty_pos {previous : UInt32} (h : 1 ≤ previous) (elapsed : UInt64) :
    1 ≤ adjustDifficulty previous elapsed := by
  rw [UInt32.le_iff_toNat_le] at h ⊢
  have hone : (1 : UInt32).toNat = 1 := rfl
  have hmax : Word32.max.toNat = 4294967295 := rfl
  unfold adjustDifficulty
  split
  · unfold Word32.saturatingAdd
    split
    · rw [UInt32.toNat_add]
      omega
    · omega
  · split
    · -- The maximum with one is taken after lowering.
      have hle : ∀ d : UInt32, (1 : UInt32).toNat ≤ (max d 1).toNat := by
        intro d
        simp only [Max.max]
        split
        · exact Nat.le_refl _
        · rename_i hgt
          rw [UInt32.le_iff_toNat_le] at hgt
          omega
      exact hle _
    · exact h

/-! ## 2. A chain -/

namespace History

variable {start : Accounts} {c : History}

theorem Sound.supplyBounded (h : c.Sound start) : SupplyBounded c.tip := by
  induction c with
  | nil => exact ⟨UInt64.le_refl _, by decide⟩
  | cons e c ih => exact (Block.supply_step h.1.economics (ih h.2)).2.1

theorem Sound.difficulty_pos (h : c.Sound start) : 1 ≤ c.tip.header.difficulty := by
  induction c with
  | nil => decide
  | cons e c ih =>
    have hstep := (Block.checkEconomics_eq_ok.mp h.1.economics).2.2.2.1
    rw [tip, hstep]
    exact Synergy.adjustDifficulty_pos (ih h.2) _

/-- What all balances hold beyond the start is what was minted. -/
theorem Sound.total (h : c.Sound start) :
    (c.accounts start).balances.total + initialSupply.toNat =
      start.balances.total + c.tip.supply.toNat := by
  induction c with
  | nil => rfl
  | cons e c ih =>
    have hbelow := ih h.2
    have hsupply := (Block.supply_step h.1.economics h.2.supplyBounded).1
    rcases Accounts.applyBlock_cases (History.accounts start c) e.block e.transactions with
      ⟨a, hok, htotal⟩ | ⟨_, _, herror⟩ | ⟨_, herror, -⟩
    · rw [h.1.applied] at hok
      cases hok
      simp only [accounts, tip]
      omega
    · rw [h.1.applied] at herror
      cases herror
    · rw [h.1.applied] at herror
      cases herror

/-- The properties of a single block hold of all blocks. -/
theorem Sound.forall_blocks {P : Block → Prop}
    (htip : ∀ {c : History}, c.Sound start → P c.tip) (h : c.Sound start) :
    ∀ b ∈ c.blocks, P b := by
  induction c with
  | nil =>
    intro b hb
    rw [blocks, List.mem_singleton] at hb
    rw [hb]
    exact htip h
  | cons e c ih => exact List.forall_mem_cons.mpr ⟨htip h, ih h.2⟩

/-- The supply never falls from one block to the next. -/
theorem Sound.supply_monotone (h : c.Sound start) :
    c.blocks.Pairwise fun b below => below.supply ≤ b.supply := by
  have hle : ∀ {c : History}, c.Sound start → ∀ b ∈ c.blocks, b.supply ≤ c.tip.supply := by
    intro c hc
    induction c with
    | nil =>
      intro b hb
      rw [blocks, List.mem_singleton] at hb
      rw [hb]
      exact UInt64.le_refl _
    | cons e c ih =>
      have hstep := (Block.supply_step hc.1.economics hc.2.supplyBounded).2.2
      refine List.forall_mem_cons.mpr ⟨UInt64.le_refl _, fun b hb => ?_⟩
      exact UInt64.le_trans (ih hc.2 b hb) hstep
  induction c with
  | nil => exact List.pairwise_singleton _ _
  | cons e c ih =>
    refine List.pairwise_cons.mpr ⟨fun b hb => ?_, ih h.2⟩
    exact UInt64.le_trans (hle h.2 b hb)
      (Block.supply_step h.1.economics h.2.supplyBounded).2.2

theorem tip_mem_blocks (c : History) : c.tip ∈ c.blocks := by
  cases c with
  | nil => exact List.mem_singleton_self _
  | cons e c => exact List.mem_cons_self

/-- The blocks of a history up to a height are blocks of the history. -/
theorem cut_tip_mem_blocks (c : History) (n : Nat) : (c.cut n).tip ∈ c.blocks := by
  have hdrop : ∀ (k : Nat) (c : History), History.tip (c.drop k) ∈ c.blocks := by
    intro k
    induction k with
    | zero => exact tip_mem_blocks
    | succ k ih =>
      intro c
      cases c with
      | nil => exact List.mem_singleton_self _
      | cons e c => exact List.mem_cons_of_mem _ (ih c)
  exact hdrop _ c

end History

namespace Ledger

open History

/-! ## 3. Every run -/

theorem Sample.total_balances (operator : Address) (paying paid : UInt64) :
    (Sample.balances operator paying paid).total ≤ paying.toNat + paid.toNat := by
  have hempty : Balances.total ∅ = 0 := rfl
  have hpaying := Balances.total_insert ∅ operator paying
  have hpaid := Balances.total_insert ((∅ : Balances).insert operator paying) Sample.recipient paid
  rw [Sample.balances]
  omega

section

variable [SignatureSuite] {start : Accounts} {l : Ledger} {c : History}

/-- **Along every run, money is minted and never lost.**  The sum of all balances is that of the
start and what was minted since, all blocks keep to the bounds on supply and difficulty, and a
commit is never refused because a balance gets too large, if the money at the start and all
that can be minted fit in one balance. -/
theorem Run.money_conserved (run : Run Event.Any start l c) :
    l.accounts.balances.total =
        start.balances.total + (l.lastBlock.supply.toNat - initialSupply.toNat) ∧
      (c.blocks.head? = some l.lastBlock ∧
        ∀ k b, l.store.block? k = .ok (some b) → b ∈ c.blocks) ∧
      (∀ b ∈ c.blocks, initialSupply ≤ b.supply ∧ b.supply ≤ maxTotalSupply ∧
        1 ≤ b.header.difficulty) ∧
      c.blocks.Pairwise (fun b below => below.supply ≤ b.supply) ∧
      (start.balances.total + maxTotalSupply.toNat < UInt64.size →
        ∀ b origin address,
          (l.commit b origin).1 ≠ .error (.account (.overflow address))) := by
  have hfollows := run.follows
  have hsound := hfollows.sound
  have htotal := hsound.total
  rw [← hfollows.accounts, ← hfollows.last] at htotal
  have hbounded := hsound.supplyBounded
  rw [← hfollows.last] at hbounded
  have hlow := UInt64.le_iff_toNat_le.mp hbounded.1
  refine ⟨by omega, ⟨?_, ?_⟩, ?_, hsound.supply_monotone, ?_⟩
  · rw [hfollows.last]
    cases c <;> rfl
  · intro k b hb
    obtain ⟨x, hx, hread⟩ := hfollows.reliable.block?_eq_some.mp hb
    rcases hfollows.within k with ⟨hnone, -⟩ | ⟨-, hblock, -⟩
    · rw [hnone] at hx
      cases hx
    · rw [hblock] at hx
      cases hx
      rw [Block.eq_of_ofBytes_toBytes hread]
      exact cut_tip_mem_blocks c k.toNat
  · exact hsound.forall_blocks fun hc => ⟨hc.supplyBounded.1, hc.supplyBounded.2, hc.difficulty_pos⟩
  · intro hroom b origin address herror
    obtain ⟨hchecked, txs, -, happly⟩ := commit_eq_error_account hfollows.reliable herror
    have heconomics := (Block.checkBase_eq_ok.mp (checkBlock_eq_ok.mp hchecked).1).2.2.2.2.2.1
    obtain ⟨hsupply, ⟨-, hhigh⟩, -⟩ := Block.supply_step heconomics hbounded
    rw [UInt64.le_iff_toNat_le] at hhigh
    rcases Accounts.applyBlock_cases l.accounts b txs with
      ⟨_, hok, -⟩ | ⟨_, _, hpoor⟩ | ⟨_, -, hlarge⟩
    · rw [happly] at hok
      cases hok
    · rw [happly] at hpoor
      cases hpoor
    · omega

end

theorem Run.money_conserved_block :
    ∃ (_ : SignatureSuite) (start : Accounts) (l : Ledger) (c : History),
      Run Event.Any start l c ∧ c.length = 1 ∧
        start.balances.total + maxTotalSupply.toNat < UInt64.size ∧
        l.accounts.balances.total =
          start.balances.total + (l.lastBlock.supply.toNat - initialSupply.toNat) ∧
        ∀ b origin address, (l.commit b origin).1 ≠ .error (.account (.overflow address)) := by
  let := Sample.suite
  have run : Run Event.Any (Sample.start (Address.ofPublicKey Sample.zeros)) _ _ :=
    (Sample.run_block Sample.operatorKey_zeros 1 70 30 (by decide) rfl rfl).mono
      fun _ _ _ => trivial
  have hroom : (Sample.start (Address.ofPublicKey Sample.zeros)).balances.total +
      maxTotalSupply.toNat < UInt64.size := by
    have hmax : maxTotalSupply.toNat + 100 < UInt64.size := by decide
    have htotal := Sample.total_balances (Address.ofPublicKey Sample.zeros) 100 0
    have hhundred : (100 : UInt64).toNat = 100 := rfl
    have hzero : (0 : UInt64).toNat = 0 := rfl
    have hbalances : (Sample.start (Address.ofPublicKey Sample.zeros)).balances =
        Sample.balances (Address.ofPublicKey Sample.zeros) 100 0 := rfl
    rw [hbalances]
    omega
  obtain ⟨htotal, -, -, -, hnever⟩ := Run.money_conserved run
  exact ⟨Sample.suite, _, _, _, run, rfl, hroom, htotal, hnever hroom⟩

end Ledger

end SynergyNode
