import Mathlib.Algebra.BigOperators.Ring.Finset
import Mathlib.Algebra.Order.BigOperators.Group.Finset
import Mathlib.Data.FinEnum
import SynergyNode.Proofs.Tally

/-!
# Quorums

The votes agree on a value when all live ones but perhaps one outlier name it.  The stake behind the
value is then added up as far as it fits, and compared with the stake of all accounts.

* `Voting.stakeFor` is the stake behind a value in whole numbers, over all live votes; neither the
  outlier nor the bounded sum lets a value pass that has less than the quorum behind it
  (`Voting.lt_stakeFor_of_quorum?`);
* what the votes decide is said by `Voting.decide?_eq_some_iff_agree` without the passes that find
  it;
* two quorums of two thirds have more than a third in common, so two nodes put different schemes in
  one slot only if accounts with more than a third of all stake voted for both
  (`Voting.quorums_intersect`).
-/

namespace SynergyNode

/-! ## 1. The stake behind a value -/

/-- Descriptors of one scheme differ in whether the slot is paused. -/
theorem Descriptor.eq_paused_of_sameScheme {d e : Descriptor} (hsame : d.sameScheme e = true)
    (hne : d ≠ e) : d = { e with paused := !e.paused } := by
  cases d
  cases e
  simp only [sameScheme, Bool.and_eq_true, beq_iff_eq] at hsame
  obtain ⟨⟨⟨rfl, rfl⟩, rfl⟩, rfl⟩ := hsame
  simp only [ne_eq, mk.injEq, true_and] at hne ⊢
  exact Bool.eq_not.mpr hne

namespace Voting

variable {v w w' : Voting} {slot slot' : Slot} {height height' total : UInt64} {thirds : Nat}
  {value value' : Bytes} {id : UInt8} {vote : Vote}

/-- The live votes for a value. -/
def votesFor (v : Voting) (slot : Slot) (height : UInt64) (value : Bytes) : List (UInt8 × Vote) :=
  (v.live slot height).filter fun e => e.2.values = value

/-- The accounts whose votes for a value are live. -/
def backers (v : Voting) (slot : Slot) (height : UInt64) (value : Bytes) : Finset UInt8 :=
  ((v.votesFor slot height value).map Prod.fst).toFinset

/-- The stake behind a value. -/
def stakeFor (v : Voting) (slot : Slot) (height : UInt64) (value : Bytes) : Nat :=
  ((v.votesFor slot height value).map fun e => e.2.staked.toNat).sum

theorem mem_votesFor :
    (id, vote) ∈ v.votesFor slot height value ↔
      (v.tables.get slot)[id]? = some vote ∧ isLive v.distance height vote = true ∧
        vote.values = value := by
  rw [votesFor, List.mem_filter, live, Std.ExtTreeMap.mem_toList_iff_getElem?_eq_some,
    getElem?_prune, if_pos rfl, Option.filter_eq_some_iff, decide_eq_true_eq, and_assoc]

/-- An account has one vote at most. -/
theorem nodup_accounts (v : Voting) (slot : Slot) (height : UInt64) (value : Bytes) :
    ((v.votesFor slot height value).map Prod.fst).Nodup := by
  have hkeys : ((v.live slot height).map Prod.fst).Nodup := by
    rw [live, Std.ExtTreeMap.map_fst_toList_eq_keys]
    exact Std.ExtTreeMap.nodup_keys
  exact hkeys.sublist (List.filter_sublist.map _)

theorem map_votesFor (v : Voting) (slot : Slot) (height : UInt64) (value : Bytes) :
    (v.votesFor slot height value).map Prod.snd =
      Vote.votesOf ((v.live slot height).map Prod.snd) value := by
  rw [votesFor, Vote.votesOf, List.filter_map]
  rfl

/-- **The votes carry the value that they agree on**, if the stakes behind it, as far as their sum
fits, are more than the given thirds. -/
theorem quorum?_eq_some_iff : v.quorum? slot height total thirds = some value ↔
    Vote.Agree ((v.live slot height).map Prod.snd) value ∧
      total.toNat * thirds < 3 * min (v.stakeFor slot height value) Word64.max.toNat := by
  have hstake : (Vote.totalStake
      (Vote.votesOf ((v.live slot height).map Prod.snd) value)).toNat =
        min (v.stakeFor slot height value) Word64.max.toNat := by
    rw [Vote.toNat_totalStake, ← map_votesFor, List.map_map]
    rfl
  rw [quorum?, ← hstake, Nat.mul_comm 3]
  constructor
  · intro h
    split at h
    · cases h
    · rename_i hagreed
      split at h
      · rename_i hexceeds
        cases h
        obtain ⟨hagree, rfl⟩ := Vote.agreed?_eq_some_iff.mp hagreed
        exact ⟨hagree, decide_eq_true_iff.mp hexceeds⟩
      · cases h
  · rintro ⟨hagree, hexceeds⟩
    rw [Vote.agreed?_eq_some_iff.mpr ⟨hagree, rfl⟩]
    exact if_pos (decide_eq_true_iff.mpr hexceeds)

/-- **A value that the votes agree on has its quorum behind it.** -/
theorem lt_stakeFor_of_quorum? (h : v.quorum? slot height total thirds = some value) :
    total.toNat * thirds < 3 * v.stakeFor slot height value := by
  obtain ⟨-, hexceeds⟩ := quorum?_eq_some_iff.mp h
  omega

/-! ## 2. What the votes decide -/

/-- The live votes put a descriptor that is not the current one in a slot: with more than a third of
all stake if it only pauses or resumes the scheme, and with more than two thirds if it names
another. -/
def Backs (v : Voting) (slot : Slot) (height total : UInt64) (current declared : Descriptor) :
    Prop :=
  ∃ value, Descriptor.ofBytes value = .ok declared ∧
    (declared = { current with paused := !current.paused } ∧
        total.toNat < 3 * v.stakeFor slot height value ∨
      declared.sameScheme current = false ∧
        2 * total.toNat < 3 * v.stakeFor slot height value)

/-- **What the votes decide they agree on**, with a third of all stake if it only pauses or resumes
the current scheme, and with two thirds otherwise. -/
theorem decide?_eq_some {current proposed : Descriptor}
    (h : v.decide? slot height total current = some proposed) :
    ∃ value, Descriptor.ofBytes value = .ok proposed ∧ proposed ≠ current ∧
      v.pausing? slot height total = some value ∧
      (proposed.sameScheme current = true ∨ v.replacing? slot height total = some value) := by
  unfold decide? at h
  cases hpausing : v.pausing? slot height total with
  | none => simp [hpausing] at h
  | some value =>
    simp only [hpausing] at h
    cases hdecoded : Descriptor.ofBytes value with
    | error cause => simp [hdecoded] at h
    | ok agreed =>
      simp only [hdecoded] at h
      split at h
      · cases h
      rename_i hdiffers
      split at h
      · rename_i hsame
        cases h
        exact ⟨value, hdecoded, hdiffers, rfl, Or.inl hsame⟩
      · split at h
        · rename_i hreplacing
          cases h
          exact ⟨value, hdecoded, hdiffers, rfl, Or.inr hreplacing⟩
        · cases h

theorem backs_of_decide? {current declared : Descriptor}
    (h : v.decide? slot height total current = some declared) :
    v.Backs slot height total current declared := by
  obtain ⟨value, hvalue, hdiffers, hpausing, hreplacing⟩ := decide?_eq_some h
  refine ⟨value, hvalue, ?_⟩
  cases hsame : declared.sameScheme current with
  | true =>
    have hthird := lt_stakeFor_of_quorum? hpausing
    rw [Nat.mul_one] at hthird
    exact Or.inl ⟨Descriptor.eq_paused_of_sameScheme hsame hdiffers, hthird⟩
  | false =>
    have hreplaced := hreplacing.resolve_left (Bool.eq_false_iff.mp hsame)
    have hthirds := lt_stakeFor_of_quorum? hreplaced
    rw [Nat.mul_comm] at hthirds
    exact Or.inr ⟨rfl, hthirds⟩

/-- The votes of a slot that are not empty and not older than the voting distance are live. -/
theorem live_eq (v : Voting) (slot : Slot) (height : UInt64) :
    v.live slot height = (v.tables.get slot).toList.filter fun e =>
      e.2.values ≠ [] ∧ height.toNat ≤ e.2.height.toNat + v.distance.toNat := by
  rw [live, prune, PerSlot.get_set_self, Std.ExtTreeMap.toList_filter]
  refine List.filter_congr fun e _ => ?_
  have hmax := height.toNat_lt
  have hlast : Word64.max.toNat = 2 ^ 64 - 1 := rfl
  have hage : height.toNat ≤ min (e.2.height.toNat + v.distance.toNat) Word64.max.toNat ↔
      height.toNat ≤ e.2.height.toNat + v.distance.toNat := by
    omega
  rw [Bool.eq_iff_iff, isLive, Bool.and_eq_true, decide_eq_true_iff, UInt64.le_iff_toNat_le,
    Word64.toNat_saturatingAdd, hage, decide_eq_true_iff, and_comm, Bool.not_eq_true',
    List.isEmpty_eq_false_iff]

/-- **What the votes decide**: exactly a value that the live votes agree on, that decodes to another
descriptor than the current one, and that has more than a third of all stake behind it if it names
the current scheme, and more than two thirds otherwise.  The votes agree on one value at most. -/
theorem decide?_eq_some_iff_agree (v : Voting) (slot : Slot) (height total : UInt64)
    (current : Descriptor) :
    (v.live slot height = (v.tables.get slot).toList.filter fun e =>
      e.2.values ≠ [] ∧ height.toNat ≤ e.2.height.toNat + v.distance.toNat) ∧
    (∀ proposed, v.decide? slot height total current = some proposed ↔
      ∃ value, Vote.Agree ((v.live slot height).map Prod.snd) value ∧
        Descriptor.ofBytes value = .ok proposed ∧ proposed ≠ current ∧
        (if proposed.sameScheme current then 1 else 2) * total.toNat <
          3 * min (v.stakeFor slot height value) (2 ^ 64 - 1)) ∧
    ∀ value value', Vote.Agree ((v.live slot height).map Prod.snd) value →
      Vote.Agree ((v.live slot height).map Prod.snd) value' → value = value' := by
  refine ⟨v.live_eq slot height, fun proposed => ⟨fun h => ?_, ?_⟩, fun _ _ => Vote.Agree.unique⟩
  · obtain ⟨value, hdecoded, hdiffers, hpausing, hreplacing⟩ := decide?_eq_some h
    obtain ⟨hagree, hthird⟩ := quorum?_eq_some_iff.mp hpausing
    refine ⟨value, hagree, hdecoded, hdiffers, ?_⟩
    split
    · rwa [Nat.mul_comm]
    · rename_i hother
      obtain ⟨-, hthirds⟩ := quorum?_eq_some_iff.mp (hreplacing.resolve_left hother)
      rwa [Nat.mul_comm]
  · rintro ⟨value, hagree, hdecoded, hdiffers, hquorum⟩
    have hpausing : v.pausing? slot height total = some value := by
      refine quorum?_eq_some_iff.mpr ⟨hagree, Nat.lt_of_le_of_lt ?_ hquorum⟩
      rw [Nat.mul_comm]
      refine Nat.mul_le_mul_right total.toNat ?_
      split <;> decide
    simp only [decide?, hpausing, hdecoded, if_neg hdiffers]
    split
    · rfl
    · rename_i hother
      rw [if_neg hother, Nat.mul_comm] at hquorum
      exact if_pos (quorum?_eq_some_iff.mpr ⟨hagree, hquorum⟩)

end Voting

namespace Sample

/-- Two thirds of the stake are with account one, the rest with two others. -/
def stakes (id : UInt8) : UInt64 := if id = 1 then 20 else if id = 2 ∨ id = 3 then 5 else 0

/-- A vote for a scheme. -/
def voteFor (s : Scheme) (id : UInt8) : Vote :=
  ⟨(Descriptor.ofScheme s false).toBytes, 5, stakes id⟩

/-- Two accounts vote for one scheme, and a third for another. -/
def oneAgainst : Voting :=
  ⟨10, PerSlot.both ((((∅ : VoteTable).insert 1 (voteFor .dilithium5 1)).insert 2
    (voteFor .dilithium5 2)).insert 3 (voteFor .falcon512 3))⟩

end Sample

namespace Voting

variable {v w w' : Voting} {slot slot' : Slot} {height height' total : UInt64} {value : Bytes}

/-- Two of three votes put a scheme in the place of the one that the third names. -/
theorem decide?_oneAgainst :
    let v := Sample.oneAgainst
    let dilithium := Descriptor.ofScheme .dilithium5 false
    v.decide? .primary 7 30 (.ofScheme .falcon512 false) = some dilithium ∧
      ∀ value, Vote.Agree ((v.live .primary 7).map Prod.snd) value → value = dilithium.toBytes := by
  intro v dilithium
  obtain ⟨-, hdecided, hunique⟩ :=
    decide?_eq_some_iff_agree v .primary 7 30 (.ofScheme .falcon512 false)
  have hagree : Vote.Agree ((v.live .primary 7).map Prod.snd) dilithium.toBytes := by
    decide +kernel
  refine ⟨(hdecided dilithium).mpr ⟨_, hagree, by decide +kernel, by decide, by decide +kernel⟩, ?_⟩
  exact fun value h => hunique value _ h hagree

/-! ## 3. Two quorums -/

/-- The votes for a slot are on record with the stakes of their accounts. -/
def Weighted (stake : UInt8 → UInt64) (v : Voting) (slot : Slot) : Prop :=
  ∀ id vote, (v.tables.get slot)[id]? = some vote → vote.staked = stake id

/-- The stake behind a value is that of the accounts that vote for it. -/
theorem Weighted.stakeFor {stake : UInt8 → UInt64} (h : v.Weighted stake slot) (height : UInt64)
    (value : Bytes) :
    v.stakeFor slot height value = ∑ id ∈ v.backers slot height value, (stake id).toNat := by
  rw [backers, List.sum_toFinset _ (v.nodup_accounts slot height value), List.map_map,
    Voting.stakeFor]
  refine congrArg List.sum (List.map_congr_left fun e he => ?_)
  rw [h e.1 e.2 (mem_votesFor.mp he).1]
  rfl

/-- What two sets of accounts have in common holds more than a third, if each holds more than two
thirds. -/
theorem lt_sum_inter {stake : UInt8 → UInt64} {total : Nat} {A B : Finset UInt8}
    (htotal : total = ∑ id, (stake id).toNat)
    (hA : total * 2 < 3 * ∑ id ∈ A, (stake id).toNat)
    (hB : total * 2 < 3 * ∑ id ∈ B, (stake id).toNat) :
    total < 3 * ∑ id ∈ A ∩ B, (stake id).toNat := by
  have hinter : ∑ id ∈ A ∪ B, (stake id).toNat + ∑ id ∈ A ∩ B, (stake id).toNat =
      ∑ id ∈ A, (stake id).toNat + ∑ id ∈ B, (stake id).toNat := Finset.sum_union_inter
  have hunion : ∑ id ∈ A ∪ B, (stake id).toNat ≤ ∑ id, (stake id).toNat :=
    Finset.sum_le_univ_sum_of_nonneg fun _ => Nat.zero_le _
  rw [← htotal] at hunion
  omega

/-- **Two states of the votes put different schemes in the same place only if accounts with more
than a third of all stake voted for both**, in one state for the one and in the other for the
other. -/
theorem quorums_intersect (stake : UInt8 → UInt64)
    (hw : w.Weighted stake slot) (hw' : w'.Weighted stake slot')
    (htotal : total.toNat = ∑ id, (stake id).toNat) :
    (∀ value value', w.replacing? slot height total = some value →
      w'.replacing? slot' height' total = some value' →
        total.toNat <
          3 * ∑ id ∈ w.backers slot height value ∩ w'.backers slot' height' value',
            (stake id).toNat) ∧
    ∀ current current' proposed proposed' : Descriptor,
      w.decide? slot height total current = some proposed →
      w'.decide? slot' height' total current' = some proposed' →
      proposed.sameScheme current = false → proposed'.sameScheme current' = false →
      proposed ≠ proposed' →
        ∃ value value', Descriptor.ofBytes value = .ok proposed ∧
          Descriptor.ofBytes value' = .ok proposed' ∧ value ≠ value' ∧
          total.toNat <
            3 * ∑ id ∈ w.backers slot height value ∩ w'.backers slot' height' value',
              (stake id).toNat := by
  have hcommon (value value' : Bytes) (h : w.replacing? slot height total = some value)
      (h' : w'.replacing? slot' height' total = some value') :
      total.toNat <
        3 * ∑ id ∈ w.backers slot height value ∩ w'.backers slot' height' value',
          (stake id).toNat := by
    refine lt_sum_inter htotal ?_ ?_
    · rw [← hw.stakeFor]
      exact lt_stakeFor_of_quorum? h
    · rw [← hw'.stakeFor]
      exact lt_stakeFor_of_quorum? h'
  refine ⟨hcommon, fun current current' proposed proposed' h h' hother hother' hne => ?_⟩
  obtain ⟨value, hdecoded, -, -, hreplacing⟩ := decide?_eq_some h
  obtain ⟨value', hdecoded', -, -, hreplacing'⟩ := decide?_eq_some h'
  have hvalue := hreplacing.resolve_left (Bool.eq_false_iff.mp hother)
  have hvalue' := hreplacing'.resolve_left (Bool.eq_false_iff.mp hother')
  refine ⟨value, value', hdecoded, hdecoded', ?_, hcommon value value' hvalue hvalue'⟩
  rintro rfl
  rw [hdecoded] at hdecoded'
  exact hne (Except.ok.inj hdecoded')

end Voting

/-! ## 4. An account that votes both ways -/

namespace Sample

/-- Account one and another vote for a scheme. -/
def votesWith (s : Scheme) (other : UInt8) : Voting :=
  ⟨10, PerSlot.both (((∅ : VoteTable).insert 1 (voteFor s 1)).insert other (voteFor s other))⟩

theorem weighted_votesWith (s : Scheme) (other : UInt8) (slot : Slot) :
    (votesWith s other).Weighted stakes slot := by
  intro id vote h
  have htable : (votesWith s other).tables.get slot =
      ((∅ : VoteTable).insert 1 (voteFor s 1)).insert other (voteFor s other) := by
    cases slot <;> rfl
  rw [htable, Std.ExtTreeMap.getElem?_insert] at h
  split at h
  · rename_i heq
    cases h
    rw [voteFor, Std.LawfulEqCmp.eq_of_compare heq]
  rw [Std.ExtTreeMap.getElem?_insert] at h
  split at h
  · rename_i heq
    cases h
    rw [voteFor, Std.LawfulEqCmp.eq_of_compare heq]
  · rw [Std.ExtTreeMap.getElem?_empty] at h
    cases h

end Sample

/-- Two nodes put different schemes in the primary slot, since account one voted for both. -/
theorem Voting.quorums_intersect_in_one :
    let w := Sample.votesWith .dilithium5 2
    let w' := Sample.votesWith .falcon512 3
    let dilithium := Descriptor.ofScheme .dilithium5 false
    let falcon := Descriptor.ofScheme .falcon512 false
    w.decide? .primary 7 30 falcon = some dilithium ∧
      w'.decide? .primary 8 30 dilithium = some falcon ∧
      ∃ value value', Descriptor.ofBytes value = .ok dilithium ∧
        Descriptor.ofBytes value' = .ok falcon ∧ value ≠ value' ∧
        (30 : UInt64).toNat <
          3 * ∑ id ∈ w.backers .primary 7 value ∩ w'.backers .primary 8 value',
            (Sample.stakes id).toNat := by
  intro w w' dilithium falcon
  have htotal : (30 : UInt64).toNat = ∑ id, (Sample.stakes id).toNat := by decide +kernel
  have hdilithium : w.decide? .primary 7 30 falcon = some dilithium := by
    decide +kernel
  have hfalcon : w'.decide? .primary 8 30 dilithium = some falcon := by
    decide +kernel
  refine ⟨hdilithium, hfalcon, ?_⟩
  exact (Voting.quorums_intersect Sample.stakes (Sample.weighted_votesWith .dilithium5 2 .primary)
    (Sample.weighted_votesWith .falcon512 3 .primary) htotal).2 falcon dilithium dilithium falcon
    hdilithium hfalcon (by decide) (by decide) (by decide)

end SynergyNode
