import Mathlib.Algebra.Ring.Nat
import SynergyNode.Proofs.Voting

/-!
# Counting the votes

The most common value is found in one pass, the first vote for another value is set aside, and the
stakes of the rest are added up as far as the sum fits.

* `count_le_commonest`: no value has more votes than the one that the pass ends with;
* `Vote.Agree`: all votes are for a value, or there are more than two and all but one at most are;
  there is one such value at most (`Vote.Agree.unique`);
* `Vote.agreed?_eq_some_iff`: this value is the one that is found, with the stakes of its votes;
* `Vote.toNat_totalStake`: these add up to their sum or to the largest number.
-/

namespace SynergyNode

/-! ## 1. The most common value -/

/-- While the best value is the most common of the values that were read, it ends as the most common
of all. -/
theorem count_le_commonestFrom (rest : List Bytes) {seen : List Bytes} {best : Bytes × Nat}
    (hbest : best.2 = seen.count best.1) (hmost : ∀ w, seen.count w ≤ best.2) (w : Bytes) :
    seen.count w + rest.count w ≤
      seen.count (commonestFrom seen best rest) + rest.count (commonestFrom seen best rest) := by
  induction rest generalizing seen best with
  | nil =>
    rw [commonestFrom, ← hbest]
    exact hmost w
  | cons v rest ih =>
    have hmove (u : Bytes) :
        seen.count u + (v :: rest).count u = (v :: seen).count u + rest.count u := by
      rw [List.count_cons, List.count_cons]
      omega
    rw [commonestFrom, hmove, hmove]
    by_cases hmore : best.2 < seen.count v + 1
    · rw [if_pos hmore]
      refine ih List.count_cons_self.symm fun u => ?_
      have hold := hmost u
      rw [List.count_cons]
      split
      · rename_i heq
        obtain rfl := beq_iff_eq.mp heq
        exact Nat.le_refl _
      · exact Nat.le_of_lt (Nat.lt_of_le_of_lt hold hmore)
    · rw [if_neg hmore]
      refine ih ?_ fun u => ?_
      · rw [List.count_cons_of_ne]
        · exact hbest
        · rintro rfl
          omega
      · have hold := hmost u
        rw [List.count_cons]
        split
        · rename_i heq
          rw [← beq_iff_eq.mp heq]
          omega
        · exact hold

/-- **No value is more common than the one that is found.** -/
theorem count_le_commonest (v w : Bytes) (rest : List Bytes) :
    (v :: rest).count w ≤ (v :: rest).count (commonest v rest) := by
  have hall := @count_le_commonestFrom (v :: rest) [] (v, 0) List.count_nil.symm
    (fun u => Nat.le_of_eq List.count_nil) w
  rwa [List.count_nil, List.count_nil, Nat.zero_add, Nat.zero_add] at hall

/-- Of more than one item the first goes that differs from a value that none is more common than. -/
theorem removeOneDifferent_eq {α : Type} (key : α → Bytes) {items : List α} (h : 1 < items.length) :
    ∃ common, (∀ w, (items.map key).count w ≤ (items.map key).count common) ∧
      removeOneDifferent key items = items.eraseP fun x => key x != common := by
  match items, h with
  | a :: b :: rest, _ =>
    exact ⟨commonest (key a) ((b :: rest).map key),
      fun w => count_le_commonest (key a) w ((b :: rest).map key), rfl⟩

/-! ## 2. The votes that agree -/

namespace Vote

variable {votes : List Vote} {value value' : Bytes} {staked : UInt64}

/-- The votes for a value. -/
def votesOf (votes : List Vote) (value : Bytes) : List Vote :=
  votes.filter fun vote => vote.values = value

/-- The votes for other values. -/
def others (votes : List Vote) (value : Bytes) : List Vote :=
  votes.filter fun vote => vote.values != value

/-- There are votes, and all are for a value, or there are more than two and at most one is not. -/
def Agree (votes : List Vote) (value : Bytes) : Prop :=
  votes ≠ [] ∧ (others votes value = [] ∨ 2 < votes.length ∧ (others votes value).length ≤ 1)

instance (votes : List Vote) (value : Bytes) : Decidable (Agree votes value) :=
  inferInstanceAs (Decidable (_ ∧ _))

theorem length_votesOf_add (votes : List Vote) (value : Bytes) :
    (votesOf votes value).length + (others votes value).length = votes.length := by
  have hsame : others votes value = votes.filter fun vote => !decide (vote.values = value) :=
    List.filter_congr fun vote _ => by rw [Bool.eq_iff_iff]; simp
  rw [hsame, votesOf, ← List.countP_eq_length_filter, ← List.countP_eq_length_filter,
    votes.length_eq_countP_add_countP fun vote => vote.values = value]
  simp

theorem length_votesOf_le_others (votes : List Vote) (h : value ≠ value') :
    (votesOf votes value).length ≤ (others votes value').length := by
  rw [votesOf, others, ← List.countP_eq_length_filter, ← List.countP_eq_length_filter]
  refine List.countP_mono_left fun vote _ hvote => ?_
  rw [decide_eq_true_iff] at hvote
  rw [hvote, bne_iff_ne]
  exact h

/-- **The votes agree on one value at most.** -/
theorem Agree.unique (h : Agree votes value) (h' : Agree votes value') : value = value' := by
  refine Decidable.byContradiction fun hne => ?_
  obtain ⟨hvotes, hvalue⟩ := h
  obtain ⟨-, hvalue'⟩ := h'
  have hsome := List.length_pos_iff.mpr hvotes
  have hall := length_votesOf_add votes value
  have hall' := length_votesOf_add votes value'
  have hless := length_votesOf_le_others votes hne
  have hless' := length_votesOf_le_others votes (Ne.symm hne)
  rw [← List.length_eq_zero_iff] at hvalue hvalue'
  omega

theorem Agree.length_others_le (h : Agree votes value) : (others votes value).length ≤ 1 := by
  rcases h.2 with hnone | ⟨-, hone⟩
  · rw [hnone]
    exact Nat.zero_le 1
  · exact hone

/-- With more than two votes that agree no other value is as common. -/
theorem Agree.eq_of_count_le (h : Agree votes value) (hmany : 2 < votes.length) {common : Bytes}
    (hcommon : (votes.map values).count value ≤ (votes.map values).count common) :
    common = value := by
  refine Decidable.byContradiction fun hne => ?_
  have hcount (w : Bytes) : (votes.map values).count w = (votesOf votes w).length := by
    rw [List.count, List.countP_map, votesOf, ← List.countP_eq_length_filter]
    refine List.countP_congr fun vote _ => ?_
    rw [Function.comp_apply, beq_iff_eq, decide_eq_true_iff]
  rw [hcount, hcount] at hcommon
  have hall := length_votesOf_add votes value
  have hless := length_votesOf_le_others votes hne
  have hfew := h.length_others_le
  omega

theorem votesOf_eq_self (h : others votes value = []) : votesOf votes value = votes := by
  rw [others, List.filter_eq_nil_iff] at h
  rw [votesOf, List.filter_eq_self]
  intro vote hvote
  simpa using h vote hvote

theorem Agree.votesOf_ne_nil (h : Agree votes value) : votesOf votes value ≠ [] := by
  intro hnone
  have hall := length_votesOf_add votes value
  have hsome := List.length_pos_iff.mpr h.1
  have hvalue := h.2
  rw [hnone, List.length_nil, Nat.zero_add] at hall
  rw [← List.length_eq_zero_iff] at hvalue
  omega

/-- When there is at most one other vote, it is the one that goes. -/
theorem eraseP_others (h : (others votes value).length ≤ 1) :
    (votes.eraseP fun vote => vote.values != value) = votesOf votes value := by
  induction votes with
  | nil => rfl
  | cons vote rest ih =>
    by_cases heq : vote.values = value
    · rw [others, List.filter_cons_of_neg (by simpa using heq)] at h
      rw [List.eraseP_cons_of_neg (by simpa using heq), ih h, votesOf, votesOf,
        List.filter_cons_of_pos (by simpa using heq)]
    · rw [others, List.filter_cons_of_pos (by simpa using heq), List.length_cons] at h
      have hnone : others rest value = [] := List.length_eq_zero_iff.mp (Nat.le_zero.mp
        (Nat.le_of_succ_le_succ h))
      rw [List.eraseP_cons_of_pos (by simpa using heq), votesOf,
        List.filter_cons_of_neg (by simpa using heq)]
      exact (votesOf_eq_self hnone).symm

/-- The votes that are left when an outlier is set aside. -/
def remaining (votes : List Vote) : List Vote :=
  if 2 < votes.length then removeOneDifferent values votes else votes

/-- **When the votes agree, those for the value are left.** -/
theorem Agree.remaining_eq (h : Agree votes value) : remaining votes = votesOf votes value := by
  unfold remaining
  split
  · rename_i hmany
    obtain ⟨common, hmost, hremove⟩ := removeOneDifferent_eq values (Nat.lt_of_succ_lt hmany)
    rw [hremove, h.eq_of_count_le hmany (hmost value)]
    exact eraseP_others h.length_others_le
  · rename_i hfew
    exact (votesOf_eq_self (h.2.resolve_right fun hmany => hfew hmany.1)).symm

/-- One vote at most is set aside. -/
theorem others_remaining_cases (votes : List Vote) (value : Bytes) :
    others votes value = others (remaining votes) value ∨ 2 < votes.length ∧
      (others votes value).length ≤ (others (remaining votes) value).length + 1 := by
  unfold remaining
  split
  · rename_i hmany
    obtain ⟨common, -, hremove⟩ := removeOneDifferent_eq values (Nat.lt_of_succ_lt hmany)
    rw [hremove]
    refine Or.inr ⟨hmany, ?_⟩
    rcases List.exists_or_eq_self_of_eraseP (fun vote => vote.values != common) votes with
      heq | ⟨gone, before, after, -, -, hvotes, heq⟩
    · rw [heq]
      exact Nat.le_succ _
    · rw [heq, hvotes]
      simp only [others, List.filter_append, List.length_append, List.filter_cons]
      split
      · rw [List.length_cons]
        omega
      · omega
  · exact Or.inl rfl

/-- **When the votes that are left are all for one value, the votes agree on it.** -/
theorem agree_of_remaining (hsome : remaining votes ≠ [])
    (hall : ∀ vote ∈ remaining votes, vote.values = value) : Agree votes value := by
  have hnone : others (remaining votes) value = [] :=
    List.filter_eq_nil_iff.mpr fun vote hvote => by simpa using hall vote hvote
  have hvotes : votes ≠ [] := by
    rintro rfl
    exact hsome rfl
  have hothers := others_remaining_cases votes value
  rw [hnone, List.length_nil, Nat.zero_add] at hothers
  exact ⟨hvotes, hothers⟩

theorem agreed?_of_nil (h : remaining votes = []) : agreed? votes = none := by
  unfold remaining at h
  simp only [agreed?, h]

theorem agreed?_of_cons {first : Vote} {rest : List Vote} (h : remaining votes = first :: rest) :
    agreed? votes =
      if (first :: rest).all (fun v => v.values == first.values) then
        some (first.values, totalStake (first :: rest))
      else none := by
  unfold remaining at h
  simp only [agreed?, h]

/-- **What the votes agree on is found**, and no other value, with the stakes of its votes. -/
theorem agreed?_eq_some_iff : agreed? votes = some (value, staked) ↔
    Agree votes value ∧ totalStake (votesOf votes value) = staked := by
  constructor
  · intro h
    cases hleft : remaining votes with
    | nil =>
      rw [agreed?_of_nil hleft] at h
      cases h
    | cons first rest =>
      rw [agreed?_of_cons hleft] at h
      split at h
      · rename_i hall
        cases h
        have hagree : Agree votes first.values := by
          refine agree_of_remaining (hleft ▸ List.cons_ne_nil first rest) fun vote hvote => ?_
          rw [hleft] at hvote
          exact beq_iff_eq.mp (List.all_eq_true.mp hall vote hvote)
        exact ⟨hagree, congrArg totalStake (hagree.remaining_eq.symm.trans hleft)⟩
      · cases h
  · rintro ⟨hagree, rfl⟩
    cases hleft : votesOf votes value with
    | nil => exact absurd hleft hagree.votesOf_ne_nil
    | cons first rest =>
      have hvalues : ∀ vote ∈ first :: rest, vote.values = value := fun vote hvote => by
        rw [← hleft] at hvote
        exact decide_eq_true_iff.mp (List.mem_filter.mp hvote).2
      have hfirst := hvalues first List.mem_cons_self
      have hall : (first :: rest).all (fun v => v.values == first.values) = true :=
        List.all_eq_true.mpr fun vote hvote => by rw [hvalues vote hvote, hfirst, beq_self_eq_true]
      rw [agreed?_of_cons (hagree.remaining_eq.trans hleft), if_pos hall, hfirst]

/-! ## 3. The stakes -/

/-- **The stakes add up to their sum, as far as it fits.** -/
theorem toNat_totalStake (votes : List Vote) :
    (totalStake votes).toNat = min (votes.map fun v => v.staked.toNat).sum Word64.max.toNat := by
  have hfold (sum : UInt64) (votes : List Vote) :
      (votes.foldl (fun sum v => Word64.saturatingAdd sum v.staked) sum).toNat =
        min (sum.toNat + (votes.map fun v => v.staked.toNat).sum) Word64.max.toNat := by
    induction votes generalizing sum with
    | nil =>
      have hmax := sum.toNat_lt
      have hlast : Word64.max.toNat = 2 ^ 64 - 1 := rfl
      rw [List.foldl_nil, List.map_nil, List.sum_nil]
      omega
    | cons v rest ih =>
      rw [List.foldl_cons, ih, Word64.toNat_saturatingAdd, List.map_cons, List.sum_cons]
      omega
  rw [totalStake, hfold]
  exact congrArg (min · Word64.max.toNat) (Nat.zero_add _)

end Vote

end SynergyNode
