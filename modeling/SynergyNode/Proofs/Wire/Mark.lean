import Mathlib.Data.List.Infix
import SynergyNode.Wire.Frame

/-!
# Searching for a mark

`Bytes.find?` gives the first place of a mark in a byte string.  This module says what that place is
(`find?_eq_none`, `find?_eq_some`) and which part of a string may be left out of the search:

* bytes at which the mark does not start can be cut off in front (`find?_skip`), in particular all
  but the last few of a string in which the mark does not occur (`find?_drop`);
* hence a search that has been through a part of a string may go on a mark's length before the end
  of that part (`findFrom?_resume`).

Two strings joined can hold a mark that neither holds.  A mark is *unbordered* when none of its
proper endings is a beginning of it; such a mark is found exactly where it was put
(`find?_append_mark`), and the rest of a cut mark never completes another (`find?_rest`).
-/

namespace SynergyNode.Bytes

variable {mark b d x y : Bytes} {n : Nat}

/-! ## 1. The first place -/

theorem findFrom?_eq (mark : Bytes) (n : Nat) (b : Bytes) :
    findFrom? mark n b = (find? mark b).map (n + ·) := by
  unfold find?
  induction b generalizing n with
  | nil => rfl
  | cons c b ih =>
    simp only [findFrom?]
    split
    · simp
    · rw [ih, ih (0 + 1), Option.map_map]
      congr 1
      funext k
      simp only [Function.comp_apply]
      omega

theorem find?_cons (mark : Bytes) (c : UInt8) (b : Bytes) :
    find? mark (c :: b) = if mark <+: c :: b then some 0 else (find? mark b).map (· + 1) := by
  rw [find?, findFrom?, findFrom?_eq]
  simp only [List.isPrefixOf_iff_prefix]
  congr 2
  funext k
  omega

theorem find?_eq_none (hne : mark ≠ []) : find? mark b = none ↔ ¬ mark <:+: b := by
  induction b with
  | nil => simpa [find?, findFrom?] using hne
  | cons c b ih =>
    rw [find?_cons, List.infix_cons_iff]
    split
    · rename_i h
      simp [h]
    · rename_i h
      simp [h, ih]

/-- What is found is the mark, and it does not stand in what is in front of it. -/
theorem find?_eq_some (hne : mark ≠ []) (h : find? mark b = some n) :
    ∃ x y, b = x ++ (mark ++ y) ∧ x.length = n ∧ ¬ mark <:+: x := by
  induction b generalizing n with
  | nil => cases h
  | cons c b ih =>
    rw [find?_cons] at h
    split at h
    · rename_i hstarts
      obtain ⟨y, hy⟩ := hstarts
      cases h
      exact ⟨[], y, by rw [List.nil_append, hy], rfl, by simpa using hne⟩
    · rename_i hstarts
      obtain ⟨k, hk, rfl⟩ := Option.map_eq_some_iff.mp h
      obtain ⟨x, y, rfl, rfl, hx⟩ := ih hk
      refine ⟨c :: x, y, rfl, rfl, ?_⟩
      rw [List.infix_cons_iff]
      rintro (hfirst | hrest)
      · exact hstarts (hfirst.trans (List.prefix_append (c :: x) (mark ++ y)))
      · exact hx hrest

/-- Where a mark occurs, it occurs a first time. -/
theorem exists_first_of_infix (hne : mark ≠ []) (h : mark <:+: b) :
    ∃ x y, b = x ++ (mark ++ y) ∧ ¬ mark <:+: x := by
  cases hfound : find? mark b with
  | none => exact absurd h ((find?_eq_none hne).mp hfound)
  | some n =>
    obtain ⟨x, y, hxy, -, hx⟩ := find?_eq_some hne hfound
    exact ⟨x, y, hxy, hx⟩

/-- More bytes behind do not move the first place. -/
theorem find?_append_of_some (hne : mark ≠ []) (h : find? mark b = some n) (d : Bytes) :
    find? mark (b ++ d) = some n := by
  induction b generalizing n with
  | nil => cases h
  | cons c b ih =>
    have hinside : mark <:+: c :: b := by
      by_contra hnot
      rw [(find?_eq_none hne).mpr hnot] at h
      cases h
    rw [find?_cons] at h
    have hiff : mark <+: c :: (b ++ d) ↔ mark <+: c :: b :=
      List.isPrefix_append_of_length hinside.length_le
    rw [List.cons_append, find?_cons]
    simp only [hiff]
    split at h
    · rename_i hstarts
      cases h
      rw [if_pos hstarts]
    · rename_i hstarts
      obtain ⟨k, hk, rfl⟩ := Option.map_eq_some_iff.mp h
      rw [if_neg hstarts, ih hk, Option.map_some]

/-! ## 2. Where the search may start -/

/-- Bytes at which the mark does not start can be cut off in front. -/
theorem find?_skip (h : ∀ k < x.length, ¬ mark <+: x.drop k ++ y) :
    find? mark (x ++ y) = (find? mark y).map (x.length + ·) := by
  induction x with
  | nil => simp
  | cons c x ih =>
    have hfirst : ¬ mark <+: c :: (x ++ y) := h 0 (Nat.succ_pos _)
    have hrest : ∀ k < x.length, ¬ mark <+: x.drop k ++ y := fun k hk =>
      h (k + 1) (Nat.succ_lt_succ hk)
    rw [List.cons_append, find?_cons, if_neg hfirst, ih hrest, Option.map_map]
    congr 1
    funext k
    simp only [Function.comp_apply, List.length_cons]
    omega

/-- Of a string in which the mark does not occur only the last bytes can belong to one. -/
theorem find?_drop (h : ¬ mark <:+: b) (d : Bytes) :
    find? mark (b ++ d) =
      (find? mark (b.drop (b.length - (mark.length - 1)) ++ d)).map
        (b.length - (mark.length - 1) + ·) := by
  obtain ⟨s, hs⟩ : ∃ s, s = b.length - (mark.length - 1) := ⟨_, rfl⟩
  have hlength : (b.take s).length = s := by
    rw [List.length_take]
    omega
  have hskip : find? mark (b.take s ++ (b.drop s ++ d)) =
      (find? mark (b.drop s ++ d)).map ((b.take s).length + ·) := by
    refine find?_skip fun k hk hstart => h ?_
    rw [hlength] at hk
    rw [← List.append_assoc, ← List.drop_append_of_le_length (by omega), List.take_append_drop]
      at hstart
    have hshort : mark.length ≤ (b.drop k).length := by
      rw [List.length_drop]
      omega
    exact ((List.isPrefix_append_of_length hshort).mp hstart).isInfix.trans
      (List.drop_suffix k b).isInfix
  rw [hlength, ← List.append_assoc, List.take_append_drop] at hskip
  rw [← hs, hskip]

/-- **A search may go on where an earlier one stopped**, less the bytes that may begin the mark. -/
theorem findFrom?_resume (hn : n ≤ b.length) (h : ¬ mark <:+: b.take n) :
    findFrom? mark (n - (mark.length - 1)) (b.drop (n - (mark.length - 1))) = find? mark b := by
  have hlength : (b.take n).length = n := by
    rw [List.length_take]
    omega
  have hdrop := find?_drop h (b.drop n)
  rw [List.take_append_drop, hlength, ← List.drop_append_of_le_length (by omega),
    List.take_append_drop] at hdrop
  rw [findFrom?_eq, hdrop]

/-! ## 3. Marks across a joint -/

/-- None of the proper endings of a mark is a beginning of it. -/
def Unbordered (mark : Bytes) : Prop := ∀ k < mark.length, 0 < k → ¬ mark.drop k <+: mark

instance : Decidable (Unbordered mark) := inferInstanceAs (Decidable (∀ k < mark.length, _))

/-- Behind a string in which the mark does not occur and of which no ending begins it, the search
starts anew. -/
theorem find?_append_of_apart (hb : ¬ mark <:+: b) (hapart : ∀ k < b.length, ¬ b.drop k <+: mark)
    (d : Bytes) : find? mark (b ++ d) = (find? mark d).map (b.length + ·) := by
  refine find?_skip fun k hk hstart => ?_
  rcases List.prefix_or_prefix_of_prefix hstart (List.prefix_append (b.drop k) d) with hin | hover
  · exact hb (hin.isInfix.trans (List.drop_suffix k b).isInfix)
  · exact hapart k hk hover

/-- **A mark is found behind a string in which it does not occur, or across the joint.** -/
theorem find?_append_cases (hb : ¬ mark <:+: b) (d : Bytes) :
    find? mark (b ++ d) = (find? mark d).map (b.length + ·) ∨
      ∃ x s z y, b = x ++ s ∧ d = z ++ y ∧ mark = s ++ z ∧ s ≠ [] ∧ z ≠ [] := by
  by_cases hskip : ∀ k < b.length, ¬ mark <+: b.drop k ++ d
  · exact .inl (find?_skip hskip)
  · push Not at hskip
    obtain ⟨k, hk, hstart⟩ := hskip
    have hnot : ¬ mark <+: b.drop k := fun hin =>
      hb (hin.isInfix.trans (List.drop_suffix k b).isInfix)
    obtain ⟨z, hz⟩ : b.drop k <+: mark :=
      (List.prefix_or_prefix_of_prefix hstart (List.prefix_append (b.drop k) d)).resolve_left hnot
    rw [← hz, List.prefix_append_right_inj] at hstart
    obtain ⟨y, hy⟩ := hstart
    have hb := (List.take_append_drop k b).symm
    refine .inr ⟨b.take k, b.drop k, z, y, hb, hy.symm, hz.symm, ?_, ?_⟩
    · rw [← List.length_pos_iff, List.length_drop]
      omega
    · rintro rfl
      rw [List.append_nil] at hz
      exact hnot (hz ▸ List.prefix_refl _)

/-- **An unbordered mark is found where it was put.** -/
theorem find?_append_mark (hmark : Unbordered mark) (hne : mark ≠ []) (hx : ¬ mark <:+: x)
    (y : Bytes) : find? mark (x ++ (mark ++ y)) = some x.length := by
  rcases find?_append_cases hx (mark ++ y) with h | ⟨x', s, z, y', -, hy, hsz, hs, hz⟩
  · have hhere : find? mark (mark ++ y) = some 0 := by
      obtain ⟨c, m, rfl⟩ := List.exists_cons_of_ne_nil hne
      have hstart : c :: m <+: c :: (m ++ y) := List.prefix_append (c :: m) y
      rw [List.cons_append, find?_cons, if_pos hstart]
    rw [h, hhere, Option.map_some, Nat.add_zero]
  · -- the mark would begin with one of its own endings
    have hending : mark.drop s.length = z := by
      rw [hsz, List.drop_left]
    have hlength : mark.length = s.length + z.length := by
      rw [hsz, List.length_append]
    have hspos := List.length_pos_iff.mpr hs
    have hzpos := List.length_pos_iff.mpr hz
    have hborder : z <+: mark :=
      List.prefix_of_prefix_length_le (hy ▸ List.prefix_append z y') (List.prefix_append mark y)
        (by omega)
    exact absurd (hending ▸ hborder) (hmark s.length (by omega) hspos)

/-- A mark that has begun is not there yet. -/
theorem not_infix_append_begun (hmark : Unbordered mark) (hne : mark ≠ []) {s z : Bytes}
    (hsz : mark = s ++ z) (hz : z ≠ []) (hb : ¬ mark <:+: b) : ¬ mark <:+: b ++ s := by
  have hwhole := find?_append_mark hmark hne hb []
  have hjoined : b ++ (mark ++ []) = (b ++ s) ++ z := by
    rw [List.append_nil, List.append_assoc, ← hsz]
  rw [hjoined] at hwhole
  rw [← find?_eq_none hne]
  cases hfound : find? mark (b ++ s) with
  | none => rfl
  | some n =>
    obtain ⟨x, y, hxy, rfl, -⟩ := find?_eq_some hne hfound
    rw [find?_append_of_some hne hfound z] at hwhole
    have hplace := Option.some.inj hwhole
    have hlength := congrArg List.length hxy
    have hcut := congrArg List.length hsz
    have hzpos := List.length_pos_iff.mpr hz
    simp only [List.length_append] at hlength hcut
    omega

/-- **The rest of a cut mark does not complete another**: behind it the search starts anew. -/
theorem find?_rest (hmark : Unbordered mark) {s z : Bytes} (hsz : mark = s ++ z) (hs : s ≠ [])
    (d : Bytes) : find? mark (z ++ d) = (find? mark d).map (z.length + ·) := by
  have hspos := List.length_pos_iff.mpr hs
  have hlength : mark.length = s.length + z.length := by
    rw [hsz, List.length_append]
  refine find?_append_of_apart (fun hin => ?_) (fun k hk hborder => ?_) d
  · have := hin.length_le
    omega
  · have hending : mark.drop (s.length + k) = z.drop k := by
      rw [hsz, List.drop_append]
      simp
    exact hmark (s.length + k) (by omega) (by omega) (hending ▸ hborder)

theorem not_infix_append_of_apart (hne : mark ≠ []) (hb : ¬ mark <:+: b)
    (hapart : ∀ k < b.length, ¬ b.drop k <+: mark) (hd : ¬ mark <:+: d) : ¬ mark <:+: b ++ d := by
  rw [← find?_eq_none hne] at hd ⊢
  rw [find?_append_of_apart hb hapart, hd, Option.map_none]

/-- **An unbordered mark divides a string at its first place in one way only.** -/
theorem eq_of_append_mark (hmark : Unbordered mark) (hne : mark ≠ []) {x' y' : Bytes}
    (hx : ¬ mark <:+: x) (hx' : ¬ mark <:+: x') (h : x ++ (mark ++ y) = x' ++ (mark ++ y')) :
    x = x' ∧ y = y' := by
  have hplace := find?_append_mark hmark hne hx y
  rw [h, find?_append_mark hmark hne hx' y'] at hplace
  obtain ⟨hfront, hback⟩ := List.append_inj h (Option.some.inj hplace).symm
  exact ⟨hfront, List.append_cancel_left hback⟩

end SynergyNode.Bytes
