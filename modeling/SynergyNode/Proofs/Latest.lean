import Mathlib.Data.List.Induction
import SynergyNode.Proofs.Table

/-!
# The latest record of each key

A table keeps one record a key: one that is not lower than the record on file takes its place, and
a lower one is refused.  Whenever the table is looked at, records that no longer count are dropped.
Dropping one makes room for lower ones that would have been refused, so which records are on file
depends on the order in which all this happens.  Which of them count in the end does not:

* `Aging` says how records age: what counts at a height counts at every lower one, and as long as a
  record counts the higher ones do too.  So whatever gets in where a record was dropped does not
  count either;
* `Tracks` is what holds of a table on the way: for every record that will count in the end, a
  record of its key is on file that is not lower (`tracks_run`);
* `getElem?_prune_run`: the records that count in the end are the highest of their keys;
* `Reordering.prune_run`: they depend on nothing but which records came in.
-/

namespace SynergyNode

/-- Which records a table takes, and how they age. -/
structure Aging (κ α : Type) where
  /-- Whether a record is put on file at all. -/
  admits : κ → α → Bool
  /-- The height that a record is of. -/
  height : α → UInt64
  /-- Whether a record counts at a height. -/
  counts : UInt64 → α → Bool
  counts_of_le : ∀ {h h' : UInt64} {a : α}, h' ≤ h → counts h a = true → counts h' a = true
  counts_of_height_le : ∀ {h : UInt64} {k : κ} {a b : α}, admits k b = true →
    height a ≤ height b → counts h a = true → counts h b = true

namespace Aging

/-! ## 1. Records that come in -/

/-- Something that is asked of tables side by side. -/
inductive Call (ι κ α : Type) where
  /-- A record comes in. -/
  | save (table : ι) (key : κ) (record : α)
  /-- A table is looked at for a height. -/
  | look (table : ι) (height : UInt64)

section

variable {ι κ α : Type}

/-- Among the calls there is one that brings this record to this table, which takes such records. -/
def Entered (g : Aging κ α) (calls : List (Call ι κ α)) (i : ι) (k : κ) (a : α) : Prop :=
  .save i k a ∈ calls ∧ g.admits k a = true

/-- Among the records that come in for a key this one is the highest, and it counts at the limit. -/
structure Latest (g : Aging κ α) (limit : UInt64) (calls : List (Call ι κ α)) (i : ι) (k : κ)
    (a : α) : Prop where
  entered : g.Entered calls i k a
  highest : ∀ {b : α}, g.Entered calls i k b → g.height b ≤ g.height a
  counts : g.counts limit a = true

/-- The tables are looked at for no height above the limit. -/
def LooksUpTo (limit : UInt64) (calls : List (Call ι κ α)) : Prop :=
  ∀ i height, .look i height ∈ calls → height ≤ limit

/-- No two records that come in for a key of a table are of the same height. -/
def Unambiguous (g : Aging κ α) (calls : List (Call ι κ α)) : Prop :=
  ∀ i k a b, g.Entered calls i k a → g.Entered calls i k b → g.height a = g.height b → a = b

/-- The same records come in, no two of a key at the same height, and meanwhile the tables are
looked at for no height above the limit: neither the order of the records nor the places of the
looks have to be the same. -/
structure Reordering (g : Aging κ α) (limit : UInt64) (calls calls' : List (Call ι κ α)) :
    Prop where
  same : ∀ i k a, g.Entered calls i k a ↔ g.Entered calls' i k a
  unambiguous : g.Unambiguous calls
  early : LooksUpTo limit calls
  early' : LooksUpTo limit calls'

variable {g : Aging κ α} {limit : UInt64} {i : ι} {k : κ} {a : α} {calls calls' : List (Call ι κ α)}

/-- One more call brings in one more record, or none. -/
theorem entered_concat {call : Call ι κ α} :
    g.Entered (calls ++ [call]) i k a ↔
      g.Entered calls i k a ∨ call = .save i k a ∧ g.admits k a = true := by
  simp only [Entered, List.mem_append, List.mem_singleton, or_and_right, eq_comm]

theorem Reordering.symm (h : g.Reordering limit calls calls') :
    g.Reordering limit calls' calls where
  same i k a := (h.same i k a).symm
  unambiguous i k a b ha hb :=
    h.unambiguous i k a b ((h.same i k a).mpr ha) ((h.same i k b).mpr hb)
  early := h.early'
  early' := h.early

theorem Reordering.latest (h : g.Reordering limit calls calls') (ha : g.Latest limit calls i k a) :
    g.Latest limit calls' i k a :=
  ⟨(h.same i k a).mp ha.entered, fun hb => ha.highest ((h.same i k _).mpr hb), ha.counts⟩

theorem Reordering.latest_iff (h : g.Reordering limit calls calls') :
    g.Latest limit calls i k a ↔ g.Latest limit calls' i k a :=
  ⟨h.latest, h.symm.latest⟩

end

/-! ## 2. Tables -/

variable {κ α : Type} [Ord κ] [Std.TransOrd κ]

/-- Puts a record on file unless there is a higher one of its key. -/
def enter (g : Aging κ α) (t : Std.ExtTreeMap κ α) (k : κ) (a : α) : Std.ExtTreeMap κ α :=
  match t[k]? with
  | some old => if g.height a < g.height old then t else t.insert k a
  | none => t.insert k a

/-- Drops the records that do not count at a height. -/
def prune (g : Aging κ α) (t : Std.ExtTreeMap κ α) (height : UInt64) : Std.ExtTreeMap κ α :=
  t.filter fun _ a => g.counts height a

/-- One of the tables after a call. -/
def after {ι : Type} [DecidableEq ι] (g : Aging κ α) (i : ι) (t : Std.ExtTreeMap κ α) :
    Call ι κ α → Std.ExtTreeMap κ α
  | .save j k a => if j = i ∧ g.admits k a = true then g.enter t k a else t
  | .look j height => if j = i then g.prune t height else t

/-- One of the tables after some calls. -/
def run {ι : Type} [DecidableEq ι] (g : Aging κ α) (i : ι) (t : Std.ExtTreeMap κ α)
    (calls : List (Call ι κ α)) : Std.ExtTreeMap κ α :=
  calls.foldl (g.after i) t

theorem enter_cases (g : Aging κ α) (t : Std.ExtTreeMap κ α) (k : κ) (a : α) :
    (g.enter t k a = t.insert k a ∧ ∀ old, t[k]? = some old → g.height old ≤ g.height a) ∨
      ∃ old, g.enter t k a = t ∧ t[k]? = some old ∧ g.height a < g.height old := by
  unfold enter
  split
  · rename_i old hold
    split
    · rename_i hlow
      exact Or.inr ⟨old, rfl, hold, hlow⟩
    · rename_i hlow
      refine Or.inl ⟨rfl, fun old' hold' => ?_⟩
      rw [hold] at hold'
      cases hold'
      exact UInt64.not_lt.mp hlow
  · rename_i hnone
    refine Or.inl ⟨rfl, fun old hold => ?_⟩
    rw [hnone] at hold
    cases hold

/-! ## 3. What is on file on the way -/

variable {g : Aging κ α} {t : Std.ExtTreeMap κ α} {k : κ} {a : α} {height limit : UInt64}
  {entered entered' : κ → α → Prop}

/-- Everything on file came in, and for every record that will count at the limit there is one of
its key on file that is not lower. -/
structure Tracks (g : Aging κ α) (limit : UInt64) (entered : κ → α → Prop)
    (t : Std.ExtTreeMap κ α) : Prop where
  found : ∀ {k : κ} {a : α}, t[k]? = some a → entered k a
  kept : ∀ {k : κ} {a : α}, entered k a → g.counts limit a = true →
    ∃ b, t[k]? = some b ∧ g.height a ≤ g.height b

theorem Tracks.congr (h : Tracks g limit entered t) (hsame : ∀ k a, entered' k a ↔ entered k a) :
    Tracks g limit entered' t where
  found ha := (hsame _ _).mpr (h.found ha)
  kept ha hcounts := h.kept ((hsame _ _).mp ha) hcounts

variable [Std.LawfulEqOrd κ]

theorem getElem?_prune_eq_some :
    (g.prune t height)[k]? = some a ↔ t[k]? = some a ∧ g.counts height a = true := by
  rw [prune, Std.ExtTreeMap.getElem?_filter', Option.filter_eq_some_iff]

theorem Tracks.enter (h : Tracks g limit entered t) (k : κ) (a : α) :
    Tracks g limit (fun k' c => entered k' c ∨ k' = k ∧ c = a) (g.enter t k a) := by
  rcases enter_cases g t k a with ⟨hentered, hhigh⟩ | ⟨old, hrefused, hold, hlow⟩
  · rw [hentered]
    refine ⟨fun {k' c} hfound => ?_, fun {k' c} hc hcounts => ?_⟩
    · rw [Std.ExtTreeMap.getElem?_insert] at hfound
      split at hfound
      · rename_i heq
        exact Or.inr ⟨(Std.LawfulEqCmp.eq_of_compare heq).symm, (Option.some.inj hfound).symm⟩
      · exact Or.inl (h.found hfound)
    · rw [Std.ExtTreeMap.getElem?_insert]
      split
      · rename_i heq
        cases Std.LawfulEqCmp.eq_of_compare heq
        refine ⟨a, rfl, ?_⟩
        rcases hc with hbefore | ⟨-, rfl⟩
        · obtain ⟨b, hb, hle⟩ := h.kept hbefore hcounts
          exact UInt64.le_trans hle (hhigh b hb)
        · exact UInt64.le_refl _
      · rename_i hne
        rcases hc with hbefore | ⟨rfl, -⟩
        · exact h.kept hbefore hcounts
        · exact absurd Std.ReflCmp.compare_self hne
  · rw [hrefused]
    refine ⟨fun hfound => Or.inl (h.found hfound), fun hc hcounts => ?_⟩
    rcases hc with hbefore | ⟨rfl, rfl⟩
    · exact h.kept hbefore hcounts
    · exact ⟨old, hold, UInt64.le_of_lt hlow⟩

/-- What is dropped on the way will not count in the end: a record that will count keeps the one on
file, which is not lower, from being dropped. -/
theorem Tracks.prune (h : Tracks g limit entered t)
    (hadmits : ∀ k a, entered k a → g.admits k a = true) (hlow : height ≤ limit) :
    Tracks g limit entered (g.prune t height) where
  found ha := h.found (getElem?_prune_eq_some.mp ha).1
  kept hc hcounts := by
    obtain ⟨b, hfound, hle⟩ := h.kept hc hcounts
    have hb : g.counts limit b = true :=
      g.counts_of_height_le (hadmits _ b (h.found hfound)) hle hcounts
    exact ⟨b, getElem?_prune_eq_some.mpr ⟨hfound, g.counts_of_le hlow hb⟩, hle⟩

variable {ι : Type} [DecidableEq ι] {i : ι} {calls calls' : List (Call ι κ α)}

/-- **Whatever was dropped on the way, what will count in the end is on file**, or a record of its
key that is not lower. -/
theorem tracks_run (hlow : LooksUpTo limit calls) (i : ι) :
    Tracks g limit (g.Entered calls i) (g.run i (∅ : Std.ExtTreeMap κ α) calls) := by
  induction calls using List.reverseRecOn with
  | nil =>
    refine ⟨fun hfound => ?_, fun hc => by cases hc.1⟩
    rw [run, List.foldl_nil, Std.ExtTreeMap.getElem?_empty] at hfound
    cases hfound
  | append_singleton calls call ih =>
    have hbefore := ih fun j height h => hlow j height (List.mem_append_left _ h)
    rw [run, List.foldl_append, List.foldl_cons, List.foldl_nil]
    cases call with
    | save j k a =>
      simp only [after]
      split
      · rename_i hhere
        refine (hbefore.enter k a).congr fun k' c => ?_
        rw [entered_concat]
        refine or_congr_right ⟨?_, ?_⟩
        · rintro ⟨hcall, -⟩
          cases hcall
          exact ⟨rfl, rfl⟩
        · rintro ⟨rfl, rfl⟩
          exact ⟨by rw [hhere.1], hhere.2⟩
      · rename_i helsewhere
        refine hbefore.congr fun k' c => ?_
        rw [entered_concat, or_iff_left]
        rintro ⟨hcall, hadmits⟩
        cases hcall
        exact helsewhere ⟨rfl, hadmits⟩
    | look j height =>
      have hsame : ∀ k' c, g.Entered (calls ++ [.look j height]) i k' c ↔
          g.Entered calls i k' c := fun k' c => by
        rw [entered_concat, or_iff_left]
        exact fun h => nomatch h.1
      simp only [after]
      split
      · have hheight := hlow j height (List.mem_append_right _ List.mem_cons_self)
        exact (hbefore.prune (fun _ _ h => h.2) hheight).congr hsame
      · exact hbefore.congr hsame

/-! ## 4. What counts in the end -/

/-- **The records that count in the end are the latest of their keys.** -/
theorem getElem?_prune_run (hlow : LooksUpTo limit calls) (hone : g.Unambiguous calls) :
    (g.prune (g.run i (∅ : Std.ExtTreeMap κ α) calls) limit)[k]? = some a ↔
      g.Latest limit calls i k a := by
  have htracks := tracks_run (g := g) hlow i
  rw [getElem?_prune_eq_some]
  constructor
  · rintro ⟨hfound, hcounts⟩
    refine ⟨htracks.found hfound, fun {b} hb => ?_, hcounts⟩
    -- A higher record would count as well, and then this one would not be on file.
    rcases UInt64.le_total (g.height b) (g.height a) with hle | hle
    · exact hle
    · obtain ⟨c, hc, hbc⟩ := htracks.kept hb (g.counts_of_height_le hb.2 hle hcounts)
      rw [hfound] at hc
      cases hc
      exact hbc
  · intro h
    obtain ⟨b, hfound, hle⟩ := htracks.kept h.entered h.counts
    have hentered := htracks.found hfound
    have hsame : a = b :=
      hone i k a b h.entered hentered (UInt64.le_antisymm hle (h.highest hentered))
    subst hsame
    exact ⟨hfound, h.counts⟩

/-- **Neither the order of the records nor the places of the looks matter for what counts in the
end.** -/
theorem Reordering.prune_run (h : g.Reordering limit calls calls') (i : ι) :
    g.prune (g.run i (∅ : Std.ExtTreeMap κ α) calls) limit =
      g.prune (g.run i (∅ : Std.ExtTreeMap κ α) calls') limit := by
  refine Std.ExtTreeMap.ext_getElem? fun k => Option.ext fun a => ?_
  rw [getElem?_prune_run h.early h.unambiguous, h.latest_iff,
    getElem?_prune_run h.early' h.symm.unambiguous]

end Aging

end SynergyNode
