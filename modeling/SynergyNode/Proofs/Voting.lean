import SynergyNode.Voting

/-!
# What is forgotten of the votes

Looking at the votes of a slot forgets those that are no longer live.  A vote is not live when it
is too old, or when it is empty; but empty votes are never put on record, so only old ones are
lost.

* what is live decides (`decide?_congr`), and looking at votes leaves it (`live_prune`);
* `Recorded` holds of all votes that can be on record, and none of these is empty
  (`Recorded.values_ne_nil`);
* `Forgets` says that two states of the votes differ at most by votes that have expired at a
  height; looking at the votes of any slots is such a difference (`Recorded.forgets_look`).
-/

namespace SynergyNode.Voting

variable {v v' v'' : Voting} {slot : Slot} {id : UInt8} {vote : Vote} {height : UInt64}

/-! ## 1. Looking at votes -/

/-- The votes after those of some slots were looked at, one slot after the other. -/
def look (v : Voting) (slots : List Slot) (height : UInt64) : Voting :=
  slots.foldl (fun v slot => v.prune slot height) v

/-- At this height a vote is older than the voting distance. -/
def Expired (distance height : UInt64) (vote : Vote) : Prop :=
  Word64.saturatingAdd vote.height distance < height

theorem isLive_eq_false {distance : UInt64} :
    isLive distance height vote = false ↔ Expired distance height vote ∨ vote.values = [] := by
  rw [isLive, Bool.and_eq_false_iff, decide_eq_false_iff_not, Bool.not_eq_false',
    List.isEmpty_iff, UInt64.not_le, Expired]

/-- Of the votes on record for the slot the live ones stay. -/
theorem getElem?_prune (v : Voting) (slot other : Slot) (height : UInt64) (id : UInt8) :
    ((v.prune slot height).tables.get other)[id]? =
      if other = slot then ((v.tables.get slot)[id]?).filter (isLive v.distance height)
      else (v.tables.get other)[id]? := by
  split
  · rename_i heq
    subst heq
    rw [prune, PerSlot.get_set_self, Std.ExtTreeMap.getElem?_filter']
  · rename_i hne
    rw [prune, PerSlot.get_set_of_ne hne]

/-- Looking at the votes of any slot at a height leaves what is live at that height. -/
theorem live_prune (v : Voting) (other slot : Slot) (height : UInt64) :
    (v.prune other height).live slot height = v.live slot height := by
  refine congrArg Std.ExtTreeMap.toList (Std.ExtTreeMap.ext_getElem? fun id => ?_)
  have hdistance : (v.prune other height).distance = v.distance := rfl
  rw [getElem?_prune, getElem?_prune, getElem?_prune, if_pos rfl, if_pos rfl, hdistance]
  split
  · rename_i heq
    subst heq
    rw [Option.filter_filter]
    simp only [Bool.and_self]
  · rfl

/-- The votes decide by what is live. -/
theorem decide?_congr (h : v.live slot height = v'.live slot height) (total : UInt64)
    (current : Descriptor) :
    v.decide? slot height total current = v'.decide? slot height total current := by
  have hquorum (thirds : Nat) :
      v.quorum? slot height total thirds = v'.quorum? slot height total thirds := by
    rw [quorum?, quorum?, h]
  have hpausing : v.pausing? slot height total = v'.pausing? slot height total := hquorum 1
  have hreplacing : v.replacing? slot height total = v'.replacing? slot height total := hquorum 2
  rw [decide?, decide?, hpausing, hreplacing]

/-! ## 2. Votes on record -/

/-- The votes that can be on record: they were recorded one by one, and some or all of them were
forgotten again. -/
inductive Recorded : Voting → Prop where
  | empty (distance : UInt64) : Recorded (Voting.empty distance)
  | saveVote {v v' : Voting} {slot : Slot} {id : UInt8} {vote : Vote} (h : Recorded v)
      (saved : v.saveVote slot id vote = .ok v') : Recorded v'
  | prune {v : Voting} (h : Recorded v) (slot : Slot) (height : UInt64) :
      Recorded (v.prune slot height)
  | reset {v : Voting} (h : Recorded v) : Recorded v.reset

/-- A vote that is accepted is entered, unless it is empty. -/
theorem saveVote_eq_ok (h : v.saveVote slot id vote = .ok v') :
    v' = v ∨ vote.values ≠ [] ∧
      v' = { v with tables := v.tables.set slot ((v.tables.get slot).insert id vote) } := by
  unfold saveVote at h
  split at h
  · cases h
    exact Or.inl rfl
  · rename_i hvalues
    right
    refine ⟨hvalues, ?_⟩
    split at h
    · cases h
    · simp only at h
      split at h
      · split at h <;> cases h
        rfl
      · cases h
        rfl

/-- No vote on record is empty. -/
theorem Recorded.values_ne_nil (h : Recorded v) :
    ∀ {slot : Slot} {id : UInt8} {vote : Vote},
      (v.tables.get slot)[id]? = some vote → vote.values ≠ [] := by
  induction h with
  | empty distance =>
    intro slot id vote hvote
    have hnone : ((Voting.empty distance).tables.get slot)[id]? = none := by
      cases slot <;> exact Std.ExtTreeMap.getElem?_empty
    rw [hnone] at hvote
    cases hvote
  | @saveVote v v' saved at' new _ hsaved ih =>
    intro slot id vote hvote
    rcases saveVote_eq_ok hsaved with rfl | ⟨hvalues, rfl⟩
    · exact ih hvote
    · by_cases hslot : slot = saved
      · subst hslot
        rw [PerSlot.get_set_self, Std.ExtTreeMap.getElem?_insert] at hvote
        split at hvote
        · cases hvote
          exact hvalues
        · exact ih hvote
      · rw [PerSlot.get_set_of_ne hslot] at hvote
        exact ih hvote
  | @prune v pruned height _ ih =>
    intro slot id vote hvote
    rw [getElem?_prune] at hvote
    split at hvote
    · exact ih (Option.filter_eq_some_iff.mp hvote).1
    · exact ih hvote
  | @reset v _ _ =>
    intro slot id vote hvote
    have hnone : (v.reset.tables.get slot)[id]? = none := by
      cases slot <;> exact Std.ExtTreeMap.getElem?_empty
    rw [hnone] at hvote
    cases hvote

theorem Recorded.look (h : Recorded v) (slots : List Slot) (height : UInt64) :
    Recorded (v.look slots height) := by
  induction slots generalizing v with
  | nil => exact h
  | cons slot rest ih => exact ih (h.prune slot height)

/-! ## 3. Forgetting -/

/-- Every vote is as it was, or it has expired at the height and is not on record any more. -/
structure Forgets (height : UInt64) (v v' : Voting) : Prop where
  distance : v'.distance = v.distance
  vote : ∀ (slot : Slot) (id : UInt8),
    (v'.tables.get slot)[id]? = (v.tables.get slot)[id]? ∨
      (v'.tables.get slot)[id]? = none ∧
        ∃ vote, (v.tables.get slot)[id]? = some vote ∧ Expired v.distance height vote

theorem Forgets.refl (height : UInt64) (v : Voting) : v.Forgets height v :=
  ⟨rfl, fun _ _ => Or.inl rfl⟩

theorem Forgets.trans (h : v.Forgets height v') (h' : v'.Forgets height v'') :
    v.Forgets height v'' := by
  refine ⟨h'.distance.trans h.distance, fun slot id => ?_⟩
  rcases h'.vote slot id with same | ⟨gone, vote, hvote, hexpired⟩
  · rw [same]
    exact h.vote slot id
  · right
    refine ⟨gone, vote, ?_, ?_⟩
    · rcases h.vote slot id with same | ⟨gone', -⟩
      · rw [← same, hvote]
      · rw [gone'] at hvote
        cases hvote
    · rw [← h.distance]
      exact hexpired

theorem Recorded.forgets_prune (h : Recorded v) (slot : Slot) (height : UInt64) :
    v.Forgets height (v.prune slot height) := by
  refine ⟨rfl, fun other id => ?_⟩
  rw [getElem?_prune]
  split
  · rename_i heq
    subst heq
    cases hvote : (v.tables.get other)[id]? with
    | none => exact Or.inl rfl
    | some vote =>
      cases hlive : isLive v.distance height vote with
      | true => exact Or.inl (by simp [hlive])
      | false =>
        have hexpired : Expired v.distance height vote :=
          (isLive_eq_false.mp hlive).resolve_right (h.values_ne_nil hvote)
        exact Or.inr ⟨by simp [hlive], vote, rfl, hexpired⟩
  · exact Or.inl rfl

/-- **Looking at votes forgets only what has expired.** -/
theorem Recorded.forgets_look (h : Recorded v) (slots : List Slot) (height : UInt64) :
    v.Forgets height (v.look slots height) := by
  induction slots generalizing v with
  | nil => exact Forgets.refl height v
  | cons slot rest ih =>
    exact (h.forgets_prune slot height).trans (ih (h.prune slot height))

end SynergyNode.Voting
