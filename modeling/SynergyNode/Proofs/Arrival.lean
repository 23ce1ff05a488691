import SynergyNode.Oracle
import SynergyNode.Proofs.Latest
import SynergyNode.Proofs.Voting

/-!
# The order in which votes and samples arrive

Votes, prices and random numbers come in from many accounts in no particular order, and whoever
asks for what counts at a height makes the older ones be forgotten.  A forgotten record no longer
keeps out the ones below it, so an old vote may be accepted that was to be refused.

This makes no difference to later answers: the votes of a slot and the samples of an oracle are
tables of the kind of `Aging`, one for each slot (`Voting.tables_afterAll`) and one for each feed
(`OracleBook.samples_afterAll`).  So votes, decisions, price and random number at a height are the
same in whatever order the records came in, and wherever the tables were asked in between for no
higher height (`arrival_order_irrelevant`).

The last height at which a vote counts stops at the largest word; the one of a sample starts again
at zero there, so samples are asked to be of lower heights (`OracleBook.AllFit`).
-/

namespace SynergyNode

open Aging

/-! ## 1. Votes -/

namespace Voting

/-- A vote that is live at a height was so before. -/
theorem isLive_of_le {distance h h' : UInt64} {vote : Vote} (hle : h' ≤ h)
    (hlive : isLive distance h vote = true) : isLive distance h' vote = true := by
  simp only [isLive, Bool.and_eq_true, decide_eq_true_eq] at hlive ⊢
  exact ⟨UInt64.le_trans hle hlive.1, hlive.2⟩

/-- A vote that is not empty is live as long as an older one. -/
theorem isLive_of_height_le {distance h : UInt64} {vote vote' : Vote} (hvalues : vote'.values ≠ [])
    (hle : vote.height ≤ vote'.height) (hlive : isLive distance h vote = true) :
    isLive distance h vote' = true := by
  simp only [isLive, Bool.and_eq_true, decide_eq_true_eq, Bool.not_eq_true',
    List.isEmpty_eq_false_iff] at hlive ⊢
  refine ⟨UInt64.le_trans hlive.1 ?_, hvalues⟩
  rw [UInt64.le_iff_toNat_le] at hle ⊢
  rw [Word64.toNat_saturatingAdd, Word64.toNat_saturatingAdd]
  omega

/-- Votes without a value and votes of account zero are not put on record; the others age with the
voting distance. -/
def aging (distance : UInt64) : Aging UInt8 Vote where
  admits id vote := decide (vote.values ≠ [] ∧ id ≠ 0)
  height := Vote.height
  counts := isLive distance
  counts_of_le := isLive_of_le
  counts_of_height_le hadmits := isLive_of_height_le (of_decide_eq_true hadmits).1

/-- The votes after a call; a vote that is refused changes nothing. -/
def after (v : Voting) : Call Slot UInt8 Vote → Voting
  | .save slot id vote =>
    match v.saveVote slot id vote with
    | .ok v' => v'
    | .error _ => v
  | .look slot height => v.prune slot height

/-- The votes after some calls. -/
def afterAll (v : Voting) (calls : List (Call Slot UInt8 Vote)) : Voting := calls.foldl after v

variable {v : Voting} {slot : Slot} {id : UInt8} {vote : Vote}

theorem admits_eq_true {distance : UInt64} :
    (aging distance).admits id vote = true ↔ vote.values ≠ [] ∧ id ≠ 0 := by
  simp [aging]

/-- A vote that is none, or of nobody, changes nothing. -/
theorem after_save_of_not_admits (h : (aging v.distance).admits id vote ≠ true) :
    v.after (.save slot id vote) = v := by
  rw [Ne, admits_eq_true, not_and_or, not_not, not_not] at h
  simp only [after, saveVote]
  by_cases hvalues : vote.values = []
  · rw [if_pos hvalues]
  · rw [if_neg hvalues, if_pos (h.resolve_left hvalues)]

/-- Any other vote is entered, if it is not older than the one on record. -/
theorem after_save_of_admits (h : (aging v.distance).admits id vote = true) :
    v.after (.save slot id vote) = { v with
      tables := v.tables.set slot ((aging v.distance).enter (v.tables.get slot) id vote) } := by
  obtain ⟨hvalues, hid⟩ := admits_eq_true.mp h
  simp only [after, saveVote, if_neg hvalues, if_neg hid, Aging.enter]
  cases hold : (v.tables.get slot)[id]? with
  | none => rfl
  | some old =>
    by_cases hlow : vote.height < old.height
    · simp [hlow, aging, PerSlot.set_get_self]
    · simp [hlow, aging]

/-- No call changes how long votes live. -/
theorem distance_after (v : Voting) (call : Call Slot UInt8 Vote) :
    (v.after call).distance = v.distance := by
  cases call with
  | look other height => rfl
  | save other id vote =>
    by_cases h : (aging v.distance).admits id vote = true
    · rw [after_save_of_admits h]
    · rw [after_save_of_not_admits h]

/-- The votes for a slot are a table of votes that age. -/
theorem tables_after (v : Voting) (slot : Slot) (call : Call Slot UInt8 Vote) :
    (v.after call).tables.get slot =
      (aging v.distance).after slot (v.tables.get slot) call := by
  cases call with
  | look other height =>
    simp only [after, prune, Aging.after, Aging.prune]
    split
    · rename_i heq
      subst heq
      exact PerSlot.get_set_self ..
    · rename_i hne
      exact PerSlot.get_set_of_ne (Ne.symm hne) ..
  | save other id vote =>
    rw [Aging.after]
    by_cases h : (aging v.distance).admits id vote = true
    · rw [after_save_of_admits h]
      split
      · rename_i hhere
        rw [hhere.1, PerSlot.get_set_self]
      · rename_i helsewhere
        exact PerSlot.get_set_of_ne (fun heq => helsewhere ⟨heq.symm, h⟩) ..
    · rw [after_save_of_not_admits h, if_neg fun hhere => h hhere.2]

theorem distance_afterAll (v : Voting) (calls : List (Call Slot UInt8 Vote)) :
    (v.afterAll calls).distance = v.distance := by
  induction calls generalizing v with
  | nil => rfl
  | cons call rest ih => exact (ih (v.after call)).trans (distance_after v call)

/-- **The votes for a slot are at any time a table of votes that age.** -/
theorem tables_afterAll (v : Voting) (slot : Slot) (calls : List (Call Slot UInt8 Vote)) :
    (v.afterAll calls).tables.get slot =
      (aging v.distance).run slot (v.tables.get slot) calls := by
  induction calls generalizing v with
  | nil => rfl
  | cons call rest ih =>
    have hrest := ih (v.after call)
    rw [distance_after, tables_after] at hrest
    exact hrest

/-- What is live of the votes for a slot after some calls. -/
theorem live_afterAll (distance : UInt64) (slot : Slot) (height : UInt64)
    (calls : List (Call Slot UInt8 Vote)) :
    ((empty distance).afterAll calls).live slot height =
      ((aging distance).prune ((aging distance).run slot ∅ calls) height).toList := by
  have hempty : (empty distance).tables.get slot = ∅ := by cases slot <;> rfl
  rw [live, prune, PerSlot.get_set_self, distance_afterAll, tables_afterAll, hempty]
  rfl

end Voting

/-! ## 2. Samples -/

/-- The two oracles. -/
inductive Feed where
  | price
  | rand
deriving DecidableEq

namespace OracleBook

open Oracle

/-- The samples of an oracle. -/
def samples (b : OracleBook) : Feed → Samples
  | .price => b.prices
  | .rand => b.rands

/-- Records a sample of an oracle. -/
def save (b : OracleBook) : Feed → UInt8 → Sample → Except OracleError OracleBook
  | .price => b.savePrice
  | .rand => b.saveRand

/-- What an oracle answers at a height, and the book without the samples it forgot. -/
def answer (b : OracleBook) : Feed → UInt64 → Except OracleError Int64 × OracleBook
  | .price => b.price
  | .rand => b.rand

/-- The last height at which a sample counts is a word. -/
def Fits (sample : Sample) : Prop :=
  sample.height.toNat + Protocol.oraclesHeightDistance.toNat < UInt64.size

instance (sample : Sample) : Decidable (Fits sample) := inferInstanceAs (Decidable (_ < _))

/-- Whether the distance of the oracles has not gone by at a height since a sample. -/
def withinDistance (height : UInt64) (sample : Sample) : Bool :=
  decide (height.toNat ≤ sample.height.toNat + Protocol.oraclesHeightDistance.toNat)

/-- **Then a sample counts until the distance of the oracles has gone by.** -/
theorem isRecent_of_fits {sample : Sample} (h : Fits sample) (height : UInt64) :
    Samples.isRecent height sample = withinDistance height sample := by
  have hsum : (sample.height + Protocol.oraclesHeightDistance).toNat =
      sample.height.toNat + Protocol.oraclesHeightDistance.toNat := by
    rw [UInt64.toNat_add]
    exact Nat.mod_eq_of_lt h
  rw [Samples.isRecent, withinDistance, ← hsum]
  exact decide_eq_decide.mpr UInt64.le_iff_toNat_le

/-- Every sample is put on record; it ages with the distance of the oracles. -/
def aging : Aging UInt8 Sample where
  admits _ _ := true
  height := Sample.height
  counts := withinDistance
  counts_of_le hle h := by
    simp only [withinDistance, decide_eq_true_eq, UInt64.le_iff_toNat_le] at hle h ⊢
    omega
  counts_of_height_le _ hle h := by
    simp only [withinDistance, decide_eq_true_eq, UInt64.le_iff_toNat_le] at hle h ⊢
    omega

/-- The samples after a call; a sample that is refused changes nothing. -/
def after (b : OracleBook) : Call Feed UInt8 Sample → OracleBook
  | .save feed id sample =>
    match b.save feed id sample with
    | .ok b' => b'
    | .error _ => b
  | .look feed height => (b.answer feed height).2

/-- The samples after some calls. -/
def afterAll (b : OracleBook) (calls : List (Call Feed UInt8 Sample)) : OracleBook :=
  calls.foldl after b

/-- A sample is entered, unless it is older than the one on record. -/
theorem save_cases (s : Samples) (id : UInt8) (sample : Sample) :
    s.save id sample = .ok (aging.enter s id sample) ∨
      aging.enter s id sample = s ∧ s.save id sample = .error (.stale id sample.height) := by
  unfold Samples.save Aging.enter
  cases hold : s[id]? with
  | none => exact Or.inl rfl
  | some old =>
    by_cases hlow : sample.height < old.height
    · exact Or.inr ⟨if_pos hlow, if_pos hlow⟩
    · left
      simp [hlow, aging]

theorem samples_after_save (b : OracleBook) (feed other : Feed) (id : UInt8) (sample : Sample) :
    (b.after (.save feed id sample)).samples other =
      if feed = other then aging.enter (b.samples other) id sample else b.samples other := by
  cases feed with
  | price =>
    rcases save_cases b.prices id sample with hsaved | ⟨hkept, hrefused⟩ <;> cases other <;>
      simp [after, save, savePrice, samples, Except.map, *]
  | rand =>
    rcases save_cases b.rands id sample with hsaved | ⟨hkept, hrefused⟩ <;> cases other <;>
      simp [after, save, saveRand, samples, Except.map, *]

/-- All samples on file are such. -/
def OnFileFit (s : Samples) : Prop :=
  ∀ (id : UInt8) (sample : Sample), s[id]? = some sample → Fits sample

/-- The samples that still count are those that have not aged. -/
theorem recent_eq_prune {s : Samples} (h : OnFileFit s) (height : UInt64) :
    s.recent height = aging.prune s height := by
  refine Std.ExtTreeMap.ext_getElem? fun id => ?_
  rw [Samples.recent, Aging.prune, Std.ExtTreeMap.getElem?_filter', Std.ExtTreeMap.getElem?_filter']
  cases hsample : s[id]? with
  | none => rfl
  | some sample =>
    have hsame := isRecent_of_fits (h id sample hsample) height
    simp only [Option.filter_some, hsame]
    rfl

/-- The samples of an oracle are a table of samples that age. -/
theorem samples_after (b : OracleBook) (feed : Feed) (call : Call Feed UInt8 Sample)
    (h : OnFileFit (b.samples feed)) :
    (b.after call).samples feed = aging.after feed (b.samples feed) call := by
  cases call with
  | look other height =>
    rw [Aging.after, ← recent_eq_prune h]
    cases other <;> cases feed <;> rfl
  | save other id sample =>
    rw [samples_after_save, Aging.after]
    exact if_congr (by simp [aging]) rfl rfl

/-- Only samples come in of which the last height at which they count is a word. -/
def AllFit (calls : List (Call Feed UInt8 Sample)) : Prop :=
  ∀ feed id sample, .save feed id sample ∈ calls → Fits sample

/-- So such samples are all that is on file, for what is on file came in. -/
theorem onFileFit_run {calls : List (Call Feed UInt8 Sample)} (h : AllFit calls) (feed : Feed) :
    OnFileFit (aging.run feed ∅ calls) := by
  intro id sample hfound
  have hlow : LooksUpTo Word64.max calls := fun _ height _ => Word64.le_max height
  exact h feed id sample ((tracks_run hlow feed).found hfound).1

/-- **The samples of an oracle are at any time a table of samples that age.** -/
theorem samples_afterAll (feed : Feed) {calls : List (Call Feed UInt8 Sample)} (h : AllFit calls) :
    (empty.afterAll calls).samples feed = aging.run feed ∅ calls := by
  induction calls using List.reverseRecOn with
  | nil => cases feed <;> rfl
  | append_singleton calls call ih =>
    have hbefore : AllFit calls := fun feed id sample hcall =>
      h feed id sample (List.mem_append_left _ hcall)
    have hfile := onFileFit_run hbefore feed
    rw [← ih hbefore] at hfile
    have hlast := samples_after (empty.afterAll calls) feed call hfile
    rw [ih hbefore] at hlast
    rw [afterAll, Aging.run, List.foldl_append, List.foldl_append]
    exact hlast

/-- What is recent of the samples of an oracle after some calls. -/
theorem recent_afterAll (feed : Feed) (height : UInt64) {calls : List (Call Feed UInt8 Sample)}
    (h : AllFit calls) :
    ((empty.afterAll calls).samples feed).recent height =
      aging.prune (aging.run feed ∅ calls) height := by
  rw [samples_afterAll feed h]
  exact recent_eq_prune (onFileFit_run h feed) height

/-- An oracle answers by the samples that are recent. -/
theorem answer_congr {b b' : OracleBook} {feed : Feed} {height : UInt64}
    (h : (b.samples feed).recent height = (b'.samples feed).recent height) :
    (b.answer feed height).1 = (b'.answer feed height).1 := by
  cases feed with
  | price => exact congrArg (fun s => orNoSamples (weightedMean (Samples.values s))) h
  | rand => exact congrArg (fun s => orNoSamples (combined (Samples.values s))) h

end OracleBook

/-! ## 3. Any order -/

/-- **What the votes and the oracles say at a height does not depend on the order in which votes
and samples came in**, nor on what they were asked in between for no higher height. -/
theorem arrival_order_irrelevant :
    (∀ (distance limit : UInt64) (calls calls' : List (Call Slot UInt8 Vote)),
      (Voting.aging distance).Reordering limit calls calls' → ∀ slot : Slot,
        let votes := (Voting.empty distance).afterAll calls
        let votes' := (Voting.empty distance).afterAll calls'
        votes.live slot limit = votes'.live slot limit ∧
          ∀ (total : UInt64) (current : Descriptor),
            votes.decide? slot limit total current = votes'.decide? slot limit total current) ∧
    ∀ (limit : UInt64) (calls calls' : List (Call Feed UInt8 Oracle.Sample)),
      OracleBook.AllFit calls → OracleBook.aging.Reordering limit calls calls' →
        ((OracleBook.empty.afterAll calls).price limit).1 =
          ((OracleBook.empty.afterAll calls').price limit).1 ∧
        ((OracleBook.empty.afterAll calls).rand limit).1 =
          ((OracleBook.empty.afterAll calls').rand limit).1 := by
  constructor
  · intro distance limit calls calls' h slot votes votes'
    have hlive : votes.live slot limit = votes'.live slot limit := by
      rw [Voting.live_afterAll, Voting.live_afterAll, h.prune_run slot]
    exact ⟨hlive, Voting.decide?_congr hlive⟩
  · intro limit calls calls' hfit h
    have hfit' : OracleBook.AllFit calls' := fun feed id sample hcall =>
      hfit feed id sample ((h.same feed id sample).mpr ⟨hcall, rfl⟩).1
    have hrecent (feed : Feed) :
        ((OracleBook.empty.afterAll calls).samples feed).recent limit =
          ((OracleBook.empty.afterAll calls').samples feed).recent limit := by
      rw [OracleBook.recent_afterAll feed limit hfit, OracleBook.recent_afterAll feed limit hfit',
        h.prune_run feed]
    exact ⟨OracleBook.answer_congr (hrecent .price), OracleBook.answer_congr (hrecent .rand)⟩

/-! ## 4. An account that is heard again -/

namespace Sample

/-- An account votes, is forgotten, and an older vote of its arrives, which is put on record. -/
def votesOutOfOrder : List (Call Slot UInt8 Vote) :=
  [.save .primary 1 ⟨[1], 5, 10⟩, .look .primary 16, .save .primary 1 ⟨[2], 3, 10⟩,
    .save .primary 2 ⟨[1], 12, 10⟩]

/-- The same votes, of which the older one is refused. -/
def votesInOrder : List (Call Slot UInt8 Vote) :=
  [.save .primary 2 ⟨[1], 12, 10⟩, .save .primary 1 ⟨[1], 5, 10⟩, .save .primary 1 ⟨[2], 3, 10⟩]

/-- Two prices of one account and a random number, the older price last. -/
def samplesOutOfOrder : List (Call Feed UInt8 Oracle.Sample) :=
  [.save .price 1 ⟨7, 30, 2⟩, .look .price 31, .save .rand 1 ⟨5, 30, 2⟩, .save .price 1 ⟨9, 29, 2⟩]

/-- The same samples, the older price first. -/
def samplesInOrder : List (Call Feed UInt8 Oracle.Sample) :=
  [.save .price 1 ⟨9, 29, 2⟩, .save .rand 1 ⟨5, 30, 2⟩, .look .rand 32, .save .price 1 ⟨7, 30, 2⟩]

theorem reordering_votes :
    (Voting.aging 10).Reordering 20 votesOutOfOrder votesInOrder where
  same i k a := by
    simp only [Entered, votesOutOfOrder, votesInOrder, List.mem_cons, List.not_mem_nil,
      reduceCtorEq, or_false, false_or]
    tauto
  unambiguous i k a b ha hb hheight := by
    simp only [Entered, votesOutOfOrder, List.mem_cons, List.not_mem_nil, Call.save.injEq,
      reduceCtorEq, or_false, false_or] at ha hb
    rcases ha.1 with ⟨-, rfl, rfl⟩ | ⟨-, rfl, rfl⟩ | ⟨-, rfl, rfl⟩ <;>
      rcases hb.1 with ⟨-, -, rfl⟩ | ⟨-, -, rfl⟩ | ⟨-, -, rfl⟩ <;>
      first | rfl | exact absurd hheight (by decide)
  early i height h := by
    simp [votesOutOfOrder] at h
    rw [h.2]
    decide
  early' i height h := by simp [votesInOrder] at h

theorem allFit_samples : OracleBook.AllFit samplesOutOfOrder := by
  intro feed id sample hcall
  simp only [samplesOutOfOrder, List.mem_cons, List.not_mem_nil, Call.save.injEq, reduceCtorEq,
    or_false, false_or] at hcall
  rcases hcall with ⟨-, -, rfl⟩ | ⟨-, -, rfl⟩ | ⟨-, -, rfl⟩ <;> decide

theorem reordering_samples :
    OracleBook.aging.Reordering 35 samplesOutOfOrder samplesInOrder where
  same i k a := by
    simp only [Entered, samplesOutOfOrder, samplesInOrder, List.mem_cons, List.not_mem_nil,
      reduceCtorEq, or_false, false_or]
    tauto
  unambiguous i k a b ha hb hheight := by
    simp only [Entered, samplesOutOfOrder, List.mem_cons, List.not_mem_nil, Call.save.injEq,
      reduceCtorEq, or_false, false_or] at ha hb
    rcases ha.1 with ⟨rfl, -, rfl⟩ | ⟨rfl, -, rfl⟩ | ⟨rfl, -, rfl⟩ <;>
      rcases hb.1 with ⟨hi, -, rfl⟩ | ⟨hi, -, rfl⟩ | ⟨hi, -, rfl⟩ <;>
      first | rfl | exact absurd hheight (by decide) | exact absurd hi (by decide)
  early i height h := by
    simp [samplesOutOfOrder] at h
    rw [h.2]
    decide
  early' i height h := by
    simp [samplesInOrder] at h
    rw [h.2]
    decide

end Sample

/-- The votes decide alike whether the older vote was put on record or refused, and the oracles
answer alike. -/
theorem arrival_order_irrelevant_out_of_order :
    (Voting.aging 10).Reordering 20 Sample.votesOutOfOrder Sample.votesInOrder ∧
      ((Voting.empty 10).afterAll Sample.votesOutOfOrder).live .primary 20 =
        ((Voting.empty 10).afterAll Sample.votesInOrder).live .primary 20 ∧
      OracleBook.AllFit Sample.samplesOutOfOrder ∧
      OracleBook.aging.Reordering 35 Sample.samplesOutOfOrder Sample.samplesInOrder ∧
      ((OracleBook.empty.afterAll Sample.samplesOutOfOrder).price 35).1 =
        ((OracleBook.empty.afterAll Sample.samplesInOrder).price 35).1 :=
  ⟨Sample.reordering_votes,
    (arrival_order_irrelevant.1 10 20 _ _ Sample.reordering_votes .primary).1,
    Sample.allFit_samples, Sample.reordering_samples,
    (arrival_order_irrelevant.2 35 _ _ Sample.allFit_samples Sample.reordering_samples).1⟩

-- The older vote is on record here, where in the other order it was refused.
example : ((Voting.empty 10).afterAll Sample.votesOutOfOrder).tables.primary.toList =
    [(1, ⟨[2], 3, 10⟩), (2, ⟨[1], 12, 10⟩)] := by cbv

example : ((Voting.empty 10).afterAll Sample.votesInOrder).tables.primary.toList =
    [(1, ⟨[1], 5, 10⟩), (2, ⟨[1], 12, 10⟩)] := by cbv

end SynergyNode
