import SynergyNode.Proofs.Wire.Pieces

/-!
# What an assembler holds back, and what it lets through

The bytes of a stream come from a peer that may send anything.  Whatever it sends, and in whatever
pieces, a connection holds back no more than one acceptable frame with its marks, and hands on no
frame that is longer than the limit.

* `Looks.held`: only a look that waits ends a push, and what it leaves in the buffer is bounded;
* `Looks.within`: a frame is reported with the payload up to its first closing mark;
* `settleWithin_eq`: each look that goes on makes the load smaller, so a push is over after at most
  two looks for each byte in the buffer and two more;
* `pushAll_bounded`: all of it for the pushes of a whole stream.
-/

namespace SynergyNode

open SynergyNode.Frame (magic terminator wrap)

/-- A frame that is reported is no longer than the limit, and holds no closing mark. -/
def StreamEvent.Within (limit : Nat) (event : StreamEvent) : Prop :=
  ∀ payload, event = .frame payload → payload.length ≤ limit ∧ ¬ terminator <:+: payload

theorem StreamEvent.within_ofPayload (limit : Nat) {payload : Bytes}
    (h : ¬ terminator <:+: payload) : (ofPayload limit payload).Within limit := by
  intro payload' hsame
  unfold ofPayload at hsame
  split at hsame
  · cases hsame
  · rename_i hshort
    cases hsame
    exact ⟨Nat.le_of_not_lt hshort, h⟩

namespace Assembler

variable {a b c : Assembler} {es fs : List StreamEvent} {T : Turn} {limit : Nat}

/-! ## 1. One look -/

/-- What an assembler holds back: an open frame with the bytes that may begin its closing mark, and
the latter only of what it passes over. -/
structure Held (a : Assembler) : Prop where
  searched : a.Searched
  pending_le : a.pending ≤ a.maxPayload + (magic.length + terminator.length)
  pending_of_discarding : a.discarding = true → a.pending ≤ terminator.length - 1

theorem held_new (limit : Nat) : (new limit).Held where
  searched := searched_new limit
  pending_le := Nat.zero_le _
  pending_of_discarding _ := Nat.zero_le _

/-- **A look that waits leaves a bounded buffer.** -/
theorem Looks.held (hl : a.Looks (.wait es b)) (ha : a.Searched) : b.Held := by
  have hmarks : magic.length = 4 ∧ terminator.length = 7 := by decide
  refine ⟨ha.wait (hl.turn_eq ha), ?_, ?_⟩
  · cases hl with
    | empty hbuffer => simp [pending, hbuffer]
    | passes =>
      simp only [pending, Assembler.feed, skipping, List.nil_append, List.length_drop]
      omega
    | exceeds => exact Nat.zero_le _
    | grows hd hbuffer hbody hshort =>
      simp only [pending, hbuffer, List.length_append]
      omega
    | opens hd hne hm hopening =>
      have hshort := length_of_opening hopening
      simp only [pending]
      omega
  · intro hdiscarding
    cases hl with
    | empty hbuffer => simp [pending, hbuffer]
    | passes =>
      simp only [pending, Assembler.feed, skipping, List.nil_append, List.length_drop]
      omega
    | exceeds => exact Nat.zero_le _
    | grows hd => simp [hd] at hdiscarding
    | opens hd => simp [hd] at hdiscarding

/-- What a look comes to, as far as it is reported. -/
def Turn.events : Turn → List StreamEvent
  | .next events _ => events
  | .wait events _ => events

/-- **What a look reports is within the limit.** -/
theorem Looks.within (hl : a.Looks T) : ∀ event ∈ T.events, event.Within a.maxPayload := by
  cases hl with
  | closes _ _ hpayload =>
    simp only [Turn.events, List.mem_singleton, forall_eq]
    exact StreamEvent.within_ofPayload a.maxPayload hpayload
  | _ => simp [Turn.events, StreamEvent.Within]

/-! ## 2. One push -/

theorem Turns.within (h : Turns a es b) (ha : a.Searched) :
    ∀ event ∈ es, event.Within a.maxPayload := by
  induction h with
  | refl a => simp
  | next ht hrest ih =>
    intro event hevent
    have hlooks := ha.looks
    rw [ht] at hlooks
    rcases List.mem_append.mp hevent with hnow | hlater
    · exact hlooks.within event hnow
    · have hmax := (Turns.next ht (.refl _)).maxPayload ha
      exact hmax ▸ ih (ha.next ht) event hlater

/-- **A push leaves a bounded buffer and reports what is within the limit**, whatever comes in. -/
theorem Searched.push (ha : a.Searched) (chunk : Bytes) :
    (a.push chunk).2.Held ∧ (a.push chunk).2.maxPayload = a.maxPayload ∧
      ∀ event ∈ (a.push chunk).1, event.Within a.maxPayload := by
  obtain ⟨es, b, fs, c, hturns, hwait, hpush⟩ := exists_turns (a.feed chunk)
  have hfed := ha.feed chunk
  have hb := hturns.searched hfed
  have hmax : b.maxPayload = a.maxPayload := hturns.maxPayload hfed
  have hlooks := hb.looks
  rw [hwait] at hlooks
  have hend : c.maxPayload = b.maxPayload := by cases hlooks <;> rfl
  rw [Assembler.push, hpush]
  refine ⟨hlooks.held hb, hend.trans hmax, ?_⟩
  intro event hevent
  rcases List.mem_append.mp hevent with hfirst | hlast
  · exact hturns.within hfed event hfirst
  · exact hmax ▸ hlooks.within event hlast

/-! ## 3. The end of a push -/

/-- The looks of a push, given up when a number of them is not enough. -/
def settleWithin : (looks : Nat) → Assembler → Option (List StreamEvent × Assembler)
  | 0, _ => none
  | looks + 1, a =>
    match a.turn with
    | .next events b => (settleWithin looks b).map fun later => (events ++ later.1, later.2)
    | .wait events b => some (events, b)

/-- **More looks than the load are enough.** -/
theorem settleWithin_eq {looks : Nat} (h : a.load < looks) :
    settleWithin looks a = some a.settle := by
  induction looks generalizing a with
  | zero => omega
  | succ looks ih =>
    unfold settleWithin
    split
    · rename_i events b hturn
      have hless := load_turn hturn
      rw [ih (by omega), settle_of_next hturn, Option.map_some]
    · rename_i events b hturn
      rw [settle_of_wait hturn]

theorem load_le (a : Assembler) : a.load ≤ 2 * a.pending + 1 := by
  unfold load pending
  split <;> omega

@[simp] theorem pending_feed (a : Assembler) (chunk : Bytes) :
    (a.feed chunk).pending = a.pending + chunk.length := by
  simp [pending, feed]

/-! ## 4. A stream in pieces -/

theorem Held.pushAll (ha : a.Held) (pieces : List Bytes) :
    (a.pushAll pieces).2.Held ∧ (a.pushAll pieces).2.maxPayload = a.maxPayload ∧
      ∀ event ∈ (a.pushAll pieces).1, event.Within a.maxPayload := by
  induction pieces generalizing a with
  | nil => simp [Assembler.pushAll, ha]
  | cons piece pieces ih =>
    obtain ⟨hheld, hmax, hnow⟩ := ha.searched.push piece
    obtain ⟨hend, hmax', hlater⟩ := ih hheld
    rw [hmax] at hmax' hlater
    refine ⟨hend, hmax', ?_⟩
    intro event hevent
    rcases List.mem_append.mp hevent with hfirst | hrest
    · exact hnow event hfirst
    · exact hlater event hrest

/-- **Whatever a peer sends, little of it is held back and no frame that is too long is let
through.**  After any pieces of any bytes the buffer is bounded by the limit and the two marks, and
by all but one byte of the closing mark while input is passed over; every frame that was reported is
within the limit and ends at its first closing mark; and the next push, whatever it brings, is over
after a number of looks that is known beforehand, none of which starts its search behind the end of
the buffer. -/
theorem pushAll_bounded (limit : Nat) (pieces : List Bytes) :
    ((new limit).pushAll pieces).2.pending ≤ limit + 11 ∧
      (((new limit).pushAll pieces).2.discarding = true →
        ((new limit).pushAll pieces).2.pending ≤ 6) ∧
      (∀ payload, .frame payload ∈ ((new limit).pushAll pieces).1 →
        payload.length ≤ limit ∧ ¬ terminator <:+: payload) ∧
      ∀ chunk : Bytes,
        settleWithin (2 * (((new limit).pushAll pieces).2.pending + chunk.length) + 2)
            (((new limit).pushAll pieces).2.feed chunk) =
          some (((new limit).pushAll pieces).2.push chunk) ∧
        ∀ es b, Turns (((new limit).pushAll pieces).2.feed chunk) es b →
          b.scanned ≤ (b.buffer.drop magic.length).length := by
  obtain ⟨hheld, hmax, hwithin⟩ := (held_new limit).pushAll pieces
  generalize (new limit).pushAll pieces = result at hheld hmax hwithin ⊢
  refine ⟨?_, hheld.pending_of_discarding, ?_, ?_⟩
  · have hpending := hheld.pending_le
    rw [hmax] at hpending
    exact hpending
  · intro payload hpayload
    exact hwithin _ hpayload payload rfl
  · intro chunk
    constructor
    · have hload := (result.2.feed chunk).load_le
      rw [pending_feed] at hload
      exact settleWithin_eq (Nat.lt_succ_of_le hload)
    · intro es b hturns
      exact (hturns.searched (hheld.searched.feed chunk)).scanned_le

/-- A frame that is too long is given up after twelve bytes of its body, and what is held back of
the rest fits into the closing mark. -/
example :
    ((new 4).push (magic ++ List.replicate 12 7)).1 = [.oversized] ∧
      (((new 4).pushAll [magic ++ List.replicate 12 7, List.replicate 20 7]).2.pending) = 6 := by
  cbv

end Assembler

end SynergyNode
