import SynergyNode.Proofs.Format
import SynergyNode.Proofs.Slice
import SynergyNode.Round.NonceData

/-!
# Reading the data of a nonce transaction

The data are a head of 56 bytes and two votes, each behind its length in four bytes.  Whoever opens
a round writes them into a transaction, so a reader meets any bytes at all.

* `ofBytes_eq_ok_iff`: what is read are the inputs that start with a written form, and nothing else
  is accepted;
* `ofBytes_prefix`: a form that is cut off is refused;
* `readInPlace?_eq`: a reader that goes to fixed places in the head and from vote to vote behind it
  gives the same, and never looks outside of the input.

The three together are `ofBytes_canonical`.
-/

namespace SynergyNode

/-! ## 1. Votes -/

namespace NonceData

theorem readVote_voteBytes {vote : Bytes} (h : vote.length < byteRange 4) (rest : Bytes) :
    readVote (voteBytes vote ++ rest) = .ok (vote, rest) := by
  simp only [readVote, voteBytes, List.append_assoc, Format.takeExact_leBytes,
    Format.ofLe_leBytes_of_lt h, Format.takeExact_append rfl]

/-- A vote that was read stands behind its length, which takes four bytes. -/
theorem readVote_eq_ok {b vote rest : Bytes} (h : readVote b = .ok (vote, rest)) :
    b = voteBytes vote ++ rest ∧ vote.length < byteRange 4 := by
  unfold readVote at h
  split at h
  · cases h
  · rename_i len r hlen
    split at h
    · cases h
    · rename_i p hbody
      cases h
      obtain ⟨rfl, hwidth⟩ := Format.takeExact_eq_some hlen
      obtain ⟨rfl, hlength⟩ := Format.takeExact_eq_some hbody
      constructor
      · rw [voteBytes, hlength, Format.leBytes_ofLe_of_length hwidth, List.append_assoc]
      · rw [hlength]
        exact Format.ofLe_lt_of_length hwidth

/-! ## 2. What is read -/

open Format in
theorem headFormat_canonical : headFormat.Canonical :=
  u64_canonical.both <| (fixed_canonical (by decide)).both <| i64_canonical.both i64_canonical

/-- Each vote is short enough for the four bytes of its length. -/
def Fits (d : NonceData) : Prop := ∀ slot, (d.votes.get slot).length < byteRange 4

/-- Bytes of the head. -/
def headLength : Nat := 56

theorem length_head (fields : UInt64 × Hash × Int64 × Int64) :
    (headFormat.write fields).length = headLength := by
  simp [headFormat, headLength, Format.both, Format.u64, Format.i64, Format.word, Format.fixed,
    length_leBytes, FixedBytes.length_toList]

/-- **What the data are read from**: an input that starts with their form. -/
theorem ofBytes_eq_ok_iff {b : Bytes} {d : NonceData} :
    ofBytes b = .ok d ↔ d.Fits ∧ ∃ rest, b = d.toBytes ++ rest := by
  constructor
  · intro h
    unfold ofBytes at h
    split at h
    · cases h
    · rename_i hhead
      split at h
      · cases h
      · rename_i hprimary
        split at h
        · cases h
        · rename_i rest hsecondary
          cases h
          obtain ⟨rfl, hfirst⟩ := readVote_eq_ok hprimary
          obtain ⟨rfl, hsecond⟩ := readVote_eq_ok hsecondary
          refine ⟨fun slot => ?_, rest, ?_⟩
          · cases slot with
            | primary => exact hfirst
            | secondary => exact hsecond
          · rw [headFormat_canonical.eq_write_append hhead]
            simp only [toBytes, List.append_assoc]
  · rintro ⟨hfits, rest, rfl⟩
    have hshort : (headFormat.write (d.lastHeight, d.lastHash, d.price, d.rand)).length <
        byteRange 8 := by
      rw [length_head]
      decide
    have hprimary := readVote_voteBytes (hfits .primary) (voteBytes d.votes.secondary ++ rest)
    have hsecondary := readVote_voteBytes (hfits .secondary) rest
    simp only [PerSlot.get] at hprimary hsecondary
    simp only [ofBytes, toBytes, List.append_assoc, headFormat_canonical.read_write _ _ hshort,
      hprimary, hsecondary]

/-- The data are read back, unless a vote is longer than its length can say. -/
theorem ofBytes_toBytes {d : NonceData} (h : d.Fits) : ofBytes d.toBytes = .ok d :=
  ofBytes_eq_ok_iff.mpr ⟨h, [], (List.append_nil _).symm⟩

/-- A form that is cut off anywhere is refused. -/
theorem ofBytes_prefix {d : NonceData} (hd : d.Fits) {front rest : Bytes} (hrest : rest ≠ [])
    (h : d.toBytes = front ++ rest) : ∃ e, ofBytes front = .error e := by
  cases hread : ofBytes front with
  | error e => exact ⟨e, rfl⟩
  | ok d' =>
    -- What is read from the front is read from the whole, so the front is a whole form already.
    obtain ⟨hd', tail, rfl⟩ := ofBytes_eq_ok_iff.mp hread
    have hwhole : ofBytes d.toBytes = .ok d' :=
      ofBytes_eq_ok_iff.mpr ⟨hd', tail ++ rest, by rw [h, List.append_assoc]⟩
    rw [ofBytes_toBytes hd] at hwhole
    cases hwhole
    have hlength := congrArg List.length h
    have hsome := List.length_pos_iff.mpr hrest
    simp only [List.length_append] at hlength
    omega

/-! ## 3. Reading in place -/

open Format

/-- Reads a vote off the front of what is left; `none` would be a look outside of it. -/
def voteInPlace? (b : Bytes) : Option (Except NonceDataError (Bytes × Bytes)) :=
  if b.length < 4 then some (.error .voteLength)
  else do
    let count := ofLe (← b.slice? 0 4)
    let body ← b.slice? 4 b.length
    if body.length < count then return .error .voteBody
    else return .ok (← body.slice? 0 count, ← body.slice? count body.length)

/-- Reads the head at its fixed places and the votes behind it; `none` would be a look outside of
the input. -/
def readInPlace? (b : Bytes) : Option (Except NonceDataError NonceData) :=
  if b.length < headLength then some (.error .tooShort)
  else do
    let height ← b.slice? 0 8
    let hash ← (← b.slice? 8 40) |> FixedBytes.ofBytes?
    let price ← b.slice? 40 48
    let rand ← b.slice? 48 56
    match ← voteInPlace? (← b.slice? headLength b.length) with
    | .error e => return .error e
    | .ok (primary, rest) =>
      match ← voteInPlace? rest with
      | .error e => return .error e
      | .ok (secondary, _) =>
        return .ok
          { lastHeight := UInt64.ofNat (ofLe height)
            lastHash := hash
            price := (UInt64.ofNat (ofLe price)).toInt64
            rand := (UInt64.ofNat (ofLe rand)).toInt64
            votes := ⟨primary, secondary⟩ }

theorem voteInPlace?_eq (b : Bytes) : voteInPlace? b = some (readVote b) := by
  unfold voteInPlace? readVote
  by_cases hwidth : b.length < 4
  · simp only [if_pos hwidth, takeExact_of_lt hwidth]
  · have hwidth : 4 ≤ b.length := Nat.le_of_not_lt hwidth
    simp only [if_neg (Nat.not_lt.mpr hwidth), takeExact_of_le hwidth, Bytes.slice?_front hwidth,
      Bytes.slice?_back hwidth, Option.bind_eq_bind, Option.bind_some]
    by_cases hbody : (b.drop 4).length < ofLe (b.take 4)
    · simp only [if_pos hbody, takeExact_of_lt hbody, Option.pure_def]
    · have hbody : ofLe (b.take 4) ≤ (b.drop 4).length := Nat.le_of_not_lt hbody
      simp only [if_neg (Nat.not_lt.mpr hbody), takeExact_of_le hbody, Bytes.slice?_front hbody,
        Bytes.slice?_back hbody, Option.bind_some, Option.pure_def]

/-- The head ends where its fields do. -/
theorem headFormat_read_of_lt {b : Bytes} (h : b.length < headLength) :
    headFormat.read b = none := by
  cases hread : headFormat.read b with
  | none => rfl
  | some p =>
    rw [headFormat_canonical.eq_write_append hread, List.length_append, length_head] at h
    omega

/-- The fields of the head stand at fixed places. -/
theorem headFormat_read_of_le {b : Bytes} (h : headLength ≤ b.length) :
    ∃ hash : Hash, FixedBytes.ofBytes? ((b.drop 8).take 32) = some hash ∧
      headFormat.read b =
        some ((UInt64.ofNat (ofLe (b.take 8)), hash,
          (UInt64.ofNat (ofLe ((b.drop 40).take 8))).toInt64,
          (UInt64.ofNat (ofLe ((b.drop 48).take 8))).toInt64), b.drop headLength) := by
  have hlength : ((b.drop 8).take 32).length = 32 := by
    rw [List.length_take, List.length_drop]
    unfold headLength at h
    omega
  have hword (n : Nat) (hn : n + 8 ≤ headLength) : 8 ≤ (b.drop n).length := by
    rw [List.length_drop]
    omega
  refine ⟨⟨_, hlength⟩, dif_pos hlength, ?_⟩
  have hfirst := takeExact_of_le (hword 0 (by decide))
  have hprice := takeExact_of_le (hword 40 (by decide))
  have hrand := takeExact_of_le (hword 48 (by decide))
  simp only [List.drop_zero] at hfirst
  simp only [headFormat, Format.both, Format.u64, Format.i64, Format.word, Format.fixed, hfirst,
    Option.map_some, dif_pos hlength, List.drop_drop, Nat.reduceAdd, hprice, hrand, headLength]

/-- **A reader that looks at places gives the same, and looks at none outside of the input.** -/
theorem readInPlace?_eq (b : Bytes) : readInPlace? b = some (ofBytes b) := by
  unfold readInPlace? ofBytes
  by_cases hshort : b.length < headLength
  · simp only [if_pos hshort, headFormat_read_of_lt hshort]
  · have hlong : headLength ≤ b.length := Nat.le_of_not_lt hshort
    obtain ⟨hash, hhash, hhead⟩ := headFormat_read_of_le hlong
    have hplace (i j : Nat) (hij : i ≤ j) (hj : j ≤ headLength) :
        b.slice? i j = some ((b.drop i).take (j - i)) :=
      Bytes.slice?_of_le hij (Nat.le_trans hj hlong)
    simp only [if_neg hshort, hhead, hplace 0 8 (by decide) (by decide),
      hplace 8 40 (by decide) (by decide), hplace 40 48 (by decide) (by decide),
      hplace 48 56 (by decide) (by decide), Bytes.slice?_back hlong, voteInPlace?_eq,
      Nat.reduceSub, List.drop_zero, hhash, Option.bind_eq_bind, Option.bind_some,
      Option.pure_def]
    cases readVote (b.drop headLength) with
    | error e => rfl
    | ok first =>
      simp only
      cases readVote first.2 with
      | error e => rfl
      | ok second => rfl

/-- **The data of a nonce transaction are read from exactly the inputs that start with their form.**
A form that is cut off is refused, and nothing outside of an input is looked at. -/
theorem ofBytes_canonical :
    (∀ (b : Bytes) (d : NonceData), ofBytes b = .ok d ↔
      d.Fits ∧ ∃ rest, b = d.toBytes ++ rest) ∧
      (∀ (d : NonceData) (front rest : Bytes), d.Fits → rest ≠ [] → d.toBytes = front ++ rest →
        ∃ e, ofBytes front = .error e) ∧
      ∀ b : Bytes, readInPlace? b = some (ofBytes b) :=
  ⟨fun _ _ => ofBytes_eq_ok_iff, fun _ _ _ hd hrest h => ofBytes_prefix hd hrest h,
    readInPlace?_eq⟩

/-- A vote in the primary slot and none in the other: read with a byte behind it, refused when it is
cut off within the vote. -/
theorem ofBytes_canonical_vote :
    ∃ (d : NonceData) (front rest : Bytes), d.Fits ∧ d.votes = ⟨[1, 2, 3], []⟩ ∧
      ofBytes (d.toBytes ++ [7]) = .ok d ∧
      rest ≠ [] ∧ d.toBytes = front ++ rest ∧ front.length = 61 ∧
      ∃ e, ofBytes front = .error e := by
  let d : NonceData := ⟨4, ⟨List.replicate 32 9, rfl⟩, -3, 77, ⟨[1, 2, 3], []⟩⟩
  have hfits : d.Fits := by
    intro slot
    cases slot <;> decide
  have hsplit : d.toBytes = d.toBytes.take 61 ++ d.toBytes.drop 61 :=
    (List.take_append_drop 61 d.toBytes).symm
  have hrest : d.toBytes.drop 61 ≠ [] := by decide
  obtain ⟨hread, hprefix, -⟩ := ofBytes_canonical
  exact ⟨d, _, _, hfits, rfl, (hread _ d).mpr ⟨hfits, [7], rfl⟩, hrest, hsplit, by decide,
    hprefix d _ _ hfits hrest hsplit⟩

end NonceData

end SynergyNode
