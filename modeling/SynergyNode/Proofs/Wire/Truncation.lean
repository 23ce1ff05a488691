import SynergyNode.Proofs.Wire.Message

/-!
# Messages that are cut off

A reader that takes something off the front of the bytes takes the same off when more bytes follow
(`readFront_append`).  A reader that fails has run out of bytes, unless it refuses the opcode, and
then it refuses whatever follows (`isInsufficient_or_of_readFront`).  So nothing that begins an
accepted input, short of all of it, is accepted, and the error always says that the bytes end too
early (`isInsufficient_of_prefix_accepted`, `isInsufficient_of_prefix_toBytes`).
-/

namespace SynergyNode.Message

variable {m : Message} {b p r : Bytes} {e e' : CodecError} {n : Nat}

/-! ## 1. Reading goes on alike -/

/-- What is read off the front does not hang on what follows. -/
theorem readFront_append (h : readFront b = .ok (m, r)) (t : Bytes) :
    readFront (b ++ t) = .ok (m, r ++ t) := by
  obtain ⟨row, rfl, rfl⟩ := readFront_eq_ok h
  rw [List.append_assoc, readFront_row]

theorem take_append_right {front : Bytes} (h : take n e b = .ok (front, r)) (t : Bytes) :
    take n e (b ++ t) = .ok (front, r ++ t) := by
  obtain ⟨rfl, hlength⟩ := take_eq_ok h
  rw [List.append_assoc, take_append hlength]

/-! ## 2. Why reading fails -/

theorem take_eq_error (h : take n e b = .error e') : e' = e := by
  unfold take at h
  simp only at h
  split at h
  · cases h
  · exact (Except.error.inj h).symm

theorem takeCount_eq_error (h : takeCount e b = .error e') : e' = e := by
  unfold takeCount at h
  split at h
  · cases h
  · rename_i htake
    cases h
    exact take_eq_error htake

theorem isInsufficient_of_readBlobs {acc : List Bytes} (h : readBlobs n acc b = .error e) :
    e.isInsufficient = true := by
  induction n generalizing acc b with
  | zero => cases h
  | succ n ih =>
    simp only [readBlobs] at h
    split at h
    · rename_i hcount
      cases h
      rw [takeCount_eq_error hcount]
      rfl
    · split at h
      · rename_i hblob
        cases h
        rw [take_eq_error hblob]
        rfl
      · exact ih h

theorem isInsufficient_of_readEntry (h : readEntry b = .error e) : e.isInsufficient = true := by
  unfold readEntry at h
  split at h
  · rename_i hkey
    cases h
    rw [take_eq_error hkey]
    rfl
  · split at h
    · rename_i hcount
      cases h
      rw [takeCount_eq_error hcount]
      rfl
    · split at h
      · rename_i hblobs
        cases h
        exact isInsufficient_of_readBlobs hblobs
      · cases h

theorem isInsufficient_of_readEntries {payload : Std.ExtTreeMap Topic (List Bytes)}
    (h : readEntries n payload b = .error e) : e.isInsufficient = true := by
  induction n generalizing payload b with
  | zero => cases h
  | succ n ih =>
    simp only [readEntries] at h
    split at h
    · rename_i hentry
      cases h
      exact isInsufficient_of_readEntry hentry
    · exact ih h

/-- **A reader that fails has run out of bytes, or fails whatever follows.** -/
theorem isInsufficient_or_of_readFront (h : readFront b = .error e) :
    e.isInsufficient = true ∨ ∀ t, readFront (b ++ t) = .error e := by
  simp only [readFront, bind_eq_error, Prod.exists] at h
  rcases h with hhead | ⟨head, r₁, hhead, hop | ⟨op, -, h⟩⟩
  · exact .inl (take_eq_error hhead ▸ rfl)
  -- the opcode is refused, and it is still there when more bytes follow
  · refine .inr fun t => ?_
    simp only [readFront, take_append_right hhead t, hop, bind, Except.bind]
  · left
    rcases h with hchain | ⟨chain, r₂, -, hcount | ⟨n, r₃, -, hread | ⟨payload, r₄, -, hpure⟩⟩⟩
    · exact take_eq_error hchain ▸ rfl
    · exact takeCount_eq_error hcount ▸ rfl
    · exact isInsufficient_of_readEntries hread
    · cases hpure

/-! ## 3. Proper prefixes -/

/-- **What begins an accepted input, short of all of it, ends too early.** -/
theorem isInsufficient_of_prefix_accepted (h : ofBytes b = .ok m) (hp : p <+: b) (hne : p ≠ b) :
    ∃ e, ofBytes p = .error e ∧ e.isInsufficient = true := by
  obtain ⟨t, rfl⟩ := hp
  have hread := ofBytes_eq_ok_iff.mp h
  cases hfront : readFront p with
  | ok taken =>
    obtain ⟨m', r⟩ := taken
    -- `p` would have been read with `t` left over, but nothing was left
    rw [readFront_append hfront t, Except.ok.injEq, Prod.mk.injEq, List.append_eq_nil_iff] at hread
    obtain ⟨-, -, rfl⟩ := hread
    exact absurd (List.append_nil p).symm hne
  | error e =>
    refine ⟨e, ?_, ?_⟩
    · rw [ofBytes_eq, hfront]
      rfl
    · rcases isInsufficient_or_of_readFront hfront with hdry | hrefused
      · exact hdry
      · rw [hrefused t] at hread
        cases hread

/-- **Every proper prefix of a message that fits ends too early.** -/
theorem isInsufficient_of_prefix_toBytes (hm : m.Fits) (hp : p <+: m.toBytes)
    (hne : p ≠ m.toBytes) : ∃ e, ofBytes p = .error e ∧ e.isInsufficient = true :=
  isInsufficient_of_prefix_accepted (ofBytes_toBytes hm) hp hne

/-- A message cut inside its last blob. -/
theorem isInsufficient_of_prefix_peers :
    ∃ m p, m = (empty .txGossip 23).put .peers [[], [127, 1]] ∧ p = m.toBytes.take 25 ∧
      m.Fits ∧ p <+: m.toBytes ∧ p ≠ m.toBytes ∧
        ∃ e, ofBytes p = .error e ∧ e.isInsufficient = true := by
  have hfits : ((empty .txGossip 23).put .peers [[], [127, 1]]).Fits :=
    fits_of_encodedLength_lt (by decide)
  have hne : ((empty .txGossip 23).put .peers [[], [127, 1]]).toBytes.take 25 ≠
      ((empty .txGossip 23).put .peers [[], [127, 1]]).toBytes := by
    decide
  exact ⟨_, _, rfl, rfl, hfits, List.take_prefix .., hne,
    isInsufficient_of_prefix_toBytes hfits (List.take_prefix ..) hne⟩

end SynergyNode.Message
