import SynergyNode.Text.Utf8

/-!
# Reading text that may not be text

Reading bytes leniently loses what they were: every malformed piece gives the same replacement
character.  But a text of ASCII characters has no such character, and each of its characters comes
from one byte.  So it is read from its own bytes and from no others (`decodeLossy_eq_iff`): not from
malformed bytes, nor from a longer form of one of its characters.  The strict reader gives nothing
that the lenient one does not give, so the same holds of it (`decode?_eq_some_iff`).
-/

namespace SynergyNode.Text.Utf8

/-! ## 1. Characters of one byte -/

/-- A character of one byte. -/
def IsAscii (c : Char) : Prop := c.toNat < 128

instance (c : Char) : Decidable (IsAscii c) := inferInstanceAs (Decidable (c.toNat < 128))

/-- The byte of such a character. -/
def asciiByte (c : Char) : UInt8 := UInt8.ofNat c.toNat

theorem toNat_asciiByte {c : Char} (h : IsAscii c) : (asciiByte c).toNat = c.toNat :=
  UInt8.toNat_ofNat_of_lt' (Nat.lt_trans h (by decide))

theorem toNat_ofNat_of_valid {n : Nat} (h : n.isValidChar) : (Char.ofNat n).toNat = n := by
  rw [Char.ofNat, dif_pos h]
  rfl

/-- What takes more than one byte is not a character of one byte. -/
theorem not_isAscii_ofNat {n : Nat} (hlow : 128 ≤ n) (hvalid : n.isValidChar) :
    ¬ IsAscii (Char.ofNat n) := by
  rw [IsAscii, toNat_ofNat_of_valid hvalid]
  omega

/-! ## 2. What stands at the front -/

theorem within_iff {lo hi b : UInt8} :
    within lo hi b = true ↔ lo.toNat ≤ b.toNat ∧ b.toNat ≤ hi.toNat := by
  simp [within, UInt8.le_iff_toNat_le]

theorem step_of_lt {a : UInt8} (h : a < 0x80) (r : Bytes) :
    step (a :: r) = .char (Char.ofNat a.toNat) r := by
  simp only [step, if_pos h]

theorem step_asciiByte {c : Char} (h : IsAscii c) (r : Bytes) :
    step (asciiByte c :: r) = .char c r := by
  have hbyte : asciiByte c < 0x80 := by
    rw [UInt8.lt_iff_toNat_lt, toNat_asciiByte h]
    exact h
  rw [step_of_lt hbyte, toNat_asciiByte h, Char.ofNat_toNat]

/-- The bounds on the second byte, as numbers. -/
structure SecondBounded (lead second : Nat) : Prop where
  low : 0x80 ≤ second
  high : second ≤ 0xBF
  overlongThree : lead = 0xE0 → 0xA0 ≤ second
  surrogate : lead = 0xED → second ≤ 0x9F
  overlongFour : lead = 0xF0 → 0x90 ≤ second
  last : lead = 0xF4 → second ≤ 0x8F

theorem secondBounded {a b : UInt8}
    (h : within (secondBounds a).1 (secondBounds a).2 b = true) :
    SecondBounded a.toNat b.toNat := by
  have hlead (n : UInt8) : a = n ↔ a.toNat = n.toNat := UInt8.toNat_inj.symm
  have hE0 : (0xE0 : UInt8).toNat = 0xE0 := rfl
  have hED : (0xED : UInt8).toNat = 0xED := rfl
  have hF0 : (0xF0 : UInt8).toNat = 0xF0 := rfl
  have hF4 : (0xF4 : UInt8).toNat = 0xF4 := rfl
  rw [within_iff] at h
  unfold secondBounds at h
  simp only [hlead, hE0, hED, hF0, hF4] at h
  split at h
  · simp at h
    constructor <;> omega
  · split at h
    · simp at h
      constructor <;> omega
    · split at h
      · simp at h
        constructor <;> omega
      · split at h <;> simp at h <;> constructor <;> omega

theorem two_valid {a : UInt8} (ha : within 0xC2 0xDF a = true) (b : UInt8) :
    ¬ IsAscii (Char.ofNat (a.toNat % 32 * 64 + low6 b)) := by
  rw [within_iff] at ha
  simp at ha
  unfold low6
  exact not_isAscii_ofNat (by omega) (by unfold Nat.isValidChar; omega)

theorem three_valid {a b : UInt8} (ha : within 0xE0 0xEF a = true)
    (hb : SecondBounded a.toNat b.toNat) (c : UInt8) :
    ¬ IsAscii (Char.ofNat (a.toNat % 16 * 4096 + low6 b * 64 + low6 c)) := by
  rw [within_iff] at ha
  simp at ha
  obtain ⟨_, _, _, _, _, _⟩ := hb
  unfold low6
  exact not_isAscii_ofNat (by omega) (by unfold Nat.isValidChar; omega)

theorem four_valid {a b : UInt8} (ha : within 0xF0 0xF4 a = true)
    (hb : SecondBounded a.toNat b.toNat) (c d : UInt8) :
    ¬ IsAscii (Char.ofNat
      (a.toNat % 8 * 262144 + low6 b * 4096 + low6 c * 64 + low6 d)) := by
  rw [within_iff] at ha
  simp at ha
  obtain ⟨_, _, _, _, _, _⟩ := hb
  unfold low6
  exact not_isAscii_ofNat (by omega) (by unfold Nat.isValidChar; omega)

/-- A character of one byte is read from its byte and from nothing longer. -/
theorem eq_cons_of_step {b rest : Bytes} {c : Char} (hc : IsAscii c) :
    step b = .char c rest → b = asciiByte c :: rest := by
  fun_cases step b with
  | case2 a r hone =>
    intro h
    cases h
    have hlt : a.toNat < 128 := UInt8.lt_iff_toNat_lt.mp hone
    have hvalid : a.toNat.isValidChar := Or.inl (by omega)
    rw [asciiByte, toNat_ofNat_of_valid hvalid, UInt8.ofNat_toNat]
  | case3 a _ htwo =>
    intro h
    cases h
    exact absurd hc (two_valid htwo _)
  | case6 a _ _ hthree b hb =>
    intro h
    cases h
    exact absurd hc (three_valid hthree (secondBounded hb) _)
  | case11 a _ _ _ hfour b hb =>
    intro h
    cases h
    exact absurd hc (four_valid hfour (secondBounded hb) _ _)
  -- The other pieces are malformed, or there is nothing to read.
  | _ => intro h; cases h

theorem eq_nil_of_step {b : Bytes} : step b = .done → b = [] := by
  fun_cases step b with
  | case1 => exact fun _ => rfl
  | _ => intro h; cases h

/-! ## 3. Whole texts -/

/-- A text of characters of one byte is read from the bytes of its characters. -/
theorem charsLossy_map {cs : List Char} (hcs : ∀ c ∈ cs, IsAscii c) {fuel : Nat}
    (hfuel : cs.length ≤ fuel) : charsLossy fuel (cs.map asciiByte) = cs := by
  induction cs generalizing fuel with
  | nil => cases fuel <;> rfl
  | cons c cs ih =>
    obtain ⟨hc, hcs⟩ := List.forall_mem_cons.mp hcs
    cases fuel with
    | zero => cases hfuel
    | succ fuel =>
      simp only [List.map_cons, charsLossy, step_asciiByte hc,
        ih hcs (Nat.le_of_succ_le_succ hfuel)]

/-- And from no other bytes. -/
theorem eq_map_of_charsLossy {fuel : Nat} {b : Bytes} {cs : List Char}
    (hcs : ∀ c ∈ cs, IsAscii c) (hfuel : b.length ≤ fuel) (h : charsLossy fuel b = cs) :
    b = cs.map asciiByte := by
  induction fuel generalizing b cs with
  | zero =>
    have hnil : b = [] := List.length_eq_zero_iff.mp (Nat.le_zero.mp hfuel)
    subst hnil
    subst h
    rfl
  | succ fuel ih =>
    unfold charsLossy at h
    split at h
    · rename_i c rest hstep
      subst h
      obtain ⟨hc, hcs⟩ := List.forall_mem_cons.mp hcs
      have hb := eq_cons_of_step hc hstep
      subst hb
      have hrest := ih hcs (Nat.le_of_succ_le_succ hfuel) rfl
      rw [List.map_cons, ← hrest]
    · -- The replacement character takes more than one byte.
      subst h
      exact absurd (hcs _ List.mem_cons_self) (by decide)
    · rename_i hstep
      subst h
      rw [eq_nil_of_step hstep, List.map_nil]

/-- Going through a byte array from a place on. -/
theorem loop_toList (bs : ByteArray) (i : Nat) (r : List UInt8) :
    ByteArray.toList.loop bs i r = r.reverse ++ bs.data.toList.drop i := by
  fun_induction ByteArray.toList.loop bs i r with
  | case1 i r hlt ih =>
    have hi : i < bs.data.toList.length := by simpa using hlt
    have hget : bs.get! i = bs.data.toList[i] :=
      getElem!_pos bs.data i hlt
    rw [ih, List.drop_eq_getElem_cons hi, hget, List.reverse_cons, List.append_assoc,
      List.singleton_append]
  | case2 i r hlt =>
    have hi : bs.data.toList.length ≤ i := by simpa using Nat.le_of_not_lt hlt
    rw [List.drop_eq_nil_of_le hi, List.append_nil]

theorem encode_eq (s : String) : encode s = s.toList.flatMap String.utf8EncodeChar := by
  have hdata : encode s = s.toByteArray.data.toList := loop_toList s.toByteArray 0 []
  rw [hdata, ← String.utf8Encode_toList, List.utf8Encode, List.toList_data_toByteArray]

theorem utf8EncodeChar_of_ascii {c : Char} (h : IsAscii c) :
    String.utf8EncodeChar c = [asciiByte c] :=
  String.utf8EncodeChar_eq_singleton
    (Char.utf8Size_eq_one_iff.mpr (UInt32.le_iff_toNat_le.mpr (Nat.le_of_lt_succ h)))

theorem encode_of_ascii {s : String} (hs : ∀ c ∈ s.toList, IsAscii c) :
    encode s = s.toList.map asciiByte := by
  have hbytes : s.toList.map String.utf8EncodeChar = s.toList.map fun c => [asciiByte c] :=
    List.map_congr_left fun c hc => utf8EncodeChar_of_ascii (hs c hc)
  rw [encode_eq, List.flatMap_def, hbytes, ← List.flatMap_def, List.map_eq_flatMap]

/-- **A text of ASCII characters is read from its own bytes and from no others.** -/
theorem decodeLossy_eq_iff {b : Bytes} {s : String} (hs : ∀ c ∈ s.toList, IsAscii c) :
    decodeLossy b = s ↔ b = encode s := by
  rw [encode_of_ascii hs, decodeLossy]
  constructor
  · intro h
    refine eq_map_of_charsLossy hs (Nat.le_refl b.length) ?_
    rw [← h, String.toList_ofList]
  · rintro rfl
    rw [charsLossy_map hs (Nat.le_of_eq (List.length_map ..).symm), String.ofList_toList]

/-! ## 4. Strict reading -/

/-- What the strict reader gives, the lenient one gives too. -/
theorem eq_charsLossy_of_charsStrict {fuel : Nat} {b : Bytes} {acc cs : List Char}
    (h : charsStrict acc fuel b = some cs) : cs = acc.reverse ++ charsLossy fuel b := by
  induction fuel generalizing b acc with
  | zero =>
    cases h
    exact (List.append_nil _).symm
  | succ fuel ih =>
    unfold charsStrict at h
    unfold charsLossy
    split at h
    · rw [ih h, List.reverse_cons, List.append_assoc, List.singleton_append]
    · cases h
    · cases h
      exact (List.append_nil _).symm

theorem charsStrict_map {cs : List Char} (hcs : ∀ c ∈ cs, IsAscii c) {fuel : Nat}
    (hfuel : cs.length ≤ fuel) (acc : List Char) :
    charsStrict acc fuel (cs.map asciiByte) = some (acc.reverse ++ cs) := by
  induction cs generalizing fuel acc with
  | nil => cases fuel <;> simp [charsStrict, step]
  | cons c cs ih =>
    obtain ⟨hc, hcs⟩ := List.forall_mem_cons.mp hcs
    cases fuel with
    | zero => cases hfuel
    | succ fuel =>
      simp only [List.map_cons, charsStrict, step_asciiByte hc,
        ih hcs (Nat.le_of_succ_le_succ hfuel), List.reverse_cons, List.append_assoc,
        List.singleton_append]

/-- **The strict reader, too, reads a text of ASCII characters from its own bytes only.** -/
theorem decode?_eq_some_iff {b : Bytes} {s : String} (hs : ∀ c ∈ s.toList, IsAscii c) :
    decode? b = some s ↔ b = encode s := by
  constructor
  · intro h
    obtain ⟨cs, hread, hcs⟩ := Option.map_eq_some_iff.mp h
    rw [eq_charsLossy_of_charsStrict hread] at hcs
    exact (decodeLossy_eq_iff hs).mp hcs
  · rintro rfl
    have hread := charsStrict_map hs (Nat.le_of_eq (List.length_map asciiByte).symm) []
    rw [encode_of_ascii hs, decode?, hread, Option.map_some, List.reverse_nil, List.nil_append,
      String.ofList_toList]

end SynergyNode.Text.Utf8
