import SynergyNode.Proofs.Codec
import SynergyNode.Proofs.Text.Utf8

/-!
# Which bytes are a descriptor

Reading a descriptor cuts its name off at the first zero and takes malformed text for replacement
characters, so many byte strings have the same name.  None of them is taken for a scheme it does
not spell: the name of a scheme is ASCII text, which is read from its own bytes only.

* `Descriptor.readFields_eq_iff`: the fields are those of a scheme just when the bytes spell it;
* `Descriptor.ofBytes_iff_spells`: what is accepted are the byte strings that spell a scheme, and
  what a reading gives is the descriptor of that scheme; a descriptor is read back from its own form
  just when it is valid.
-/

namespace SynergyNode.Descriptor

/-! ## 1. Signed words -/

/-- The signed little-endian word of four bytes at a place. -/
def wordAt (b : Bytes) (i : Nat) : Int :=
  Int.bmod (ofLe ((b.drop i).take 4)) Int32.size

theorem toInt_intOfBytes (b : Bytes) : (intOfBytes b).toInt = Int.bmod (ofLe b) Int32.size := by
  rw [intOfBytes, UInt32.toInt32_ofNat']
  exact Int32.toInt_ofNat

theorem intOfBytes_eq_iff {b : Bytes} {n : Nat} (hn : n < 0x80000000) :
    intOfBytes b = Int32.ofNat n ↔ Int.bmod (ofLe b) Int32.size = n := by
  rw [← Int32.toInt_inj, toInt_intOfBytes, Int32.toInt_ofNat_of_lt hn]

/-! ## 2. Spelling a scheme -/

/-- At least 33 bytes, in which the name field up to its first zero is the name of the scheme and
the three words after it are the lengths of the scheme. -/
structure Spells (b : Bytes) (s : Scheme) : Prop where
  long : 33 ≤ b.length
  name : (b.take 20).takeWhile (· != 0) = Text.Utf8.encode s.name
  publicKey : wordAt b 20 = s.publicKeyLength
  secretKey : wordAt b 24 = s.secretKeyLength
  signature : wordAt b 28 = s.signatureLength

theorem isAscii_name (s : Scheme) : ∀ c ∈ s.name.toList, Text.Utf8.IsAscii c := by
  have hall : s.name.toList.all (fun c => decide (Text.Utf8.IsAscii c)) = true := by
    cases s <;> decide
  exact fun c hc => of_decide_eq_true (List.all_eq_true.mp hall c hc)

theorem lengths_lt (s : Scheme) :
    s.publicKeyLength < 0x80000000 ∧ s.secretKeyLength < 0x80000000 ∧
      s.signatureLength < 0x80000000 := by
  cases s <;> decide

theorem headD_drop (b : Bytes) (i : Nat) : (b.drop i).headD 0 = b.getD i 0 := by
  rw [List.headD_eq_head?_getD, List.head?_drop, List.getD_eq_getElem?_getD]

/-- The fields are those of a scheme just when the bytes spell it. -/
theorem readFields_eq_iff {b : Bytes} (hlong : 33 ≤ b.length) {s : Scheme} {paused : Bool} :
    readFields b = ofScheme s paused ↔ Spells b s ∧ paused = (b.getD 32 0 != 0) := by
  obtain ⟨hpublic, hsecret, hsignature⟩ := lengths_lt s
  simp only [readFields, ofScheme, Descriptor.mk.injEq, nameLength, headD_drop,
    Text.Utf8.decodeLossy_eq_iff (isAscii_name s), intOfBytes_eq_iff hpublic,
    intOfBytes_eq_iff hsecret, intOfBytes_eq_iff hsignature]
  constructor
  · rintro ⟨hname, hpublic, hsecret, hsignature, hpaused⟩
    exact ⟨⟨hlong, hname, hpublic, hsecret, hsignature⟩, hpaused.symm⟩
  · rintro ⟨⟨_, hname, hpublic, hsecret, hsignature⟩, hpaused⟩
    exact ⟨hname, hpublic, hsecret, hsignature, hpaused.symm⟩

/-- What is read are the fields of long enough bytes that are valid. -/
theorem ofBytes_eq_ok_iff {b : Bytes} {d : Descriptor} :
    ofBytes b = .ok d ↔ 33 ≤ b.length ∧ readFields b = d ∧ ∃ s, d.validate = .ok s := by
  unfold ofBytes
  split
  · rename_i hshort
    have hshort : b.length < 33 := hshort
    simp only [reduceCtorEq, false_iff]
    rintro ⟨hlong, _⟩
    omega
  · rename_i hlong
    have hlong : 33 ≤ b.length := Nat.le_of_not_lt hlong
    split
    · rename_i hinvalid
      simp only [reduceCtorEq, false_iff]
      rintro ⟨_, rfl, s, hvalid⟩
      rw [hinvalid] at hvalid
      cases hvalid
    · rename_i s hvalid
      simp only [Except.ok.injEq]
      constructor
      · rintro rfl
        exact ⟨hlong, rfl, s, hvalid⟩
      · exact fun h => h.2.1

/-- **Bytes are a descriptor just when they spell a scheme**, and then it is the one of that scheme,
paused when the last of the 33 bytes is not zero.  A descriptor, whatever its name and its lengths,
is read back from its own form just when it is valid. -/
theorem ofBytes_iff_spells :
    (∀ (b : Bytes) (d : Descriptor),
      ofBytes b = .ok d ↔ ∃ s, Spells b s ∧ d = ofScheme s (b.getD 32 0 != 0)) ∧
    (∀ d : Descriptor, ofBytes d.toBytes = .ok d ↔ ∃ s, d.validate = .ok s) := by
  constructor
  · intro b d
    rw [ofBytes_eq_ok_iff]
    constructor
    · rintro ⟨hlong, hread, s, hvalid⟩
      have hd := eq_ofScheme_of_validate hvalid
      obtain ⟨hspells, hpaused⟩ := (readFields_eq_iff hlong).mp (hread.trans hd)
      exact ⟨s, hspells, hpaused ▸ hd⟩
    · rintro ⟨s, hspells, rfl⟩
      exact ⟨hspells.long, (readFields_eq_iff hspells.long).mpr ⟨hspells, rfl⟩, s,
        validate_ofScheme s _⟩
  · intro d
    constructor
    · exact validate_of_ofBytes
    · rintro ⟨s, hvalid⟩
      rw [eq_ofScheme_of_validate hvalid]
      exact ofBytes_ofScheme s d.paused

end SynergyNode.Descriptor
