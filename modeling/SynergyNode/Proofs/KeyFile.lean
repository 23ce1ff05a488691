import SynergyNode.Proofs.Signature.Descriptor
import SynergyNode.Proofs.Slice
import SynergyNode.Wallet

/-!
# Which files hold a key pair

A key file has two lengths in it, one for the name of the scheme and one for the public key; the
secret key is what is left.  Neither length is believed: the name has to be that of a known scheme,
and then both keys must have the lengths of this scheme.

* `KeyFile.decode_eq_ok_iff`: a key pair is read from the form of its file and from nothing else;
* `KeyFile.decode_take`, `KeyFile.decode_append`: a file that is cut off is refused for the part
  that it breaks off in, and a file with something behind it for its secret key;
* `KeyFile.decode_mislabelled`: keys behind another label than their own are refused.  That they do
  not pass for keys of another scheme with some of the label rests on the lengths of the known
  schemes (`Scheme.eq_of_lengths`);
* `KeyFile.readInPlace?_eq`: a reader that looks at places of the file gives the same, and never
  looks outside of it.

All of it is `KeyFile.decode_canonical`.
-/

namespace SynergyNode

/-! ## 1. Names and lengths of the schemes -/

namespace Scheme

theorem ofName_eq_ok_iff {n : String} {s : Scheme} : ofName n = .ok s ↔ s.name = n := by
  unfold ofName
  constructor
  · intro h
    split at h
    · rename_i hfound
      cases h
      exact name_eq_of_ofName? hfound
    · cases h
  · rintro rfl
    rw [ofName?_name]

/-- The bytes of a name. -/
def nameBytes (s : Scheme) : Bytes := Text.Utf8.encode s.name

theorem decode?_eq_some_name {b : Bytes} {s : Scheme} :
    Text.Utf8.decode? b = some s.name ↔ b = s.nameBytes :=
  Text.Utf8.decode?_eq_some_iff (Descriptor.isAscii_name s)

theorem length_nameBytes (s : Scheme) :
    s.nameBytes.length = if s = falcon1024 then 11 else 10 := by
  rw [nameBytes, Text.Utf8.encode_of_ascii (Descriptor.isAscii_name s), List.length_map]
  cases s <;> decide

/-- The length of a name fits into the byte before it. -/
theorem toNat_nameByte (s : Scheme) :
    (UInt8.ofNat s.nameBytes.length).toNat = s.nameBytes.length := by
  rw [length_nameBytes]
  split <;> rfl

theorem publicKeyLength_lt (s : Scheme) : s.publicKeyLength < byteRange 4 :=
  Nat.lt_trans (Descriptor.lengths_lt s).1 (by decide)

/-- Bytes of both keys. -/
def keysLength (s : Scheme) : Nat := s.publicKeyLength + s.secretKeyLength

/-- Name and keys together have another length in each scheme.  A name of any length does not make
up for the difference either, as long as the byte before it gives the length of the other name. -/
theorem eq_of_lengths {s t : Scheme} {n : Nat}
    (hname : n = s.nameBytes.length ∨ n % 256 = t.nameBytes.length)
    (h : n + s.keysLength = t.nameBytes.length + t.keysLength) : s = t := by
  rw [length_nameBytes t] at h
  rw [length_nameBytes s, length_nameBytes t] at hname
  -- The keys of two schemes are a fixed number of bytes apart, and no such name is so long.
  cases s <;> cases t <;>
    first
    | rfl
    | simp only [keysLength, publicKeyLength, secretKeyLength, reduceCtorEq, if_true,
        if_false] at h hname
      omega

end Scheme

namespace Keypair

theorem ofBytes_eq_ok_iff {s : Scheme} {p q : Bytes} {k : Keypair} :
    ofBytes s p q = .ok k ↔ k.scheme = s ∧ k.publicKey = p ∧ k.secretKey = q := by
  constructor
  · intro h
    unfold ofBytes at h
    split at h
    · split at h
      · cases h
        exact ⟨rfl, rfl, rfl⟩
      · cases h
    · cases h
  · rintro ⟨rfl, rfl, rfl⟩
    rw [ofBytes, dif_pos k.length_publicKey, dif_pos k.length_secretKey]

theorem ofBytes_of_secretKey_ne {s : Scheme} {p q : Bytes} (hp : p.length = s.publicKeyLength)
    (hq : q.length ≠ s.secretKeyLength) : ofBytes s p q = .error (.malformedKey .secretHalf) := by
  rw [ofBytes, dif_pos hp, dif_neg hq]

theorem length_publicKey_lt (k : Keypair) : k.publicKey.length < byteRange 4 := by
  rw [k.length_publicKey]
  exact k.scheme.publicKeyLength_lt

/-- Both keys, the public one first. -/
def bytes (k : Keypair) : Bytes := k.publicKey ++ k.secretKey

theorem length_bytes (k : Keypair) : k.bytes.length = k.scheme.keysLength := by
  rw [bytes, List.length_append, k.length_publicKey, k.length_secretKey, Scheme.keysLength]

end Keypair

namespace KeyFile

variable {file : String} {s : Scheme} {b p q rest : Bytes} {k : Keypair}

/-! ## 2. What is read -/

/-- A name after its length, and what follows. -/
def named (name rest : Bytes) : Bytes := UInt8.ofNat name.length :: (name ++ rest)

theorem named_append (name rest rest' : Bytes) :
    named name rest ++ rest' = named name (rest ++ rest') := by
  simp only [named, List.cons_append, List.append_assoc]

theorem layout_eq (s : Scheme) (p q : Bytes) :
    layout s.name p q = named s.nameBytes (leBytes 4 p.length ++ (p ++ q)) := rfl

/-- Behind the name of a known scheme, the keys are read as its keys. -/
theorem decode_named (hrest : 4 ≤ rest.length) :
    decode file (named s.nameBytes rest) = decodeKeys file s rest := by
  have hlong : ¬ (s.nameBytes ++ rest).length < s.nameBytes.length + 4 := by
    rw [List.length_append]
    omega
  simp only [named, decode, s.toNat_nameByte, if_neg hlong, List.take_left, List.drop_left,
    Scheme.decode?_eq_some_name.mpr rfl, Scheme.ofName_eq_ok_iff.mpr rfl]

/-- And nothing is read that has no such name in front. -/
theorem eq_named_of_decode (h : decode file b = .ok k) :
    ∃ s rest, 4 ≤ rest.length ∧ b = named s.nameBytes rest ∧ decodeKeys file s rest = .ok k := by
  cases b with
  | nil => cases h
  | cons n b =>
    simp only [decode] at h
    split at h
    · cases h
    · rename_i hlong
      split at h
      · cases h
      · rename_i name hname
        split at h
        · cases h
        · rename_i s hs
          obtain rfl := Scheme.ofName_eq_ok_iff.mp hs
          have hbytes := Scheme.decode?_eq_some_name.mp hname
          have hlength : s.nameBytes.length = n.toNat := by
            rw [← hbytes, List.length_take_of_le (by omega)]
          refine ⟨s, b.drop n.toNat, ?_, ?_, h⟩
          · rw [List.length_drop]
            omega
          · rw [named, hlength, UInt8.ofNat_toNat, ← hbytes, List.take_append_drop]

/-- Behind the length of the public key, so many bytes are taken for it and the others for the
secret key. -/
theorem decodeKeys_leBytes {n : Nat} (hn : n < byteRange 4) :
    decodeKeys file s (leBytes 4 n ++ rest) =
      if rest.length < n then .error (.invalidKeyFile file .publicKey)
      else (Keypair.ofBytes s (rest.take n) (rest.drop n)).mapError .key := by
  have hword : (leBytes 4 n).length = 4 := length_leBytes 4 n
  simp only [decodeKeys, List.take_left' hword, List.drop_left' hword, Format.ofLe_leBytes_of_lt hn]
  congr 1
  cases Keypair.ofBytes s (rest.take n) (rest.drop n) <;> rfl

theorem eq_of_decodeKeys (hb : 4 ≤ b.length) (h : decodeKeys file s b = .ok k) :
    k.scheme = s ∧ b = leBytes 4 k.publicKey.length ++ (k.publicKey ++ k.secretKey) := by
  unfold decodeKeys at h
  simp only at h
  split at h
  · cases h
  · rename_i hlong
    split at h
    · cases h
    · rename_i hkeys
      cases h
      obtain ⟨hs, hp, hq⟩ := Keypair.ofBytes_eq_ok_iff.mp hkeys
      have hlength : k.publicKey.length = ofLe (b.take 4) := by
        rw [hp, List.length_take_of_le (Nat.le_of_not_lt hlong)]
      refine ⟨hs, ?_⟩
      rw [hlength, Format.leBytes_ofLe_of_length (List.length_take_of_le hb), hp, hq,
        List.take_append_drop, List.take_append_drop]

/-- Behind the name of a known scheme, the length of the public key and both keys are read. -/
theorem decode_label {n : Nat} (hn : n < byteRange 4) :
    decode file (named s.nameBytes (leBytes 4 n ++ rest)) =
      if rest.length < n then .error (.invalidKeyFile file .publicKey)
      else (Keypair.ofBytes s (rest.take n) (rest.drop n)).mapError .key := by
  have hrest : 4 ≤ (leBytes 4 n ++ rest).length := by
    rw [List.length_append, length_leBytes]
    exact Nat.le_add_right 4 _
  rw [decode_named hrest, decodeKeys_leBytes hn]

/-- The two keys of a known scheme are read as they stand there, of whatever lengths they are. -/
theorem decode_layout (hp : p.length < byteRange 4) :
    decode file (layout s.name p q) = (Keypair.ofBytes s p q).mapError .key := by
  have hlong : ¬ (p ++ q).length < p.length := by
    rw [List.length_append]
    omega
  rw [layout_eq, decode_label hp, if_neg hlong, List.take_left, List.drop_left]

theorem decode_written (k : Keypair) : decode file (encode k) = .ok k := by
  rw [encode, decode_layout k.length_publicKey_lt, Keypair.ofBytes_eq_ok_iff.mpr ⟨rfl, rfl, rfl⟩]
  rfl

/-- **A key pair is read from the form of its file and from nothing else.** -/
theorem decode_eq_ok_iff : decode file b = .ok k ↔ b = encode k := by
  constructor
  · intro h
    obtain ⟨s, rest, hrest, rfl, hkeys⟩ := eq_named_of_decode h
    obtain ⟨rfl, rfl⟩ := eq_of_decodeKeys hrest hkeys
    rfl
  · rintro rfl
    exact decode_written k

/-- So of all files with two keys behind the name of a scheme, those are read in which both have the
lengths of the scheme. -/
theorem decode_parts_iff :
    (∃ k, decode file b = .ok k ∧ k.scheme = s ∧ k.publicKey = p ∧ k.secretKey = q) ↔
      b = layout s.name p q ∧ p.length = s.publicKeyLength ∧ q.length = s.secretKeyLength := by
  constructor
  · rintro ⟨k, h, rfl, rfl, rfl⟩
    exact ⟨decode_eq_ok_iff.mp h, k.length_publicKey, k.length_secretKey⟩
  · rintro ⟨rfl, hp, hq⟩
    exact ⟨⟨s, p, q, hp, hq⟩, decode_written ⟨s, p, q, hp, hq⟩, rfl, rfl, rfl⟩

/-! ## 3. Files that are cut off or go on -/

/-- What stands before the keys of a scheme. -/
def label (s : Scheme) : Bytes := named s.nameBytes (leBytes 4 s.publicKeyLength)

theorem length_label (s : Scheme) : (label s).length = s.nameBytes.length + 5 := by
  simp only [label, named, List.length_cons, List.length_append, length_leBytes]

theorem encode_eq (k : Keypair) : encode k = label k.scheme ++ k.bytes := by
  rw [encode, layout_eq, label, named_append, k.length_publicKey, Keypair.bytes]

theorem length_encode (k : Keypair) :
    (encode k).length = (label k.scheme).length + k.scheme.keysLength := by
  rw [encode_eq, List.length_append, k.length_bytes]

/-- Why a file is refused that holds only the first `n` bytes for a key pair of a scheme. -/
def cutOff (file : String) (s : Scheme) (n : Nat) : WalletError :=
  if n = 0 then .invalidKeyFile file .empty
  else if n < (label s).length then .invalidKeyFile file .header
  else if n < (label s).length + s.publicKeyLength then .invalidKeyFile file .publicKey
  else .key (.malformedKey .secretHalf)

theorem decode_take_of_lt_label {n : Nat} (h : n < (label k.scheme).length) :
    decode file ((encode k).take n) = .error (cutOff file k.scheme n) := by
  cases n with
  | zero => rfl
  | succ m =>
    rw [cutOff, if_neg (Nat.succ_ne_zero m), if_pos h]
    rw [length_label] at h
    simp only [encode, layout_eq, named, List.take_succ_cons, decode, k.scheme.toNat_nameByte]
    exact if_pos (by rw [List.length_take]; omega)

theorem decode_label_take {i : Nat} (h : i < k.scheme.keysLength) :
    decode file (label k.scheme ++ k.bytes.take i) =
      .error (cutOff file k.scheme ((label k.scheme).length + i)) := by
  have hlength : (k.bytes.take i).length = i := by
    rw [List.length_take, k.length_bytes, Nat.min_eq_left (Nat.le_of_lt h)]
  have hpos : (label k.scheme).length + i ≠ 0 := by
    rw [length_label]
    omega
  rw [label, named_append, decode_label k.scheme.publicKeyLength_lt, hlength, ← label, cutOff,
    if_neg hpos, if_neg (Nat.not_lt.mpr (Nat.le_add_right _ i))]
  rcases Nat.lt_or_ge i k.scheme.publicKeyLength with hi | hi
  · rw [if_pos hi, if_pos (Nat.add_lt_add_left hi _)]
  · have hpublic : (k.bytes.take i).take k.scheme.publicKeyLength = k.publicKey := by
      rw [List.take_take, Nat.min_eq_left hi, Keypair.bytes, List.take_left' k.length_publicKey]
    have hsecret : ((k.bytes.take i).drop k.scheme.publicKeyLength).length ≠
        k.scheme.secretKeyLength := by
      rw [Scheme.keysLength] at h
      rw [List.length_drop, hlength]
      omega
    rw [if_neg (Nat.not_lt.mpr hi), if_neg (by omega), hpublic,
      Keypair.ofBytes_of_secretKey_ne k.length_publicKey hsecret]
    rfl

/-- **A file that is cut off is refused**, and the part that is named is the one that it breaks off
in. -/
theorem decode_take {n : Nat} (h : n < (encode k).length) :
    decode file ((encode k).take n) = .error (cutOff file k.scheme n) := by
  rcases Nat.lt_or_ge n (label k.scheme).length with hlabel | hlabel
  · exact decode_take_of_lt_label hlabel
  · obtain ⟨i, rfl⟩ := Nat.exists_eq_add_of_le hlabel
    rw [length_encode] at h
    rw [encode_eq, List.take_length_add_append, decode_label_take (Nat.lt_of_add_lt_add_left h)]

/-- **A file that goes on is refused**: what follows is taken for a part of the secret key. -/
theorem decode_append (hrest : rest ≠ []) :
    decode file (encode k ++ rest) = .error (.key (.malformedKey .secretHalf)) := by
  have hform : encode k ++ rest = layout k.scheme.name k.publicKey (k.secretKey ++ rest) := by
    simp only [encode, layout, List.cons_append, List.append_assoc]
  have hsecret : (k.secretKey ++ rest).length ≠ k.scheme.secretKeyLength := by
    have hsome := List.length_pos_iff.mpr hrest
    rw [List.length_append, k.length_secretKey]
    omega
  rw [hform, decode_layout k.length_publicKey_lt,
    Keypair.ofBytes_of_secretKey_ne k.length_publicKey hsecret]
  rfl

/-! ## 4. Keys behind another label -/

/-- What may stand where the label of a scheme should: as many bytes as that has, or any name, known
or not, with any length of the public key. -/
def LabelLike (s : Scheme) (front : Bytes) : Prop :=
  front.length = (label s).length ∨ ∃ name word, word.length = 4 ∧ front = named name word

/-- A file that ends with the keys of a scheme, behind whatever may be taken for a label, is no file
of another scheme. -/
theorem scheme_eq_of_labelLike {k' : Keypair} {front : Bytes} (hfront : LabelLike k.scheme front)
    (h : front ++ k.bytes = encode k') : k.scheme = k'.scheme := by
  have hlength := congrArg List.length h
  rw [List.length_append, length_encode, k.length_bytes, length_label] at hlength
  rcases hfront with hsize | ⟨name, word, hword, rfl⟩
  · rw [hsize, length_label] at hlength
    exact Scheme.eq_of_lengths (.inl rfl) (by omega)
  · -- The byte in front of a name of any length is the length of the name that is read.
    have hbyte : name.length % 256 = k'.scheme.nameBytes.length := by
      rw [named_append, encode, layout_eq] at h
      have hfirst := congrArg UInt8.toNat (List.cons.inj h).1
      rwa [k'.scheme.toNat_nameByte, UInt8.toNat_ofNat'] at hfirst
    rw [named, List.length_cons, List.length_append, hword] at hlength
    exact Scheme.eq_of_lengths (.inr hbyte) (by omega)

/-- **Keys behind what may be taken for a label are refused unless it is their own.** -/
theorem decode_mislabelled {front : Bytes} (hfront : LabelLike k.scheme front)
    (hne : front ≠ label k.scheme) : ∃ e, decode file (front ++ k.bytes) = .error e := by
  cases hread : decode file (front ++ k.bytes) with
  | error e => exact ⟨e, rfl⟩
  | ok k' =>
    have hform := decode_eq_ok_iff.mp hread
    have hscheme := scheme_eq_of_labelLike hfront hform
    have hkeys : k.bytes.length = k'.bytes.length := by
      rw [k.length_bytes, k'.length_bytes, hscheme]
    rw [encode_eq, ← hscheme] at hform
    exact absurd (List.append_inj_left' hform hkeys) hne

/-! ## 5. Reading in place -/

/-- Reads two keys at their places; `none` would be a look outside of the input. -/
def keysInPlace? (file : String) (s : Scheme) (b : Bytes) :
    Option (Except WalletError Keypair) := do
  let length := ofLe (← b.slice? 0 4)
  let keys ← b.slice? 4 b.length
  if keys.length < length then return .error (.invalidKeyFile file .publicKey)
  else
    match Keypair.ofBytes s (← keys.slice? 0 length) (← keys.slice? length keys.length) with
    | .error e => return .error (.key e)
    | .ok k => return .ok k

/-- Reads a key file at its places; `none` would be a look outside of it. -/
def readInPlace? (file : String) : Bytes → Option (Except WalletError Keypair)
  | [] => some (.error (.invalidKeyFile file .empty))
  | n :: rest =>
    if rest.length < n.toNat + 4 then some (.error (.invalidKeyFile file .header))
    else do
      match Text.Utf8.decode? (← Bytes.slice? rest 0 n.toNat) with
      | none => return .error (.invalidKeyFile file .schemeName)
      | some name =>
        match Scheme.ofName name with
        | .error e => return .error (.key e)
        | .ok s => keysInPlace? file s (← Bytes.slice? rest n.toNat rest.length)

theorem keysInPlace?_eq (hb : 4 ≤ b.length) :
    keysInPlace? file s b = some (decodeKeys file s b) := by
  unfold keysInPlace? decodeKeys
  simp only [Bytes.slice?_front hb, Bytes.slice?_back hb, Option.bind_eq_bind, Option.bind_some]
  by_cases hpublic : (b.drop 4).length < ofLe (b.take 4)
  · simp only [if_pos hpublic, Option.pure_def]
  · have hpublic' : ofLe (b.take 4) ≤ (b.drop 4).length := Nat.le_of_not_lt hpublic
    simp only [if_neg hpublic, Bytes.slice?_front hpublic', Bytes.slice?_back hpublic',
      Option.bind_some, Option.pure_def]
    cases Keypair.ofBytes s ((b.drop 4).take (ofLe (b.take 4)))
      ((b.drop 4).drop (ofLe (b.take 4))) <;> rfl

/-- **A reader that looks at places gives the same, and looks at none outside of the file.** -/
theorem readInPlace?_eq (file : String) (b : Bytes) :
    readInPlace? file b = some (decode file b) := by
  cases b with
  | nil => rfl
  | cons n rest =>
    unfold readInPlace? decode
    by_cases hshort : rest.length < n.toNat + 4
    · simp only [if_pos hshort]
    · have hname : n.toNat ≤ rest.length := by omega
      have hkeys : 4 ≤ (rest.drop n.toNat).length := by
        rw [List.length_drop]
        omega
      simp only [if_neg hshort, Bytes.slice?_front hname, Bytes.slice?_back hname,
        Option.bind_eq_bind, Option.bind_some, Option.pure_def, keysInPlace?_eq hkeys]
      cases Text.Utf8.decode? (rest.take n.toNat) with
      | none => rfl
      | some name =>
        simp only
        cases Scheme.ofName name <;> rfl

/-- **A file holds a key pair just when it is the form of that key pair**, and two keys behind the
name of a scheme are a key pair just when both have the lengths of the scheme.  A file that is cut
off, that goes on or whose keys stand behind another label is refused, and nothing outside of a file
is looked at. -/
theorem decode_canonical (file : String) :
    (∀ (b : Bytes) (s : Scheme) (p q : Bytes),
      (∃ k, decode file b = .ok k ∧ k.scheme = s ∧ k.publicKey = p ∧ k.secretKey = q) ↔
        b = layout s.name p q ∧ p.length = s.publicKeyLength ∧ q.length = s.secretKeyLength) ∧
      (∀ (b : Bytes) (k : Keypair), decode file b = .ok k ↔ b = encode k) ∧
      (∀ (k : Keypair) (n : Nat), n < (encode k).length →
        decode file ((encode k).take n) = .error (cutOff file k.scheme n)) ∧
      (∀ (k : Keypair) (rest : Bytes), rest ≠ [] →
        decode file (encode k ++ rest) = .error (.key (.malformedKey .secretHalf))) ∧
      (∀ (k : Keypair) (front : Bytes), LabelLike k.scheme front → front ≠ label k.scheme →
        ∃ e, decode file (front ++ (k.publicKey ++ k.secretKey)) = .error e) ∧
      ∀ b : Bytes, readInPlace? file b = some (decode file b) := by
  refine ⟨?_, ?_, ?_, ?_, ?_, readInPlace?_eq file⟩
  · intro b s p q
    exact decode_parts_iff
  · intro b k
    exact decode_eq_ok_iff
  · intro k n h
    exact decode_take h
  · intro k rest hrest
    exact decode_append hrest
  · intro k front hfront hne
    exact decode_mislabelled hfront hne

/-- A key pair of the smallest Dilithium scheme: read from its file, refused when a byte is missing
or added and when it is labelled as one of the next scheme. -/
theorem decode_canonical_dilithium2 :
    ∃ (k : Keypair) (n : Nat) (rest front : Bytes), k.scheme = .dilithium2 ∧
      k.publicKey = List.replicate 1312 1 ∧ k.secretKey = List.replicate 2560 2 ∧
      decode "wallet_primary.key" (encode k) = .ok k ∧
      n + 1 = (encode k).length ∧ n < (encode k).length ∧
      decode "wallet_primary.key" ((encode k).take n) =
        .error (.key (.malformedKey .secretHalf)) ∧
      rest ≠ [] ∧
      decode "wallet_primary.key" (encode k ++ rest) = .error (.key (.malformedKey .secretHalf)) ∧
      front = label .dilithium3 ∧ LabelLike .dilithium2 front ∧ front ≠ label .dilithium2 ∧
      ∃ e, decode "wallet_primary.key" (front ++ (k.publicKey ++ k.secretKey)) = .error e := by
  obtain ⟨k, hk, hpublic, hsecret⟩ : ∃ k : Keypair, k.scheme = .dilithium2 ∧
      k.publicKey = List.replicate 1312 1 ∧ k.secretKey = List.replicate 2560 2 :=
    ⟨⟨.dilithium2, List.replicate 1312 1, List.replicate 2560 2, List.length_replicate,
      List.length_replicate⟩, rfl, rfl, rfl⟩
  have hlabel (s : Scheme) (hs : s ≠ .falcon1024) : (label s).length = 15 := by
    rw [length_label, Scheme.length_nameBytes, if_neg hs]
  have hlength : (encode k).length = 3887 := by
    rw [length_encode, hk, hlabel .dilithium2 (by decide)]
    rfl
  have hn : 3886 < (encode k).length := by
    rw [hlength]
    decide
  have hcut : cutOff "wallet_primary.key" k.scheme 3886 = .key (.malformedKey .secretHalf) := by
    rw [cutOff, hk, hlabel .dilithium2 (by decide)]
    rfl
  have hlike : LabelLike .dilithium2 (label .dilithium3) :=
    .inl ((hlabel .dilithium3 (by decide)).trans (hlabel .dilithium2 (by decide)).symm)
  have hne : label .dilithium3 ≠ label .dilithium2 := by decide +kernel
  obtain ⟨-, hread, htake, happend, hmislabelled, -⟩ := decode_canonical "wallet_primary.key"
  have hcutOff := htake k 3886 hn
  rw [hcut] at hcutOff
  have hother := hmislabelled k (label .dilithium3)
  rw [hk] at hother
  exact ⟨k, 3886, [0], label .dilithium3, hk, hpublic, hsecret, (hread _ k).mpr rfl, hlength.symm,
    hn, hcutOff, by decide, happend k [0] (by decide), rfl, hlike, hne, hother hlike hne⟩

end KeyFile

end SynergyNode
