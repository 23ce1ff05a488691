import SynergyNode.Wire.Codec
import SynergyNode.Proofs.Except
import SynergyNode.Proofs.Format

/-!
# Reading back a message

A message is written as a count of entries, each with a count of blobs, each with its length, and
every one of these numbers takes four bytes.  A message *fits* when they all do (`Message.Fits`).

* `ofBytes_eq_ok`: what the reader accepts are the bytes of a `Row`, whose entries fit and stand in
  any order and with any keys; of two with one key the later one counts.
* So a message that fits is read back (`ofBytes_toBytes`), and only messages that fit are ever read
  (`fits_of_ofBytes`).
* A message within a limit that itself takes four bytes fits (`fits_of_encodedLength_lt`), so a
  codec with such a limit reads back whatever it writes (`Codec.decode_encode`).
-/

namespace SynergyNode

namespace Message

variable {m : Message} {b r rest : Bytes} {e : CodecError} {n : Nat}

/-! ## 1. Lengths -/

@[simp] theorem length_blobBytes (blob : Bytes) : (blobBytes blob).length = 4 + blob.length := by
  simp only [blobBytes, List.length_append, length_leBytes]

theorem blobBytes_pos (blob : Bytes) : 0 < (blobBytes blob).length := by
  rw [length_blobBytes]
  omega

@[simp] theorem length_entryBytes (entry : Topic × List Bytes) :
    (entryBytes entry).length = 6 + (entry.2.flatMap blobBytes).length := by
  simp only [entryBytes, List.length_append, length_leBytes, Topic.toBytes, List.length_cons,
    List.length_nil]
  omega

theorem entryBytes_pos (entry : Topic × List Bytes) : 0 < (entryBytes entry).length := by
  rw [length_entryBytes]
  omega

theorem foldl_blobs (blobs : List Bytes) (n : Nat) :
    blobs.foldl (fun n b => n + 4 + b.length) n = n + (blobs.flatMap blobBytes).length := by
  induction blobs generalizing n with
  | nil => rfl
  | cons blob blobs ih =>
    rw [List.foldl_cons, ih, List.flatMap_cons, List.length_append, length_blobBytes]
    omega

theorem foldl_entries (entries : List (Topic × List Bytes)) (n : Nat) :
    entries.foldl (fun n e => e.2.foldl (fun n b => n + 4 + b.length) (n + 6)) n =
      n + (entries.flatMap entryBytes).length := by
  induction entries generalizing n with
  | nil => rfl
  | cons entry entries ih =>
    rw [List.foldl_cons, ih, foldl_blobs, List.flatMap_cons, List.length_append, length_entryBytes]
    omega

theorem length_entries (m : Message) : m.entries.length = m.payload.size :=
  Std.ExtTreeMap.length_toList

theorem length_toBytes (m : Message) : m.toBytes.length = m.encodedLength := by
  simp only [toBytes, encodedLength, foldl_entries, List.length_append, length_leBytes,
    List.length_cons, List.length_nil]
  omega

/-! ## 2. What fits -/

/-- The number of blobs and the length of each have a form of four bytes. -/
structure EntryFits (entry : Topic × List Bytes) : Prop where
  count : entry.2.length < byteRange 4
  lengths : ∀ blob ∈ entry.2, blob.length < byteRange 4

/-- All counts and lengths have a form of four bytes. -/
structure Fits (m : Message) : Prop where
  count : m.payload.size < byteRange 4
  entries : ∀ entry ∈ m.entries, EntryFits entry

theorem length_le_of_mem {α : Type} {f : α → Bytes} {a : α} {l : List α} (h : a ∈ l) :
    (f a).length ≤ (l.flatMap f).length := by
  rw [List.flatMap_def]
  exact (List.sublist_flatten_of_mem (List.mem_map_of_mem h)).length_le

theorem entryFits_of_length_lt {entry : Topic × List Bytes}
    (h : (entryBytes entry).length < byteRange 4) : EntryFits entry := by
  rw [length_entryBytes] at h
  have hcount := Format.length_le_flatMap blobBytes_pos entry.2
  refine ⟨by omega, fun blob hblob => ?_⟩
  have hlength := length_le_of_mem (f := blobBytes) hblob
  rw [length_blobBytes] at hlength
  omega

/-- **A message whose length takes four bytes fits.** -/
theorem fits_of_encodedLength_lt (h : m.encodedLength < byteRange 4) : m.Fits := by
  rw [encodedLength, foldl_entries] at h
  have hcount := Format.length_le_flatMap entryBytes_pos m.entries
  refine ⟨?_, fun entry hentry => entryFits_of_length_lt ?_⟩
  · rw [← m.length_entries]
    exact Nat.lt_of_le_of_lt hcount (by omega)
  · exact Nat.lt_of_le_of_lt (length_le_of_mem hentry) (by omega)

/-! ## 3. What was written is read -/

theorem take_append {front : Bytes} (h : front.length = n) (rest : Bytes) :
    take n e (front ++ rest) = .ok (front, rest) := by
  subst h
  simp [take]

theorem takeCount_leBytes (h : n < byteRange 4) (rest : Bytes) :
    takeCount e (leBytes 4 n ++ rest) = .ok (n, rest) := by
  simp only [takeCount, take_append (length_leBytes 4 n), Format.ofLe_leBytes_of_lt h]

theorem readBlobs_append (rest : Bytes) (blobs acc : List Bytes)
    (h : ∀ blob ∈ blobs, blob.length < byteRange 4) :
    readBlobs blobs.length acc (blobs.flatMap blobBytes ++ rest) =
      .ok (acc.reverse ++ blobs, rest) := by
  induction blobs generalizing acc with
  | nil => simp [readBlobs]
  | cons blob blobs ih =>
    have hlater := ih (blob :: acc) fun b hb => h b (List.mem_cons_of_mem _ hb)
    simp only [List.length_cons, readBlobs, List.flatMap_cons, blobBytes, List.append_assoc,
      takeCount_leBytes (h blob List.mem_cons_self), take_append rfl]
    rw [hlater, List.reverse_cons, List.append_assoc, List.singleton_append]

theorem readEntry_append {entry : Topic × List Bytes} (h : EntryFits entry) (rest : Bytes) :
    readEntry (entryBytes entry ++ rest) = .ok (entry, rest) := by
  have hkey : entry.1.toBytes.length = 2 := rfl
  simp only [readEntry, entryBytes, List.append_assoc, take_append hkey, takeCount_leBytes h.count,
    readBlobs_append rest entry.2 [] h.lengths, List.reverse_nil, List.nil_append]
  rfl

theorem readEntries_append (rest : Bytes) (entries : List (Topic × List Bytes))
    (payload : Std.ExtTreeMap Topic (List Bytes)) (h : ∀ entry ∈ entries, EntryFits entry) :
    readEntries entries.length payload (entries.flatMap entryBytes ++ rest) =
      .ok (entries.foldl (fun p e => p.insert e.1 e.2) payload, rest) := by
  induction entries generalizing payload with
  | nil => rfl
  | cons entry entries ih =>
    simp only [List.length_cons, readEntries, List.flatMap_cons, List.append_assoc,
      readEntry_append (h entry List.mem_cons_self), List.foldl_cons]
    exact ih _ fun e he => h e (List.mem_cons_of_mem _ he)

@[simp] theorem readHead_token (op : Opcode) : readHead [op.token.1, op.token.2, 0, 0] = .ok op := by
  have hop : Opcode.ofToken? (op.token.1, op.token.2) = some op := Opcode.ofToken?_token op
  simp only [readHead, hop]

/-! ## 4. What is read -/

theorem take_eq_ok {front : Bytes} (h : take n e b = .ok (front, r)) :
    b = front ++ r ∧ front.length = n := by
  unfold take at h
  simp only at h
  split at h
  · rename_i hlength
    cases h
    exact ⟨(List.take_append_drop n b).symm, hlength⟩
  · cases h

theorem takeCount_eq_ok (h : takeCount e b = .ok (n, r)) :
    b = leBytes 4 n ++ r ∧ n < byteRange 4 := by
  unfold takeCount at h
  split at h
  · rename_i front r' htake
    cases h
    obtain ⟨rfl, hlength⟩ := take_eq_ok htake
    rw [Format.leBytes_ofLe_of_length hlength]
    exact ⟨rfl, Format.ofLe_lt_of_length hlength⟩
  · cases h

theorem readBlobs_eq_ok {acc blobs : List Bytes} (h : readBlobs n acc b = .ok (blobs, r)) :
    ∃ new, blobs = acc.reverse ++ new ∧ new.length = n ∧ b = new.flatMap blobBytes ++ r ∧
      ∀ blob ∈ new, blob.length < byteRange 4 := by
  induction n generalizing acc b with
  | zero =>
    cases h
    exact ⟨[], by simp⟩
  | succ n ih =>
    simp only [readBlobs] at h
    split at h
    · cases h
    · rename_i length r₁ hcount
      split at h
      · cases h
      · rename_i blob r₂ hblob
        obtain ⟨new, rfl, rfl, rfl, hnew⟩ := ih h
        obtain ⟨rfl, hlt⟩ := takeCount_eq_ok hcount
        obtain ⟨rfl, rfl⟩ := take_eq_ok hblob
        refine ⟨blob :: new, by simp, rfl, ?_, List.forall_mem_cons.mpr ⟨hlt, hnew⟩⟩
        simp only [List.flatMap_cons, blobBytes, List.append_assoc]

theorem toBytes_topicOfBytes :
    ∀ {key : Bytes}, key.length = 2 → (topicOfBytes key).toBytes = key
  | [_, _], _ => rfl

theorem readEntry_eq_ok {entry : Topic × List Bytes} (h : readEntry b = .ok (entry, r)) :
    b = entryBytes entry ++ r ∧ EntryFits entry := by
  unfold readEntry at h
  split at h
  · cases h
  · rename_i key r₁ hkey
    split at h
    · cases h
    · rename_i count r₂ hcount
      split at h
      · cases h
      · rename_i blobs r₃ hblobs
        cases h
        obtain ⟨new, rfl, rfl, rfl, hnew⟩ := readBlobs_eq_ok hblobs
        obtain ⟨rfl, hlt⟩ := takeCount_eq_ok hcount
        obtain ⟨rfl, hlength⟩ := take_eq_ok hkey
        refine ⟨?_, hlt, hnew⟩
        simp only [entryBytes, toBytes_topicOfBytes hlength, List.append_assoc]

theorem readEntries_eq_ok {payload payload' : Std.ExtTreeMap Topic (List Bytes)}
    (h : readEntries n payload b = .ok (payload', r)) :
    ∃ entries : List (Topic × List Bytes), entries.length = n ∧
      b = entries.flatMap entryBytes ++ r ∧ (∀ entry ∈ entries, EntryFits entry) ∧
      payload' = entries.foldl (fun p e => p.insert e.1 e.2) payload := by
  induction n generalizing payload b with
  | zero =>
    cases h
    exact ⟨[], rfl, rfl, nofun, rfl⟩
  | succ n ih =>
    simp only [readEntries] at h
    split at h
    · cases h
    · rename_i entry r₁ hentry
      obtain ⟨entries, rfl, rfl, hfits, rfl⟩ := ih h
      obtain ⟨rfl, hentryFits⟩ := readEntry_eq_ok hentry
      refine ⟨entry :: entries, rfl, ?_, List.forall_mem_cons.mpr ⟨hentryFits, hfits⟩, rfl⟩
      rw [List.flatMap_cons, List.append_assoc]

theorem readHead_eq_ok {head : Bytes} {op : Opcode} (h : readHead head = .ok op) :
    head = [op.token.1, op.token.2, 0, 0] := by
  unfold readHead at h
  split at h
  · split at h
    · rename_i hop
      cases h
      rw [Opcode.token_eq_of_ofToken? hop]
    · cases h
  · cases h

/-! ## 5. Rows -/

/-- A message as it may stand in bytes: with its entries in any order and any keys twice. -/
structure Row where
  head : Opcode
  chainId : UInt16
  entries : List (Topic × List Bytes)
  count : entries.length < byteRange 4
  fits : ∀ entry ∈ entries, EntryFits entry

namespace Row

/-- The bytes of a row. -/
def toBytes (row : Row) : Bytes :=
  [row.head.token.1, row.head.token.2, 0, 0] ++ (leBytes 2 row.chainId.toNat ++
    (leBytes 4 row.entries.length ++ row.entries.flatMap entryBytes))

/-- The message that a row is read as; of two entries with one key the later counts. -/
def message (row : Row) : Message :=
  ⟨row.head, row.chainId, row.entries.foldl (fun p e => p.insert e.1 e.2) ∅⟩

end Row

/-- A message that fits, with its entries in the order of the keys. -/
def Fits.row (h : m.Fits) : Row where
  head := m.head
  chainId := m.chainId
  entries := m.entries
  count := m.length_entries ▸ h.count
  fits := h.entries

theorem Fits.toBytes_row (h : m.Fits) : h.row.toBytes = m.toBytes := by
  simp only [Row.toBytes, Fits.row, Message.toBytes, length_entries]

theorem Fits.message_row (h : m.Fits) : h.row.message = m := by
  have hpayload : m.entries.foldl (fun p e => p.insert e.1 e.2) ∅ = m.payload :=
    Table.foldl_insert_toList m.payload
  simp only [Row.message, Fits.row, hpayload]

/-- Only entries that fit come into the message of a row. -/
theorem Row.fits_message (row : Row) : row.message.Fits := by
  constructor
  · have hsize := Table.size_foldl_insert_le row.entries ∅
    rw [Std.ExtTreeMap.size_empty, Nat.zero_add] at hsize
    exact Nat.lt_of_le_of_lt hsize row.count
  · intro entry hentry
    rcases Table.mem_of_mem_foldl_insert hentry with hempty | hmem
    · rw [Std.ExtTreeMap.mem_toList_iff_getElem?_eq_some, Std.ExtTreeMap.getElem?_empty] at hempty
      cases hempty
    · exact row.fits entry hmem

/-! ## 6. Whole messages -/

/-- Reads a message off the front of the bytes. -/
def readFront (b : Bytes) : Except CodecError (Message × Bytes) := do
  let (head, r) ← take 4 .insufficientBase b
  let head ← readHead head
  let (chainId, r) ← take 2 .insufficientBase r
  let (n, r) ← takeCount .insufficientEntryCount r
  let (payload, r) ← readEntries n ∅ r
  return (⟨head, UInt16.ofNat (ofLe chainId), payload⟩, r)

/-- A message fills the bytes when it is read off their front with nothing left. -/
theorem ofBytes_eq (b : Bytes) : ofBytes b = readFront b >>= fun p =>
    if p.2 ≠ [] then .error (.trailingBytes p.2.length) else .ok p.1 := by
  simp only [ofBytes, readFront, bind_assoc, pure_bind]
  rfl

theorem ofBytes_eq_ok_iff : ofBytes b = .ok m ↔ readFront b = .ok (m, []) := by
  rw [ofBytes_eq, bind_eq_ok]
  constructor
  · rintro ⟨⟨m', r⟩, hread, h⟩
    split at h
    · cases h
    · rename_i hr
      cases h
      obtain rfl : r = [] := Decidable.not_not.mp hr
      exact hread
  · intro hread
    exact ⟨_, hread, rfl⟩

theorem readFront_row (row : Row) (rest : Bytes) :
    readFront (row.toBytes ++ rest) = .ok (row.message, rest) := by
  have hhead : [row.head.token.1, row.head.token.2, 0, 0].length = 4 := rfl
  have hentries := readEntries_append rest row.entries ∅ row.fits
  have hchain : UInt16.ofNat (ofLe (leBytes 2 row.chainId.toNat)) = row.chainId := by
    rw [Format.ofLe_leBytes_of_lt row.chainId.toNat_lt, UInt16.ofNat_toNat]
  simp only [readFront, Row.toBytes, List.append_assoc, take_append hhead,
    take_append (length_leBytes 2 _), takeCount_leBytes row.count, readHead_token, hentries, hchain,
    bind, Except.bind]
  rfl

/-- **What the reader takes off the front.** -/
theorem readFront_eq_ok (h : readFront b = .ok (m, r)) :
    ∃ row : Row, row.message = m ∧ b = row.toBytes ++ r := by
  simp only [readFront, bind_eq_ok, Prod.exists] at h
  obtain ⟨head, r₁, hhead, op, hop, chain, r₂, hchain, n, r₃, hcount, h⟩ := h
  obtain ⟨payload, r₄, hread, hm⟩ := h
  cases hm
  obtain ⟨entries, rfl, rfl, hfits, rfl⟩ := readEntries_eq_ok hread
  obtain ⟨rfl, hlt⟩ := takeCount_eq_ok hcount
  obtain ⟨rfl, hlength⟩ := take_eq_ok hchain
  obtain ⟨rfl, -⟩ := take_eq_ok hhead
  have hword : leBytes 2 (UInt16.ofNat (ofLe chain)).toNat = chain := by
    rw [UInt16.toNat_ofNat_of_lt' (Format.ofLe_lt_of_length hlength),
      Format.leBytes_ofLe_of_length hlength]
  refine ⟨⟨op, UInt16.ofNat (ofLe chain), entries, hlt, hfits⟩, rfl, ?_⟩
  simp only [Row.toBytes, readHead_eq_ok hop, hword, List.append_assoc]

/-- **What the reader accepts**: the bytes of a row, as its message. -/
theorem ofBytes_eq_ok : ofBytes b = .ok m ↔ ∃ row : Row, row.toBytes = b ∧ row.message = m := by
  rw [ofBytes_eq_ok_iff]
  constructor
  · intro h
    obtain ⟨row, hmessage, hbytes⟩ := readFront_eq_ok h
    exact ⟨row, by rw [hbytes, List.append_nil], hmessage⟩
  · rintro ⟨row, rfl, rfl⟩
    have hread := readFront_row row []
    rwa [List.append_nil] at hread

/-- **A message that fits is read back.** -/
theorem ofBytes_toBytes (h : m.Fits) : ofBytes m.toBytes = .ok m :=
  ofBytes_eq_ok.mpr ⟨h.row, h.toBytes_row, h.message_row⟩

/-- **Only messages that fit are read.** -/
theorem fits_of_ofBytes (h : ofBytes b = .ok m) : m.Fits := by
  obtain ⟨row, -, rfl⟩ := ofBytes_eq_ok.mp h
  exact row.fits_message

end Message

/-! ## 7. The codec of a chain -/

namespace Codec

variable {c : Codec} {m : Message} {b : Bytes}

theorem encode_eq_ok :
    c.encode m = .ok b ↔ m.encodedLength ≤ c.maxMessageBytes ∧ m.toBytes = b := by
  unfold encode
  split
  · rename_i hlong
    exact ⟨nofun, fun h => absurd h.1 (Nat.not_le_of_lt hlong)⟩
  · rename_i hshort
    rw [Except.ok.injEq]
    exact ⟨fun h => ⟨Nat.le_of_not_lt hshort, h⟩, fun h => h.2⟩

/-- A message that fits is read by a codec of its chain and refused by another. -/
theorem decode_of_fits (hencode : c.encode m = .ok b) (h : m.Fits) :
    c.decode b =
      if m.chainId = c.chainId then .ok m else .error (.chainIdMismatch c.chainId m.chainId) := by
  obtain ⟨hlength, rfl⟩ := encode_eq_ok.mp hencode
  rw [decode, if_neg (by rw [m.length_toBytes]; omega), Message.ofBytes_toBytes h]

/-- What a codec reads fits and is of its chain. -/
theorem of_decode_eq_ok (h : c.decode b = .ok m) : m.Fits ∧ m.chainId = c.chainId := by
  unfold decode at h
  split at h
  · cases h
  · split at h
    · cases h
    · rename_i hread
      split at h
      · rename_i hchain
        cases h
        exact ⟨Message.fits_of_ofBytes hread, hchain⟩
      · cases h

/-- **A codec with a limit of four bytes reads back what it writes**, unless it is for another
chain. -/
theorem decode_encode (c : Codec) (m : Message) (hlimit : c.maxMessageBytes < byteRange 4) :
    m.toBytes.length = m.encodedLength ∧
      ((∃ b, c.encode m = .ok b) ↔ m.toBytes.length ≤ c.maxMessageBytes) ∧
      ∀ b, c.encode m = .ok b → c.decode b =
        if m.chainId = c.chainId then .ok m
        else .error (.chainIdMismatch c.chainId m.chainId) := by
  refine ⟨m.length_toBytes, ?_, fun b hencode => decode_of_fits hencode ?_⟩
  · rw [m.length_toBytes]
    constructor
    · rintro ⟨b, hencode⟩
      exact (encode_eq_ok.mp hencode).1
    · intro hlength
      exact ⟨m.toBytes, encode_eq_ok.mpr ⟨hlength, rfl⟩⟩
  · exact Message.fits_of_encodedLength_lt
      (Nat.lt_of_le_of_lt (encode_eq_ok.mp hencode).1 hlimit)

theorem decode_encode_peers :
    64 < byteRange 4 ∧
      (⟨23, 64⟩ : Codec).decode ((Message.empty .txGossip 23).put .peers [[], [127, 1]]).toBytes =
        .ok ((Message.empty .txGossip 23).put .peers [[], [127, 1]]) := by
  refine ⟨by decide, ?_⟩
  obtain ⟨-, hsucceeds, hback⟩ := decode_encode ⟨23, 64⟩
    ((Message.empty .txGossip 23).put .peers [[], [127, 1]]) (by decide)
  obtain ⟨b, hb⟩ := hsucceeds.mpr (by decide)
  obtain ⟨-, rfl⟩ := encode_eq_ok.mp hb
  exact hback _ hb

end Codec

end SynergyNode
