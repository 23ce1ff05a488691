import SynergyNode.Proofs.Wire.Message

/-!
# The order of the entries

A message is written with its entries in the order of the keys, and the reader takes entries in any
order and keys that come again.  So an accepted input need not be the encoding of what is read.

* No two rows have the same bytes (`Row.toBytes_injective`), since no entry that fits begins another
  one (`entryBytes_append_inj`).
* `reencodes_iff`: an accepted input is the encoding of its message exactly when the keys of its row
  ascend, and none of its entries is lost exactly when no key comes twice.
* `read_but_not_written`: two inputs that are accepted and not the encoding of what is read.
-/

namespace SynergyNode.Message

variable {rest rest' : Bytes}

/-! ## 1. One row for each input -/

/-- No entry that fits is the beginning of another one. -/
theorem entryBytes_append_inj {entry entry' : Topic × List Bytes} (he : EntryFits entry)
    (he' : EntryFits entry') (h : entryBytes entry ++ rest = entryBytes entry' ++ rest') :
    entry = entry' ∧ rest = rest' := by
  have hread := readEntry_append he rest
  rw [h, readEntry_append he' rest', Except.ok.injEq, Prod.mk.injEq] at hread
  exact ⟨hread.1.symm, hread.2.symm⟩

/-- As many entries have the same bytes only if they are the same. -/
theorem entries_injective : ∀ {entries entries' : List (Topic × List Bytes)},
    entries.length = entries'.length → (∀ entry ∈ entries, EntryFits entry) →
      (∀ entry ∈ entries', EntryFits entry) →
        entries.flatMap entryBytes = entries'.flatMap entryBytes → entries = entries'
  | [], [], _, _, _, _ => rfl
  | entry :: entries, entry' :: entries', hlength, hfits, hfits', h => by
    obtain ⟨hentry, hlater⟩ := List.forall_mem_cons.mp hfits
    obtain ⟨hentry', hlater'⟩ := List.forall_mem_cons.mp hfits'
    rw [List.flatMap_cons, List.flatMap_cons] at h
    obtain ⟨rfl, htail⟩ := entryBytes_append_inj hentry hentry' h
    rw [entries_injective (Nat.succ.inj hlength) hlater hlater' htail]

namespace Row

/-- The entries stand in the order of the keys, and no key comes twice. -/
def Ascending (row : Row) : Prop := row.entries.Pairwise fun e e' => compare e.1 e'.1 = .lt

/-- No key comes twice. -/
def Distinct (row : Row) : Prop := (row.entries.map Prod.fst).Nodup

/-- **No two rows have the same bytes.** -/
theorem toBytes_injective {row row' : Row} (h : row.toBytes = row'.toBytes) : row = row' := by
  -- The head and the chain are read off both alike; then the entries follow.
  have hread := readFront_row row []
  rw [h, readFront_row row' [], Except.ok.injEq, Prod.mk.injEq] at hread
  have hhead : row'.head = row.head := congrArg Message.head hread.1
  have hchain : row'.chainId = row.chainId := congrArg Message.chainId hread.1
  rw [toBytes, toBytes, hhead, hchain, List.append_cancel_left_eq, List.append_cancel_left_eq] at h
  have hcount : row.entries.length = row'.entries.length ∧
      row.entries.flatMap entryBytes = row'.entries.flatMap entryBytes := by
    have hnumber := takeCount_leBytes (e := .insufficientEntryCount) row.count
      (row.entries.flatMap entryBytes)
    rw [h, takeCount_leBytes row'.count, Except.ok.injEq, Prod.mk.injEq] at hnumber
    exact ⟨hnumber.1.symm, hnumber.2.symm⟩
  have hentries := entries_injective hcount.1 row.fits row'.fits hcount.2
  cases row
  cases row'
  cases hhead
  cases hchain
  cases hentries
  rfl

/-- A row is written again exactly when the entries of its message are its own, in their order. -/
theorem toBytes_message_iff (row : Row) : row.message.toBytes = row.toBytes ↔ row.Ascending := by
  rw [Ascending, ← Table.toList_foldl_insert_eq_iff, ← row.fits_message.toBytes_row]
  constructor
  · intro h
    exact congrArg Row.entries (toBytes_injective h)
  · intro h
    have hentries : row.message.entries = row.entries := h
    simp only [toBytes, Fits.row, hentries]
    rfl

/-- The message of a row has all of its entries exactly when no key comes twice. -/
theorem entries_message_iff (row : Row) :
    row.message.entries.Perm row.entries ↔ row.Distinct :=
  Table.toList_foldl_insert_perm_iff row.entries

end Row

/-! ## 2. What is written again -/

/-- **An accepted input is the encoding of its message** exactly when its keys ascend, and **none of
its entries is lost** exactly when no key comes twice. -/
theorem reencodes_iff (b : Bytes) (m : Message) :
    ofBytes b = .ok m ↔ ∃ row : Row, row.toBytes = b ∧ row.message = m ∧
      (∀ row' : Row, row'.toBytes = b → row' = row) ∧
      (m.toBytes = b ↔ row.Ascending) ∧ (m.entries.Perm row.entries ↔ row.Distinct) := by
  rw [ofBytes_eq_ok]
  constructor
  · rintro ⟨row, rfl, rfl⟩
    exact ⟨row, rfl, rfl, fun row' h => Row.toBytes_injective h, row.toBytes_message_iff,
      row.entries_message_iff⟩
  · rintro ⟨row, hbytes, hmessage, -⟩
    exact ⟨row, hbytes, hmessage⟩

/-- Of two blobs under the key `T0` the first is lost, and the keys `ZZ` and `AA` are written the
other way round. -/
theorem read_but_not_written :
    (∃ b m, b = [116, 120, 0, 0, 23, 0, 2, 0, 0, 0] ++ [84, 48, 1, 0, 0, 0, 1, 0, 0, 0, 0xaa] ++
          [84, 48, 1, 0, 0, 0, 1, 0, 0, 0, 0xbb] ∧
        m = (empty .txGossip 23).put (.ofChars 'T' '0') [[0xbb]] ∧
        ofBytes b = .ok m ∧ m.toBytes ≠ b) ∧
      ∃ b m, b = [116, 120, 0, 0, 23, 0, 2, 0, 0, 0] ++ [90, 90, 0, 0, 0, 0] ++
          [65, 65, 0, 0, 0, 0] ∧
        m = ((empty .txGossip 23).put (.ofChars 'Z' 'Z') []).put (.ofChars 'A' 'A') [] ∧
        ofBytes b = .ok m ∧ m.toBytes ≠ b := by
  have hrepeated : ∀ entry ∈ [(Topic.ofChars 'T' '0', [[0xaa]]), (.ofChars 'T' '0', [[0xbb]])],
      EntryFits entry := by
    simp only [List.forall_mem_cons]
    exact ⟨entryFits_of_length_lt (by decide), entryFits_of_length_lt (by decide), nofun⟩
  have hdescending : ∀ entry ∈ [(Topic.ofChars 'Z' 'Z', []), (.ofChars 'A' 'A', [])],
      EntryFits entry := by
    simp only [List.forall_mem_cons]
    exact ⟨entryFits_of_length_lt (by decide), entryFits_of_length_lt (by decide), nofun⟩
  constructor
  · refine ⟨_, _, rfl, rfl, ofBytes_eq_ok.mpr ?_, by decide⟩
    refine ⟨⟨.txGossip, 23, _, by decide, hrepeated⟩, ?_, rfl⟩
    simp only [Row.toBytes]
    decide
  · refine ⟨_, _, rfl, rfl, ofBytes_eq_ok.mpr ?_, by decide⟩
    refine ⟨⟨.txGossip, 23, _, by decide, hdescending⟩, ?_, rfl⟩
    simp only [Row.toBytes]
    decide

end SynergyNode.Message
