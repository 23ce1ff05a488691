import SynergyNode.Format
import SynergyNode.Proofs.Table

/-!
# Reading back what was written

A format is *exact* when its reader gives back every written value together with whatever
follows it.  The lengths and counts of a format take eight bytes, so this is only asked of
values whose form is shorter than `byteRange 8`; a count is covered by the length of the form
because an exact format writes no value as nothing.  It is *canonical* when, besides, its reader
takes nothing else: what a value is read from starts with the form of that value.

* Each way to build a format keeps exactness (section 2), and all but tables, whose entries may
  stand in any order, keep canonicity too (section 3);
* `Exact.write_append_inj`: no form is the beginning of another, so a form belongs to one value;
* `Exact.decode?_write`: the reader of whole inputs gives a written value back as long as its
  form is not longer than the longest message;
* `Exact.eq_of_decode?_write`: it never gives another value;
* `Canonical.decode?_eq_some_iff`: with a canonical format, the inputs from which a value is read
  are those that are not too long and start with its form.
-/

namespace SynergyNode.Format

variable {α β : Type}

/-- What is written can be read back, whatever follows. -/
structure Exact (f : Format α) : Prop where
  read_write : ∀ (a : α) (rest : Bytes), (f.write a).length < byteRange 8 →
    f.read (f.write a ++ rest) = some (a, rest)
  write_pos : ∀ a : α, 0 < (f.write a).length

/-- And nothing but what would be written is read. -/
structure Canonical (f : Format α) : Prop extends Exact f where
  eq_write_append : ∀ {b : Bytes} {a : α} {rest : Bytes}, f.read b = some (a, rest) →
    b = f.write a ++ rest

/-! ## 1. Bytes and words -/

theorem takeExact_append {n : Nat} {front : Bytes} (h : front.length = n) (rest : Bytes) :
    takeExact n (front ++ rest) = some (front, rest) := by
  subst h
  simp [takeExact]

theorem takeExact_eq_some {n : Nat} {b front rest : Bytes}
    (h : takeExact n b = some (front, rest)) : b = front ++ rest ∧ front.length = n := by
  simp only [takeExact] at h
  split at h
  · rename_i hfront
    cases h
    exact ⟨(List.take_append_drop n b).symm, hfront⟩
  · cases h

theorem takeExact_of_le {n : Nat} {b : Bytes} (h : n ≤ b.length) :
    takeExact n b = some (b.take n, b.drop n) :=
  if_pos (List.length_take_of_le h)

theorem takeExact_of_lt {n : Nat} {b : Bytes} (h : b.length < n) : takeExact n b = none :=
  if_neg (by rw [List.length_take]; omega)

theorem takeExact_leBytes (w n : Nat) (rest : Bytes) :
    takeExact w (leBytes w n ++ rest) = some (leBytes w n, rest) :=
  takeExact_append (length_leBytes w n) rest

theorem ofLe_leBytes_of_lt {w n : Nat} (h : n < byteRange w) : ofLe (leBytes w n) = n := by
  rw [ofLe_leBytes, Nat.mod_eq_of_lt h]

theorem leBytes_ofLe_of_length {w : Nat} {b : Bytes} (h : b.length = w) :
    leBytes w (ofLe b) = b := by
  rw [← h, leBytes_ofLe]

theorem ofLe_lt_of_length {w : Nat} {b : Bytes} (h : b.length = w) : ofLe b < byteRange w :=
  h ▸ ofLe_lt b

theorem word_canonical {width : Nat} {toNat : α → Nat} {ofNat : Nat → α} (hw : 0 < width)
    (hlt : ∀ a, toNat a < byteRange width) (hback : ∀ a, ofNat (toNat a) = a)
    (hforth : ∀ n, n < byteRange width → toNat (ofNat n) = n) :
    (word width toNat ofNat).Canonical where
  read_write a rest _ := by
    simp only [word, takeExact_leBytes, Option.map_some, ofLe_leBytes_of_lt (hlt a), hback]
  write_pos a := by simpa [word] using hw
  eq_write_append {b a rest} h := by
    obtain ⟨⟨front, rest'⟩, htake, hread⟩ := Option.map_eq_some_iff.mp h
    cases hread
    obtain ⟨rfl, hlength⟩ := takeExact_eq_some htake
    simp only [word, hforth _ (ofLe_lt_of_length hlength), leBytes_ofLe_of_length hlength]

theorem u8_canonical : u8.Canonical where
  read_write _ _ _ := rfl
  write_pos _ := by simp [u8]
  eq_write_append {b a rest} h := by
    cases b with
    | nil => cases h
    | cons first tail =>
      cases h
      rfl

theorem u16_canonical : u16.Canonical :=
  word_canonical (by decide) (fun a => a.toNat_lt) (fun _ => UInt16.ofNat_toNat)
    fun _ h => UInt16.toNat_ofNat_of_lt' h

theorem u32_canonical : u32.Canonical :=
  word_canonical (by decide) (fun a => a.toNat_lt) (fun _ => UInt32.ofNat_toNat)
    fun _ h => UInt32.toNat_ofNat_of_lt' h

theorem u64_canonical : u64.Canonical :=
  word_canonical (by decide) (fun a => a.toNat_lt) (fun _ => UInt64.ofNat_toNat)
    fun _ h => UInt64.toNat_ofNat_of_lt' h

theorem i64_canonical : i64.Canonical :=
  word_canonical (by decide) (fun a => a.toUInt64.toNat_lt) (fun a => by simp)
    fun _ h => by simpa using UInt64.toNat_ofNat_of_lt' h

theorem fixed_canonical {n : Nat} (hn : 0 < n) : (fixed n).Canonical where
  read_write a rest _ := by
    have hfront : (a.toList ++ rest).take n = a.toList :=
      List.take_left' a.length_toList
    have hrest : (a.toList ++ rest).drop n = rest := List.drop_left' a.length_toList
    simp [fixed, hfront, hrest, a.length_toList]
  write_pos a := by simpa [fixed, a.length_toList] using hn
  eq_write_append {b a rest} h := by
    simp only [fixed] at h
    split at h
    · cases h
      exact (List.take_append_drop n b).symm
    · cases h

theorem bytes_canonical : bytes.Canonical where
  read_write a rest h := by
    have hlen : a.length < byteRange 8 := by
      simp only [bytes, List.length_append, length_leBytes] at h
      omega
    simp only [bytes, List.append_assoc, takeExact_leBytes, ofLe_leBytes_of_lt hlen]
    exact takeExact_append rfl rest
  write_pos a := by
    simp only [bytes, List.length_append, length_leBytes]
    omega
  eq_write_append {b a rest} h := by
    simp only [bytes] at h
    split at h
    · rename_i count r hcount
      obtain ⟨rfl, hwidth⟩ := takeExact_eq_some hcount
      obtain ⟨rfl, hlength⟩ := takeExact_eq_some h
      simp only [bytes, hlength, leBytes_ofLe_of_length hwidth, List.append_assoc]
    · cases h

/-! ## 2. Composition -/

theorem Exact.both {f : Format α} {g : Format β} (hf : f.Exact) (hg : g.Exact) :
    (Format.both f g).Exact where
  read_write p rest h := by
    have hx : (f.write p.1).length < byteRange 8 := by
      simp only [Format.both, List.length_append] at h
      omega
    have hy : (g.write p.2).length < byteRange 8 := by
      simp only [Format.both, List.length_append] at h
      omega
    simp only [Format.both, List.append_assoc, hf.read_write p.1 _ hx, hg.read_write p.2 rest hy]
  write_pos p := by
    have := hf.write_pos p.1
    simp only [Format.both, List.length_append]
    omega

theorem Exact.imap {f : Format α} (hf : f.Exact) {of : α → β} {back : β → α}
    (h : ∀ y, of (back y) = y) : (Format.imap f of back).Exact where
  read_write y rest hlen := by
    simp only [Format.imap, hf.read_write (back y) rest hlen, Option.map_some, h]
  write_pos y := hf.write_pos (back y)

/-- Reading as many values as were written appends them to those read before. -/
theorem Exact.readMany_flatMap {f : Format α} (hf : f.Exact) (rest : Bytes) :
    ∀ (as acc : List α), (as.flatMap f.write).length < byteRange 8 →
      readMany f as.length acc (as.flatMap f.write ++ rest) = some (acc.reverse ++ as, rest)
  | [], acc, _ => by simp [readMany]
  | a :: as, acc, h => by
    simp only [List.flatMap_cons, List.length_append] at h
    have ha : (f.write a).length < byteRange 8 := by omega
    have has : (as.flatMap f.write).length < byteRange 8 := by omega
    simp only [List.length_cons, readMany, List.flatMap_cons, List.append_assoc,
      hf.read_write a _ ha, hf.readMany_flatMap rest as (a :: acc) has, List.reverse_cons,
      List.cons_append, List.nil_append]

/-- Of values that are never written as nothing there are no more than bytes. -/
theorem length_le_flatMap {w : α → Bytes} (hw : ∀ a, 0 < (w a).length) (as : List α) :
    as.length ≤ (as.flatMap w).length := by
  induction as with
  | nil => simp
  | cons a as ih =>
    have := hw a
    simp only [List.flatMap_cons, List.length_cons, List.length_append]
    omega

theorem Exact.list {f : Format α} (hf : f.Exact) : (Format.list f).Exact where
  read_write as rest h := by
    simp only [Format.list, List.length_append, length_leBytes] at h
    have hcount : as.length < byteRange 8 := by
      have := length_le_flatMap hf.write_pos as
      omega
    have has : (as.flatMap f.write).length < byteRange 8 := by omega
    simp only [Format.list, List.append_assoc, takeExact_leBytes, ofLe_leBytes_of_lt hcount,
      hf.readMany_flatMap rest as [] has, List.reverse_nil, List.nil_append]
  write_pos as := by
    simp only [Format.list, List.length_append, length_leBytes]
    omega

theorem Exact.table [Ord α] [Std.TransOrd α] [Std.LawfulEqOrd α] {f : Format α} {g : Format β}
    (hf : f.Exact) (hg : g.Exact) : (Format.table f g).Exact :=
  (hf.both hg).list.imap Table.foldl_insert_toList

/-! ## 3. Composition of canonical formats -/

theorem Canonical.both {f : Format α} {g : Format β} (hf : f.Canonical) (hg : g.Canonical) :
    (Format.both f g).Canonical where
  toExact := hf.toExact.both hg.toExact
  eq_write_append {b p rest} h := by
    simp only [Format.both] at h
    split at h
    · rename_i x r hx
      split at h
      · rename_i y s hy
        cases h
        rw [hf.eq_write_append hx, hg.eq_write_append hy]
        simp only [Format.both, List.append_assoc]
      · cases h
    · cases h

theorem Canonical.imap {f : Format α} (hf : f.Canonical) {of : α → β} {back : β → α}
    (h : ∀ y, of (back y) = y) (h' : ∀ x, back (of x) = x) :
    (Format.imap f of back).Canonical where
  toExact := hf.toExact.imap h
  eq_write_append {b y rest} hread := by
    obtain ⟨⟨x, r⟩, hx, heq⟩ := Option.map_eq_some_iff.mp hread
    cases heq
    simp only [Format.imap, h']
    exact hf.eq_write_append hx

/-- The places of the values must have a form of four bytes, and every value must be listed, and
only once. -/
theorem oneOf_canonical [BEq α] [LawfulBEq α] {values : List α} (hmem : ∀ a, a ∈ values)
    (hlen : values.length ≤ byteRange 4) (hnodup : values.Nodup) : (oneOf values).Canonical where
  read_write a rest _ := by
    have hidx : values.idxOf a < values.length := List.idxOf_lt_length_of_mem (hmem a)
    have hback : values[values.idxOf a]? = some a := by
      rw [List.getElem?_eq_getElem hidx, List.getElem_idxOf hidx]
    simp only [oneOf, takeExact_leBytes, ofLe_leBytes_of_lt (Nat.lt_of_lt_of_le hidx hlen),
      hback, Option.map_some]
  write_pos a := by simp [oneOf]
  eq_write_append {b a rest} h := by
    simp only [oneOf] at h
    split at h
    · rename_i place r htake
      obtain ⟨x, hx, heq⟩ := Option.map_eq_some_iff.mp h
      cases heq
      obtain ⟨rfl, hlength⟩ := takeExact_eq_some htake
      obtain ⟨hplace, rfl⟩ := List.getElem?_eq_some_iff.mp hx
      simp only [oneOf, hnodup.idxOf_getElem, leBytes_ofLe_of_length hlength]
    · cases h

/-- The values that are read come behind those read before, and stand in the input one after
the other. -/
theorem Canonical.readMany {f : Format α} (hf : f.Canonical) : ∀ (n : Nat) {acc as : List α}
    {b rest : Bytes}, readMany f n acc b = some (as, rest) →
      ∃ more, as = acc.reverse ++ more ∧ more.length = n ∧ b = more.flatMap f.write ++ rest
  | 0, acc, as, b, rest, h => by
    cases h
    exact ⟨[], (List.append_nil _).symm, rfl, rfl⟩
  | n + 1, acc, as, b, rest, h => by
    unfold Format.readMany at h
    split at h
    · rename_i a r ha
      obtain ⟨more, rfl, rfl, rfl⟩ := hf.readMany n h
      refine ⟨a :: more, by simp, rfl, ?_⟩
      rw [hf.eq_write_append ha, List.flatMap_cons, List.append_assoc]
    · cases h

theorem Canonical.list {f : Format α} (hf : f.Canonical) : (Format.list f).Canonical where
  toExact := hf.toExact.list
  eq_write_append {b as rest} h := by
    simp only [Format.list] at h
    split at h
    · rename_i count r hcount
      obtain ⟨rfl, hwidth⟩ := takeExact_eq_some hcount
      obtain ⟨more, rfl, hlength, rfl⟩ := hf.readMany _ h
      simp only [Format.list, hlength, leBytes_ofLe_of_length hwidth, List.append_assoc]
    · cases h

/-! ## 4. One form for each value -/

/-- **No form is the beginning of another one.** -/
theorem Exact.write_append_inj {f : Format α} (hf : f.Exact) {a a' : α} {rest rest' : Bytes}
    (ha : (f.write a).length < byteRange 8) (ha' : (f.write a').length < byteRange 8)
    (h : f.write a ++ rest = f.write a' ++ rest') : a = a' ∧ rest = rest' := by
  have hread := hf.read_write a rest ha
  rw [h, hf.read_write a' rest' ha', Option.some.injEq, Prod.mk.injEq] at hread
  exact ⟨hread.1.symm, hread.2.symm⟩

/-- **A form belongs to one value.** -/
theorem Exact.write_inj {f : Format α} (hf : f.Exact) {a a' : α}
    (ha : (f.write a).length < byteRange 8) (h : f.write a = f.write a') : a = a' :=
  (hf.write_append_inj ha (h ▸ ha) (congrArg (· ++ []) h)).1

/-! ## 5. Whole inputs -/

theorem length_lt_byteRange {b : Bytes} (h : b.length ≤ Protocol.maxMessageBytes) :
    b.length < byteRange 8 :=
  Nat.lt_of_le_of_lt h (by decide)

/-- **A written value is read back from an input that holds nothing else**, unless its form is
longer than the longest message. -/
theorem Exact.decode?_write {f : Format α} (hf : f.Exact) {a : α}
    (h : (f.write a).length ≤ Protocol.maxMessageBytes) : f.decode? (f.write a) = some a := by
  have hread := hf.read_write a [] (length_lt_byteRange h)
  rw [List.append_nil] at hread
  simp only [decode?, if_pos h, hread, Option.map_some]

/-- Whatever is read from a written value is that value. -/
theorem Exact.eq_of_decode?_write {f : Format α} (hf : f.Exact) {a a' : α}
    (h : f.decode? (f.write a) = some a') : a' = a := by
  by_cases hlen : (f.write a).length ≤ Protocol.maxMessageBytes
  · rw [hf.decode?_write hlen] at h
    exact (Option.some.inj h).symm
  · rw [decode?, if_neg hlen] at h
    cases h

/-- **What a value is read from**: an input that is not too long and starts with its form. -/
theorem Canonical.decode?_eq_some_iff {f : Format α} (hf : f.Canonical) {b : Bytes} {a : α} :
    f.decode? b = some a ↔
      b.length ≤ Protocol.maxMessageBytes ∧ ∃ rest, b = f.write a ++ rest := by
  constructor
  · intro h
    unfold decode? at h
    split at h
    · rename_i hlen
      obtain ⟨⟨a', rest⟩, hread, rfl⟩ := Option.map_eq_some_iff.mp h
      exact ⟨hlen, rest, hf.eq_write_append hread⟩
    · cases h
  · rintro ⟨hlen, rest, rfl⟩
    have hform : (f.write a).length < byteRange 8 := by
      refine Nat.lt_of_le_of_lt ?_ (length_lt_byteRange hlen)
      rw [List.length_append]
      exact Nat.le_add_right ..
    simp only [decode?, if_pos hlen, hf.read_write a rest hform, Option.map_some]

end SynergyNode.Format
