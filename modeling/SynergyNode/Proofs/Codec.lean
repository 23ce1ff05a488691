import SynergyNode.Accounts
import SynergyNode.Proofs.Format

/-!
# The stored forms

Blocks, transactions, trees and account snapshots are stored in their binary form and decoded when
they are read.  Each of the formats is exact, and all but that of snapshots are canonical, so within
the length of the longest message

* `Block.ofBytes_eq_ok_iff`, `Transaction.ofBytes_eq_ok_iff`: what is read are the inputs that start
  with a written form;
* `Block.ofBytes_toBytes`, `Transaction.ofBytes_toBytes`, `Merkle.Tree.ofBytes?_toBytes` and
  `Accounts.ofBytes_toBytes`: reading gives back what was written;
* `Block.eq_of_ofBytes_toBytes` and `Accounts.eq_of_ofBytes_toBytes`: whatever a reading
  gives, it is what was written;
* `Block.length_of_ofBytes`, `Transaction.length_of_ofBytes`: what was read is within that length;
* `Block.length_tree_le`: a tree's form is shorter than that of its block, so trees need no
  bound of their own;
* `Descriptor.ofBytes_ofScheme`: the descriptors of the known schemes read back as themselves;
  `Descriptor.ofBytes_toBytes`: and every descriptor that can be read is one of these.
-/

namespace SynergyNode

/-! ## 1. The formats are canonical -/

theorem Slot.format_canonical : Slot.format.Canonical :=
  Format.oneOf_canonical (fun s => by cases s <;> decide) (by decide) (by decide)

theorem PoolKind.format_canonical : PoolKind.format.Canonical :=
  Format.oneOf_canonical (fun k => by cases k <;> decide) (by decide) (by decide)

theorem Address.format_canonical : Address.format.Canonical :=
  (Format.fixed_canonical (by decide)).imap (fun _ => rfl) fun _ => rfl

theorem PerSlot.format_canonical {α : Type} {f : Format α} (hf : f.Canonical) :
    (PerSlot.format f).Canonical :=
  (hf.both hf).imap (fun _ => rfl) fun _ => rfl

open Format in
theorem TransactionBody.format_canonical : TransactionBody.format.Canonical :=
  (PoolKind.format_canonical.both <| Address.format_canonical.both <|
    Address.format_canonical.both <| u64_canonical.both <| u64_canonical.both <|
    u16_canonical.both <| u64_canonical.both <| u64_canonical.both bytes_canonical).imap
    (fun _ => rfl) fun _ => rfl

open Format in
theorem Transaction.format_canonical : Transaction.format.Canonical :=
  (TransactionBody.format_canonical.both <| Slot.format_canonical.both <| bytes_canonical.both <|
    (fixed_canonical (by decide)).both bytes_canonical).imap (fun _ => rfl) fun _ => rfl

open Format in
theorem Header.format_canonical : Header.format.Canonical :=
  ((fixed_canonical (by decide)).both <| u32_canonical.both <| u64_canonical.both <|
    u8_canonical.both <| Address.format_canonical.both <| (fixed_canonical (by decide)).both <|
    (PerSlot.format_canonical bytes_canonical).both <| Slot.format_canonical.both <|
    bytes_canonical.both <| bytes_canonical.both u64_canonical).imap (fun _ => rfl) fun _ => rfl

open Format in
theorem Block.format_canonical : Block.format.Canonical :=
  (Header.format_canonical.both <| (fixed_canonical (by decide)).both <| u64_canonical.both <|
    u16_canonical.both <| u64_canonical.both <| u64_canonical.both <| i64_canonical.both <|
    i64_canonical.both <| (fixed_canonical (by decide)).list.both
    (fixed_canonical (by decide))).imap (fun _ => rfl) fun _ => rfl

open Format in
theorem Merkle.Tree.format_canonical : Merkle.Tree.format.Canonical :=
  (u64_canonical.both (fixed_canonical (by decide)).list).imap (fun _ => rfl) fun _ => rfl

/-- Snapshots are tables, which are read with their entries in any order. -/
theorem Accounts.format_exact : Accounts.format.Exact :=
  ((Address.format_canonical.toExact.table Format.u64_canonical.toExact).both
    (Format.u8_canonical.toExact.table
      ((Format.u64_canonical.both Address.format_canonical.list).toExact.imap fun _ => rfl))).imap
    fun _ => rfl

/-! ## 2. Reading back -/

/-- **What a block is read from**: an input that is not too long and starts with its form. -/
theorem Block.ofBytes_eq_ok_iff {bytes : Bytes} {b : Block} :
    Block.ofBytes bytes = .ok b ↔
      bytes.length ≤ Protocol.maxMessageBytes ∧ ∃ rest, bytes = b.toBytes ++ rest := by
  have hread : Block.ofBytes bytes = .ok b ↔ format.decode? bytes = some b := by
    cases h : format.decode? bytes <;> simp [ofBytes, h]
  rw [hread, format_canonical.decode?_eq_some_iff, toBytes]

/-- **What a transaction is read from.** -/
theorem Transaction.ofBytes_eq_ok_iff {bytes : Bytes} {t : Transaction} :
    Transaction.ofBytes bytes = .ok t ↔
      bytes.length ≤ Protocol.maxMessageBytes ∧ ∃ rest, bytes = t.toBytes ++ rest := by
  have hread : Transaction.ofBytes bytes = .ok t ↔ format.decode? bytes = some t := by
    cases h : format.decode? bytes <;> simp [ofBytes, h]
  rw [hread, format_canonical.decode?_eq_some_iff, toBytes]

theorem Block.ofBytes_toBytes {b : Block} (h : b.toBytes.length ≤ Protocol.maxMessageBytes) :
    Block.ofBytes b.toBytes = .ok b :=
  ofBytes_eq_ok_iff.mpr ⟨h, [], (List.append_nil _).symm⟩

theorem Transaction.ofBytes_toBytes {t : Transaction}
    (h : t.toBytes.length ≤ Protocol.maxMessageBytes) :
    Transaction.ofBytes t.toBytes = .ok t :=
  ofBytes_eq_ok_iff.mpr ⟨h, [], (List.append_nil _).symm⟩

theorem Accounts.ofBytes_toBytes {a : Accounts}
    (h : a.toBytes.length ≤ Protocol.maxMessageBytes) : Accounts.ofBytes a.toBytes = .ok a := by
  simp only [Accounts.ofBytes, Accounts.toBytes, Accounts.format_exact.decode?_write h]

theorem Merkle.Tree.ofBytes?_toBytes {t : Merkle.Tree}
    (h : t.toBytes.length ≤ Protocol.maxMessageBytes) :
    Merkle.Tree.ofBytes? t.toBytes = some t :=
  Merkle.Tree.format_canonical.decode?_write h

theorem Block.eq_of_ofBytes_toBytes {b b' : Block} (h : Block.ofBytes b.toBytes = .ok b') :
    b' = b := by
  have hback := ofBytes_toBytes (ofBytes_eq_ok_iff.mp h).1
  rw [h] at hback
  exact Except.ok.inj hback

theorem Accounts.eq_of_ofBytes_toBytes {a a' : Accounts}
    (h : Accounts.ofBytes a.toBytes = .ok a') : a' = a := by
  unfold Accounts.ofBytes at h
  split at h
  · rename_i hread
    cases h
    exact Accounts.format_exact.eq_of_decode?_write hread
  · cases h

/-! ## 3. Lengths -/

/-- A transaction that was read can be stored and read again. -/
theorem Transaction.length_of_ofBytes {bytes : Bytes} {t : Transaction}
    (h : Transaction.ofBytes bytes = .ok t) : t.toBytes.length ≤ Protocol.maxMessageBytes := by
  obtain ⟨hlength, rest, rfl⟩ := ofBytes_eq_ok_iff.mp h
  rw [List.length_append] at hlength
  exact Nat.le_of_add_right_le hlength

/-- A block that was read can be stored and read again. -/
theorem Block.length_of_ofBytes {bytes : Bytes} {b : Block} (h : Block.ofBytes bytes = .ok b) :
    b.toBytes.length ≤ Protocol.maxMessageBytes := by
  obtain ⟨hlength, rest, rfl⟩ := ofBytes_eq_ok_iff.mp h
  rw [List.length_append] at hlength
  exact Nat.le_of_add_right_le hlength

theorem Block.length_tree_le (b : Block) : b.tree.toBytes.length ≤ b.toBytes.length := by
  simp only [Merkle.Tree.toBytes, Merkle.Tree.format, Block.toBytes, Block.format, Block.tree,
    Format.imap, Format.both, Format.u64, Format.word, List.length_append, length_leBytes]
  omega

theorem Descriptor.length_toBytes (d : Descriptor) : d.toBytes.length = encodedLength := by
  simp [Descriptor.toBytes, nameField, intBytes, nameLength, encodedLength]
  omega

theorem TransactionBody.length_format (b : TransactionBody) :
    (format.write b).length = 86 + b.data.length := by
  simp only [format, Format.imap, Format.both, Format.fixed, Format.word, Format.bytes,
    Format.oneOf, Address.format, PoolKind.format, Format.u16, Format.u64, List.length_append,
    length_leBytes, FixedBytes.length_toList]
  omega

theorem Transaction.length_toBytes (t : Transaction) :
    t.toBytes.length = 138 + t.body.data.length + t.publicKey.length + t.signature.length := by
  simp only [toBytes, format, Format.imap, Format.both, Format.fixed, Format.bytes, Format.oneOf,
    Slot.format, List.length_append, length_leBytes, FixedBytes.length_toList,
    TransactionBody.length_format]
  omega

theorem Transaction.length_hashedBytes (body : TransactionBody) (slot : Slot) (key : Bytes) :
    (hashedBytes body slot key).length = 98 + body.data.length + key.length := by
  simp only [hashedBytes, Format.both, Format.bytes, Format.oneOf, Slot.format, List.length_append,
    length_leBytes, TransactionBody.length_format]
  omega

theorem Header.length_format (h : Header) :
    (format.write h).length =
      141 + h.encryption.primary.length + h.encryption.secondary.length + h.signerKey.length +
        h.signature.length := by
  simp only [format, PerSlot.format, Format.imap, Format.both, Format.fixed, Format.u8,
    Format.word, Format.bytes, Format.oneOf, Address.format, Slot.format, Format.u32, Format.u64,
    List.length_append, length_leBytes, FixedBytes.length_toList, List.length_cons,
    List.length_nil]
  omega

theorem Block.length_toBytes (b : Block) :
    b.toBytes.length = 114 + (Header.format.write b.header).length + 32 * b.txHashes.length := by
  have hlisted : (b.txHashes.flatMap FixedBytes.toList).length = 32 * b.txHashes.length := by
    simp [List.length_flatMap, FixedBytes.length_toList, List.map_const', Nat.mul_comm]
  simp only [toBytes, format, Format.imap, Format.both, Format.fixed, Format.word, Format.list,
    Format.u16, Format.u64, Format.i64, List.length_append, length_leBytes,
    FixedBytes.length_toList, hlisted]
  omega

theorem Block.length_hashedBytes (b : Block) : b.hashedBytes.length = b.toBytes.length := by
  rw [length_toBytes b]
  exact length_toBytes { b with blockHash := Hash.zero }

/-- The length of a block that declares descriptors as they are written. -/
theorem Block.length_of_encryption {b : Block} {live : LiveSchemes}
    (h : b.header.encryption = live.map Descriptor.toBytes) :
    b.toBytes.length =
      321 + b.header.signerKey.length + b.header.signature.length + 32 * b.txHashes.length := by
  have hprimary : b.header.encryption.primary.length = 33 := by
    rw [h]
    exact Descriptor.length_toBytes live.primary
  have hsecondary : b.header.encryption.secondary.length = 33 := by
    rw [h]
    exact Descriptor.length_toBytes live.secondary
  rw [length_toBytes, Header.length_format, hprimary, hsecondary]
  omega

theorem Block.length_genesis : Block.genesis.toBytes.length ≤ Protocol.maxMessageBytes := by
  rw [length_of_encryption encryption_genesis]
  decide

/-- The length of a snapshot. -/
theorem Accounts.length_toBytes (a : Accounts) :
    a.toBytes.length = 16 + 28 * a.balances.size + 17 * a.staking.size +
      20 * (a.staking.toList.flatMap fun e => e.2.operators).length := by
  have haddress (x : Address) : (Address.format.write x).length = 20 := x.bytes.length_toList
  have hoperators (as : List Address) :
      (as.flatMap Address.format.write).length = 20 * as.length := by
    induction as with
    | nil => rfl
    | cons x as ih =>
      rw [List.flatMap_cons, List.length_append, haddress, ih, List.length_cons]
      omega
  have hbalances (es : List (Address × UInt64)) :
      (es.flatMap fun e => Address.format.write e.1 ++ leBytes 8 e.2.toNat).length =
        28 * es.length := by
    induction es with
    | nil => rfl
    | cons e es ih =>
      rw [List.flatMap_cons, List.length_append, List.length_append, haddress, length_leBytes, ih,
        List.length_cons]
      omega
  have hstaking (es : List (UInt8 × StakingEntry)) :
      (es.flatMap fun e => [e.1] ++ (leBytes 8 e.2.staked.toNat ++
        (leBytes 8 e.2.operators.length ++ e.2.operators.flatMap Address.format.write))).length =
        17 * es.length + 20 * (es.flatMap fun e => e.2.operators).length := by
    induction es with
    | nil => rfl
    | cons e es ih =>
      simp only [List.flatMap_cons, List.length_append, ih, hoperators, length_leBytes,
        List.length_cons, List.length_nil]
      omega
  have hsize : a.balances.toList.length = a.balances.size := Std.ExtTreeMap.length_toList
  have hcount : a.staking.toList.length = a.staking.size := Std.ExtTreeMap.length_toList
  simp only [toBytes, format, Format.imap, Format.both, Format.table, Format.list, Format.u64,
    Format.word, Format.u8, List.length_append, length_leBytes, hbalances, hstaking,
    hsize, hcount]
  omega

/-! ## 4. Descriptors of known schemes -/

namespace Descriptor

theorem readFields_ofScheme (s : Scheme) (paused : Bool) :
    readFields (ofScheme s paused).toBytes = ofScheme s paused := by
  cases s <;> cases paused <;> decide +kernel

theorem validate_ofScheme (s : Scheme) (paused : Bool) : (ofScheme s paused).validate = .ok s := by
  simp [validate, scheme, Scheme.ofName, ofScheme, sameScheme]

theorem ofBytes_ofScheme (s : Scheme) (paused : Bool) :
    ofBytes (ofScheme s paused).toBytes = .ok (ofScheme s paused) := by
  have hlen : ¬ (ofScheme s paused).toBytes.length < encodedLength := by
    rw [length_toBytes]
    exact Nat.lt_irrefl _
  simp only [ofBytes, if_neg hlen, readFields_ofScheme, validate_ofScheme]

/-- A descriptor that was read is one of a known scheme. -/
theorem validate_of_ofBytes {bytes : Bytes} {d : Descriptor}
    (h : Descriptor.ofBytes bytes = .ok d) : ∃ s, d.validate = .ok s := by
  unfold ofBytes at h
  split at h
  · cases h
  · split at h
    · cases h
    · rename_i s hvalid
      cases h
      exact ⟨s, hvalid⟩

/-- With its lengths and its name it is just the descriptor of that scheme. -/
theorem eq_ofScheme_of_validate {d : Descriptor} {s : Scheme} (h : d.validate = .ok s) :
    d = ofScheme s d.paused := by
  unfold validate at h
  split at h
  · cases h
  · split at h
    · rename_i hsame
      cases h
      cases d
      simp only [sameScheme, ofScheme, Bool.and_eq_true, beq_iff_eq] at hsame ⊢
      obtain ⟨⟨⟨rfl, rfl⟩, rfl⟩, rfl⟩ := hsame
      rfl
    · cases h

/-- **A descriptor that was read is read again from its own form**, whichever bytes it was read
from. -/
theorem ofBytes_toBytes {bytes : Bytes} {d : Descriptor} (h : ofBytes bytes = .ok d) :
    ofBytes d.toBytes = .ok d := by
  obtain ⟨s, hvalid⟩ := validate_of_ofBytes h
  rw [eq_ofScheme_of_validate hvalid]
  exact ofBytes_ofScheme s d.paused

end Descriptor

end SynergyNode
