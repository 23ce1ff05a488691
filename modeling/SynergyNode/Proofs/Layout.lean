import SynergyNode.Proofs.Codec

/-!
# The layout of transactions and blocks

The stored forms as a flat row of fields: words are little-endian and of fixed width, the number of
a variant takes four bytes, arrays stand without a length, and strings and lists follow a length or
count of eight bytes (`Layout.Field`).

* `Transaction.write_layout`, `Block.write_layout`: the forms are these rows.
* `stored_forms_canonical`: a transaction or a block is read from exactly those inputs that are not
  too long and start with its form.
-/

namespace SynergyNode

/-! ## 1. Fields -/

namespace Layout

/-- A field of a stored form. -/
inductive Field where
  /-- The number of a variant. -/
  | variant (number : Nat)
  /-- A number in a word of so many bytes. -/
  | word (width number : Nat)
  /-- A signed number in two's complement. -/
  | signed (number : Int)
  /-- Bytes of known length. -/
  | array (bytes : Bytes)
  /-- Bytes after their length. -/
  | string (bytes : Bytes)
  /-- Arrays after their number. -/
  | arrays (items : List Bytes)

/-- The bytes of a field. -/
def Field.toBytes : Field → Bytes
  | variant number => leBytes 4 number
  | word width number => leBytes width number
  | signed number => leBytes 8 (number % byteRange 8).toNat
  | array bytes => bytes
  | string bytes => leBytes 8 bytes.length ++ bytes
  | arrays items => leBytes 8 items.length ++ items.flatten

/-- The fields one after the other, with nothing in between. -/
def form (fields : List Field) : Bytes := fields.flatMap Field.toBytes

end Layout

open Layout (Field)

/-- The number of a kind of pool. -/
def PoolKind.number : PoolKind → Nat
  | standard => 0
  | escrow => 1
  | multiSig => 2

namespace TransactionBody

/-- The fields of a body. -/
def layout (b : TransactionBody) : List Field :=
  [.variant b.kind.number, .array b.sender.bytes.toList, .array b.recipient.bytes.toList,
    .word 8 b.amount.toNat, .word 8 b.nonce.toNat, .word 2 b.chainId.toNat,
    .word 8 b.height.toNat, .word 8 b.sendingTime.toNat, .string b.data]

end TransactionBody

namespace Transaction

/-- The fields of a transaction. -/
def layout (t : Transaction) : List Field :=
  t.body.layout ++
    [.variant t.slot.index, .string t.publicKey, .array t.hash.toList, .string t.signature]

end Transaction

namespace Header

/-- The fields of a header. -/
def layout (h : Header) : List Field :=
  [.array h.previousHash.toList, .word 4 h.difficulty.toNat, .word 8 h.height.toNat,
    .word 1 h.delegatedId.toNat, .array h.operator.bytes.toList, .array h.merkleRoot.toList,
    .string h.encryption.primary, .string h.encryption.secondary, .variant h.signerSlot.index,
    .string h.signerKey, .string h.signature, .word 8 h.timestamp.toNat]

end Header

namespace Block

/-- The fields of a block. -/
def layout (b : Block) : List Field :=
  b.header.layout ++
    [.array b.headerHash.toList, .word 8 b.timestamp.toNat, .word 2 b.rewardPercentage.toNat,
      .word 8 b.supply.toNat, .word 8 b.reward.toNat, .signed b.priceOracle.toInt,
      .signed b.randOracle.toInt, .arrays (b.txHashes.map FixedBytes.toList),
      .array b.blockHash.toList]

end Block

/-! ## 2. The forms are these fields -/

theorem Layout.form_append (fs gs : List Field) : form (fs ++ gs) = form fs ++ form gs :=
  List.flatMap_append

theorem PoolKind.write_number (k : PoolKind) :
    format.write k = (Field.variant k.number).toBytes := by
  cases k <;> rfl

theorem Slot.write_index (s : Slot) : format.write s = (Field.variant s.index).toBytes := by
  cases s <;> rfl

theorem Format.write_u8 (a : UInt8) : u8.write a = (Field.word 1 a.toNat).toBytes := by
  simp [u8, Field.toBytes, leBytes]

theorem Format.write_i64 (a : Int64) : i64.write a = (Field.signed a.toInt).toBytes := by
  have hword : a.toUInt64.toNat = (a.toInt % byteRange 8).toNat := by
    have hback := BitVec.toNat_ofInt (n := 64) a.toInt
    rw [Int64.toInt, BitVec.ofInt_toInt] at hback
    exact hback
  simp only [i64, word, Field.toBytes, hword]

theorem Format.write_arrays (hs : List Hash) :
    (list (fixed 32)).write hs = (Field.arrays (hs.map FixedBytes.toList)).toBytes := by
  simp only [list, fixed, Field.toBytes, List.length_map, List.flatMap_def]

open Format Layout in
theorem TransactionBody.write_layout (b : TransactionBody) : format.write b = form b.layout := by
  simp only [format, imap, both, PoolKind.write_number, form, layout, List.flatMap_cons,
    List.flatMap_nil, List.append_nil]
  rfl

open Format Layout in
theorem Transaction.write_layout (t : Transaction) : t.toBytes = form t.layout := by
  simp only [toBytes, format, imap, both, TransactionBody.write_layout, Slot.write_index, layout,
    form_append]
  simp only [form, List.flatMap_cons, List.flatMap_nil, List.append_nil]
  rfl

open Format Layout in
theorem Header.write_layout (h : Header) : format.write h = form h.layout := by
  simp only [format, imap, both, PerSlot.format, Slot.write_index, write_u8, form, layout,
    List.flatMap_cons, List.flatMap_nil, List.append_nil, List.append_assoc]
  rfl

open Format Layout in
theorem Block.write_layout (b : Block) : b.toBytes = form b.layout := by
  simp only [toBytes, format, imap, both, Header.write_layout, write_i64, write_arrays, layout,
    form_append]
  simp only [form, List.flatMap_cons, List.flatMap_nil, List.append_nil]
  rfl

/-! ## 3. What is read -/

open Layout in
/-- **Transactions and blocks are read from exactly the inputs that are not too long and start with
their fields**, and what follows the fields is ignored. -/
theorem stored_forms_canonical :
    Protocol.maxMessageBytes = 16 * 1024 * 1024 ∧
      (∀ (b : Bytes) (t : Transaction), Transaction.ofBytes b = .ok t ↔
        b.length ≤ Protocol.maxMessageBytes ∧ ∃ rest, b = t.toBytes ++ rest) ∧
      (∀ t : Transaction, t.toBytes = form t.layout) ∧
      (∀ (b : Bytes) (block : Block), Block.ofBytes b = .ok block ↔
        b.length ≤ Protocol.maxMessageBytes ∧ ∃ rest, b = block.toBytes ++ rest) ∧
      ∀ block : Block, block.toBytes = form block.layout := by
  refine ⟨rfl, ?_, Transaction.write_layout, ?_, Block.write_layout⟩
  · intro b t
    exact Transaction.ofBytes_eq_ok_iff
  · intro b block
    exact Block.ofBytes_eq_ok_iff

end SynergyNode
