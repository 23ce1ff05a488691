import SynergyNode.Proofs.Ledger.Authority

/-!
# What the hashes cover

Transactions, headers and blocks are hashed in a binary form, with the fields that the hash or the
signature on it fills in left out.  The forms are exact, so the hashed bytes determine everything
else.

* `Transaction.hashedBytes_inj`, `Header.eq_of_signedBytes_eq`, `Header.eq_of_write_eq`,
  `Block.eq_of_hashedBytes_eq`: the content behind the hashed bytes of each kind.
* `hashes_bind_content`: so two valid transactions with one hash differ in the signature alone, and
  two blocks that carry one hash are the same, unless they exhibit a collision.
* `resigned_without_collision`: the signature of a transaction is not covered.
-/

namespace SynergyNode

/-! ## 1. Collisions -/

/-- Two byte strings with one hash. -/
structure Hash.Collision (domain : String) (x y : Bytes) : Prop where
  ne : x ≠ y
  hash_eq : Hash.ofDomain domain x = Hash.ofDomain domain y

theorem Hash.eq_or_collision {domain : String} {x y : Bytes}
    (h : Hash.ofDomain domain x = Hash.ofDomain domain y) : x = y ∨ Hash.Collision domain x y := by
  by_cases hxy : x = y
  · exact .inl hxy
  · exact .inr ⟨hxy, h⟩

/-! ## 2. What the hashed bytes say -/

/-- **Body, slot and key** stand one after the other in the bytes that the hash of a transaction
covers. -/
theorem Transaction.hashedBytes_inj {body body' : TransactionBody} {slot slot' : Slot}
    {key key' : Bytes} (hlength : (hashedBytes body slot key).length < byteRange 8)
    (h : hashedBytes body slot key = hashedBytes body' slot' key') :
    body = body' ∧ slot = slot' ∧ key = key' := by
  have hexact := TransactionBody.format_canonical.both
    (Slot.format_canonical.both Format.bytes_canonical)
  have hcontent := hexact.write_inj hlength h
  rw [Prod.mk.injEq, Prod.mk.injEq] at hcontent
  exact hcontent

theorem Header.eq_of_write_eq {h h' : Header} (hlength : (format.write h).length < byteRange 8)
    (heq : format.write h = format.write h') : h = h' :=
  format_canonical.write_inj hlength heq

/-- **All of a header but its signature** is in the bytes that are signed. -/
theorem Header.eq_of_signedBytes_eq {h h' : Header} (hlength : h.signedBytes.length < byteRange 8)
    (heq : h.signedBytes = h'.signedBytes) : h' = { h with signature := h'.signature } := by
  have hunsigned : h.unsigned = h'.unsigned := eq_of_write_eq hlength heq
  calc h' = { h'.unsigned with signature := h'.signature } := rfl
    _ = { h.unsigned with signature := h'.signature } := by rw [hunsigned]
    _ = { h with signature := h'.signature } := rfl

/-- **All of a block but its own hash** is in the bytes that are hashed. -/
theorem Block.eq_of_hashedBytes_eq {b b' : Block} (hlength : b.hashedBytes.length < byteRange 8)
    (heq : b.hashedBytes = b'.hashedBytes) : b' = { b with blockHash := b'.blockHash } := by
  have hcontent : { b with blockHash := Hash.zero } = { b' with blockHash := Hash.zero } :=
    format_canonical.write_inj hlength heq
  calc b' = { { b' with blockHash := Hash.zero } with blockHash := b'.blockHash } := rfl
    _ = { { b with blockHash := Hash.zero } with blockHash := b'.blockHash } := by rw [hcontent]
    _ = { b with blockHash := b'.blockHash } := rfl

/-! ## 3. One hash -/

/-- Two valid transactions with one hash differ in the signature alone. -/
theorem Transaction.eq_or_collision [SignatureSuite] {live live' : LiveSchemes}
    {t t' : Transaction}
    (hlength : (hashedBytes t.body t.slot t.publicKey).length < byteRange 8)
    (ht : t.verify live = .ok ()) (ht' : t'.verify live' = .ok ()) (hhash : t.hash = t'.hash) :
    t' = { t with signature := t'.signature } ∨
      Hash.Collision "okura.tx" (hashedBytes t.body t.slot t.publicKey)
        (hashedBytes t'.body t'.slot t'.publicKey) := by
  obtain ⟨hcontent, -⟩ := verify_eq_ok.mp ht
  obtain ⟨hcontent', -⟩ := verify_eq_ok.mp ht'
  rcases Hash.eq_or_collision (hcontent.trans (hhash.trans hcontent'.symm)) with hsame | hcollision
  · left
    obtain ⟨hbody, hslot, hkey⟩ := hashedBytes_inj hlength hsame
    rw [hbody, hslot, hkey, hhash]
  · exact .inr hcollision

/-- Two blocks that carry their hash, and the same one, are the same block. -/
theorem Block.eq_or_collision {b b' : Block} (hlength : b.hashedBytes.length < byteRange 8)
    (hb : b.contentHash = b.blockHash) (hb' : b'.contentHash = b'.blockHash)
    (hhash : b.blockHash = b'.blockHash) :
    b = b' ∨ Hash.Collision "okura.block" b.hashedBytes b'.hashedBytes := by
  rcases Hash.eq_or_collision (hb.trans (hhash.trans hb'.symm)) with hsame | hcollision
  · left
    rw [eq_of_hashedBytes_eq hlength hsame, ← hhash]
  · exact .inr hcollision

/-! ## 4. A transfer with two signatures -/

namespace Ledger.Sample

local instance bothSignatures : SignatureSuite := suite

/-- The transfer with another signature. -/
def resigned : Transaction := { transfer zeros with signature := [1] }

theorem verify_resigned : resigned.verify LiveSchemes.initial = .ok () := by
  have hvalid : Scheme.falcon512.verify zeros resigned.hash.toList [1] = true := by
    simp [Scheme.verify, operatorKey_zeros.length, Scheme.publicKeyLength, Scheme.signatureLength,
      SignatureSuite.valid]
  exact Transaction.verify_eq_ok.mpr
    ⟨rfl, rfl, LiveSchemes.verify_eq_ok.mpr ⟨rfl, .falcon512, rfl, hvalid⟩⟩

theorem resigned_ne : transfer zeros ≠ resigned := by
  intro h
  have hsignature : ([0] : Bytes) = [1] := congrArg Transaction.signature h
  exact absurd hsignature (by decide)

end Ledger.Sample

/-! ## 5. What the hashes bind -/

/-- **The hashed bytes determine what they are the hash of**: all of a transaction but its
signature, all of a header, or all but its signature where that is still to come, and all of a block
but its hash.  One hash on two of them is a collision of these bytes. -/
theorem hashes_bind_content [SignatureSuite] :
    (∀ (body body' : TransactionBody) (slot slot' : Slot) (key key' : Bytes),
      (Transaction.hashedBytes body slot key).length < byteRange 8 →
      Transaction.hashedBytes body slot key = Transaction.hashedBytes body' slot' key' →
        body = body' ∧ slot = slot' ∧ key = key') ∧
    (∀ h h' : Header, h.signedBytes.length < byteRange 8 → h.signedBytes = h'.signedBytes →
      h' = { h with signature := h'.signature }) ∧
    (∀ h h' : Header, (Header.format.write h).length < byteRange 8 →
      Header.format.write h = Header.format.write h' → h = h') ∧
    (∀ b b' : Block, b.hashedBytes.length < byteRange 8 → b.hashedBytes = b'.hashedBytes →
      b' = { b with blockHash := b'.blockHash }) ∧
    (∀ (live live' : LiveSchemes) (t t' : Transaction),
      (Transaction.hashedBytes t.body t.slot t.publicKey).length < byteRange 8 →
      t.verify live = .ok () → t'.verify live' = .ok () → t.hash = t'.hash →
        t' = { t with signature := t'.signature } ∨
          Hash.Collision "okura.tx" (Transaction.hashedBytes t.body t.slot t.publicKey)
            (Transaction.hashedBytes t'.body t'.slot t'.publicKey)) ∧
    ∀ b b' : Block, b.hashedBytes.length < byteRange 8 → b.contentHash = b.blockHash →
      b'.contentHash = b'.blockHash → b.blockHash = b'.blockHash →
        b = b' ∨ Hash.Collision "okura.block" b.hashedBytes b'.hashedBytes := by
  refine ⟨?_, ?_, ?_, ?_, ?_, ?_⟩
  · intro body body' slot slot' key key' hlength h
    exact Transaction.hashedBytes_inj hlength h
  · intro h h' hlength heq
    exact Header.eq_of_signedBytes_eq hlength heq
  · intro h h' hlength heq
    exact Header.eq_of_write_eq hlength heq
  · intro b b' hlength heq
    exact Block.eq_of_hashedBytes_eq hlength heq
  · intro live live' t t' hlength ht ht' hhash
    exact Transaction.eq_or_collision hlength ht ht' hhash
  · intro b b' hlength hb hb' hhash
    exact Block.eq_or_collision hlength hb hb' hhash

open Ledger.Sample in
/-- A transfer with two signatures, the first header with two signatures, and the first block with
two hashes. -/
theorem hashes_bind_content_resigned :
    ∃ (_ : SignatureSuite) (t t' : Transaction) (h h' : Header) (b b' c c' : Block),
      ((Transaction.hashedBytes t.body t.slot t.publicKey).length < byteRange 8 ∧ t ≠ t' ∧
        t.verify LiveSchemes.initial = .ok () ∧ t'.verify LiveSchemes.initial = .ok () ∧
        t.hash = t'.hash ∧ (t' = { t with signature := t'.signature } ∨
          Hash.Collision "okura.tx" (Transaction.hashedBytes t.body t.slot t.publicKey)
            (Transaction.hashedBytes t'.body t'.slot t'.publicKey))) ∧
      (Transaction.hashedBytes t.body t.slot t.publicKey =
          Transaction.hashedBytes t'.body t'.slot t'.publicKey ∧
        t.body = t'.body ∧ t.slot = t'.slot ∧ t.publicKey = t'.publicKey) ∧
      (h.signedBytes.length < byteRange 8 ∧ h ≠ h' ∧ h.signedBytes = h'.signedBytes ∧
        h' = { h with signature := h'.signature }) ∧
      (b.hashedBytes.length < byteRange 8 ∧ b ≠ b' ∧ b.hashedBytes = b'.hashedBytes ∧
        b' = { b with blockHash := b'.blockHash }) ∧
      ((Header.format.write c.header).length < byteRange 8 ∧
        Header.format.write c.header = Header.format.write c'.header ∧ c.header = c'.header) ∧
      c.hashedBytes.length < byteRange 8 ∧ c.contentHash = c.blockHash ∧
        c'.contentHash = c'.blockHash ∧ c.blockHash = c'.blockHash ∧
        (c = c' ∨ Hash.Collision "okura.block" c.hashedBytes c'.hashedBytes) := by
  let := suite
  obtain ⟨hcontent, hsigned, hheader, hblock, hone, hsealed⟩ := hashes_bind_content
  have htransfer : (Transaction.hashedBytes (transfer zeros).body (transfer zeros).slot
      (transfer zeros).publicKey).length < byteRange 8 := by
    have hdata : (transfer zeros).body.data.length = 0 := rfl
    have hkey : (transfer zeros).publicKey.length = 897 := operatorKey_zeros.length
    rw [Transaction.length_hashedBytes, hdata, hkey]
    decide
  have hgenesis := Block.length_genesis
  have hwritten : (Header.format.write Block.genesis.header).length < byteRange 8 := by
    refine Format.length_lt_byteRange (Nat.le_trans ?_ hgenesis)
    rw [Block.length_toBytes]
    omega
  have hhashed (hash : Hash) :
      { Block.genesis with blockHash := hash }.hashedBytes.length < byteRange 8 := by
    rw [← Block.length_hashedBytes] at hgenesis
    exact Format.length_lt_byteRange hgenesis
  have hvalid : (transfer zeros).verify LiveSchemes.initial = .ok () :=
    verify_transfer operatorKey_zeros
  refine ⟨suite, transfer zeros, resigned, Block.genesis.header,
    { Block.genesis.header with signature := [1] }, { Block.genesis with blockHash := Hash.zero },
    { Block.genesis with blockHash := ⟨List.replicate 32 1, rfl⟩ }, Block.genesis, Block.genesis,
    ?_, ?_, ?_, ?_, ?_, ?_⟩
  · exact ⟨htransfer, resigned_ne, hvalid, verify_resigned, rfl,
      hone _ _ _ _ htransfer hvalid verify_resigned rfl⟩
  · exact ⟨rfl, hcontent _ _ _ _ _ _ htransfer rfl⟩
  · refine ⟨hwritten, ?_, rfl, hsigned _ _ hwritten rfl⟩
    intro h
    have hsignature : ([] : Bytes) = [1] := congrArg Header.signature h
    cases hsignature
  · refine ⟨hhashed _, ?_, rfl, hblock _ _ (hhashed _) rfl⟩
    intro h
    exact absurd (congrArg Block.blockHash h) (by decide)
  · exact ⟨hwritten, rfl, hheader _ _ hwritten rfl⟩
  -- another block with this hash would be a collision
  · have hcarried : Block.genesis.contentHash = Block.genesis.blockHash :=
      Block.contentHash_sealed _
    exact ⟨hhashed _, hcarried, hcarried, rfl, hsealed _ _ (hhashed _) hcarried hcarried rfl⟩

open Ledger.Sample in
/-- **The signature of a transaction is not covered by its hash**: with two valid signatures there
are two valid transactions with one hash, and no collision. -/
theorem resigned_without_collision :
    ∃ (_ : SignatureSuite) (t t' : Transaction), t ≠ t' ∧
      t.verify LiveSchemes.initial = .ok () ∧ t'.verify LiveSchemes.initial = .ok () ∧
      t.hash = t'.hash ∧
      ¬ Hash.Collision "okura.tx" (Transaction.hashedBytes t.body t.slot t.publicKey)
        (Transaction.hashedBytes t'.body t'.slot t'.publicKey) := by
  refine ⟨suite, transfer zeros, resigned, resigned_ne, verify_transfer operatorKey_zeros,
    verify_resigned, rfl, ?_⟩
  intro hcollision
  exact hcollision.ne rfl

end SynergyNode
