import Mathlib.Algebra.BigOperators.Group.List.Basic
import Mathlib.Algebra.Ring.Nat
import SynergyNode.Proofs.Codec
import SynergyNode.Proofs.Wire.Message

/-!
# Sifting the transactions of a message

A message that carries transactions loses the blobs that are not transactions of the chain or do not
verify, one by one.  Every key and every other blob stays in its place, beside the transaction that
was read from it, and the blobs that went are counted.

* `Codec.keep?_eq_some_iff`, `Codec.Keeps`: which blobs stay;
* `Codec.sift_eq`: what is left of the blobs under a key;
* `Codec.Sifts`, `Codec.checkMessage_of_decode`: what is left of a message.
-/

namespace SynergyNode

namespace Codec

variable [SignatureSuite] {c : Codec} {verify : Bool} {topic : Topic} {live : LiveSchemes}

/-! ## 1. One blob -/

/-- **The blobs that are kept**: transactions of the chain, verified where that is asked. -/
theorem keep?_eq_some_iff {blob : Bytes} {t : Transaction} :
    c.keep? verify live blob = some t ↔
      Transaction.ofBytes blob = .ok t ∧ t.body.chainId = c.chainId ∧
        (verify = true → t.verify live = .ok ()) := by
  unfold keep?
  cases hread : Transaction.ofBytes blob with
  | error e => simp
  | ok u =>
    by_cases hchain : u.body.chainId = c.chainId
    · cases verify with
      | false =>
        simp only [hchain, if_true, Bool.false_eq_true, if_false, Option.some.injEq, Except.ok.injEq,
          false_imp_iff, and_true]
        constructor
        · rintro rfl
          exact ⟨rfl, hchain⟩
        · exact And.left
      | true =>
        cases hverified : u.verify live with
        | error e =>
          simp only [hchain, if_true, hverified, reduceCtorEq, Except.ok.injEq, true_imp_iff,
            false_iff]
          rintro ⟨rfl, -, h⟩
          rw [hverified] at h
          cases h
        | ok _ =>
          simp only [hchain, if_true, hverified, Option.some.injEq, Except.ok.injEq, true_imp_iff]
          constructor
          · rintro rfl
            exact ⟨rfl, hchain, hverified⟩
          · exact And.left
    · simp only [hchain, if_false, reduceCtorEq, Except.ok.injEq, false_iff]
      rintro ⟨rfl, h, -⟩
      exact hchain h

/-- A blob that a codec keeps on a topic is a transaction of its chain and, but for the topics of
the rounds, verifies under the live schemes. -/
def Keeps (c : Codec) (topic : Topic) (live : LiveSchemes) (blob : Bytes) : Prop :=
  ∃ t, Transaction.ofBytes blob = .ok t ∧ t.body.chainId = c.chainId ∧
    (topic ≠ Topic.nonce → topic ≠ Topic.selfNonce → t.verify live = .ok ())

omit [SignatureSuite] in
theorem verifiesOn_iff : verifiesOn topic = true ↔ topic ≠ Topic.nonce ∧ topic ≠ Topic.selfNonce := by
  simp [verifiesOn]

theorem isSome_keep?_iff {blob : Bytes} :
    (c.keep? (verifiesOn topic) live blob).isSome = true ↔ c.Keeps topic live blob := by
  rw [Option.isSome_iff_exists]
  refine exists_congr fun t => ?_
  rw [keep?_eq_some_iff, verifiesOn_iff, and_imp]

instance (c : Codec) (topic : Topic) (live : LiveSchemes) : DecidablePred (c.Keeps topic live) :=
  fun _ => decidable_of_iff _ isSome_keep?_iff

/-! ## 2. The blobs under a key -/

/-- **What is left are the blobs that are kept, and beside them their transactions**; the others are
counted. -/
theorem sift_eq (c : Codec) (verify : Bool) (live : LiveSchemes) (blobs : List Bytes) :
    c.sift verify live blobs =
      { blobs := blobs.filter fun b => (c.keep? verify live b).isSome
        transactions := blobs.filterMap (c.keep? verify live)
        dropped := blobs.countP fun b => (c.keep? verify live b).isNone } := by
  induction blobs with
  | nil => rfl
  | cons b rest ih =>
    rw [sift, List.foldr_cons, ← sift, ih]
    cases hkeep : c.keep? verify live b <;> simp [hkeep]

/-- Every transaction that is left was read from the blob beside it. -/
theorem map_transactions_sift (c : Codec) (verify : Bool) (live : LiveSchemes)
    (blobs : List Bytes) : (c.sift verify live blobs).transactions.map Except.ok =
      (c.sift verify live blobs).blobs.map Transaction.ofBytes := by
  rw [sift_eq]
  induction blobs with
  | nil => rfl
  | cons b rest ih =>
    cases hkeep : c.keep? verify live b with
    | none => simpa [hkeep] using ih
    | some t => simpa [hkeep, (keep?_eq_some_iff.mp hkeep).1] using ih

/-- No blob is lost from the count. -/
theorem dropped_sift_add (c : Codec) (verify : Bool) (live : LiveSchemes) (blobs : List Bytes) :
    (c.sift verify live blobs).dropped + (c.sift verify live blobs).blobs.length =
      blobs.length := by
  rw [sift_eq]
  induction blobs with
  | nil => rfl
  | cons b rest ih =>
    cases hkeep : c.keep? verify live b <;> simp [hkeep] at ih ⊢ <;> omega

end Codec

/-! ## 3. A message -/

/-- The number of blobs in a message, under all keys. -/
def Message.blobCount (m : Message) : Nat := (m.entries.map fun e => e.2.length).sum

namespace Codec

variable {c : Codec} {topic : Topic} {live : LiveSchemes} {bytes : Bytes} {m : Message}
  {v : CheckedMessage}

/-- What a codec reads is a message. -/
theorem ofBytes_of_decode (h : c.decode bytes = .ok m) : Message.ofBytes bytes = .ok m := by
  unfold decode at h
  split at h
  · cases h
  · split at h
    · cases h
    · rename_i hread
      split at h
      · cases h
        exact hread
      · cases h

section

variable [SignatureSuite]

/-- What is left of a message after its transactions were sifted. -/
structure Sifts (c : Codec) (topic : Topic) (live : LiveSchemes) (m : Message) (v : CheckedMessage) :
    Prop where
  head : v.message.head = m.head
  chainId : v.message.chainId = m.chainId
  /-- No key is lost, and none is new. -/
  keys : v.message.payload.keys = m.payload.keys
  transactionKeys : v.transactions.keys = m.payload.keys
  /-- The blobs that are kept, in their order. -/
  blobs : ∀ key, v.message.blobs key = (m.blobs key).filter fun b => c.Keeps topic live b
  /-- The transactions are what is read from the blobs, in their order. -/
  transactions : ∀ key, ((v.transactions[key]?).getD []).map Except.ok =
    (v.message.blobs key).map Transaction.ofBytes
  count : v.dropped + v.message.blobCount = m.blobCount

theorem sifts_siftMessage (c : Codec) (topic : Topic) (live : LiveSchemes) (m : Message) :
    c.Sifts topic live m (c.siftMessage (verifiesOn topic) live m) where
  head := rfl
  chainId := rfl
  keys := by simp [siftMessage]
  transactionKeys := by simp [siftMessage]
  blobs key := by
    have hkept : (fun b => (c.keep? (verifiesOn topic) live b).isSome) =
        fun b => decide (c.Keeps topic live b) := by
      funext b
      rw [Bool.eq_iff_iff, isSome_keep?_iff, decide_eq_true_iff]
    cases hblobs : m.payload[key]? <;>
      simp [siftMessage, Message.blobs, hblobs, sift_eq, hkept]
  transactions key := by
    cases hblobs : m.payload[key]? with
    | none => simp [siftMessage, Message.blobs, hblobs]
    | some blobs =>
      simpa [siftMessage, Message.blobs, hblobs] using
        map_transactions_sift c (verifiesOn topic) live blobs
  count := by
    have hdropped : (c.siftMessage (verifiesOn topic) live m).dropped =
        (m.entries.map fun e => (c.sift (verifiesOn topic) live e.2).dropped).sum := by
      rw [List.sum_eq_foldl, List.foldl_map]
      simp [siftMessage, Message.entries, Std.ExtTreeMap.toList_map, List.foldl_map]
    have hleft : (c.siftMessage (verifiesOn topic) live m).message.blobCount =
        (m.entries.map fun e => (c.sift (verifiesOn topic) live e.2).blobs.length).sum := by
      simp [siftMessage, Message.blobCount, Message.entries, Std.ExtTreeMap.toList_map,
        Function.comp_def]
    rw [hdropped, hleft, ← List.sum_map_add]
    simp [dropped_sift_add, Message.blobCount]

/-- What a codec makes of a message that it reads. -/
theorem checkMessage_eq (h : c.decode bytes = .ok m) :
    c.checkMessage bytes topic live =
      .ok (if m.head.carriesTransactions then c.siftMessage (verifiesOn topic) live m
        else ⟨m, ∅, 0⟩) := by
  simp only [checkMessage, h]
  split <;> rfl

/-- Only what is read is checked. -/
theorem exists_decode_of_checkMessage (h : c.checkMessage bytes topic live = .ok v) :
    ∃ m, c.decode bytes = .ok m := by
  cases hdecode : c.decode bytes with
  | error e =>
    rw [checkMessage, hdecode] at h
    cases h
  | ok m => exact ⟨m, rfl⟩

/-- **Every transaction that is left of a message was read, is of the chain and was verified**, but
for the topics of the rounds, on which it was not verified. -/
theorem of_mem_checkMessage (h : c.checkMessage bytes topic live = .ok v) {t : Transaction}
    (ht : t ∈ v.transactions.toList.flatMap Prod.snd) :
    ∃ blob, Transaction.ofBytes blob = .ok t ∧ t.body.chainId = c.chainId ∧
      (verifiesOn topic = true → t.verify live = .ok ()) := by
  obtain ⟨m, hdecode⟩ := exists_decode_of_checkMessage h
  rw [checkMessage_eq hdecode, Except.ok.injEq] at h
  subst h
  split at ht
  · have hsifts := sifts_siftMessage c topic live m
    generalize c.siftMessage (verifiesOn topic) live m = v at ht hsifts
    obtain ⟨⟨key, txs⟩, hentry, hmem⟩ := List.mem_flatMap.mp ht
    rw [Std.ExtTreeMap.mem_toList_iff_getElem?_eq_some] at hentry
    have hread : Except.ok t ∈ (v.message.blobs key).map Transaction.ofBytes := by
      rw [← hsifts.transactions key, hentry]
      exact List.mem_map_of_mem hmem
    obtain ⟨blob, hblob, hparsed⟩ := List.mem_map.mp hread
    rw [hsifts.blobs key, List.mem_filter, decide_eq_true_iff] at hblob
    obtain ⟨u, hu, hchain, hverified⟩ := hblob.2
    rw [hparsed, Except.ok.injEq] at hu
    subst hu
    exact ⟨blob, hparsed, hchain, fun hverifies =>
      hverified (verifiesOn_iff.mp hverifies).1 (verifiesOn_iff.mp hverifies).2⟩
  · simp at ht

/-- The opcode of a message is the one that its bytes name. -/
theorem head_of_checkMessage (h : c.checkMessage bytes topic live = .ok v) :
    ∃ m, Message.ofBytes bytes = .ok m ∧ v.message.head = m.head := by
  obtain ⟨m, hdecode⟩ := exists_decode_of_checkMessage h
  rw [checkMessage_eq hdecode, Except.ok.injEq] at h
  refine ⟨m, ofBytes_of_decode hdecode, ?_⟩
  rw [← h]
  split <;> rfl

/-- **What a codec reads it checks.**  A message without transactions stays as it is; of one with
transactions the blobs are left that are transactions of the chain and verify, each in its place,
and the others are counted. -/
theorem checkMessage_of_decode (h : c.decode bytes = .ok m) (topic : Topic) (live : LiveSchemes) :
    ∃ v, c.checkMessage bytes topic live = .ok v ∧
      (m.head.carriesTransactions = false → v = ⟨m, ∅, 0⟩) ∧
      (m.head.carriesTransactions = true → c.Sifts topic live m v) := by
  refine ⟨_, checkMessage_eq h, ?_, ?_⟩
  · intro hcarries
    simp [hcarries]
  · intro hcarries
    simpa [hcarries] using sifts_siftMessage c topic live m

end

namespace Sample

/-- A transaction of a chain. -/
def transfer (chainId : UInt16) : Transaction :=
  ⟨⟨.standard, default, default, 1, 0, chainId, 0, 0, []⟩, .primary, [], Hash.zero, []⟩

theorem length_transfer (chainId : UInt16) : (transfer chainId).toBytes.length = 138 := by
  rw [Transaction.length_toBytes]
  rfl

theorem ofBytes_transfer (chainId : UInt16) :
    Transaction.ofBytes (transfer chainId).toBytes = .ok (transfer chainId) := by
  refine Transaction.ofBytes_toBytes ?_
  rw [length_transfer]
  decide

/-- A message with a blob that is no transaction, a transaction of the chain and one of another. -/
def mixed : Message :=
  (Message.empty .txGossip 7).put Topic.standardPool
    [[1, 2, 3], (transfer 7).toBytes, (transfer 8).toBytes]

theorem decode_mixed : (⟨7, 1000⟩ : Codec).decode mixed.toBytes = .ok mixed := by
  have hentries : mixed.entries =
      [(Topic.standardPool, [[1, 2, 3], (transfer 7).toBytes, (transfer 8).toBytes])] := rfl
  have hlength : mixed.encodedLength = 307 := by
    simp [Message.encodedLength, hentries, length_transfer]
  have hencode : (⟨7, 1000⟩ : Codec).encode mixed = .ok mixed.toBytes := by
    refine encode_eq_ok.mpr ⟨?_, rfl⟩
    rw [hlength]
    decide
  have hfits : mixed.Fits := by
    refine Message.fits_of_encodedLength_lt ?_
    rw [hlength]
    decide
  rw [decode_of_fits hencode hfits]
  rfl

end Sample

/-- Of three blobs one is left, on a topic of the rounds without a valid signature. -/
theorem checkMessage_of_decode_mixed :
    (⟨7, 1000⟩ : Codec).decode Sample.mixed.toBytes = .ok Sample.mixed ∧
      ∃ v, (⟨7, 1000⟩ : Codec).checkMessage Sample.mixed.toBytes Topic.nonce LiveSchemes.initial =
          .ok v ∧
        v.message.blobs Topic.standardPool = [(Sample.transfer 7).toBytes] ∧
        (v.transactions[Topic.standardPool]?).getD [] = [Sample.transfer 7] ∧
        v.dropped + v.message.blobCount = 3 := by
  obtain ⟨v, hcheck, -, hsifts⟩ :=
    checkMessage_of_decode Sample.decode_mixed Topic.nonce LiveSchemes.initial
  have hsifts := hsifts rfl
  have hleft : v.message.blobs Topic.standardPool = [(Sample.transfer 7).toBytes] := by
    have hall : Sample.mixed.blobs Topic.standardPool =
        [[1, 2, 3], (Sample.transfer 7).toBytes, (Sample.transfer 8).toBytes] := rfl
    have hnone : Transaction.ofBytes [1, 2, 3] = .error .serialization := rfl
    have hseven : (Sample.transfer 7).body.chainId = 7 := rfl
    have height : (Sample.transfer 8).body.chainId = 8 := rfl
    rw [hsifts.blobs, hall]
    simp [Keeps, hnone, Sample.ofBytes_transfer, hseven, height]
  have hparsed := hsifts.transactions Topic.standardPool
  rw [hleft, List.map_singleton, Sample.ofBytes_transfer] at hparsed
  obtain ⟨t, ht, heq⟩ := List.map_eq_singleton_iff.mp hparsed
  rw [Except.ok.injEq] at heq
  exact ⟨Sample.decode_mixed, v, hcheck, hleft, heq ▸ ht, hsifts.count⟩

end Codec

end SynergyNode
