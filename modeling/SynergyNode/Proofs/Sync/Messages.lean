import Mathlib.Data.List.Forall2
import SynergyNode.Proofs.Codec
import SynergyNode.Proofs.Wire.Message
import SynergyNode.Sync.Messages

/-!
# Messages for catching up, read back

An announcement, a request and a batch of blocks are each written as the blobs of a message, the
message as bytes, and the receiver goes the same way back.  A batch is the hard one: it is two rows
of blobs under two keys, which only their order keeps together.

* `Message.blobs_pushAll`: the blobs under a key are those that were pushed under it, in order;
* `HeaderBatch.ofMessage_eq_ok_iff`: a batch is read position by position from the two rows;
* `sync_messages_read_back`: what is sent is what is read, for all three.
-/

namespace SynergyNode

/-! ## 1. Blobs under a key -/

namespace Message

variable {m : Message} {key other : Topic} {blobs : List Bytes}

@[simp]
theorem blobs_empty (head : Opcode) (chainId : UInt16) (key : Topic) :
    (empty head chainId).blobs key = [] := by
  simp [empty, Message.blobs]

@[simp]
theorem blobs_put_self : (m.put key blobs).blobs key = blobs := by
  simp [put, Message.blobs]

theorem blobs_put_of_ne (h : key ≠ other) : (m.put key blobs).blobs other = m.blobs other := by
  simp [put, Message.blobs, Std.ExtTreeMap.getElem?_insert, h]

/-- Adds blobs, each under its key. -/
def pushAll (m : Message) (pushes : List (Topic × Bytes)) : Message :=
  pushes.foldl (fun m e => m.push e.1 e.2) m

/-- The blobs of some pushes under a key. -/
def pushed (key : Topic) (pushes : List (Topic × Bytes)) : List Bytes :=
  (pushes.filter fun e => e.1 = key).map Prod.snd

/-- **The blobs under a key are those that were pushed under it**, behind those that were there. -/
theorem blobs_pushAll (m : Message) (key : Topic) (pushes : List (Topic × Bytes)) :
    (m.pushAll pushes).blobs key = m.blobs key ++ pushed key pushes := by
  induction pushes generalizing m with
  | nil => simp [pushAll, pushed]
  | cons e rest ih =>
    have hrest : (m.pushAll (e :: rest)).blobs key =
        (m.push e.1 e.2).blobs key ++ pushed key rest := ih _
    rw [hrest, push]
    by_cases h : e.1 = key
    · simp [h, pushed]
    · simp [h, pushed, blobs_put_of_ne h]

theorem pushed_flatMap {α : Type} (key : Topic) (f : α → List (Topic × Bytes)) (xs : List α) :
    pushed key (xs.flatMap f) = xs.flatMap fun x => pushed key (f x) := by
  simp only [pushed, List.filter_flatMap, List.map_flatMap]

theorem chainId_pushAll (m : Message) (pushes : List (Topic × Bytes)) :
    (m.pushAll pushes).chainId = m.chainId := by
  induction pushes generalizing m with
  | nil => rfl
  | cons e rest ih => exact ih (m.push e.1 e.2)

end Message

/-- Whatever a codec writes of its own chain, it reads. -/
theorem Codec.decode_of_chainId {c : Codec} {m : Message} {bytes : Bytes}
    (hlimit : c.maxMessageBytes < byteRange 4) (hchain : m.chainId = c.chainId)
    (hencode : c.encode m = .ok bytes) : c.decode bytes = .ok m := by
  have hshort := (encode_eq_ok.mp hencode).1
  rw [decode_of_fits hencode (Message.fits_of_encodedLength_lt (Nat.lt_of_le_of_lt hshort hlimit)),
    if_pos hchain]

/-! ## 2. Single values -/

theorem FixedBytes.ofBytes?_toList {n : Nat} (b : FixedBytes n) :
    (FixedBytes.ofBytes? b.toList : Option (FixedBytes n)) = some b := by
  simp [ofBytes?, b.length_toList]

@[simp]
theorem Sync.readHeight_heightBlob (height : UInt64) :
    Sync.readHeight (some (Sync.heightBlob height)) = .ok height := by
  have hlength : (Sync.heightBlob height).length = 8 := length_leBytes 8 height.toNat
  have hvalue : ofLe (Sync.heightBlob height) = height.toNat :=
    Format.ofLe_leBytes_of_lt height.toNat_lt
  simp [Sync.readHeight, FixedBytes.ofBytes?, hlength, hvalue]

namespace HeightAnnouncement

/-- **An announcement is read back**, whatever peers it suggests. -/
theorem ofMessage_toMessage (a : HeightAnnouncement) (c : Codec) :
    ofMessage (a.toMessage c) = .ok a := by
  have hheight : (a.toMessage c).first? Topic.lastHeight = some (Sync.heightBlob a.height) := by
    rw [Message.first?, toMessage, Message.blobs_put_of_ne (by decide),
      Message.blobs_put_of_ne (by decide), Message.blobs_put_self, List.head?_cons]
  have hhash : (a.toMessage c).first? Topic.lastBlock = some a.lastHash.toList := by
    rw [Message.first?, toMessage, Message.blobs_put_of_ne (by decide), Message.blobs_put_self,
      List.head?_cons]
  have hpeers : (a.toMessage c).blobs Topic.peers = a.peers.map fun p => p.bytes.toList := by
    rw [toMessage, Message.blobs_put_self]
  have haddresses : (a.peers.map fun p => p.bytes.toList).filterMap
      (fun b => (FixedBytes.ofBytes? b).map PeerAddress.mk) = a.peers := by
    simp [List.filterMap_map, FixedBytes.ofBytes?_toList]
  simp only [ofMessage, hheight, hhash, hpeers, haddresses, Sync.readHeight_heightBlob,
    Option.bind_some, FixedBytes.ofBytes?_toList]

end HeightAnnouncement

namespace HeaderRequest

/-- **A request is read back.** -/
theorem ofMessage_toMessage (r : HeaderRequest) (c : Codec) :
    ofMessage (r.toMessage c) = .ok r := by
  have hfirst : (r.toMessage c).first? Topic.beginHeight = some (Sync.heightBlob r.first) := by
    rw [Message.first?, toMessage, Message.blobs_put_of_ne (by decide), Message.blobs_put_self,
      List.head?_cons]
  have hlast : (r.toMessage c).first? Topic.endHeight = some (Sync.heightBlob r.last) := by
    rw [Message.first?, toMessage, Message.blobs_put_self, List.head?_cons]
  simp only [ofMessage, hfirst, hlast, Sync.readHeight_heightBlob]

end HeaderRequest

/-! ## 3. Batches -/

namespace HeaderBatch

variable {batch : HeaderBatch} {pairs : List (Bytes × Bytes)} {m : Message}

/-- An entry of a batch is read from these two blobs. -/
structure ReadFrom (blobs : Bytes × Bytes) (e : UInt64 × Block) : Prop where
  index : Sync.readHeight (some blobs.1) = .ok e.1
  block : Block.ofBytes blobs.2 = .ok e.2

/-- **The entries are read from the pairs of blobs one by one.** -/
theorem readPairs_eq_ok_iff : readPairs pairs = .ok batch ↔ List.Forall₂ ReadFrom pairs batch := by
  induction pairs generalizing batch with
  | nil => simp [readPairs, eq_comm]
  | cons p rest ih =>
    obtain ⟨index, bytes⟩ := p
    constructor
    · intro h
      unfold readPairs at h
      split at h
      · cases h
      rename_i height hindex
      split at h
      · cases h
      rename_i block hblock
      split at h
      · cases h
      rename_i tail hrest
      cases h
      exact .cons ⟨hindex, hblock⟩ (ih.mp hrest)
    · rintro (_ | ⟨⟨hindex, hblock⟩, hrest⟩)
      simp only at hindex hblock
      simp [readPairs, hindex, hblock, ih.mpr hrest]

/-- **A batch is read position by position**: the indices and the blocks are equally many, and each
entry comes from the two blobs in its place. -/
theorem ofMessage_eq_ok_iff : ofMessage m = .ok batch ↔
    (m.blobs Topic.indices).length = (m.blobs Topic.headers).length ∧
      List.Forall₂ ReadFrom ((m.blobs Topic.indices).zip (m.blobs Topic.headers)) batch := by
  unfold ofMessage
  simp only
  split
  · rename_i hne
    simp [hne]
  · rename_i heq
    rw [readPairs_eq_ok_iff, iff_and_self]
    intro
    exact not_not.mp heq

/-- What is pushed for a batch. -/
def pushes (batch : HeaderBatch) : List (Topic × Bytes) :=
  batch.flatMap fun e => [(Topic.indices, Sync.heightBlob e.1), (Topic.headers, e.2.toBytes)]

theorem toMessage_eq_pushAll (batch : HeaderBatch) (c : Codec) :
    batch.toMessage c = (c.message .sendHeaders).pushAll batch.pushes := by
  rw [Message.pushAll, pushes, List.foldl_flatMap]
  rfl

theorem blobs_toMessage (batch : HeaderBatch) (c : Codec) (key : Topic) :
    (batch.toMessage c).blobs key = batch.flatMap fun e =>
      Message.pushed key [(Topic.indices, Sync.heightBlob e.1), (Topic.headers, e.2.toBytes)] := by
  rw [toMessage_eq_pushAll, Message.blobs_pushAll, Codec.message, Message.blobs_empty,
    List.nil_append, pushes, Message.pushed_flatMap]

/-- One row has the indices in order. -/
theorem blobs_indices (batch : HeaderBatch) (c : Codec) :
    (batch.toMessage c).blobs Topic.indices = batch.map fun e => Sync.heightBlob e.1 := by
  rw [blobs_toMessage, List.map_eq_flatMap]
  rfl

/-- The other has the blocks in the same order. -/
theorem blobs_headers (batch : HeaderBatch) (c : Codec) :
    (batch.toMessage c).blobs Topic.headers = batch.map fun e => e.2.toBytes := by
  rw [blobs_toMessage, List.map_eq_flatMap]
  rfl

/-- **A batch of blocks that are not too long is read back.** -/
theorem ofMessage_toMessage (c : Codec)
    (hshort : ∀ e ∈ batch, e.2.toBytes.length ≤ Protocol.maxMessageBytes) :
    ofMessage (batch.toMessage c) = .ok batch := by
  rw [ofMessage_eq_ok_iff, blobs_indices, blobs_headers, List.length_map, List.length_map,
    List.zip_map', List.forall₂_map_left_iff, List.forall₂_same]
  refine ⟨rfl, ?_⟩
  intro e he
  exact ⟨Sync.readHeight_heightBlob e.1, Block.ofBytes_toBytes (hshort e he)⟩

/-- **No index is read with a block from another place.** -/
theorem ofMessage_getElem? (h : ofMessage m = .ok batch) :
    (m.blobs Topic.indices).length = batch.length ∧
      (m.blobs Topic.headers).length = batch.length ∧
      ∀ (i : Nat) (e : UInt64 × Block), batch[i]? = some e → ∃ index block,
        (m.blobs Topic.indices)[i]? = some index ∧ (m.blobs Topic.headers)[i]? = some block ∧
          ReadFrom (index, block) e := by
  obtain ⟨hcounts, hread⟩ := ofMessage_eq_ok_iff.mp h
  have hlength := hread.length_eq
  rw [List.length_zip, hcounts, Nat.min_self] at hlength
  refine ⟨hcounts.trans hlength, hlength, ?_⟩
  intro i e he
  obtain ⟨hi, rfl⟩ := List.getElem?_eq_some_iff.mp he
  have hpairs : i < ((m.blobs Topic.indices).zip (m.blobs Topic.headers)).length := by
    rw [hread.length_eq]
    exact hi
  have hpair := List.getElem?_eq_getElem hpairs
  obtain ⟨hindex, hblock⟩ := List.getElem?_zip_eq_some.mp hpair
  exact ⟨_, _, hindex, hblock, hread.get hpairs hi⟩

end HeaderBatch

/-! ## 4. On the wire -/

/-- **What is sent for catching up is what is read.**  An announcement, a request and a batch of
blocks that are not too long come back from the bytes of their message just as they were, with any
number of peers or entries.  Whatever row of blobs is pushed on a message, each entry that is read
from it comes from the index and the block that were pushed in its own place. -/
theorem sync_messages_read_back (c : Codec) (hlimit : c.maxMessageBytes < byteRange 4) :
    (∀ (a : HeightAnnouncement) (bytes : Bytes), c.encode (a.toMessage c) = .ok bytes →
      ∃ m, c.decode bytes = .ok m ∧ HeightAnnouncement.ofMessage m = .ok a) ∧
    (∀ (r : HeaderRequest) (bytes : Bytes), c.encode (r.toMessage c) = .ok bytes →
      ∃ m, c.decode bytes = .ok m ∧ HeaderRequest.ofMessage m = .ok r) ∧
    (∀ (batch : HeaderBatch) (bytes : Bytes),
      (∀ e ∈ batch, e.2.toBytes.length ≤ Protocol.maxMessageBytes) →
      c.encode (batch.toMessage c) = .ok bytes →
      ∃ m, c.decode bytes = .ok m ∧ HeaderBatch.ofMessage m = .ok batch) ∧
    ∀ (m : Message) (pushes : List (Topic × Bytes)) (batch : HeaderBatch),
      HeaderBatch.ofMessage (m.pushAll pushes) = .ok batch →
      let indices := m.blobs Topic.indices ++ Message.pushed Topic.indices pushes
      let blocks := m.blobs Topic.headers ++ Message.pushed Topic.headers pushes
      indices.length = batch.length ∧ blocks.length = batch.length ∧
        ∀ (i : Nat) (e : UInt64 × Block), batch[i]? = some e → ∃ index block,
          indices[i]? = some index ∧ blocks[i]? = some block ∧
            Sync.readHeight (some index) = .ok e.1 ∧ Block.ofBytes block = .ok e.2 := by
  refine ⟨?_, ?_, ?_, ?_⟩
  · intro a bytes hencode
    exact ⟨_, Codec.decode_of_chainId hlimit rfl hencode, a.ofMessage_toMessage c⟩
  · intro r bytes hencode
    exact ⟨_, Codec.decode_of_chainId hlimit rfl hencode, r.ofMessage_toMessage c⟩
  · intro batch bytes hshort hencode
    have hchain : (batch.toMessage c).chainId = c.chainId := by
      rw [HeaderBatch.toMessage_eq_pushAll]
      exact Message.chainId_pushAll _ _
    exact ⟨_, Codec.decode_of_chainId hlimit hchain hencode,
      HeaderBatch.ofMessage_toMessage c hshort⟩
  · intro m pushes batch hread indices blocks
    obtain ⟨hindices, hblocks, hplaces⟩ := HeaderBatch.ofMessage_getElem? hread
    simp only [Message.blobs_pushAll] at hindices hblocks hplaces
    refine ⟨hindices, hblocks, ?_⟩
    intro i e he
    obtain ⟨index, block, hindex, hblock, hentry⟩ := hplaces i e he
    exact ⟨index, block, hindex, hblock, hentry.index, hentry.block⟩

namespace Sample

/-- A block with nothing in it. -/
def hollow (height : UInt64) : Block where
  header :=
    { previousHash := Hash.zero, difficulty := 1, height := height, delegatedId := 1
      operator := default, merkleRoot := Hash.zero, encryption := ⟨[], []⟩, signerSlot := .primary
      signerKey := [], signature := [], timestamp := 0 }
  headerHash := Hash.zero
  timestamp := 0
  rewardPercentage := 0
  supply := 0
  reward := 0
  priceOracle := 0
  randOracle := 0
  txHashes := []
  blockHash := Hash.zero

/-- A chain with messages of up to a mebibyte. -/
def syncCodec : Codec := ⟨23, 1048576⟩

end Sample

/-- Two blocks, each under the height of the other, and no blocks at all come back as they were, and
so does an announcement that suggests nobody. -/
theorem sync_messages_read_back_pair :
    let batch : HeaderBatch := [(7, Sample.hollow 8), (8, Sample.hollow 7)]
    ∃ m m' m'', Sample.syncCodec.decode (batch.toMessage Sample.syncCodec).toBytes = .ok m ∧
      HeaderBatch.ofMessage m = .ok batch ∧
      Sample.syncCodec.decode (HeaderBatch.toMessage [] Sample.syncCodec).toBytes = .ok m' ∧
      HeaderBatch.ofMessage m' = .ok [] ∧
      Sample.syncCodec.decode
        ((⟨9, Hash.zero, []⟩ : HeightAnnouncement).toMessage Sample.syncCodec).toBytes = .ok m'' ∧
      HeightAnnouncement.ofMessage m'' = .ok ⟨9, Hash.zero, []⟩ := by
  intro batch
  obtain ⟨hannounce, -, hbatch, -⟩ := sync_messages_read_back Sample.syncCodec (by decide)
  obtain ⟨m, hdecode, hread⟩ := hbatch batch _ (by decide +kernel)
    (Codec.encode_eq_ok.mpr ⟨by decide +kernel, rfl⟩)
  obtain ⟨m', hdecode', hread'⟩ := hbatch [] _ nofun
    (Codec.encode_eq_ok.mpr ⟨by decide +kernel, rfl⟩)
  obtain ⟨m'', hdecode'', hread''⟩ := hannounce ⟨9, Hash.zero, []⟩ _
    (Codec.encode_eq_ok.mpr ⟨by decide +kernel, rfl⟩)
  exact ⟨m, m', m'', hdecode, hread, hdecode', hread', hdecode'', hread''⟩

end SynergyNode
