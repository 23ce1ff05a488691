import SynergyNode.Proofs.Wire.Message
import SynergyNode.Proofs.Wire.Pieces

/-!
# What arrives

A sender writes frames and control tokens one after the other.  The stream carries nothing but their
bytes, and a frame ends at the first closing mark, wherever it comes from.

* `pushAll_items`: items in which no payload holds the mark or is too long arrive as they were sent.
* `arrives_iff`: a message arrives exactly when it fits, is of the codec's chain and its bytes do
  not hold the mark.  Nothing is escaped, so the last condition is one on what the blobs hold; a
  mark may also run over from a key or a length into a blob.
* `written_but_lost`: messages that do not arrive, one for each condition.
-/

namespace SynergyNode

open SynergyNode.Frame (magic terminator wrap)

/-! ## 1. Frames and tokens -/

/-- What a sender writes for receivers with a given limit. -/
inductive StreamItem (limit : Nat) where
  | frame (payload : Bytes) (hlength : payload.length ≤ limit) (hmark : ¬ terminator <:+: payload)
  | control (token : ControlToken)

namespace StreamItem

variable {limit : Nat}

/-- The bytes on the stream. -/
def toBytes : StreamItem limit → Bytes
  | frame payload _ _ => wrap payload
  | control token => token.toBytes

/-- What the receiver is to be told. -/
def event : StreamItem limit → StreamEvent
  | frame payload _ _ => .frame payload
  | control token => .control token

theorem event_ne_oversized (item : StreamItem limit) : item.event ≠ .oversized := by
  cases item <;> nofun

end StreamItem

namespace Assembler

variable {limit : Nat} {u v : Bytes}

theorem push_item (item : StreamItem limit) (v : Bytes) :
    (new limit).push (item.toBytes ++ v) =
      (item.event :: ((new limit).push v).1, ((new limit).push v).2) := by
  cases item with
  | frame payload hlength hmark =>
    have hevent : StreamEvent.ofPayload limit payload = .frame payload :=
      if_neg (Nat.not_lt_of_le hlength)
    refine (push_wrap hmark v).trans ?_
    rw [hevent]
    rfl
  | control token => exact push_token token v

theorem push_items (items : List (StreamItem limit)) :
    (new limit).push (items.flatMap StreamItem.toBytes) =
      (items.map StreamItem.event, new limit) := by
  induction items with
  | nil => exact (resting_new limit).push_nil
  | cons item items ih => rw [List.flatMap_cons, push_item, ih, List.map_cons]

/-- **Frames and tokens arrive as they were sent**, in any pieces, and nothing is held back. -/
theorem pushAll_items (items : List (StreamItem limit)) {pieces : List Bytes}
    (h : pieces.flatten = items.flatMap StreamItem.toBytes) :
    ((new limit).pushAll pieces).1 = items.map StreamItem.event ∧
      ((new limit).pushAll pieces).2.pending = 0 := by
  have hone := push_items items
  rw [← h] at hone
  have hsmall : .oversized ∉ ((new limit).push pieces.flatten).1 := by
    rw [hone, List.mem_map]
    rintro ⟨item, -, hitem⟩
    exact item.event_ne_oversized hitem
  rw [pushAll_of_not_oversized (resting_new limit) hsmall, hone]
  exact ⟨rfl, rfl⟩

/-- A frame and a token, cut inside both. -/
theorem pushAll_items_frame_wait :
    [[79, 75], [], [82, 23, 97, 60, 45, 69, 78], [68, 45, 62, 87, 65], [73, 84]].flatten =
        [(.frame [97] (by decide) (by decide) : StreamItem 8), .control .wait].flatMap
          StreamItem.toBytes ∧
      ((new 8).pushAll
          [[79, 75], [], [82, 23, 97, 60, 45, 69, 78], [68, 45, 62, 87, 65], [73, 84]]).1 =
        [.frame [97], .control .wait] ∧
      ((new 8).pushAll
          [[79, 75], [], [82, 23, 97, 60, 45, 69, 78], [68, 45, 62, 87, 65], [73, 84]]).2.pending =
        0 :=
  have hbytes := rfl
  ⟨hbytes, pushAll_items
    [(.frame [97] (by decide) (by decide) : StreamItem 8), .control .wait] hbytes⟩

end Assembler

/-! ## 2. Messages -/

namespace Codec

open Assembler (new)

variable {c : Codec} {m : Message} {b : Bytes} {pieces : List Bytes}

/-- A frame that is written under a codec's limit is read the same in any pieces. -/
theorem pushAll_of_encode (hencode : c.encode m = .ok b) (hpieces : pieces.flatten = wrap b) :
    (new c.maxMessageBytes).pushAll pieces = (new c.maxMessageBytes).push (wrap b) := by
  have hlength : (wrap b).length ≤
      c.maxMessageBytes + (magic.length + terminator.length) := by
    obtain ⟨hshort, rfl⟩ := encode_eq_ok.mp hencode
    rw [← m.length_toBytes] at hshort
    simp only [wrap, List.length_append]
    omega
  rw [← hpieces] at hlength ⊢
  exact Assembler.pushAll_of_not_oversized (Assembler.resting_new _)
    (Assembler.not_oversized_of_length_le hlength)

/-- A frame whose payload holds the closing mark is read as more than one thing. -/
theorem unmarked_of_push_wrap {limit : Nat} {event : StreamEvent}
    (h : ((new limit).push (wrap b)).1 = [event]) : ¬ terminator <:+: b := by
  intro hmark
  obtain ⟨x, y, rfl, hx⟩ := Bytes.exists_first_of_infix Frame.terminator_ne_nil hmark
  have hsplit : wrap (x ++ (terminator ++ y)) = wrap x ++ (y ++ terminator) := by
    simp only [wrap, List.append_assoc]
  have hrest : ((new limit).push (y ++ terminator)).1 ≠ [] :=
    Assembler.push_ne_nil_of_infix (List.suffix_append y terminator).isInfix
  rw [hsplit, Assembler.push_wrap hx, List.cons.injEq] at h
  exact hrest h.2

theorem push_wrap_of_encode (hencode : c.encode m = .ok b) (hmark : ¬ terminator <:+: b) :
    ((new c.maxMessageBytes).push (wrap b)).1 = [.frame b] := by
  obtain ⟨hshort, rfl⟩ := encode_eq_ok.mp hencode
  have hevent : StreamEvent.ofPayload c.maxMessageBytes m.toBytes = .frame m.toBytes :=
    if_neg (by rw [m.length_toBytes]; omega)
  rw [← List.append_nil (wrap m.toBytes), Assembler.push_wrap hmark, hevent,
    (Assembler.resting_new c.maxMessageBytes).push_nil]

/-- A blob whose length does not fit is written all the same, but no such message is read. -/
theorem exists_lost_of_long_blob {blob : Bytes} (hblob : byteRange 4 ≤ blob.length) :
    ∃ limit b,
      (⟨23, limit⟩ : Codec).encode ((Message.empty .txGossip 23).put .peers [blob]) = .ok b ∧
      ¬ ∃ p, ((new limit).pushAll [wrap b]).1 = [.frame p] ∧
        (⟨23, limit⟩ : Codec).decode p = .ok ((Message.empty .txGossip 23).put .peers [blob]) := by
  refine ⟨_, _, encode_eq_ok.mpr ⟨Nat.le_refl _, rfl⟩, ?_⟩
  rintro ⟨p, -, hdecode⟩
  have hentry : (Topic.peers, [blob]) ∈ ((Message.empty .txGossip 23).put .peers [blob]).entries :=
    Std.ExtTreeMap.mem_toList_iff_getElem?_eq_some.mpr Std.ExtTreeMap.getElem?_insert_self
  have hfits := (of_decode_eq_ok hdecode).1.entries _ hentry
  exact Nat.not_lt_of_le hblob (hfits.lengths blob (List.mem_singleton_self blob))

/-- **The messages that arrive** are those that fit, are of the codec's chain and do not hold the
closing mark. -/
theorem arrives_iff (hencode : c.encode m = .ok b) (hpieces : pieces.flatten = wrap b) :
    (∃ p, ((new c.maxMessageBytes).pushAll pieces).1 = [.frame p] ∧ c.decode p = .ok m) ↔
      m.Fits ∧ m.chainId = c.chainId ∧ ¬ terminator <:+: b := by
  rw [pushAll_of_encode hencode hpieces]
  constructor
  · rintro ⟨p, hone, hdecode⟩
    obtain ⟨hfits, hchain⟩ := of_decode_eq_ok hdecode
    exact ⟨hfits, hchain, unmarked_of_push_wrap hone⟩
  · rintro ⟨hfits, hchain, hmark⟩
    refine ⟨b, push_wrap_of_encode hencode hmark, ?_⟩
    rw [decode_of_fits hencode hfits, if_pos hchain]

/-- An announcement that arrives, cut inside its opening mark. -/
theorem arrives_iff_peers :
    (⟨23, 64⟩ : Codec).encode ((Message.empty .txGossip 23).put .peers [[127, 1]]) =
        .ok ((Message.empty .txGossip 23).put .peers [[127, 1]]).toBytes ∧
      ∃ p, ((new 64).pushAll
          [(wrap ((Message.empty .txGossip 23).put .peers [[127, 1]]).toBytes).take 3,
            (wrap ((Message.empty .txGossip 23).put .peers [[127, 1]]).toBytes).drop 3]).1 =
          [.frame p] ∧
        (⟨23, 64⟩ : Codec).decode p =
          .ok ((Message.empty .txGossip 23).put .peers [[127, 1]]) := by
  have hencode : (⟨23, 64⟩ : Codec).encode ((Message.empty .txGossip 23).put .peers [[127, 1]]) =
      .ok ((Message.empty .txGossip 23).put .peers [[127, 1]]).toBytes :=
    encode_eq_ok.mpr ⟨by decide, rfl⟩
  refine ⟨hencode, (arrives_iff hencode (by decide)).mpr ⟨?_, rfl, by decide⟩⟩
  exact Message.fits_of_encodedLength_lt (by decide)

/-- Messages that are written and do not arrive: one with the closing mark in a blob, one of another
chain, and one with a blob whose length does not fit. -/
theorem written_but_lost :
    (∃ b, (⟨23, 64⟩ : Codec).encode ((Message.empty .txGossip 23).put .peers [terminator]) = .ok b ∧
      ¬ ∃ p, ((new 64).pushAll [wrap b]).1 = [.frame p] ∧
        (⟨23, 64⟩ : Codec).decode p =
          .ok ((Message.empty .txGossip 23).put .peers [terminator])) ∧
    (∃ b, (⟨23, 64⟩ : Codec).encode (Message.empty .txGossip 24) = .ok b ∧
      ¬ ∃ p, ((new 64).pushAll [wrap b]).1 = [.frame p] ∧
        (⟨23, 64⟩ : Codec).decode p = .ok (Message.empty .txGossip 24)) ∧
    ∃ limit b, (⟨23, limit⟩ : Codec).encode
        ((Message.empty .txGossip 23).put .peers [List.replicate (byteRange 4) 0]) = .ok b ∧
      ¬ ∃ p, ((new limit).pushAll [wrap b]).1 = [.frame p] ∧
        (⟨23, limit⟩ : Codec).decode p =
          .ok ((Message.empty .txGossip 23).put .peers [List.replicate (byteRange 4) 0]) := by
  refine ⟨?_, ?_, ?_⟩
  · have hencode : (⟨23, 64⟩ : Codec).encode
        ((Message.empty .txGossip 23).put .peers [terminator]) = _ :=
      encode_eq_ok.mpr ⟨by decide, rfl⟩
    refine ⟨_, hencode, ?_⟩
    rintro ⟨p, hone, -⟩
    rw [pushAll_of_encode hencode List.flatten_singleton] at hone
    exact unmarked_of_push_wrap hone (by decide)
  · refine ⟨_, encode_eq_ok.mpr ⟨by decide, rfl⟩, ?_⟩
    rintro ⟨p, -, hdecode⟩
    exact absurd (of_decode_eq_ok hdecode).2 (by decide)
  · exact exists_lost_of_long_blob (Nat.le_of_eq List.length_replicate.symm)

end Codec

end SynergyNode
