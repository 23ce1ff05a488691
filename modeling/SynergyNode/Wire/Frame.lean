import SynergyNode.Bytes

/-!
# Frames on a stream

On a connection a message travels as a frame: four bytes that open it, the payload, and seven
that close it.  Between frames stand control tokens.

An `Assembler` takes the bytes of a stream in any pieces and reports what it finds.  Bytes that
open neither a frame nor a token are a fault, as is a frame that grows past the limit; after a
fault everything up to the next closing mark is passed over.  What cannot be told yet is held back
in a buffer, and a frame that is still open at the end of a piece is given up when it is longer than
any acceptable frame.
-/

namespace SynergyNode

/-- Words of a peer about the stream itself. -/
inductive ControlToken where
  /-- The peer closes the connection. -/
  | close
  /-- The peer leaves this topic. -/
  | quitFor
  /-- The sender should pause. -/
  | wait
  /-- The receiver should stop. -/
  | exit
deriving DecidableEq

namespace ControlToken

/-- Every token. -/
def all : List ControlToken := [close, quitFor, wait, exit]

/-- The name of a token. -/
def name : ControlToken → String
  | close => "Close"
  | quitFor => "QuitFor"
  | wait => "Wait"
  | exit => "Exit"

/-- The token with a given name. -/
def ofName? (name : String) : Option ControlToken := all.find? fun t => t.name == name

/-- The bytes of a token. -/
def toBytes : ControlToken → Bytes
  | close => [60, 45, 67, 76, 83, 45, 62]
  | quitFor => [81, 85, 73, 84, 70, 79, 82]
  | wait => [87, 65, 73, 84]
  | exit => [69, 88, 73, 84]

end ControlToken

namespace Bytes

/-- Where a mark first stands in a byte string that begins `n` bytes behind another place. -/
def findFrom? (mark : Bytes) : (n : Nat) → Bytes → Option Nat
  | _, [] => none
  | n, b :: rest =>
    if mark.isPrefixOf (b :: rest) then some n else findFrom? mark (n + 1) rest

/-- Where a mark first stands. -/
def find? (mark : Bytes) (b : Bytes) : Option Nat := findFrom? mark 0 b

end Bytes

namespace Frame

/-- What opens a frame. -/
def magic : Bytes := [79, 75, 82, 23]

/-- What closes a frame. -/
def terminator : Bytes := [60, 45, 69, 78, 68, 45, 62]

/-- The frame around a payload. -/
def wrap (payload : Bytes) : Bytes := magic ++ payload ++ terminator

end Frame

/-- Something found on a stream. -/
inductive StreamEvent where
  | frame (payload : Bytes)
  | control (token : ControlToken)
  /-- A frame longer than the limit. -/
  | oversized
  /-- Bytes that open neither a frame nor a token. -/
  | badMagic
deriving DecidableEq

/-- What the frame around a payload is reported as. -/
def StreamEvent.ofPayload (maxPayload : Nat) (payload : Bytes) : StreamEvent :=
  if maxPayload < payload.length then .oversized else .frame payload

/-- Puts frames together from the pieces of a stream. -/
structure Assembler where
  maxPayload : Nat
  /-- The bytes that came in and are not resolved yet. -/
  buffer : Bytes
  /-- Whether everything up to the next closing mark is passed over. -/
  discarding : Bool
  /-- How many bytes of an open frame's body have been searched for the closing mark. -/
  scanned : Nat
deriving DecidableEq

namespace Assembler

/-- An assembler at the start of a stream.  The limit is not a machine word: its sum with the length
of a closing mark, which a word at the end of its range cannot hold, never overflows. -/
def new (maxPayload : Nat) : Assembler := ⟨maxPayload, [], false, 0⟩

/-- The number of bytes held back. -/
def pending (a : Assembler) : Nat := a.buffer.length

/-! ## 1. One look at the buffer -/

/-- What a look at the buffer comes to: the assembler looks again, or it waits for more bytes. -/
inductive Turn where
  | next (events : List StreamEvent) (a : Assembler)
  | wait (events : List StreamEvent) (a : Assembler)

/-- Drops what stands before the next closing mark, and the mark.  Without one only the bytes that
may begin it are kept. -/
def skip (a : Assembler) : Turn :=
  match Bytes.find? Frame.terminator a.buffer with
  | some n =>
    .next [] { a with
      buffer := a.buffer.drop (n + Frame.terminator.length), discarding := false, scanned := 0 }
  | none =>
    .wait [] { a with
      buffer := a.buffer.drop (a.buffer.length - (Frame.terminator.length - 1)) }

/-- Takes an open frame off the buffer once its closing mark is there.  The search goes on where the
last one stopped, less the bytes that may begin the mark.  Without the mark a frame that is longer
than any acceptable one is given up. -/
def takeFrame (a : Assembler) : Turn :=
  let body := a.buffer.drop Frame.magic.length
  let start := a.scanned - (Frame.terminator.length - 1)
  match Bytes.findFrom? Frame.terminator start (body.drop start) with
  | some n =>
    .next [.ofPayload a.maxPayload (body.take n)]
      { a with buffer := body.drop (n + Frame.terminator.length), scanned := 0 }
  | none =>
    if a.maxPayload + Frame.terminator.length < body.length then
      .wait [.oversized] { a with buffer := [], discarding := true, scanned := 0 }
    else .wait [] { a with scanned := body.length }

/-- Whether bytes are a proper beginning of a frame or a token. -/
def isOpening (seen : Bytes) : Bool :=
  (Frame.magic :: ControlToken.all.map ControlToken.toBytes).any fun full =>
    decide (seen.length < full.length) && seen.isPrefixOf full

/-- One look at the buffer. -/
def turn (a : Assembler) : Turn :=
  if a.buffer = [] then .wait [] a
  else if a.discarding then a.skip
  else if Frame.magic.isPrefixOf a.buffer then a.takeFrame
  else
    match ControlToken.all.find? fun t => t.toBytes.isPrefixOf a.buffer with
    | some t => .next [.control t] { a with buffer := a.buffer.drop t.toBytes.length }
    | none =>
      if isOpening a.buffer then .wait [] a else .next [.badMagic] { a with discarding := true }

/-! ## 2. The pieces of a stream -/

/-- What is left to do: every turn takes bytes off the buffer, or it turns to discarding. -/
def load (a : Assembler) : Nat := 2 * a.buffer.length + if a.discarding then 0 else 1

theorem load_skip {a b : Assembler} {events : List StreamEvent} (hne : a.buffer ≠ [])
    (h : a.skip = .next events b) : b.load < a.load := by
  have hpos := List.length_pos_iff.mpr hne
  unfold skip at h
  split at h
  · cases h
    simp only [load, List.length_drop, Frame.terminator, List.length_cons, List.length_nil]
    split <;> simp <;> omega
  · cases h

theorem load_takeFrame {a b : Assembler} {events : List StreamEvent} (hne : a.buffer ≠ [])
    (h : a.takeFrame = .next events b) : b.load < a.load := by
  have hpos := List.length_pos_iff.mpr hne
  unfold takeFrame at h
  simp only at h
  split at h
  · cases h
    simp only [load, List.length_drop, Frame.terminator, Frame.magic, List.length_cons,
      List.length_nil]
    omega
  · split at h <;> cases h

theorem load_turn {a b : Assembler} {events : List StreamEvent} (h : a.turn = .next events b) :
    b.load < a.load := by
  unfold turn at h
  split at h
  · cases h
  · rename_i hne
    have hpos := List.length_pos_iff.mpr hne
    split at h
    · exact load_skip hne h
    · rename_i hdiscarding
      split at h
      · exact load_takeFrame hne h
      · split at h
        · rename_i t _
          cases h
          have ht : 0 < t.toBytes.length := by cases t <;> decide
          simp only [load, List.length_drop]
          omega
        · split at h <;> cases h
          simp only [load, hdiscarding]
          simp

/-- Looks at the buffer until it has to wait. -/
def settle (a : Assembler) : List StreamEvent × Assembler :=
  match h : a.turn with
  | .next events b =>
    have := load_turn h
    let (later, c) := settle b
    (events ++ later, c)
  | .wait events b => (events, b)
termination_by a.load

/-- With more bytes behind those in the buffer. -/
def feed (a : Assembler) (chunk : Bytes) : Assembler := { a with buffer := a.buffer ++ chunk }

/-- Takes the next piece of the stream. -/
def push (a : Assembler) (chunk : Bytes) : List StreamEvent × Assembler := (a.feed chunk).settle

end Assembler

end SynergyNode
