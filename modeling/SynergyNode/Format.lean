import SynergyNode.Protocol
import SynergyNode.Bytes

/-!
# Binary formats

A `Format α` is a writer of values and a reader that takes one value off the front of a byte
string.  Words are little-endian and of fixed width, lengths and counts take eight bytes, the
number of a variant four, and strings of known length stand without a length.

Formats of larger values are put together from these by `Format.both`, `Format.list` and
`Format.imap`, and read whole by `Format.decode?`, which ignores what follows the value and
refuses inputs longer than the longest message.
-/

namespace SynergyNode

/-- A way to write the values of a type and to read them back. -/
structure Format (α : Type) where
  write : α → Bytes
  read : Bytes → Option (α × Bytes)

namespace Format

variable {α β : Type}

/-! ## 1. Bytes and words -/

/-- The first `n` bytes and the rest, if there are that many. -/
def takeExact (n : Nat) (b : Bytes) : Option (Bytes × Bytes) :=
  let front := b.take n
  if front.length = n then some (front, b.drop n) else none

/-- A word of `width` bytes, seen as a number below `256 ^ width`. -/
def word (width : Nat) (toNat : α → Nat) (ofNat : Nat → α) : Format α where
  write a := leBytes width (toNat a)
  read b := (takeExact width b).map fun p => (ofNat (ofLe p.1), p.2)

/-- A byte. -/
def u8 : Format UInt8 where
  write a := [a]
  read
    | a :: r => some (a, r)
    | [] => none

/-- A 16-bit word. -/
def u16 : Format UInt16 := word 2 UInt16.toNat UInt16.ofNat

/-- A 32-bit word. -/
def u32 : Format UInt32 := word 4 UInt32.toNat UInt32.ofNat

/-- A 64-bit word. -/
def u64 : Format UInt64 := word 8 UInt64.toNat UInt64.ofNat

/-- A signed 64-bit word in two's complement. -/
def i64 : Format Int64 := word 8 (fun a => a.toUInt64.toNat) (fun n => (UInt64.ofNat n).toInt64)

/-- A byte string of known length, without its length. -/
def fixed (n : Nat) : Format (FixedBytes n) where
  write a := a.toList
  read b :=
    let front := b.take n
    if h : front.length = n then some (⟨front, h⟩, b.drop n) else none

/-- A byte string after its length. -/
def bytes : Format Bytes where
  write a := leBytes 8 a.length ++ a
  read b :=
    match takeExact 8 b with
    | some (n, r) => takeExact (ofLe n) r
    | none => none

/-! ## 2. Composition -/

/-- Two values one after the other. -/
def both (f : Format α) (g : Format β) : Format (α × β) where
  write p := f.write p.1 ++ g.write p.2
  read b :=
    match f.read b with
    | some (x, r) =>
      match g.read r with
      | some (y, s) => some ((x, y), s)
      | none => none
    | none => none

/-- The values of one type standing for those of another. -/
def imap (f : Format α) (of : α → β) (back : β → α) : Format β where
  write y := f.write (back y)
  read b := (f.read b).map fun p => (of p.1, p.2)

/-- One of finitely many values, written as its place in the list. -/
def oneOf [BEq α] (values : List α) : Format α where
  write a := leBytes 4 (values.idxOf a)
  read b :=
    match takeExact 4 b with
    | some (n, r) => (values[ofLe n]?).map fun a => (a, r)
    | none => none

/-- Reads `n` values onto the reversed ones read so far. -/
def readMany (f : Format α) : (n : Nat) → (acc : List α) → Bytes → Option (List α × Bytes)
  | 0, acc, b => some (acc.reverse, b)
  | n + 1, acc, b =>
    match f.read b with
    | some (a, r) => readMany f n (a :: acc) r
    | none => none

/-- Values after their number. -/
def list (f : Format α) : Format (List α) where
  write as := leBytes 8 as.length ++ as.flatMap f.write
  read b :=
    match takeExact 8 b with
    | some (n, r) => readMany f (ofLe n) [] r
    | none => none

/-- A finite map as its entries in the order of the keys; of two entries with one key the
later counts. -/
def table [Ord α] [Std.TransOrd α] (f : Format α) (g : Format β) :
    Format (Std.ExtTreeMap α β) :=
  imap (list (both f g)) (fun es => es.foldl (fun m e => m.insert e.1 e.2) ∅)
    (fun m => m.toList)

/-! ## 3. Whole inputs -/

/-- The value an input starts with, if the input is not longer than the longest message. -/
def decode? (f : Format α) (b : Bytes) : Option α :=
  if b.length ≤ Protocol.maxMessageBytes then (f.read b).map Prod.fst else none

end Format

end SynergyNode
