import SynergyNode.Bytes

/-!
# BLAKE3

The tree hash that names every object of the chain.  The input is cut into chunks of 1024
bytes and each chunk into blocks of 64; the chunks' chaining values are joined in pairs, level
by level, an odd last value moving up unchanged.  Only the last compression, the root's,
carries the root flag.

`hash` is the plain hash, `deriveKey` the hash in key-derivation mode, where a context text
selects one of a family of independent functions.
-/

namespace SynergyNode.Hashing.Blake3

/-! ## 1. The compression function -/

/-- Four words, worked on side by side. -/
structure Row where
  a : UInt32
  b : UInt32
  c : UInt32
  d : UInt32

namespace Row

/-- Lane by lane. -/
@[inline] def zip (f : UInt32 → UInt32 → UInt32) (x y : Row) : Row :=
  ⟨f x.a y.a, f x.b y.b, f x.c y.c, f x.d y.d⟩

/-- Lanewise sum. -/
@[inline] def add : Row → Row → Row := zip (· + ·)

/-- Lanewise exclusive or. -/
@[inline] def xor : Row → Row → Row := zip (· ^^^ ·)

/-- Each lane rotated right by `n` bits, `0 < n < 32`. -/
@[inline] def rotate (n : UInt32) (x : Row) : Row :=
  let r (w : UInt32) : UInt32 := (w >>> n) ||| (w <<< (32 - n))
  ⟨r x.a, r x.b, r x.c, r x.d⟩

/-- The lanes moved one place to the left, cyclically. -/
@[inline] def left (x : Row) : Row := ⟨x.b, x.c, x.d, x.a⟩

/-- The four bytes of each lane in order. -/
def toBytes (x : Row) : Bytes :=
  leBytes 4 x.a.toNat ++ leBytes 4 x.b.toNat ++ leBytes 4 x.c.toNat ++ leBytes 4 x.d.toNat

@[simp] theorem length_toBytes (x : Row) : x.toBytes.length = 16 := by simp [toBytes]

end Row

/-- The working state: four rows. -/
structure State where
  r0 : Row
  r1 : Row
  r2 : Row
  r3 : Row

/-- Mixes the four columns, with one message word before each half. -/
@[inline] def State.mix (s : State) (x y : Row) : State :=
  let r0 := (s.r0.add s.r1).add x
  let r3 := (s.r3.xor r0).rotate 16
  let r2 := s.r2.add r3
  let r1 := (s.r1.xor r2).rotate 12
  let r0 := (r0.add r1).add y
  let r3 := (r3.xor r0).rotate 8
  let r2 := r2.add r3
  let r1 := (r1.xor r2).rotate 7
  ⟨r0, r1, r2, r3⟩

/-- The sixteen words of a block. -/
structure Block where
  w0 : Row
  w1 : Row
  w2 : Row
  w3 : Row

/-- The order of the message words in the next round. -/
def Block.permute (m : Block) : Block :=
  ⟨⟨m.w0.c, m.w1.c, m.w0.d, m.w2.c⟩, ⟨m.w1.d, m.w0.a, m.w1.a, m.w3.b⟩,
   ⟨m.w0.b, m.w2.d, m.w3.a, m.w1.b⟩, ⟨m.w2.b, m.w3.c, m.w3.d, m.w2.a⟩⟩

/-- One round: the columns, then the diagonals. -/
def State.round (s : State) (m : Block) : State :=
  let s := s.mix ⟨m.w0.a, m.w0.c, m.w1.a, m.w1.c⟩ ⟨m.w0.b, m.w0.d, m.w1.b, m.w1.d⟩
  let t := State.mix ⟨s.r0, s.r1.left, s.r2.left.left, s.r3.left.left.left⟩
    ⟨m.w2.a, m.w2.c, m.w3.a, m.w3.c⟩ ⟨m.w2.b, m.w2.d, m.w3.b, m.w3.d⟩
  ⟨t.r0, t.r1.left.left.left, t.r2.left.left, t.r3.left⟩

/-- `n` rounds, the message words permuted between them. -/
def State.rounds : (n : Nat) → State → Block → State
  | 0, s, _ => s
  | n + 1, s, m => rounds n (s.round m) m.permute

/-- A chaining value, also a key: eight words. -/
structure Chaining where
  lo : Row
  hi : Row

/-- The initial value. -/
def iv : Chaining :=
  ⟨⟨0x6A09E667, 0xBB67AE85, 0x3C6EF372, 0xA54FF53A⟩,
   ⟨0x510E527F, 0x9B05688C, 0x1F83D9AB, 0x5BE0CD19⟩⟩

/-- A compression that is still to be run: as an inner node or as the root. -/
structure Pending where
  chaining : Chaining
  block : Block
  counter : UInt64
  length : UInt32
  flags : UInt32

/-- Runs the compression with further flags. -/
def Pending.run (p : Pending) (extra : UInt32) : Chaining :=
  let s : State := ⟨p.chaining.lo, p.chaining.hi, iv.lo,
    ⟨p.counter.toUInt32, (p.counter >>> 32).toUInt32, p.length, p.flags ||| extra⟩⟩
  let t := s.rounds 7 p.block
  ⟨t.r0.xor t.r2, t.r1.xor t.r3⟩

/-! ## 2. Chunks and the tree -/

/-- First block of a chunk. -/
def chunkStart : UInt32 := 1
/-- Last block of a chunk. -/
def chunkEnd : UInt32 := 2
/-- A node that joins two others. -/
def parentNode : UInt32 := 4
/-- The last compression. -/
def root : UInt32 := 8
/-- The hash of a derivation context. -/
def keyContext : UInt32 := 32
/-- The hash of keyed material. -/
def keyMaterial : UInt32 := 64

/-- The next little-endian word, missing bytes being zero. -/
def nextWord : Bytes → UInt32 × Bytes
  | a :: b :: c :: d :: r =>
    (a.toUInt32 ||| (b.toUInt32 <<< 8) ||| (c.toUInt32 <<< 16) ||| (d.toUInt32 <<< 24), r)
  | [a, b, c] => (a.toUInt32 ||| (b.toUInt32 <<< 8) ||| (c.toUInt32 <<< 16), [])
  | [a, b] => (a.toUInt32 ||| (b.toUInt32 <<< 8), [])
  | [a] => (a.toUInt32, [])
  | [] => (0, [])

/-- The next four words. -/
def nextRow (b : Bytes) : Row × Bytes :=
  let (w, b) := nextWord b
  let (x, b) := nextWord b
  let (y, b) := nextWord b
  let (z, b) := nextWord b
  (⟨w, x, y, z⟩, b)

/-- The block that at most 64 bytes fill, padded with zeros. -/
def Block.ofBytes (b : Bytes) : Block :=
  let (w0, b) := nextRow b
  let (w1, b) := nextRow b
  let (w2, b) := nextRow b
  let (w3, _) := nextRow b
  ⟨w0, w1, w2, w3⟩

/-- `b` cut into pieces of `size` bytes, the last one shorter; empty input gives no piece.
`fuel` bounds the number of pieces. -/
def pieces (size : Nat) : (fuel : Nat) → Bytes → List Bytes
  | 0, _ => []
  | _, [] => []
  | fuel + 1, b => b.take size :: pieces size fuel (b.drop size)

/-- Runs all blocks of a chunk but the last, which stays pending. -/
def chunkFold (counter : UInt64) (flags : UInt32) :
    (chaining : Chaining) → (first : UInt32) → List Bytes → Pending
  | h, first, [] => ⟨h, Block.ofBytes [], counter, 0, flags ||| first ||| chunkEnd⟩
  | h, first, [b] =>
    ⟨h, Block.ofBytes b, counter, UInt32.ofNat b.length, flags ||| first ||| chunkEnd⟩
  | h, first, b :: c :: rest =>
    let h' := Pending.run ⟨h, Block.ofBytes b, counter, 64, flags ||| first⟩ 0
    chunkFold counter flags h' 0 (c :: rest)

/-- A chunk of at most 1024 bytes at the given place in the input. -/
def chunk (key : Chaining) (flags : UInt32) (counter : UInt64) (b : Bytes) : Pending :=
  chunkFold counter flags key chunkStart (pieces 64 17 b)

/-- The node that joins two chaining values. -/
def parent (key : Chaining) (flags : UInt32) (l r : Chaining) : Pending :=
  ⟨key, ⟨l.lo, l.hi, r.lo, r.hi⟩, 0, 64, flags ||| parentNode⟩

/-- One level of the tree: neighbours joined, an odd last value kept. -/
def joinLevel (key : Chaining) (flags : UInt32) : List Chaining → List Chaining
  | l :: r :: rest => (parent key flags l r).run 0 :: joinLevel key flags rest
  | rest => rest

/-- Joins level after level until the root's two children are left. -/
def rootOf (key : Chaining) (flags : UInt32) : (fuel : Nat) → List Chaining → Pending
  | _, [l, r] => parent key flags l r
  | fuel + 1, hs => rootOf key flags fuel (joinLevel key flags hs)
  | 0, _ => parent key flags iv iv

/-- The chaining values of consecutive chunks. -/
def chunkValues (key : Chaining) (flags : UInt32) (counter : UInt64) :
    List Bytes → List Chaining
  | [] => []
  | b :: rest => (chunk key flags counter b).run 0 :: chunkValues key flags (counter + 1) rest

/-- The root's compression for an input. -/
def rootNode (key : Chaining) (flags : UInt32) (input : Bytes) : Pending :=
  match pieces 1024 (input.length / 1024 + 1) input with
  | [] => chunk key flags 0 []
  | [b] => chunk key flags 0 b
  | bs => rootOf key flags bs.length (chunkValues key flags 0 bs)

/-- The hash under a key, as eight words. -/
def digest (key : Chaining) (flags : UInt32) (input : Bytes) : Chaining :=
  (rootNode key flags input).run root

/-! ## 3. The two modes -/

/-- The bytes of eight words. -/
def Chaining.toBytes (h : Chaining) : FixedBytes 32 :=
  ⟨h.lo.toBytes ++ h.hi.toBytes, by simp⟩

/-- The plain hash. -/
def hash (input : Bytes) : FixedBytes 32 :=
  (digest iv 0 input).toBytes

/-- The hash in key-derivation mode: the context's hash is the key of the material's. -/
def deriveKey (context material : Bytes) : FixedBytes 32 :=
  (digest (digest iv keyContext context) keyMaterial material).toBytes

end SynergyNode.Hashing.Blake3
