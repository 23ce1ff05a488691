import SynergyNode.Bytes

/-!
# Keccak and the SHAKE functions

The permutation Keccak-f on 1600 bits, as five planes of five lanes, and the two extendable
output functions built on it.  `Sponge` is the state between absorbing and squeezing:
`Sponge.next` gives the next block of output, so that a sampler can read as far as it needs.
-/

namespace SynergyNode.Hashing.Keccak

/-! ## 1. The permutation -/

/-- Five lanes with one `y`. -/
structure Plane where
  a : UInt64
  b : UInt64
  c : UInt64
  d : UInt64
  e : UInt64

/-- The state: five planes. -/
structure State where
  y0 : Plane
  y1 : Plane
  y2 : Plane
  y3 : Plane
  y4 : Plane

/-- A lane rotated left by `n` bits, `n < 64`. -/
@[inline] def rotate (w n : UInt64) : UInt64 :=
  if n = 0 then w else (w <<< n) ||| (w >>> (64 - n))

namespace Plane

/-- Lane by lane. -/
@[inline] def zip (f : UInt64 → UInt64 → UInt64) (p q : Plane) : Plane :=
  ⟨f p.a q.a, f p.b q.b, f p.c q.c, f p.d q.d, f p.e q.e⟩

/-- Lanewise exclusive or. -/
@[inline] def xor : Plane → Plane → Plane := zip (· ^^^ ·)

/-- Each lane with the complement of its neighbour and the one after. -/
@[inline] def chi (p : Plane) : Plane :=
  ⟨p.a ^^^ ((p.b ^^^ 0xFFFFFFFFFFFFFFFF) &&& p.c), p.b ^^^ ((p.c ^^^ 0xFFFFFFFFFFFFFFFF) &&& p.d),
   p.c ^^^ ((p.d ^^^ 0xFFFFFFFFFFFFFFFF) &&& p.e), p.d ^^^ ((p.e ^^^ 0xFFFFFFFFFFFFFFFF) &&& p.a),
   p.e ^^^ ((p.a ^^^ 0xFFFFFFFFFFFFFFFF) &&& p.b)⟩

end Plane

/-- Adds to every lane the parities of two neighbouring columns. -/
@[inline] def theta (s : State) : State :=
  let c := (((s.y0.xor s.y1).xor s.y2).xor s.y3).xor s.y4
  let d : Plane := ⟨c.e ^^^ rotate c.b 1, c.a ^^^ rotate c.c 1, c.b ^^^ rotate c.d 1,
    c.c ^^^ rotate c.e 1, c.d ^^^ rotate c.a 1⟩
  ⟨s.y0.xor d, s.y1.xor d, s.y2.xor d, s.y3.xor d, s.y4.xor d⟩

/-- Rotates every lane by its own amount. -/
@[inline] def rho (s : State) : State :=
  ⟨s.y0.zip rotate ⟨0, 1, 62, 28, 27⟩, s.y1.zip rotate ⟨36, 44, 6, 55, 20⟩,
   s.y2.zip rotate ⟨3, 10, 43, 25, 39⟩, s.y3.zip rotate ⟨41, 45, 15, 21, 8⟩,
   s.y4.zip rotate ⟨18, 2, 61, 56, 14⟩⟩

/-- Moves the lanes to their new places. -/
@[inline] def pi (s : State) : State :=
  ⟨⟨s.y0.a, s.y1.b, s.y2.c, s.y3.d, s.y4.e⟩, ⟨s.y0.d, s.y1.e, s.y2.a, s.y3.b, s.y4.c⟩,
   ⟨s.y0.b, s.y1.c, s.y2.d, s.y3.e, s.y4.a⟩, ⟨s.y0.e, s.y1.a, s.y2.b, s.y3.c, s.y4.d⟩,
   ⟨s.y0.c, s.y1.d, s.y2.e, s.y3.a, s.y4.b⟩⟩

/-- Combines the lanes of each plane. -/
@[inline] def chi (s : State) : State :=
  ⟨s.y0.chi, s.y1.chi, s.y2.chi, s.y3.chi, s.y4.chi⟩

/-- Adds the round constant to the first lane. -/
@[inline] def iota (rc : UInt64) (s : State) : State :=
  { s with y0 := { s.y0 with a := s.y0.a ^^^ rc } }

/-- The constants of the twenty-four rounds. -/
def roundConstants : List UInt64 :=
  [0x0000000000000001, 0x0000000000008082, 0x800000000000808A, 0x8000000080008000,
   0x000000000000808B, 0x0000000080000001, 0x8000000080008081, 0x8000000000008009,
   0x000000000000008A, 0x0000000000000088, 0x0000000080008009, 0x000000008000000A,
   0x000000008000808B, 0x800000000000008B, 0x8000000000008089, 0x8000000000008003,
   0x8000000000008002, 0x8000000000000080, 0x000000000000800A, 0x800000008000000A,
   0x8000000080008081, 0x8000000000008080, 0x0000000080000001, 0x8000000080008008]

/-- The permutation. -/
def permute (s : State) : State :=
  roundConstants.foldl (fun s rc => iota rc (chi (pi (rho (theta s))))) s

/-! ## 2. Bytes of a state -/

/-- The eight bytes of a lane, least significant first. -/
def laneBytes (w : UInt64) : Bytes :=
  [w.toUInt8, (w >>> 8).toUInt8, (w >>> 16).toUInt8, (w >>> 24).toUInt8,
   (w >>> 32).toUInt8, (w >>> 40).toUInt8, (w >>> 48).toUInt8, (w >>> 56).toUInt8]

/-- The bytes of a plane. -/
def Plane.toBytes (p : Plane) : Bytes :=
  laneBytes p.a ++ (laneBytes p.b ++ (laneBytes p.c ++ (laneBytes p.d ++ laneBytes p.e)))

/-- The two hundred bytes of a state. -/
def State.toBytes (s : State) : Bytes :=
  s.y0.toBytes ++ (s.y1.toBytes ++ (s.y2.toBytes ++ (s.y3.toBytes ++ s.y4.toBytes)))

/-- The next lane, zero when fewer than eight bytes are left. -/
def nextLane : Bytes → UInt64 × Bytes
  | a :: b :: c :: d :: e :: f :: g :: h :: r =>
    (a.toUInt64 ||| (b.toUInt64 <<< 8) ||| (c.toUInt64 <<< 16) ||| (d.toUInt64 <<< 24) |||
      (e.toUInt64 <<< 32) ||| (f.toUInt64 <<< 40) ||| (g.toUInt64 <<< 48) |||
      (h.toUInt64 <<< 56), r)
  | _ => (0, [])

/-- The next plane. -/
def nextPlane (x : Bytes) : Plane × Bytes :=
  let (a, x) := nextLane x
  let (b, x) := nextLane x
  let (c, x) := nextLane x
  let (d, x) := nextLane x
  let (e, x) := nextLane x
  (⟨a, b, c, d, e⟩, x)

/-- The state that starts with the given bytes, a whole number of lanes, and is zero after. -/
def State.ofBytes (x : Bytes) : State :=
  let (y0, x) := nextPlane x
  let (y1, x) := nextPlane x
  let (y2, x) := nextPlane x
  let (y3, x) := nextPlane x
  let (y4, _) := nextPlane x
  ⟨y0, y1, y2, y3, y4⟩

/-- Lanewise exclusive or of two states. -/
def State.xor (s t : State) : State :=
  ⟨s.y0.xor t.y0, s.y1.xor t.y1, s.y2.xor t.y2, s.y3.xor t.y3, s.y4.xor t.y4⟩

/-! ## 3. The sponge -/

/-- A state and the number of its bytes that input and output touch. -/
structure Sponge where
  rate : Nat
  state : State

/-- The input's padding, from the domain bits to the last bit of the block. -/
def padding (missing : Nat) : Bytes :=
  if missing = 1 then [0x9F] else 0x1F :: List.replicate (missing - 2) 0 ++ [0x80]

/-- Absorbs whole blocks and then the padded rest; `fuel` bounds the number of blocks. -/
def absorb (rate : Nat) : (fuel : Nat) → State → Bytes → State
  | 0, s, _ => s
  | fuel + 1, s, b =>
    let block := b.take rate
    if block.length = rate then
      absorb rate fuel (permute (s.xor (State.ofBytes block))) (b.drop rate)
    else
      permute (s.xor (State.ofBytes (block ++ padding (rate - block.length))))

/-- The sponge after absorbing an input. -/
def Sponge.ofInput (rate : Nat) (input : Bytes) : Sponge :=
  ⟨rate, absorb rate (input.length / rate + 1) (State.ofBytes []) input⟩

/-- The next block of output and the sponge after it. -/
def Sponge.next (s : Sponge) : Bytes × Sponge :=
  (s.state.toBytes.take s.rate, { s with state := permute s.state })

/-- The next `n` blocks of output. -/
def Sponge.blocks : (n : Nat) → Sponge → Bytes
  | 0, _ => []
  | n + 1, s => s.next.1 ++ blocks n s.next.2

/-- The first `n` bytes of output. -/
def Sponge.squeeze (s : Sponge) (n : Nat) : Bytes :=
  (s.blocks ((n + s.rate - 1) / s.rate)).take n

/-- SHAKE128 on an input. -/
def shake128 (input : Bytes) : Sponge := Sponge.ofInput 168 input

/-- SHAKE256 on an input. -/
def shake256 (input : Bytes) : Sponge := Sponge.ofInput 136 input

end SynergyNode.Hashing.Keccak
