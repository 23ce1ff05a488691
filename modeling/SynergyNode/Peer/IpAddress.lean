import SynergyNode.Bytes

/-!
# Internet addresses as text

Addresses of both versions, sockets, and their usual texts.

* Version 4: four decimal numbers below 256 without leading zeros.
* Version 6: eight groups of up to four hexadecimal digits, where one `::` stands for a run of
  zero groups, and the last two groups may be given as a version 4 address.  Written, the first
  longest run of at least two zero groups becomes `::`, and version 4 addresses inside version 6
  keep their dots.

A reader takes an address off the front of a list of characters; `IpAddress.ofText?` and
`SocketAddress.ofText?` demand that nothing is left.
-/

namespace SynergyNode

/-- An address of version 4, its bytes in order. -/
abbrev Ipv4 := FixedBytes 4

/-- An address of either version. -/
inductive IpAddress where
  | v4 (address : Ipv4)
  /-- Eight groups of sixteen bits. -/
  | v6 (groups : List UInt16)
deriving DecidableEq

/-- An address and a port; addresses of version 6 may name a zone. -/
structure SocketAddress where
  ip : IpAddress
  zone : Nat
  port : UInt16
deriving DecidableEq

namespace IpAddress

/-! ## 1. Reading -/

/-- A reader of something at the front of a text. -/
abbrev Reader (α : Type) := List Char → Option (α × List Char)

/-- The value of a digit in a base of at most sixteen. -/
def digit? (base : Nat) (c : Char) : Option Nat :=
  match Bytes.hexValue? c with
  | some v => if v < base then some v else none
  | none => none

/-- Reads all digits at the front onto a value; gives the value, the number of digits and the
rest. -/
def digits (base : Nat) : (value count : Nat) → List Char → Nat × Nat × List Char
  | value, count, [] => (value, count, [])
  | value, count, c :: rest =>
    match digit? base c with
    | some d => digits base (base * value + d) (count + 1) rest
    | none => (value, count, c :: rest)

/-- A number below a bound, of at most `maxDigits` digits if that is given. -/
def number (base bound : Nat) (maxDigits : Option Nat) (leadingZero : Bool) : Reader Nat :=
  fun s =>
    let (value, count, rest) := digits base 0 0 s
    if count = 0 ∨ bound ≤ value ∨ maxDigits.any (· < count) then none
    else if !leadingZero && s.head? == some '0' && 1 < count then none
    else some (value, rest)

/-- The given character. -/
def char (c : Char) : Reader Unit
  | d :: rest => if d = c then some ((), rest) else none
  | [] => none

/-- Something after a separator. -/
def after {α : Type} (c : Char) (r : Reader α) : Reader α := fun s =>
  match char c s with
  | some ((), rest) => r rest
  | none => none

/-- One part of a version 4 address. -/
def octet : Reader Nat := number 10 256 (some 3) false

/-- A version 4 address. -/
def readV4 : Reader Ipv4 := fun s =>
  match octet s with
  | none => none
  | some (a, s) =>
    match after '.' octet s with
    | none => none
    | some (b, s) =>
      match after '.' octet s with
      | none => none
      | some (c, s) =>
        match after '.' octet s with
        | none => none
        | some (d, s) =>
          some (⟨[UInt8.ofNat a, UInt8.ofNat b, UInt8.ofNat c, UInt8.ofNat d], rfl⟩, s)

/-- The two groups that a version 4 address fills. -/
def groupsOfV4 (a : Ipv4) : List UInt16 :=
  let b := a.toList.map fun (x : UInt8) => x.toUInt16
  [b.getD 0 0 * 256 + b.getD 1 0, b.getD 2 0 * 256 + b.getD 3 0]

/-- Something, after a colon unless it comes first. -/
def group {α : Type} (first : Bool) (r : Reader α) : Reader α :=
  if first then r else after ':' r

/-- Up to `n` groups, and whether they end with a version 4 address, which needs room for two. -/
def readGroups : (n : Nat) → (first : Bool) → List Char → List UInt16 × Bool × List Char
  | 0, _, s => ([], false, s)
  | n + 1, first, s =>
    match if 0 < n then group first readV4 s else none with
    | some (a, rest) => (groupsOfV4 a, true, rest)
    | none =>
      match group first (number 16 65536 (some 4) true) s with
      | none => ([], false, s)
      | some (v, rest) =>
        let (gs, endsInV4, rest) := readGroups n false rest
        (UInt16.ofNat v :: gs, endsInV4, rest)

/-- A version 6 address. -/
def readV6 : Reader (List UInt16) := fun s =>
  let (head, endsInV4, rest) := readGroups 8 true s
  if head.length = 8 then some (head, rest)
  else if endsInV4 then none
  else
    match after ':' (char ':') rest with
    | none => none
    | some ((), rest) =>
      let (tail, _, rest) := readGroups (7 - head.length) true rest
      some (head ++ List.replicate (8 - head.length - tail.length) 0 ++ tail, rest)

/-- The address a version 6 address stands for, if it is one of version 4. -/
def mapped? : List UInt16 → Option Ipv4
  | [0, 0, 0, 0, 0, 0xFFFF, a, b] =>
    some ⟨[UInt8.ofNat (a.toNat / 256), a.toUInt8, UInt8.ofNat (b.toNat / 256), b.toUInt8], rfl⟩
  | _ => none

/-- What is read, if nothing is left. -/
def whole {α : Type} (r : Reader α) (s : String) : Option α :=
  match r s.toList with
  | some (a, []) => some a
  | _ => none

/-- Reads a version 4 address. -/
def v4OfText? (s : String) : Option Ipv4 := whole readV4 s

/-- Reads an address of either version. -/
def ofText? (s : String) : Option IpAddress :=
  match whole readV4 s with
  | some a => some (.v4 a)
  | none => (whole readV6 s).map .v6

/-! ## 2. Writing -/

/-- The four numbers with dots between them. -/
def v4Text (a : Ipv4) : String :=
  String.intercalate "." (a.toList.map fun b => toString b.toNat)

/-- Groups with colons between them. -/
def groupsText (gs : List UInt16) : String :=
  String.intercalate ":" (gs.map fun g => String.ofList (Nat.toDigits 16 g.toNat))

/-- The length of the run of zeros at the front. -/
def zerosAhead (gs : List UInt16) : Nat := (gs.takeWhile (· == 0)).length

/-- Start and length of the first longest run of zeros; `i` is the place of the list's head. -/
def longestZeros : (i : Nat) → List UInt16 → Nat × Nat
  | _, [] => (0, 0)
  | i, g :: gs =>
    let here := zerosAhead (g :: gs)
    let later := longestZeros (i + 1) gs
    if later.2 ≤ here ∧ 0 < here then (i, here) else later

/-- The text of a version 6 address. -/
def v6Text (gs : List UInt16) : String :=
  match mapped? gs with
  | some a => "::ffff:" ++ v4Text a
  | none =>
    let (start, len) := longestZeros 0 gs
    if 1 < len then groupsText (gs.take start) ++ "::" ++ groupsText (gs.drop (start + len))
    else groupsText gs

/-- The text of an address. -/
def toText : IpAddress → String
  | v4 a => v4Text a
  | v6 gs => v6Text gs

end IpAddress

namespace SocketAddress

open IpAddress

/-- A port. -/
def readPort : Reader Nat := number 10 65536 none true

/-- The zone of a version 6 address, zero if none is given. -/
def readZone (s : List Char) : Nat × List Char :=
  match after '%' (number 10 4294967296 none true) s with
  | some p => p
  | none => (0, s)

/-- A socket of version 4. -/
def readV4Socket : Reader SocketAddress := fun s =>
  match readV4 s with
  | none => none
  | some (a, s) => (after ':' readPort s).map fun p => (⟨.v4 a, 0, UInt16.ofNat p.1⟩, p.2)

/-- A socket of version 6, the address in brackets. -/
def readV6Socket : Reader SocketAddress := fun s =>
  match after '[' readV6 s with
  | none => none
  | some (gs, s) =>
    let (zone, s) := readZone s
    (after ']' (after ':' readPort) s).map fun p => (⟨.v6 gs, zone, UInt16.ofNat p.1⟩, p.2)

/-- Reads a socket address. -/
def ofText? (s : String) : Option SocketAddress :=
  match whole readV4Socket s with
  | some a => some a
  | none => whole readV6Socket s

/-- The text of a socket address. -/
def toText (a : SocketAddress) : String :=
  match a.ip with
  | .v4 ip => v4Text ip ++ ":" ++ toString a.port
  | .v6 gs =>
    "[" ++ v6Text gs ++ (if a.zone = 0 then "" else "%" ++ toString a.zone) ++ "]:" ++
      toString a.port

end SocketAddress

end SynergyNode
