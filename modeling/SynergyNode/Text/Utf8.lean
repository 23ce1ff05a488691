import SynergyNode.Bytes

/-!
# UTF-8 text in byte strings

`encode` writes a string as UTF-8.  `decode?` reads well-formed UTF-8 and refuses anything
else.  `decodeLossy` reads any bytes: each maximal piece that begins like a character but is
not one becomes a single replacement character.

Both readers rest on `step`, which looks at the front of the bytes: it gives the character
there, or says how many bytes make up the malformed piece.
-/

namespace SynergyNode.Text.Utf8

/-- The UTF-8 bytes of a string. -/
def encode (s : String) : Bytes :=
  s.toUTF8.toList

/-- A continuation byte within the given bounds. -/
def within (lo hi b : UInt8) : Bool :=
  decide (lo ≤ b ∧ b ≤ hi)

/-- The six low bits of a continuation byte. -/
def low6 (b : UInt8) : Nat :=
  b.toNat % 64

/-- The bounds on the second byte that rule out overlong forms, surrogates and code points
past the last. -/
def secondBounds (lead : UInt8) : UInt8 × UInt8 :=
  if lead = 0xE0 then (0xA0, 0xBF)
  else if lead = 0xED then (0x80, 0x9F)
  else if lead = 0xF0 then (0x90, 0xBF)
  else if lead = 0xF4 then (0x80, 0x8F)
  else (0x80, 0xBF)

/-- What stands at the front of a byte string. -/
inductive Front where
  /-- A character and the bytes after it. -/
  | char (c : Char) (rest : Bytes)
  /-- A malformed piece and the bytes after it. -/
  | malformed (rest : Bytes)
  /-- Nothing. -/
  | done

/-- Reads the character at the front, or the maximal malformed piece. -/
def step : Bytes → Front
  | [] => .done
  | a :: r =>
    if a < 0x80 then .char (Char.ofNat a.toNat) r
    else if within 0xC2 0xDF a then
      match r with
      | b :: r' =>
        if within 0x80 0xBF b then .char (Char.ofNat (a.toNat % 32 * 64 + low6 b)) r'
        else .malformed r
      | [] => .malformed r
    else if within 0xE0 0xEF a then
      match r with
      | b :: r' =>
        if within (secondBounds a).1 (secondBounds a).2 b then
          match r' with
          | c :: r'' =>
            if within 0x80 0xBF c then
              .char (Char.ofNat (a.toNat % 16 * 4096 + low6 b * 64 + low6 c)) r''
            else .malformed r'
          | [] => .malformed r'
        else .malformed r
      | [] => .malformed r
    else if within 0xF0 0xF4 a then
      match r with
      | b :: r' =>
        if within (secondBounds a).1 (secondBounds a).2 b then
          match r' with
          | c :: r'' =>
            if within 0x80 0xBF c then
              match r'' with
              | d :: r''' =>
                if within 0x80 0xBF d then
                  .char (Char.ofNat
                    (a.toNat % 8 * 262144 + low6 b * 4096 + low6 c * 64 + low6 d)) r'''
                else .malformed r''
              | [] => .malformed r''
            else .malformed r'
          | [] => .malformed r'
        else .malformed r
      | [] => .malformed r
    else .malformed r

/-- Every step but the last takes at least one byte; `fuel` counts bytes. -/
def charsLossy : (fuel : Nat) → Bytes → List Char
  | 0, _ => []
  | fuel + 1, b =>
    match step b with
    | .char c rest => c :: charsLossy fuel rest
    | .malformed rest => '\uFFFD' :: charsLossy fuel rest
    | .done => []

/-- The text of any bytes, a replacement character standing for each malformed piece. -/
def decodeLossy (b : Bytes) : String :=
  String.ofList (charsLossy b.length b)

/-- Reads onto the reversed characters read so far. -/
def charsStrict (acc : List Char) : (fuel : Nat) → Bytes → Option (List Char)
  | 0, _ => some acc.reverse
  | fuel + 1, b =>
    match step b with
    | .char c rest => charsStrict (c :: acc) fuel rest
    | .malformed _ => none
    | .done => some acc.reverse

/-- The text of well-formed UTF-8. -/
def decode? (b : Bytes) : Option String :=
  (charsStrict [] b.length b).map String.ofList

end SynergyNode.Text.Utf8
