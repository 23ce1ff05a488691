import SynergyNode.Bytes
import SynergyNode.Toml.Value

/-!
# The words of TOML

Blanks, comments, strings of all four kinds, numbers, and dates and times.  A reader takes
something off the front of a text and gives the rest.
-/

namespace SynergyNode.Toml

/-- A reader of something at the front of a text. -/
abbrev Reader (α : Type) := List Char → Option (α × List Char)

/-! ## 1. Blanks and comments -/

/-- A space or a tab. -/
def isBlank (c : Char) : Bool := c == ' ' || c == '\t'

/-- A character that may stand in a comment or string. -/
def isPrinting (c : Char) : Bool := c == '\t' || (0x20 ≤ c.toNat && c.toNat != 0x7F)

/-- The text after the blanks at its front. -/
def skipBlanks (s : List Char) : List Char := s.dropWhile isBlank

/-- The text after a line break. -/
def lineBreak? : List Char → Option (List Char)
  | '\n' :: r => some r
  | '\r' :: '\n' :: r => some r
  | _ => none

/-- The text after a comment, if there is one. -/
def skipComment : List Char → List Char
  | '#' :: r => r.dropWhile isPrinting
  | s => s

/-- The text after the end of a line, where only blanks and a comment are left. -/
def endOfLine? (s : List Char) : Option (List Char) :=
  match skipComment (skipBlanks s) with
  | [] => some []
  | r => lineBreak? r

/-- The text after blanks and line breaks. -/
def skipBlankLines : List Char → List Char
  | '\r' :: '\n' :: r => skipBlankLines r
  | c :: r => if isBlank c || c == '\n' then skipBlankLines r else c :: r
  | [] => []

/-- The text after blanks, line breaks and comments; `fuel` bounds the comments. -/
def skipSpace : (fuel : Nat) → List Char → List Char
  | 0, s => s
  | fuel + 1, s =>
    match skipBlankLines s with
    | '#' :: r => skipSpace fuel (skipComment ('#' :: r))
    | r => r

/-! ## 2. Strings -/

/-- The character whose number is written in hexadecimal digits. -/
def numberedChar? (digits : List Char) : Option Char := do
  let n ← digits.foldlM (fun n c => (Bytes.hexValue? c).map (16 * n + ·)) 0
  if n.isValidChar then some (Char.ofNat n) else none

/-- The character that an escape of one letter stands for. -/
def escaped? : Char → Option Char
  | 'b' => some '\x08'
  | 't' => some '\t'
  | 'n' => some '\n'
  | 'f' => some '\x0c'
  | 'r' => some '\r'
  | '"' => some '"'
  | '\\' => some '\\'
  | _ => none

/-- The character after a backslash. -/
def escape : Reader Char
  | 'u' :: a :: b :: c :: d :: r => (numberedChar? [a, b, c, d]).map (·, r)
  | 'U' :: a :: b :: c :: d :: e :: f :: g :: h :: r =>
    (numberedChar? [a, b, c, d, e, f, g, h]).map (·, r)
  | c :: r => (escaped? c).map (·, r)
  | [] => none

/-- The rest of a string in double quotes, onto the reversed characters so far. -/
def basicRest : (fuel : Nat) → (acc : List Char) → Reader String
  | 0, _, _ => none
  | fuel + 1, acc, s =>
    match s with
    | '"' :: r => some (String.ofList acc.reverse, r)
    | '\\' :: r =>
      match escape r with
      | some (c, r) => basicRest fuel (c :: acc) r
      | none => none
    | c :: r => if isPrinting c then basicRest fuel (c :: acc) r else none
    | [] => none

/-- The rest of a string in single quotes. -/
def literalRest (acc : List Char) : Reader String
  | '\'' :: r => some (String.ofList acc.reverse, r)
  | c :: r => if isPrinting c then literalRest (c :: acc) r else none
  | [] => none

/-- The text after a backslash at the end of a line and the blank space that follows. -/
def joinedLine? (s : List Char) : Option (List Char) :=
  (lineBreak? (skipBlanks s)).map skipBlankLines

/-- The rest of a string of several lines.  `quote` is the character that closes it threefold,
up to two more of it belong to the text; only double quotes allow escapes. -/
def linesRest (quote : Char) : (fuel : Nat) → (acc : List Char) → Reader String
  | 0, _, _ => none
  | fuel + 1, acc, s =>
    let quotes := (s.takeWhile (· == quote)).length
    if 3 ≤ quotes then
      let kept := min quotes 5 - 3
      some (String.ofList (acc.reverse ++ List.replicate kept quote), s.drop (kept + 3))
    else
      match s with
      | '\r' :: '\n' :: r => linesRest quote fuel ('\n' :: acc) r
      | '\n' :: r => linesRest quote fuel ('\n' :: acc) r
      | c :: r =>
        if c = '\\' ∧ quote = '"' then
          match joinedLine? r with
          | some r => linesRest quote fuel acc r
          | none =>
            match escape r with
            | some (c, r) => linesRest quote fuel (c :: acc) r
            | none => none
        else if isPrinting c then linesRest quote fuel (c :: acc) r
        else none
      | [] => none

/-- A string of several lines after its opening quotes; a line break right after them does not
count. -/
def linesBody (quote : Char) (s : List Char) : Option (String × List Char) :=
  linesRest quote (s.length + 1) [] ((lineBreak? s).getD s)

/-- A string on one line. -/
def lineString : Reader String
  | '"' :: r => basicRest (r.length + 1) [] r
  | '\'' :: r => literalRest [] r
  | _ => none

/-- A string of any kind. -/
def string : Reader String
  | '"' :: '"' :: '"' :: r => linesBody '"' r
  | '\'' :: '\'' :: '\'' :: r => linesBody '\'' r
  | s => lineString s

/-! ## 3. Numbers -/

/-- The digits that follow, single underscores between them left out. -/
def digitsRest (isDigit : Char → Bool) (acc : List Char) : Reader (List Char)
  | '_' :: c :: r => if isDigit c then digitsRest isDigit (c :: acc) r else none
  | ['_'] => none
  | c :: r => if isDigit c then digitsRest isDigit (c :: acc) r else some (acc.reverse, c :: r)
  | [] => some (acc.reverse, [])

/-- At least one digit. -/
def digits (isDigit : Char → Bool) : Reader (List Char)
  | c :: r => if isDigit c then digitsRest isDigit [c] r else none
  | [] => none

/-- Whether a character is a digit in a base of at most sixteen. -/
def isDigitIn (base : Nat) (c : Char) : Bool := (Bytes.hexValue? c).any (· < base)

/-- The number that digits denote. -/
def valueIn (base : Nat) (ds : List Char) : Nat :=
  ds.foldl (fun n c => base * n + (Bytes.hexValue? c).getD 0) 0

/-- The sign at the front of a text, and the rest. -/
def sign : List Char → Bool × List Char
  | '-' :: r => (true, r)
  | '+' :: r => (false, r)
  | s => (false, s)

/-- Decimal digits; a zero at the front stands alone. -/
def decimalDigits : Reader (List Char)
  | '0' :: r => some (['0'], r)
  | s => digits Char.isDigit s

/-- The integer, if it has 64 bits. -/
def int64? (n : Int) : Option Value :=
  if -9223372036854775808 ≤ n ∧ n ≤ 9223372036854775807 then some (.int n) else none

/-- A whole number in a base, after its mark. -/
def basedInt (base : Nat) : Reader Value := fun s => do
  let (ds, r) ← digits (isDigitIn base) s
  return (← int64? (valueIn base ds), r)

/-- The digits of an exponent with their sign. -/
def exponent : Reader (Bool × Nat) := fun s => do
  let (negative, r) := sign s
  let (ds, r) ← digits Char.isDigit r
  return ((negative, valueIn 10 ds), r)

/-- The least number that rounds to infinity as a float. -/
def floatLimit : Nat := 1 <<< 1024 - 1 <<< 970

/-- Whether `mantissa * 10 ^ shift` is too large for a float. -/
def isTooLarge (mantissa : Nat) (shift : Int) : Bool :=
  if mantissa = 0 then false
  else if 0 ≤ shift then
    decide (400 ≤ shift) || decide (floatLimit ≤ mantissa * Nat.pow 10 shift.toNat)
  else decide (floatLimit * Nat.pow 10 (min (-shift).toNat (mantissa.log2 + 1)) ≤ mantissa)

/-- A float with given decimal digits, unless it is positive and too large. -/
def float? (negative : Bool) (mantissa places : Nat) (exp : Bool × Nat) : Option Value :=
  let shift : Int := (if exp.1 then -(exp.2 : Int) else exp.2) - places
  if !negative && isTooLarge mantissa shift then none else some .float

/-- What follows the whole part of a number. -/
def numberRest (negative : Bool) (whole : List Char) : Reader Value
  | '.' :: r => do
    let (frac, r) ← digits Char.isDigit r
    let mantissa := valueIn 10 (whole ++ frac)
    match r with
    | 'e' :: r' | 'E' :: r' =>
      let (exp, r) ← exponent r'
      return (← float? negative mantissa frac.length exp, r)
    | r => return (← float? negative mantissa frac.length (false, 0), r)
  | 'e' :: r | 'E' :: r => do
    let (exp, r) ← exponent r
    return (← float? negative (valueIn 10 whole) 0 exp, r)
  | r => do
    let n : Int := valueIn 10 whole
    return (← int64? (if negative then -n else n), r)

/-- A number. -/
def number (s : List Char) : Option (Value × List Char) :=
  match s with
  | '0' :: 'x' :: r => basedInt 16 r
  | '0' :: 'o' :: r => basedInt 8 r
  | '0' :: 'b' :: r => basedInt 2 r
  | s =>
    let (negative, r) := sign s
    match r with
    | 'i' :: 'n' :: 'f' :: r => some (.float, r)
    | 'n' :: 'a' :: 'n' :: r => some (.float, r)
    | r => do
      let (whole, r) ← decimalDigits r
      numberRest negative whole r

/-! ## 4. Dates and times -/

/-- A number of exactly `n` decimal digits. -/
def exactDigits (n : Nat) : Reader Nat := fun s =>
  let ds := s.take n
  if ds.length = n ∧ ds.all Char.isDigit then some (valueIn 10 ds, s.drop n) else none

/-- A number of two digits within bounds. -/
def pair (lo hi : Nat) : Reader Nat := fun s => do
  let (n, r) ← exactDigits 2 s
  if lo ≤ n ∧ n ≤ hi then some (n, r) else none

/-- The text after a character. -/
def mark? (c : Char) : List Char → Option (List Char)
  | d :: r => if d = c then some r else none
  | [] => none

/-- The number of days of a month. -/
def daysIn (year month : Nat) : Nat :=
  if month = 2 then
    if year % 4 = 0 ∧ (year % 100 ≠ 0 ∨ year % 400 = 0) then 29 else 28
  else if month = 4 ∨ month = 6 ∨ month = 9 ∨ month = 11 then 30
  else 31

/-- The text after a date. -/
def date? (s : List Char) : Option (List Char) := do
  let (year, r) ← exactDigits 4 s
  let r ← mark? '-' r
  let (month, r) ← pair 1 12 r
  let r ← mark? '-' r
  let (_, r) ← pair 1 (daysIn year month) r
  return r

/-- The text after a time. -/
def time? (s : List Char) : Option (List Char) := do
  let (_, r) ← pair 0 23 s
  let r ← mark? ':' r
  let (_, r) ← pair 0 59 r
  let r ← mark? ':' r
  let (_, r) ← pair 0 60 r
  match r with
  | '.' :: f => if (f.takeWhile Char.isDigit).isEmpty then none else some (f.dropWhile Char.isDigit)
  | r => some r

/-- The text after the offset of a time, if there is one. -/
def offset? : List Char → Option (List Char)
  | 'Z' :: r => some r
  | 'z' :: r => some r
  | '+' :: r | '-' :: r => do
    let (_, r) ← pair 0 23 r
    let r ← mark? ':' r
    let (_, r) ← pair 0 59 r
    return r
  | r => some r

/-- A date, a time, or a date with a time. -/
def moment : Reader Value := fun s =>
  match date? s with
  | none => (time? s).map (.moment, ·)
  | some r =>
    let timed :=
      match r with
      | 'T' :: t | 't' :: t | ' ' :: t => time? t
      | _ => none
    match timed with
    | none => some (.moment, r)
    | some r => (offset? r).map (.moment, ·)

end SynergyNode.Toml
