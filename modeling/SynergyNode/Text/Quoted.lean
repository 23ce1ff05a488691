import SynergyNode.Text.Escaped

/-!
# Quoted text

A text that an error message repeats is put between quotation marks, with a backslash before
marks and backslashes, short names for the usual controls, and the code point in place of
every character that would not be seen (`Text.isEscaped`).
-/

namespace SynergyNode.Text.Quoted

/-- The digits of a code point in lowercase hexadecimal, no leading zeros. -/
def codePoint (c : Char) : List Char :=
  Nat.toDigits 16 c.toNat

/-- One character as it stands between the quotation marks. -/
def encodeChar (c : Char) : List Char :=
  if c = '\x00' then ['\\', '0']
  else if c = '\t' then ['\\', 't']
  else if c = '\r' then ['\\', 'r']
  else if c = '\n' then ['\\', 'n']
  else if c = '\\' then ['\\', '\\']
  else if c = '"' then ['\\', '"']
  else if isEscaped c then ['\\', 'u', '\x7b'] ++ codePoint c ++ ['\x7d']
  else [c]

/-- The quoted form of a text. -/
def encode (s : String) : String :=
  String.ofList ('"' :: (s.toList.flatMap encodeChar ++ ['"']))

end SynergyNode.Text.Quoted
