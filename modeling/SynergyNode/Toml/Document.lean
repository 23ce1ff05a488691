import SynergyNode.Toml.Scalar

/-!
# TOML documents

Keys, lists and tables in braces, and the lines of a document.  A document is read to the tree
of its values, or not at all.
-/

namespace SynergyNode.Toml

/-- The deepest nesting that is read. -/
def maxDepth : Nat := 80

/-! ## 1. Keys -/

/-- A character of a key without quotes. -/
def isKeyChar (c : Char) : Bool := c.isAlphanum || c == '-' || c == '_'

/-- One step of a key. -/
def simpleKey (s : List Char) : Option (String × List Char) :=
  match s with
  | '"' :: _ => lineString s
  | '\'' :: _ => lineString s
  | s =>
    let k := s.takeWhile isKeyChar
    if k.isEmpty then none else some (String.ofList k, s.dropWhile isKeyChar)

/-- The steps of a key, onto the reversed ones so far; `fuel` bounds their number. -/
def keySteps : (fuel : Nat) → (acc : List String) → Reader (List String)
  | 0, _, _ => none
  | fuel + 1, acc, s => do
    let (k, r) ← simpleKey (skipBlanks s)
    match skipBlanks r with
    | '.' :: r => keySteps fuel (k :: acc) r
    | r => return ((k :: acc).reverse, r)

/-- A key: the path to its table, and the last step. -/
def key : Reader (List String × String) := fun s => do
  let (steps, r) ← keySteps maxDepth [] s
  if maxDepth ≤ steps.length then none
  else return ((steps.dropLast, ← steps.getLast?), r)

/-! ## 2. Values -/

/-- A value that needs no other. -/
def scalar (s : List Char) : Option (Value × List Char) :=
  match s with
  | 't' :: 'r' :: 'u' :: 'e' :: r => some (.bool true, r)
  | 'f' :: 'a' :: 'l' :: 's' :: 'e' :: r => some (.bool false, r)
  | '"' :: _ | '\'' :: _ => (string s).map fun p => (.str p.1, p.2)
  | s => moment s <|> number s

mutual

/-- A value at a depth of nesting; `fuel` bounds the calls. -/
def value : (fuel depth : Nat) → Reader Value
  | 0, _, _ => none
  | fuel + 1, depth, s =>
    match s with
    | '[' :: r =>
      if maxDepth ≤ depth + 1 then none
      else
        match skipSpace r.length r with
        | ']' :: r => some (.array [], r)
        | r => items fuel (depth + 1) [] r
    | '{' :: r =>
      if maxDepth ≤ depth + 1 then none
      else
        match skipBlanks r with
        | '}' :: r => some (.table .inline [], r)
        | r => pairs fuel (depth + 1) [] r
    | s => scalar s

/-- The items of a list from one item on, onto the reversed ones so far. -/
def items : (fuel depth : Nat) → (acc : List Value) → Reader Value
  | 0, _, _, _ => none
  | fuel + 1, depth, acc, s =>
    match value fuel depth s with
    | none => none
    | some (v, r) =>
      match skipSpace r.length r with
      | ']' :: r => some (.array (v :: acc).reverse, r)
      | ',' :: r =>
        match skipSpace r.length r with
        | ']' :: r => some (.array (v :: acc).reverse, r)
        | r => items fuel depth (v :: acc) r
      | _ => none

/-- The pairs of a table in braces from one pair on, into the entries so far. -/
def pairs : (fuel depth : Nat) → Entries → Reader Value
  | 0, _, _, _ => none
  | fuel + 1, depth, es, s =>
    match key s with
    | some ((path, last), '=' :: r) =>
      match value fuel depth (skipBlanks r) with
      | none => none
      | some (v, r) =>
        match Table.insert? path last v .inline es with
        | none => none
        | some es =>
          match skipBlanks r with
          | '}' :: r => some (.table .inline es, r)
          | ',' :: r => pairs fuel depth es r
          | _ => none
    | _ => none

end

/-! ## 3. Lines -/

/-- What has been read: the tree, and the path of the header that is in force. -/
structure Draft where
  root : Entries
  header : List String

/-- A line that gives a key a value. -/
def pairLine (d : Draft) (s : List Char) : Option (Draft × List Char) :=
  match key s with
  | some ((path, last), '=' :: r) => do
    let r := skipBlanks r
    let (v, r) ← value (r.length + 1) 0 r
    let root ← Table.change? .implied (Table.insert? path last v) d.header .header d.root
    return ({ d with root := root }, ← endOfLine? r)
  | _ => none

/-- A line with the header of a table, after its first bracket. -/
def tableLine (d : Draft) (s : List Char) : Option (Draft × List Char) :=
  match key s with
  | some ((path, last), ']' :: r) => do
    let root ← Table.open? path last d.root
    return (⟨root, path ++ [last]⟩, ← endOfLine? r)
  | _ => none

/-- A line with the header of one of several tables, after its first two brackets. -/
def tablesLine (d : Draft) (s : List Char) : Option (Draft × List Char) :=
  match key s with
  | some ((path, last), ']' :: ']' :: r) => do
    let root ← Table.append? path last d.root
    return (⟨root, path ++ [last]⟩, ← endOfLine? r)
  | _ => none

/-- One line of a document. -/
def line (d : Draft) (s : List Char) : Option (Draft × List Char) :=
  match s with
  | '[' :: '[' :: r => tablesLine d r
  | '[' :: r => tableLine d r
  | '#' :: _ | '\n' :: _ | '\r' :: _ => (endOfLine? s).map (d, ·)
  | s => pairLine d s

/-- The lines of a document; `fuel` bounds their number. -/
def lines : (fuel : Nat) → Draft → List Char → Option Entries
  | 0, _, _ => none
  | fuel + 1, d, s =>
    match skipBlanks s with
    | [] => some d.root
    | s =>
      match line d s with
      | some (d, r) => lines fuel d r
      | none => none

/-- The tree of a document; a byte order mark at its front is passed over. -/
def parse? (text : String) : Option Entries :=
  let s := text.toList
  let s := if s.head? = some '\ufeff' then s.drop 1 else s
  lines (s.length + 1) ⟨[], []⟩ s

end SynergyNode.Toml
