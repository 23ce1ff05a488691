/-!
# TOML values

The value tree of a TOML document.  Tables remember how they came about, because that decides
whether later lines may add to them (`Table.change?`).
-/

namespace SynergyNode.Toml

/-- How a table came about. -/
inductive TableKind where
  /-- By a header of its own. -/
  | header
  /-- As a step in the header of a deeper table. -/
  | implied
  /-- As a step in a dotted key. -/
  | dotted
  /-- In braces. -/
  | inline
deriving DecidableEq

/-- A value. -/
inductive Value where
  | str (text : String)
  | int (n : Int)
  /-- A number with a fraction or an exponent. -/
  | float
  | bool (b : Bool)
  /-- A date, a time or both. -/
  | moment
  /-- A list in brackets. -/
  | array (items : List Value)
  /-- The tables that headers with doubled brackets add up to. -/
  | tables (items : List (List (String × Value)))
  | table (kind : TableKind) (entries : List (String × Value))

/-- The entries of a table. -/
abbrev Entries := List (String × Value)

namespace Entries

/-- The value under a key. -/
def get? (es : Entries) (key : String) : Option Value :=
  (es.find? fun e => e.1 == key).map Prod.snd

/-- The entries with the value under a key replaced or added. -/
def put (es : Entries) (key : String) (v : Value) : Entries :=
  if es.any fun e => e.1 == key then es.map fun e => if e.1 == key then (key, v) else e
  else es ++ [(key, v)]

end Entries

namespace Table

/-- Whether a path may lead through a table: a header's path through all but those in braces, a
dotted key only through tables that have no header of their own. -/
def admits (through kind : TableKind) : Bool :=
  match through, kind with
  | .dotted, .implied => true
  | .dotted, .dotted => true
  | .dotted, _ => false
  | _, .inline => false
  | _, _ => true

/-- Changes the table at the end of a path from a given table, making the tables on the way;
of a list of tables the last is meant. -/
def change? (through : TableKind) (change : TableKind → Entries → Option Entries) :
    (path : List String) → TableKind → Entries → Option Entries
  | [], kind, es => change kind es
  | key :: path, _, es =>
    match es.get? key with
    | none =>
      (change? through change path through []).map fun sub => es.put key (.table through sub)
    | some (.table kind sub) =>
      if admits through kind then
        (change? through change path kind sub).map fun sub => es.put key (.table kind sub)
      else none
    | some (.tables items) =>
      match items.getLast? with
      | none => none
      | some last =>
        (change? through change path .header last).map fun last =>
          es.put key (.tables (items.dropLast ++ [last]))
    | some _ => none

/-- Adds a value under a dotted key.  The last step must be new, and the steps before it must
not lead into a table that has another origin. -/
def insert? (path : List String) (key : String) (v : Value) (kind : TableKind) (es : Entries) :
    Option Entries :=
  change? .dotted (fun last es =>
    if (last == .dotted) == path.isEmpty then none
    else if (es.get? key).isSome then none
    else some (es.put key v)) path kind es

/-- Opens the table of a header. -/
def open? (path : List String) (key : String) (root : Entries) : Option Entries :=
  change? .implied (fun _ es =>
    match es.get? key with
    | none => some (es.put key (.table .header []))
    | some (.table .implied sub) => some (es.put key (.table .header sub))
    | some _ => none) path .header root

/-- Adds a table to the list of tables of a header. -/
def append? (path : List String) (key : String) (root : Entries) : Option Entries :=
  change? .implied (fun _ es =>
    match es.get? key with
    | none => some (es.put key (.tables [[]]))
    | some (.tables items) => some (es.put key (.tables (items ++ [[]])))
    | some _ => none) path .header root

end Table

end SynergyNode.Toml
