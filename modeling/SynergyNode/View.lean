import SynergyNode.Bytes

/-!
# Views

What is shown of a value: a tree with named fields, which can be printed in any notation for
trees.  Byte strings stay what they are, so that whoever prints them may shorten long ones.

Types get their view through `ToView`; where a view is wanted, a value stands for its own.
-/

namespace SynergyNode

/-- What is shown of a value. -/
inductive View where
  | null
  | bool (value : Bool)
  | int (value : Int)
  | text (value : String)
  | bytes (value : Bytes)
  | list (items : List View)
  | record (fields : List (String × View))

/-- Types whose values can be shown. -/
class ToView (α : Type) where
  view : α → View

export ToView (view)

instance {α : Type} [ToView α] (a : α) : CoeT α a View := ⟨view a⟩

namespace View

/-- The fields of a record. -/
abbrev Fields := List (String × View)

/-- A record of the fields of two. -/
def both (a b : Fields) : View := record (a ++ b)

/-- The hexadecimal digits of a byte string of any length. -/
def hex (b : Bytes) : View := text b.toHex

end View

/-! ## 1. Simple values -/

instance : ToView View := ⟨id⟩

/-- That something is done is shown as the truth. -/
instance : ToView Unit := ⟨fun _ => .bool true⟩

instance : ToView Bool := ⟨.bool⟩
instance : ToView Int := ⟨.int⟩
instance : ToView Nat := ⟨fun n => .int n⟩
instance : ToView UInt8 := ⟨fun n => .int n.toNat⟩
instance : ToView UInt16 := ⟨fun n => .int n.toNat⟩
instance : ToView UInt32 := ⟨fun n => .int n.toNat⟩
instance : ToView UInt64 := ⟨fun n => .int n.toNat⟩
instance : ToView Int32 := ⟨fun n => .int n.toInt⟩
instance : ToView Int64 := ⟨fun n => .int n.toInt⟩
instance : ToView String := ⟨.text⟩

/-! ## 2. Collections -/

variable {α β : Type} [ToView α] [ToView β]

instance : ToView (Option α) := ⟨fun a => a.elim .null view⟩
instance : ToView (List α) := ⟨fun l => .list (l.map view)⟩
instance : ToView (α × β) := ⟨fun p => .list [view p.1, view p.2]⟩
instance (priority := high) : ToView Bytes := ⟨.bytes⟩
instance {n : Nat} : ToView (FixedBytes n) := ⟨fun b => .bytes b.toList⟩

end SynergyNode
