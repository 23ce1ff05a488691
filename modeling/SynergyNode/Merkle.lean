import SynergyNode.Hash
import SynergyNode.Format

/-!
# Merkle trees

A block commits to its transactions by the root of a binary tree over their hashes.  The leaves
are padded with zero hashes to a power of two; an inner node is the hash of its two children.

`Tree.proof?` is the path from a leaf to the root, and `foldPath` recomputes the root from a
leaf and a path.
-/

namespace SynergyNode.Merkle

/-- The node above two others. -/
def join (l r : Hash) : Hash :=
  Hash.ofDomain "okura.merkle.node" (l.toList ++ r.toList)

/-- The nodes above a level of the tree. -/
def joinLevel : List Hash → List Hash
  | l :: r :: rest => join l r :: joinLevel rest
  | _ => []

/-- The least power of two not below `n`, starting from `p`; `fuel` bounds the doublings. -/
def powerFrom : (fuel : Nat) → (p n : Nat) → Nat
  | 0, p, _ => p
  | fuel + 1, p, n => if n ≤ p then p else powerFrom fuel (2 * p) n

/-- The number of leaves after padding. -/
def paddedCount (n : Nat) : Nat := powerFrom n 1 n

/-- The leaves padded with zero hashes. -/
def padded (leaves : List Hash) : List Hash :=
  leaves ++ List.replicate (paddedCount leaves.length - leaves.length) Hash.zero

/-- A level and all above it, up to the single root; `fuel` bounds their number. -/
def levels : (fuel : Nat) → List Hash → List (List Hash)
  | 0, level => [level]
  | fuel + 1, level =>
    if level.length ≤ 1 then [level] else level :: levels fuel (joinLevel level)

/-- A tree over the transaction hashes of the block at a height. -/
structure Tree where
  height : UInt64
  leaves : List Hash
deriving DecidableEq

/-- One step of a path: the sibling, and whether it is the left one. -/
structure Step where
  hash : Hash
  isLeft : Bool
deriving DecidableEq

namespace Tree

/-- All levels of a tree, the padded leaves first. -/
def levels (t : Tree) : List (List Hash) :=
  Merkle.levels t.leaves.length (padded t.leaves)

/-- The root: the zero hash of an empty tree, the leaf of a tree with one. -/
def root (t : Tree) : Hash :=
  match t.leaves with
  | [] => Hash.zero
  | _ => ((t.levels.getLastD []).headD Hash.zero)

/-- Whether a hash is one of the leaves. -/
def contains (t : Tree) (leaf : Hash) : Bool :=
  t.leaves.any (· == leaf)

/-- The siblings met on the way up from a place in the lowest of the given levels, the last of
which is the root's. -/
def siblings : (index : Nat) → List (List Hash) → List Step
  | i, level :: above :: rest =>
    ⟨level.getD (i ^^^ 1) Hash.zero, i % 2 == 1⟩ :: siblings (i / 2) (above :: rest)
  | _, _ => []

/-- The path of the leaf with a given index. -/
def proof? (t : Tree) (index : Nat) : Option (List Step) :=
  if index < t.leaves.length then some (siblings index t.levels) else none

/-- The stored form of a tree: its height and leaves. -/
def format : Format Tree :=
  Format.imap (Format.both Format.u64 (Format.list (Format.fixed 32)))
    (fun p => ⟨p.1, p.2⟩) (fun t => (t.height, t.leaves))

/-- The bytes under which a tree is stored. -/
def toBytes (t : Tree) : Bytes := format.write t

/-- Reads a stored tree. -/
def ofBytes? (b : Bytes) : Option Tree := format.decode? b

end Tree

/-- The root that a leaf and a path lead to. -/
def foldPath (leaf : Hash) (path : List Step) : Hash :=
  path.foldl (fun h s => if s.isLeft then join s.hash h else join h s.hash) leaf

/-- Whether a leaf and a path lead to a root. -/
def verifyPath (leaf : Hash) (path : List Step) (root : Hash) : Bool :=
  foldPath leaf path == root

end SynergyNode.Merkle
