import SynergyNode.Peer.IpAddress
import SynergyNode.Wire.Topic

/-!
# Peers

A peer is known by its four-byte network address.  A `Route` is a peer on one topic: what a
connection belongs to, and what a ban may be limited to.
-/

namespace SynergyNode

/-- The network address of a peer. -/
structure PeerAddress where
  bytes : Ipv4
deriving DecidableEq

namespace PeerAddress

/-- Peers are ordered by their bytes. -/
instance : Ord PeerAddress := ⟨fun a b => compare a.bytes b.bytes⟩

theorem compare_def (a b : PeerAddress) : compare a b = compare a.bytes b.bytes := rfl

instance : Std.TransOrd PeerAddress where
  eq_swap {a b} := by rw [compare_def, compare_def]; exact Std.OrientedCmp.eq_swap
  isLE_trans {a b c} h₁ h₂ := by
    rw [compare_def] at *; exact Std.TransCmp.isLE_trans h₁ h₂

instance : Std.LawfulEqOrd PeerAddress where
  compare_self {a} := by rw [compare_def]; exact Std.ReflCmp.compare_self
  eq_of_compare {a b} h := by
    rw [compare_def] at h
    cases a; cases b; simp_all

/-- The address that stands for every connected peer but the node itself. -/
def wildcard : PeerAddress := ⟨FixedBytes.zero 4⟩

/-- The node's own machine. -/
def loopback : PeerAddress := ⟨⟨[127, 0, 0, 1], rfl⟩⟩

instance : Inhabited PeerAddress := ⟨wildcard⟩

/-- The four numbers with dots between them. -/
def toText (a : PeerAddress) : String := IpAddress.v4Text a.bytes

/-- Reads an address. -/
def ofText? (s : String) : Option PeerAddress := (IpAddress.v4OfText? s).map PeerAddress.mk

/-- The peer behind an address, if it has an address of version 4. -/
def ofIp? : IpAddress → Option PeerAddress
  | .v4 a => some ⟨a⟩
  | .v6 gs => (IpAddress.mapped? gs).map PeerAddress.mk

end PeerAddress

/-- A peer on a topic. -/
structure Route where
  topic : Topic
  peer : PeerAddress
deriving DecidableEq

namespace Route

/-- The bytes of topic and peer. -/
def toBytes (r : Route) : Bytes := r.topic.toBytes ++ r.peer.bytes.toList

theorem toBytes_injective {r s : Route} (h : r.toBytes = s.toBytes) : r = s := by
  rcases r with ⟨⟨a, b⟩, ⟨p⟩⟩
  rcases s with ⟨⟨c, d⟩, ⟨q⟩⟩
  simp only [toBytes, Topic.toBytes, List.cons_append, List.nil_append, List.cons.injEq] at h
  obtain ⟨rfl, rfl, h⟩ := h
  rw [FixedBytes.ext h]

/-- Routes are ordered by topic, then peer. -/
instance : Ord Route := ⟨fun a b => compare a.toBytes b.toBytes⟩

theorem compare_def (a b : Route) : compare a b = compare a.toBytes b.toBytes := rfl

instance : Std.TransOrd Route where
  eq_swap {a b} := by rw [compare_def, compare_def]; exact Std.OrientedCmp.eq_swap
  isLE_trans {a b c} h₁ h₂ := by
    rw [compare_def] at *; exact Std.TransCmp.isLE_trans h₁ h₂

instance : Std.LawfulEqOrd Route where
  compare_self {a} := by rw [compare_def]; exact Std.ReflCmp.compare_self
  eq_of_compare {a b} h := by
    rw [compare_def] at h
    exact toBytes_injective (Std.LawfulEqCmp.eq_of_compare h)

end Route

end SynergyNode
