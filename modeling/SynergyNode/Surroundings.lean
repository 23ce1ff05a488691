import SynergyNode.Peer.IpAddress
import SynergyNode.Wallet

/-!
# Surroundings

What a node takes from outside and does not decide: the clock, chance, fresh keys, and whether
an address answers when it is dialed.  Everything else the node does follows from its state and
the messages it receives.
-/

namespace SynergyNode

/-- What a node takes from outside. -/
structure Surroundings where
  /-- Seconds on the clock. -/
  now : UInt64
  /-- A random number. -/
  rand : Int64
  /-- A random slot. -/
  coin : Slot
  /-- A random number for choosing among things. -/
  draw : Nat
  freshKeys : KeySource
  /-- Whether an address answers. -/
  answers : SocketAddress → Bool

/-- One of the given things at random, if there are any. -/
def Surroundings.choose? {α : Type} (around : Surroundings) (l : List α) : Option α :=
  l[around.draw % l.length]?

end SynergyNode
