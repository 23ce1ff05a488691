import SynergyNode.Peer.Address
import SynergyNode.Protocol
import SynergyNode.Words

/-!
# The peer registry

Trust, bans and connections of all peers.

* A peer gets a trust budget at the first valid contact.  Faults cost a point; at zero the peer
  is banned everywhere.  The node itself and the wildcard are exempt from faults and bans.
* A ban lasts until a point on a clock: of seconds, or of the chain's height.  Every new ban
  clears those that have run out.
* On a topic a peer has at most one connection.  A connection that is replaced or removed is
  told to close; `Registry.closed` holds all that were.
-/

namespace SynergyNode

/-- How long a ban lasts. -/
inductive BanPolicy where
  /-- Seconds on the clock. -/
  | wallClock (seconds : UInt64)
  /-- Blocks of the chain. -/
  | height (blocks : UInt64)
deriving DecidableEq

/-- A ban of an hour. -/
def BanPolicy.standard : BanPolicy := .wallClock Protocol.banDurationSecs

/-- A point in time by both clocks. -/
structure ChainClock where
  height : UInt64
  timestamp : UInt64
deriving DecidableEq

namespace BanPolicy

/-- The clock that counts. -/
def reading : BanPolicy → ChainClock → UInt64
  | wallClock _, c => c.timestamp
  | height _, c => c.height

/-- The length of a ban on that clock. -/
def duration : BanPolicy → UInt64
  | wallClock n => n
  | height n => n

/-- When a ban made now runs out. -/
def expiry (p : BanPolicy) (now : ChainClock) : UInt64 :=
  Word64.saturatingAdd (p.reading now) p.duration

/-- A policy as it is shown, with the name of its clock. -/
def text : BanPolicy → String
  | wallClock n => "WallClock \x7b seconds: " ++ toString n ++ " \x7d"
  | height n => "Height \x7b blocks: " ++ toString n ++ " \x7d"

/-- Whether a ban that runs out at `expiry` is still in force. -/
def isActive (p : BanPolicy) (now : ChainClock) (expiry : UInt64) : Bool :=
  decide (p.reading now < expiry)

end BanPolicy

/-- What a fault did to a peer's trust. -/
inductive TrustOutcome where
  /-- Nothing happens to the node itself and the wildcard. -/
  | exempt
  /-- The peer has no trust to lose. -/
  | unknown
  | remaining (trust : Int32)
  /-- The peer lost its last point. -/
  | exhausted
deriving DecidableEq

/-- An outcome as it is shown. -/
def TrustOutcome.text : TrustOutcome → String
  | .exempt => "Exempt"
  | .unknown => "Unknown"
  | .remaining trust => "Remaining(" ++ toString trust ++ ")"
  | .exhausted => "Exhausted"

/-- One connection: `id` tells it from one that replaces it, `link` is what it writes to. -/
structure Connection where
  id : UInt64
  link : Nat
  /-- Whether this node dialed. -/
  initiated : Bool
deriving DecidableEq

/-- All that is known of peers. -/
structure Registry where
  myIp : PeerAddress
  budget : Int32
  policy : BanPolicy
  /-- The height that bans by height are measured on. -/
  chainHeight : UInt64
  trust : Std.ExtTreeMap PeerAddress Int32
  /-- The confirmed validators. -/
  nodes : Std.ExtTreeSet PeerAddress
  /-- When bans on every topic run out. -/
  bansEverywhere : Std.ExtTreeMap PeerAddress UInt64
  /-- When bans on one topic run out. -/
  bansOnTopic : Std.ExtTreeMap Route UInt64
  connections : Std.ExtTreeMap Route Connection
  /-- The links that were told to close. -/
  closed : Std.ExtTreeSet Nat

namespace Registry

/-- A registry without peers. -/
def empty (myIp : PeerAddress) (budget : Int32) (policy : BanPolicy) : Registry :=
  { myIp := myIp, budget := budget, policy := policy, chainHeight := 0, trust := ∅, nodes := ∅
    bansEverywhere := ∅, bansOnTopic := ∅, connections := ∅, closed := ∅ }

/-- Whether an address cannot lose trust or be banned. -/
def isExempt (r : Registry) (a : PeerAddress) : Bool :=
  a == r.myIp || a == PeerAddress.wildcard

/-- The time, given the seconds on the clock. -/
def clock (r : Registry) (timestamp : UInt64) : ChainClock := ⟨r.chainHeight, timestamp⟩

/-- Sets the height that bans by height are measured on. -/
def setChainHeight (r : Registry) (height : UInt64) : Registry :=
  { r with chainHeight := height }

/-! ## 1. Trust -/

/-- Gives a peer the trust budget at the first contact; gives its trust. -/
def registerValid (r : Registry) (a : PeerAddress) : Int32 × Registry :=
  match r.trust[a]? with
  | some t => (t, r)
  | none => (r.budget, { r with trust := r.trust.insert a r.budget })

/-- Marks a confirmed validator. -/
def registerNode (r : Registry) (a : PeerAddress) : Registry :=
  { r with nodes := r.nodes.insert a }

/-- Gives back a point of trust, up to the budget. -/
def reward (r : Registry) (a : PeerAddress) : Registry :=
  match r.trust[a]? with
  | some t => { r with trust := r.trust.insert a (min (t + 1) r.budget) }
  | none => r

/-- Takes a point of trust; a peer without trust left is forgotten. -/
def reduceTrust (r : Registry) (a : PeerAddress) : TrustOutcome × Registry :=
  if r.isExempt a then (.exempt, r)
  else
    match r.trust[a]? with
    | none => (.unknown, r)
    | some t =>
      if 0 < t - 1 then (.remaining (t - 1), { r with trust := r.trust.insert a (t - 1) })
      else (.exhausted, { r with trust := r.trust.erase a, nodes := r.nodes.erase a })

/-- The trust of a peer. -/
def trustOf? (r : Registry) (a : PeerAddress) : Option Int32 := r.trust[a]?

/-- Whether a peer is a confirmed validator. -/
def isNode (r : Registry) (a : PeerAddress) : Bool := r.nodes.contains a

/-! ## 2. Connections -/

/-- Enters a connection; one that it replaces is told to close. -/
def addConnection (r : Registry) (route : Route) (c : Connection) : Registry :=
  let closed :=
    match r.connections[route]? with
    | some old => r.closed.insert old.link
    | none => r.closed
  { r with connections := r.connections.insert route c, closed := closed }

/-- Removes the connections that satisfy a condition and tells them to close. -/
def closeWhere (r : Registry) (p : Route → Bool) : Registry :=
  let gone := r.connections.filter fun route _ => p route
  { r with
    connections := r.connections.filter fun route _ => !p route
    closed := gone.toList.foldl (fun s e => s.insert e.2.link) r.closed }

/-- Removes a connection if it is still the one with the given id; says whether it was. -/
def removeConnection (r : Registry) (route : Route) (id : UInt64) : Bool × Registry :=
  match r.connections[route]? with
  | some c => if c.id = id then (true, r.closeWhere (· == route)) else (false, r)
  | none => (false, r)

/-- Closes all connections of a peer; gives their number. -/
def closeAll (r : Registry) (a : PeerAddress) : Nat × Registry :=
  ((r.connections.filter fun route _ => route.peer == a).size,
    r.closeWhere fun route => route.peer == a)

/-- Whether a peer is connected on a topic. -/
def hasConnection (r : Registry) (route : Route) : Bool := r.connections.contains route

/-- The peers connected on a topic, in order. -/
def connected (r : Registry) (topic : Topic) : List PeerAddress :=
  (r.connections.toList.filter fun e => e.1.topic == topic).map fun e => e.1.peer

/-- The number of peers with a connection, the node itself not counted. -/
def peerCount (r : Registry) : Nat :=
  (r.connections.toList.foldl (fun (s : Std.ExtTreeSet PeerAddress) e =>
    if e.1.peer = r.myIp then s else s.insert e.1.peer) ∅).size

/-- The connections on a topic that a message to `receiver` goes to.  The wildcard reaches every
peer that has trust left. -/
def sendTargets (r : Registry) (topic : Topic) (receiver : PeerAddress) :
    List (PeerAddress × Connection) :=
  if receiver = PeerAddress.wildcard then
    (r.connections.toList.filter fun e =>
      e.1.topic == topic && e.1.peer != r.myIp && (r.trust[e.1.peer]?).any (0 < ·)).map
        fun e => (e.1.peer, e.2)
  else
    match r.connections[(⟨topic, receiver⟩ : Route)]? with
    | some c => [(receiver, c)]
    | none => []

/-! ## 3. Bans -/

/-- Bans a peer on a topic, or on all; the peer loses its trust and the connections concerned.
Says whether the peer was banned. -/
def ban (r : Registry) (now : UInt64) (a : PeerAddress) (topic : Option Topic) :
    Bool × Registry :=
  if r.isExempt a then (false, r)
  else
    let clock := r.clock now
    let everywhere := r.bansEverywhere.filter fun _ e => r.policy.isActive clock e
    let onTopic := r.bansOnTopic.filter fun _ e => r.policy.isActive clock e
    let expiry := r.policy.expiry clock
    let r := { r with trust := r.trust.erase a, nodes := r.nodes.erase a }
    match topic with
    | none =>
      (true, closeWhere
        { r with bansEverywhere := everywhere.insert a expiry, bansOnTopic := onTopic }
        fun route => route.peer == a)
    | some t =>
      (true, closeWhere
        { r with bansEverywhere := everywhere, bansOnTopic := onTopic.insert ⟨t, a⟩ expiry }
        fun route => route == ⟨t, a⟩)

/-- Whether a peer is banned on a topic at a point in time. -/
def isBannedAt (r : Registry) (a : PeerAddress) (topic : Topic) (clock : ChainClock) : Bool :=
  !r.isExempt a &&
    ((r.bansEverywhere[a]?).any (r.policy.isActive clock) ||
      (r.bansOnTopic[(⟨topic, a⟩ : Route)]?).any (r.policy.isActive clock))

/-- Whether a peer is banned on a topic now. -/
def isBanned (r : Registry) (now : UInt64) (a : PeerAddress) (topic : Topic) : Bool :=
  r.isBannedAt a topic (r.clock now)

/-- Takes a point of trust, and bans the peer everywhere when it was the last. -/
def fault (r : Registry) (now : UInt64) (a : PeerAddress) : TrustOutcome × Registry :=
  match r.reduceTrust a with
  | (.exhausted, r) => (.exhausted, (r.ban now a none).2)
  | p => p

end Registry

end SynergyNode
