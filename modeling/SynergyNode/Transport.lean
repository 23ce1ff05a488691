import SynergyNode.Settings
import SynergyNode.Surroundings
import SynergyNode.Wire.Frame

/-!
# Transport

The node's connections as data: what is on its way out (`outbox`), what waits on each connection
(`Link.queue`), and what has come in (`inbound`).

Sending puts a message into the outbox; `Transport.settle` hands what is there to the
connections it is meant for.  A connection whose queue is full loses the message, and one whose
far end takes nothing any more is removed.  What a node sends to itself comes straight in.
-/

namespace SynergyNode

/-- Why the transport refuses. -/
inductive TransportError where
  | connectionFailed
  | banned (peer : PeerAddress)
  | noPort (topic : Topic)
  | unsupportedAddress (address : SocketAddress)
  /-- The far end takes nothing any more. -/
  | sendFailed
  | shutdown
deriving DecidableEq

/-- The text of an error. -/
def TransportError.message : TransportError → String
  | .connectionFailed => "connection failed"
  | .banned peer => "peer " ++ peer.toText ++ " is banned"
  | .noPort topic => "no port configured for topic " ++ topic.toText
  | .unsupportedAddress address => "unsupported address " ++ address.toText
  | .sendFailed => "send failed: channel closed"
  | .shutdown => "shutdown"

/-- The cause of an error under a fixed name, followed by that of the error it wraps. -/
def TransportError.code : TransportError → String
  | .connectionFailed => "ConnectionFailed"
  | .banned _ => "Banned"
  | .noPort _ => "NoPort"
  | .unsupportedAddress _ => "UnsupportedAddress"
  | .sendFailed => "SendFailed"
  | .shutdown => "Shutdown"

/-- The far end of a connection. -/
structure Link where
  route : Route
  /-- The connection it was made for. -/
  id : UInt64
  capacity : Nat
  /-- What waits to be written, the oldest first. -/
  queue : List Bytes
  /-- Whether the far end still takes anything. -/
  isOpen : Bool
  /-- The address that was dialed, if this node dialed. -/
  dialed : Option SocketAddress
  /-- The bytes received so far. -/
  assembler : Assembler

/-- A message that came in. -/
structure Inbound where
  topic : Topic
  sender : PeerAddress
  bytes : Bytes
deriving DecidableEq

/-- A message on its way out. -/
structure Outbound where
  topic : Topic
  receiver : PeerAddress
  bytes : Bytes
deriving DecidableEq

/-- The node's connections and what is under way. -/
structure Transport where
  network : NetworkSettings
  /-- What waits on a connection at most. -/
  queueDepth : Nat
  registry : Registry
  links : Std.ExtTreeMap Nat Link
  nextLink : Nat
  outbox : List Outbound
  inbound : List Inbound
  /-- Messages that were given up because a queue was full. -/
  abandoned : Nat
  isShutdown : Bool

namespace Transport

/-- What waits on a connection at most, unless set up otherwise. -/
def standardQueueDepth : Nat := 128

/-- A transport without connections. -/
def new (network : NetworkSettings) (myIp : PeerAddress) (queueDepth : Nat) : Transport :=
  { network := network
    queueDepth := queueDepth
    registry := Registry.empty myIp network.trustBudget network.banPolicy
    links := ∅
    nextLink := 0
    outbox := []
    inbound := []
    abandoned := 0
    isShutdown := false }

/-! ## 1. Links -/

/-- Enters a connection on a route. -/
def addLink (t : Transport) (route : Route) (capacity : Nat) (dialed : Option SocketAddress) :
    Transport :=
  let n := t.nextLink
  let id := UInt64.ofNat (n + 1)
  { t with
    registry := t.registry.addConnection route ⟨id, n, dialed.isSome⟩
    links := t.links.insert n
      ⟨route, id, capacity, [], true, dialed, Assembler.new t.network.maxMessageBytes⟩
    nextLink := n + 1 }

/-- Changes a link. -/
def modifyLink (t : Transport) (n : Nat) (f : Link → Link) : Transport :=
  match t.links[n]? with
  | some link => { t with links := t.links.insert n (f link) }
  | none => t

/-- Takes what waits on a link. -/
def drain (t : Transport) (n : Nat) : List Bytes × Transport :=
  (((t.links[n]?).map Link.queue).getD [], t.modifyLink n fun l => { l with queue := [] })

/-- Takes what waits on all links. -/
def drainAll (t : Transport) : List (Route × Bytes) × Transport :=
  t.links.toList.foldl (fun (taken, t) (n, link) =>
    (taken ++ link.queue.map fun b => (link.route, b), (t.drain n).2)) ([], t)

/-- The far end of a link takes nothing any more. -/
def closeLink (t : Transport) (n : Nat) : Transport :=
  t.modifyLink n fun l => { l with isOpen := false, queue := [] }

/-! ## 2. Sending -/

/-- Hands a message to one connection, unless it was told to close. -/
def push (t : Transport) (topic : Topic) (bytes : Bytes) (target : PeerAddress × Connection) :
    Transport :=
  let (peer, c) := target
  if t.registry.closed.contains c.link then t
  else
    match t.links[c.link]? with
    | none => t
    | some link =>
      if !link.isOpen then
        { t with registry := (t.registry.removeConnection ⟨topic, peer⟩ c.id).2 }
      else if link.capacity ≤ link.queue.length then { t with abandoned := t.abandoned + 1 }
      else t.modifyLink c.link fun l => { l with queue := l.queue ++ [bytes] }

/-- Hands a message to every connection it is meant for. -/
def deliver (t : Transport) (o : Outbound) : Transport :=
  (t.registry.sendTargets o.topic o.receiver).foldl
    (fun t target => t.push o.topic o.bytes target) t

/-- Hands over everything that is on its way out. -/
def settle (t : Transport) : Transport := t.outbox.foldl deliver { t with outbox := [] }

/-- Sends a message to a peer, or to all through the wildcard. -/
def send (t : Transport) (topic : Topic) (receiver : PeerAddress) (bytes : Bytes) :
    Except TransportError Unit × Transport :=
  if receiver = t.registry.myIp then
    (.ok (), { t with inbound := t.inbound ++ [⟨topic, receiver, bytes⟩] })
  else if topic ∉ Topic.services then (.error (.noPort topic), t)
  else if t.isShutdown then (.error .shutdown, t)
  else (.ok (), { t with outbox := t.outbox ++ [⟨topic, receiver, bytes⟩] })

/-- Writes a token to connections one after the other, until one takes nothing any more. -/
def pushControl (t : Transport) (token : ControlToken) :
    List (PeerAddress × Connection) → Except TransportError Unit × Transport
  | [] => (.ok (), t)
  | (_, c) :: rest =>
    if (t.links[c.link]?).any Link.isOpen then
      (t.modifyLink c.link fun l => { l with queue := l.queue ++ [token.toBytes] }).pushControl
        token rest
    else (.error .sendFailed, t)

/-- Sends a token to a peer, or to all through the wildcard, past the outbox. -/
def sendControl (t : Transport) (topic : Topic) (receiver : PeerAddress) (token : ControlToken) :
    Except TransportError Unit × Transport :=
  t.pushControl token (t.registry.sendTargets topic receiver)

/-! ## 3. Connecting -/

/-- Dials an address up to `n` times.  Each failure costs the peer trust, and the last point of
it ends the attempts. -/
def dial (t : Transport) (around : Surroundings) (route : Route) (address : SocketAddress) :
    (n : Nat) → Except TransportError Unit × Transport
  | 0 => (.error .connectionFailed, t)
  | n + 1 =>
    if t.isShutdown then (.error .shutdown, t)
    else if around.answers address then
      (.ok (), t.addLink route t.queueDepth (some address))
    else
      let (outcome, registry) := t.registry.fault around.now route.peer
      let t := { t with registry := registry }
      if outcome = .exhausted then (.error (.banned route.peer), t)
      else t.dial around route address n

/-- Connects to an address on a topic, unless the peer is banned or connected there. -/
def connectTo (t : Transport) (around : Surroundings) (topic : Topic) (address : SocketAddress) :
    Except TransportError Unit × Transport :=
  match PeerAddress.ofIp? address.ip with
  | none => (.error (.unsupportedAddress address), t)
  | some peer =>
    if t.registry.isBanned around.now peer topic then (.error (.banned peer), t)
    else if t.registry.hasConnection ⟨topic, peer⟩ then (.ok (), t)
    else
      dial { t with registry := (t.registry.registerValid peer).2 } around ⟨topic, peer⟩ address
        (max t.network.dialRetries.toNat 1)

/-- Connects to a peer on the port of a topic. -/
def connect (t : Transport) (around : Surroundings) (peer : PeerAddress) (topic : Topic) :
    Except TransportError Unit × Transport :=
  match t.network.port? topic with
  | none => (.error (.noPort topic), t)
  | some port => t.connectTo around topic ⟨.v4 peer.bytes, 0, port⟩

/-- The address to listen on for a topic. -/
def listen (t : Transport) (topic : Topic) : Except TransportError SocketAddress :=
  match t.network.listenAddress? topic with
  | none => .error (.noPort topic)
  | some address => .ok address

/-- Ends all sending. -/
def stop (t : Transport) : Transport := { t with isShutdown := true, outbox := [] }

end Transport

end SynergyNode
