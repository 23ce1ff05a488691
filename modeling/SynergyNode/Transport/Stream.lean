import SynergyNode.Transport

/-!
# Streams of connections

What happens when a peer connects, when bytes arrive on a connection, and when it ends.  Frames
come in as messages; faults of the stream cost the peer trust; a peer that closes, or loses its
last point, is not read further.
-/

namespace SynergyNode.Transport

/-- A peer connects on a topic; a banned one is turned away. -/
def accept (t : Transport) (around : Surroundings) (route : Route) : Transport :=
  if t.registry.isBanned around.now route.peer route.topic then t
  else
    addLink { t with registry := (t.registry.registerValid route.peer).2 } route t.queueDepth none

/-- Takes a point of trust for a fault of the stream; says whether to read on. -/
def streamFault (t : Transport) (around : Surroundings) (peer : PeerAddress) :
    Bool × Transport :=
  let (outcome, registry) := t.registry.fault around.now peer
  (outcome != .exhausted, { t with registry := registry })

/-- Takes one event of a stream; says whether to read on. -/
def takeEvent (t : Transport) (around : Surroundings) (route : Route) :
    StreamEvent → Bool × Transport
  | .frame payload =>
    (true, { t with inbound := t.inbound ++ [⟨route.topic, route.peer, payload⟩] })
  | .oversized => t.streamFault around route.peer
  | .badMagic => t.streamFault around route.peer
  | .control .wait => (true, t)
  | .control _ => (false, t)

/-- Takes the events of a stream in order, as long as it is read. -/
def takeEvents (t : Transport) (around : Surroundings) (route : Route) :
    List StreamEvent → Bool × Transport
  | [] => (true, t)
  | e :: rest =>
    match t.takeEvent around route e with
    | (true, t) => t.takeEvents around route rest
    | (false, t) => (false, t)

/-- Tries to restore a dialed connection; when that fails, all connections of the peer are given
up. -/
def reconnect (t : Transport) (around : Surroundings) (route : Route) (address : SocketAddress) :
    (attempts : Nat) → Transport
  | 0 => { t with registry := (t.registry.closeAll route.peer).2 }
  | n + 1 =>
    if t.isShutdown || t.registry.isBanned around.now route.peer route.topic then t
    else if around.answers address then t.addLink route t.queueDepth (some address)
    else t.reconnect around route address n

/-- A connection is read no further.  One that this node dialed and that broke off is
restored. -/
def leave (t : Transport) (around : Surroundings) (link : Link) (brokeOff : Bool) : Transport :=
  let (current, registry) := t.registry.removeConnection link.route link.id
  let t := { t with registry := registry }
  match link.dialed with
  | some address =>
    if brokeOff && current && !t.isShutdown then
      t.reconnect around link.route address t.network.reconnectAttempts.toNat
    else t
  | none => t

/-- Bytes arrive on a link; a link that was told to close is not read. -/
def receive (t : Transport) (around : Surroundings) (n : Nat) (chunk : Bytes) : Transport :=
  match t.links[n]? with
  | none => t
  | some link =>
    if t.registry.closed.contains n then t
    else
      let (events, assembler) := link.assembler.push chunk
      let t := t.modifyLink n fun l => { l with assembler := assembler }
      match t.takeEvents around link.route events with
      | (true, t) => t
      | (false, t) => t.leave around link false

/-- The stream of a link ends. -/
def endOfStream (t : Transport) (around : Surroundings) (n : Nat) : Transport :=
  match t.links[n]? with
  | none => t
  | some link => if t.registry.closed.contains n then t else t.leave around link true

end SynergyNode.Transport
