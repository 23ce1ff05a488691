import SynergyNode.Round.NonceData
import SynergyNode.Transport
import SynergyNode.Sync.Messages
import SynergyNode.View.Chain

/-!
# Views of what is on the wire

What is shown of peers, messages and the events of a stream.
-/

namespace SynergyNode

open View

instance : ToView Topic := ⟨fun t => t.toText⟩
instance : ToView PeerAddress := ⟨fun p => p.toText⟩
instance : ToView SocketAddress := ⟨fun a => a.toText⟩
instance : ToView TrustOutcome := ⟨fun o => o.text⟩
instance : ToView Inbound := ⟨fun m => list [m.topic, m.sender, m.bytes]⟩

/-- Everything about a topic. -/
def Topic.details (t : Topic) : View :=
  record [("display", t), ("port", t.defaultPort?), ("bytes", t.toBytes),
    ("all", Topic.services.contains t), ("service", Topic.peerServices.contains t)]

/-- Everything about an opcode. -/
def Opcode.details (op : Opcode) : View :=
  record [("name", op.name), ("display", op.text), ("carries", op.carriesTransactions)]

/-- Everything about an address of a peer. -/
def PeerAddress.details (p : PeerAddress) : View :=
  record [("display", p), ("bytes", p.bytes), ("wildcard", p == PeerAddress.wildcard)]

/-! ## 1. Messages -/

instance : ToView Message := ⟨fun m =>
  record [("head", m.head.text), ("chain_id", m.chainId),
    ("entries", m.entries.map fun e => record [("key", e.1), ("blobs", e.2)])]⟩

instance : ToView CheckedMessage := ⟨fun v =>
  record [("message", v.message),
    ("transactions", v.transactions.toList.map fun e =>
      record [("key", e.1), ("txs", e.2.map Transaction.hash)]),
    ("dropped", v.dropped)]⟩

/-- How many blobs a message has under each key. -/
def Message.outline (m : Message) : View :=
  record [("head", m.head.text), ("chain_id", m.chainId),
    ("keys", m.entries.map fun e => (e.1, e.2.length))]

instance : ToView HeightAnnouncement := ⟨fun a =>
  record [("height", a.height), ("last_hash", a.lastHash), ("peers", a.peers)]⟩

instance : ToView HeaderRequest := ⟨fun r => record [("begin", r.first), ("end", r.last)]⟩

instance : ToView NonceData := ⟨fun n =>
  record [("last_height", n.lastHeight), ("last_hash", n.lastHash), ("price", n.price),
    ("rand", n.rand), ("votes", n.votes)]⟩

/-! ## 2. Streams -/

instance : ToView StreamEvent := ⟨fun
  | .frame payload => record [("frame", payload)]
  | .control token => record [("control", token.name)]
  | .oversized => "oversized"
  | .badMagic => "bad_magic"⟩

end SynergyNode
