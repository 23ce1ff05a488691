import SynergyNode.Accounts
import SynergyNode.Peer.Registry
import SynergyNode.Pool

/-!
# Settings of a node

Who the node is, how it reaches others, the numbers of the chain it takes part in, and the
bounds of its pools, each with its default.
-/

namespace SynergyNode

/-- A scheme to vote for. -/
structure SchemeVote where
  /-- The name of the scheme. -/
  scheme : String
  paused : Bool
deriving DecidableEq

/-- Who the node is. -/
structure IdentitySettings where
  /-- The address under which peers see this node. -/
  myIp : Ipv4
  /-- Peers dialed at the start. -/
  bootstrapPeers : List Ipv4
  /-- The delegated account this node signs for; zero for none. -/
  delegatedAccount : UInt8
  /-- The operator's part of rewards, per mille. -/
  rewardPercentage : UInt16
  chainId : UInt16
deriving DecidableEq

/-- How the node reaches others. -/
structure NetworkSettings where
  listenHost : IpAddress
  /-- Ports by the two letters of their topic. -/
  ports : List (String × UInt16)
  maxMessageBytes : Nat
  trustBudget : Int32
  /-- With fewer peers than this, announced peers are dialed. -/
  maxPeersConnected : Nat
  dialRetries : UInt32
  dialBackoffMs : UInt64
  sendLockTimeoutMs : UInt64
  reconnectAttempts : UInt32
  banPolicy : BanPolicy
deriving DecidableEq

/-- The numbers of the chain, and what this node says in its rounds. -/
structure ConsensusSettings where
  rollbackDistance : UInt64
  signKeyChoice : SignKeyChoice
  maxTransactionsPerBlock : Nat
  votingHeightDistance : UInt64
  minStakingForNode : UInt64
  blockTimeIntervalSecs : UInt64
  genesisStakes : List GenesisStake
  votes : PerSlot (Option SchemeVote)
  priceSample : Int64
deriving DecidableEq

/-- All settings. -/
structure Settings where
  identity : IdentitySettings
  network : NetworkSettings
  consensus : ConsensusSettings
  pool : PoolLimits
deriving DecidableEq

/-! ## 1. Defaults -/

/-- A node on its own machine that signs for no account. -/
def IdentitySettings.standard : IdentitySettings where
  myIp := PeerAddress.loopback.bytes
  bootstrapPeers := []
  delegatedAccount := 0
  rewardPercentage := 0
  chainId := Protocol.defaultChainId

/-- Every address, and every service on its own port. -/
def NetworkSettings.standard : NetworkSettings where
  listenHost := .v4 PeerAddress.wildcard.bytes
  ports := Topic.services.filterMap fun t => t.defaultPort?.map fun p => (t.toText, p)
  maxMessageBytes := Protocol.maxMessageBytes
  trustBudget := Protocol.trustBudget
  maxPeersConnected := Protocol.maxPeersConnected
  dialRetries := Protocol.dialRetries
  dialBackoffMs := Protocol.dialBackoffMs
  sendLockTimeoutMs := Protocol.sendLockTimeoutMs
  reconnectAttempts := Protocol.reconnectAttempts
  banPolicy := BanPolicy.standard

/-- The numbers all nodes share. -/
def ConsensusSettings.standard : ConsensusSettings where
  rollbackDistance := Protocol.rollbackDistance
  signKeyChoice := .random
  maxTransactionsPerBlock := Protocol.maxTransactionsPerBlock
  votingHeightDistance := Protocol.votingHeightDistance
  minStakingForNode := Protocol.minStakingForNode
  blockTimeIntervalSecs := Protocol.blockTimeIntervalSecs
  genesisStakes := []
  votes := PerSlot.both none
  priceSample := 0

/-- The settings of a node that was given none. -/
def Settings.standard : Settings where
  identity := IdentitySettings.standard
  network := NetworkSettings.standard
  consensus := ConsensusSettings.standard
  pool := PoolLimits.standard

/-! ## 2. What follows from settings -/

/-- Whether the node proposes blocks. -/
def Settings.isValidator (s : Settings) : Bool := s.identity.delegatedAccount != 0

namespace NetworkSettings

/-- The port of a topic: the one set, or else the one of the service. -/
def port? (n : NetworkSettings) (t : Topic) : Option UInt16 :=
  match n.ports.find? fun p => p.1 == t.toText with
  | some p => some p.2
  | none => t.defaultPort?

/-- Where the node listens on a topic. -/
def listenAddress? (n : NetworkSettings) (t : Topic) : Option SocketAddress :=
  (n.port? t).map fun p => ⟨n.listenHost, 0, p⟩

end NetworkSettings

end SynergyNode
