import SynergyNode.Node.Error

/-!
# The node

A node is a follower of its peers with a transport and a wallet; a validator also takes part in
rounds.  This file holds its state, how it starts, how it sends, and the three things it does by
the clock: announcing its height, spreading pending transactions and opening rounds.

What it does with messages is in `SynergyNode.Node.Handlers`.
-/

namespace SynergyNode

/-- A node. -/
structure Node extends Follower where
  settings : Settings
  codec : Codec
  transport : Transport
  oracle : OracleBook
  wallet : Wallet
  /-- How a validator takes part in rounds. -/
  proposer : Option ProposerSettings

namespace Node

/-- The peers. -/
abbrev registry (n : Node) : Registry := n.transport.registry

/-- The address under which peers see this node. -/
def myIp (n : Node) : PeerAddress := n.registry.myIp

/-- The node with other peers. -/
def setRegistry (n : Node) (r : Registry) : Node :=
  { n with transport := { n.transport with registry := r } }

/-- The node with other pools. -/
def setPools (n : Node) (p : Pools) : Node := { n with ledger := { n.ledger with pools := p } }

/-- What rounds read and change. -/
def round (n : Node) : Round := ⟨n.ledger, n.oracle⟩

/-- The node after a round. -/
def setRound (n : Node) (r : Round) : Node := { n with ledger := r.ledger, oracle := r.oracle }

/-- Bans by height are measured on the height of the chain. -/
def syncClock (n : Node) : Node := n.setRegistry (n.registry.setChainHeight n.ledger.height)

/-! ## 1. Starting -/

/-- Dials a peer on every service of peers. -/
def dial (n : Node) (around : Surroundings) (peer : PeerAddress) : Node :=
  Topic.peerServices.foldl (fun n topic =>
    { n with transport := (n.transport.connect around peer topic).2 }) n

/-- Takes a peer for a validator and dials it. -/
def meet (n : Node) (around : Surroundings) (peer : PeerAddress) : Node :=
  (n.setRegistry (n.registry.registerNode peer)).dial around peer

/-- The ledger of a node that starts on a store. -/
def openLedger (s : Settings) (store : Store) : Except NodeError Ledger :=
  match Accounts.ofGenesis s.consensus.genesisStakes with
  | .error e => .error (.accounts e)
  | .ok accounts =>
    match Ledger.openOn store accounts ChainStats.empty
        (Voting.empty s.consensus.votingHeightDistance) (Pools.empty s.pool)
        s.consensus.minStakingForNode with
    | .error e => .error (.ledger e)
    | .ok l => .ok l

/-- How a node takes part in rounds; one without a delegated account does not. -/
def proposerOf (s : Settings) : Except NodeError (Option ProposerSettings) :=
  if s.isValidator then
    match ProposerSettings.ofSettings s.consensus s.identity.delegatedAccount
        s.identity.rewardPercentage s.identity.chainId with
    | .error e => .error (.key e)
    | .ok p => .ok (some p)
  else .ok none

/-- Starts a node on a store and key files, and dials the peers it was given. -/
def start (s : Settings) (store : Store) (files : KeyFiles) (around : Surroundings) :
    Except NodeError Node := do
  let ledger ← openLedger s store
  let wallet ←
    match (Wallet.load around.freshKeys ledger.schemes files).1 with
    | .error e => throw (.wallet e)
    | .ok w => pure w
  let proposer ← proposerOf s
  let node : Node :=
    { toFollower := Follower.new ledger s.consensus.rollbackDistance
      settings := s
      codec := ⟨s.identity.chainId, s.network.maxMessageBytes⟩
      transport := Transport.new s.network ⟨s.identity.myIp⟩ Transport.standardQueueDepth
      oracle := OracleBook.empty
      wallet := wallet
      proposer := proposer }
  return s.identity.bootstrapPeers.foldl (fun n ip => n.meet around ⟨ip⟩) node.syncClock

/-! ## 2. Sending -/

/-- Sends a message to a peer; one that is too long is not sent. -/
def sendTo (n : Node) (topic : Topic) (receiver : PeerAddress) (m : Message) : Node :=
  match n.codec.encode m with
  | .error _ => n
  | .ok bytes => { n with transport := (n.transport.send topic receiver bytes).2 }

/-- Sends a message to all peers on a topic. -/
def broadcast (n : Node) (topic : Topic) (m : Message) : Node :=
  n.sendTo topic PeerAddress.wildcard m

/-- The message of some transactions, each under the key of its pool. -/
def transactionsMessage (c : Codec) (txs : List Transaction) : Message :=
  txs.foldl (fun m t => m.push t.body.kind.topic t.toBytes) (c.message .txGossip)

/-- Asks a peer for transactions. -/
def requestTransactions (n : Node) (receiver : PeerAddress) (opcode : Opcode)
    (hashes : List Hash) : Node :=
  n.sendTo Topic.transaction receiver
    ((n.codec.message opcode).put Topic.standardPool (hashes.map fun h => h.toList))

/-! ## 3. By the clock -/

/-- Announces height and tip to all peers, with one known validator. -/
def announceHeight (n : Node) (around : Surroundings) : Node :=
  let n := n.syncClock
  let peers := (around.choose? n.registry.nodes.toList).toList
  n.broadcast Topic.sync ((n.toFollower.announcement peers).toMessage n.codec)

/-- Spreads pending transactions, after dropping those that can no longer be taken. -/
def gossipPool (n : Node) : Node :=
  if n.ledger.syncing then n
  else
    let n := n.setPools (n.ledger.pools.pruneExpired n.ledger.height).2
    match n.ledger.pools.peek n.settings.consensus.maxTransactionsPerBlock
        (n.ledger.height + 1) with
    | [] => n
    | txs => n.broadcast Topic.transaction (transactionsMessage n.codec txs)

/-- A validator opens the next round: its nonce transaction goes to all peers and to itself. -/
def sendNonce [SignatureSuite] (n : Node) (around : Surroundings) : Node :=
  match n.proposer with
  | none => n
  | some s =>
    if n.ledger.syncing then n
    else
      let nonce := n.round.nonce s n.wallet around
      let m := (n.codec.message .nonce).put Topic.nonceTransaction [nonce.toBytes]
      (n.broadcast Topic.nonce m).sendTo Topic.selfNonce n.myIp m

end Node

end SynergyNode
