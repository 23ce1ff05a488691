import SynergyNode.Node.Handlers
import SynergyNode.View.Error
import SynergyNode.View.Wire

/-!
# Views of a node

What is shown of settings, of a follower and of what became of messages.
-/

namespace SynergyNode

open View

/-! ## 1. Settings -/

instance : ToView SchemeVote := ⟨fun v => record [("scheme", v.scheme), ("paused", v.paused)]⟩

instance : ToView PoolLimits := ⟨fun p =>
  record [("max_transactions", p.maxTransactions), ("max_bytes", p.maxBytes)]⟩

instance : ToView GenesisStake := ⟨fun g =>
  record [("delegated_id", g.delegatedId), ("stake", g.stake), ("operators", g.operators),
    ("operator_balance", g.operatorBalance)]⟩

/-- Who the node is. -/
def IdentitySettings.fields (s : IdentitySettings) : Fields :=
  [("my_ip", PeerAddress.mk s.myIp), ("bootstrap_peers", s.bootstrapPeers.map PeerAddress.mk),
    ("delegated_account", s.delegatedAccount), ("reward_percentage", s.rewardPercentage),
    ("chain_id", s.chainId)]

/-- How the node reaches others, with the addresses it listens on. -/
def NetworkSettings.fields (s : NetworkSettings) : Fields :=
  [("listen_host", s.listenHost.toText),
    ("ports", record (s.ports.map fun p => (p.1, (p.2 : View)))),
    ("listen", Topic.services.map s.listenAddress?),
    ("max_message_bytes", s.maxMessageBytes), ("trust_budget", s.trustBudget),
    ("max_peers_connected", s.maxPeersConnected), ("dial_retries", s.dialRetries),
    ("dial_backoff_ms", s.dialBackoffMs), ("send_lock_timeout_ms", s.sendLockTimeoutMs),
    ("reconnect_attempts", s.reconnectAttempts), ("ban_policy", s.banPolicy.text)]

/-- The numbers of the chain. -/
def ConsensusSettings.fields (s : ConsensusSettings) : Fields :=
  [("rollback_distance", s.rollbackDistance), ("sign_key_choice", s.signKeyChoice.name),
    ("max_transactions_per_block", s.maxTransactionsPerBlock),
    ("voting_height_distance", s.votingHeightDistance),
    ("min_staking_for_node", s.minStakingForNode),
    ("block_time_interval_secs", s.blockTimeIntervalSecs), ("price_sample", s.priceSample),
    ("genesis_stakes", s.genesisStakes), ("primary_vote", s.votes.primary),
    ("secondary_vote", s.votes.secondary)]

/-- All settings. -/
def Settings.fields (s : Settings) : Fields :=
  s.identity.fields ++ s.network.fields ++ s.consensus.fields ++
    [("is_validator", (s.isValidator : View)), ("pool", s.pool)]

instance : ToView ProposerSettings := ⟨fun p =>
  record [("delegated_id", p.delegatedId), ("reward_percentage", p.rewardPercentage),
    ("chain_id", p.chainId), ("choice", p.signKeyChoice.name),
    ("max", p.maxTransactionsPerBlock), ("min_stake", p.minStakingForNode),
    ("price", p.priceSample), ("votes", p.votes.map hex)]⟩

/-! ## 2. Followers -/

/-- A live scheme and whether it is paused. -/
def Descriptor.status (d : Descriptor) : String :=
  if d.paused then d.name ++ " paused" else d.name

/-- Where a follower stands, but for the tip of its chain. -/
def Follower.fields (f : Follower) : Fields :=
  let l := f.ledger
  [("height", l.height), ("syncing", l.syncing), ("phase", f.phase.text),
    ("pools", l.pools.counts), ("schemes", l.schemes.map Descriptor.status),
    ("votes", Slot.all.map l.voting.voteCount), ("accounts", l.accounts.toBytes)]

/-- Where a node stands, but for the tip of its chain. -/
def Node.fields (n : Node) : Fields :=
  n.toFollower.fields ++
    [("clock", (n.registry.chainHeight : View)), ("wallet", n.wallet.keys.map Keypair.scheme)]

instance : ToView BatchOutcome := ⟨fun
  | .ignored reason => record [("ignored", reason.text)]
  | .forked fork rolledBackTo => record [("forked", (fork, rolledBackTo))]
  | .missingTransactions hashes => record [("missing", hashes)]
  | .committed reports => record [("committed", reports)]⟩

instance : ToView HandlerOutcome := ⟨fun
  | .handled => "handled"
  | .dropped reason => record [("dropped", reason)]⟩

end SynergyNode
