import SynergyNode.Settings
import SynergyNode.Toml.Document

/-!
# Reading settings

Settings are written as a TOML document with the tables `node`, `network`, `consensus` and
`pool`.  What is missing keeps its default and unknown entries are passed over, but one entry
with a value of the wrong kind or range makes the whole document void.

A group of entries may also be written as a list of its values in order.
-/

namespace SynergyNode.Settings

open Toml

/-- A reading of a value. -/
abbrev Reading (α : Type) := Value → Option α

/-- The entries of a group. -/
inductive Group where
  /-- By name. -/
  | named (entries : Entries)
  /-- In the order of the group's names. -/
  | listed (items : List Value)

/-! ## 1. Simple values -/

/-- A whole number within bounds. -/
def intWithin {α : Type} (lo hi : Int) (of : Int → α) : Reading α
  | .int n => if lo ≤ n ∧ n ≤ hi then some (of n) else none
  | _ => none

/-- An unsigned number of 8 bits. -/
def u8 : Reading UInt8 := intWithin 0 255 fun n => UInt8.ofNat n.toNat
/-- An unsigned number of 16 bits. -/
def u16 : Reading UInt16 := intWithin 0 65535 fun n => UInt16.ofNat n.toNat
/-- An unsigned number of 32 bits. -/
def u32 : Reading UInt32 := intWithin 0 4294967295 fun n => UInt32.ofNat n.toNat
/-- An unsigned number of 64 bits, as far as a document can hold it. -/
def u64 : Reading UInt64 := intWithin 0 9223372036854775807 fun n => UInt64.ofNat n.toNat
/-- A number of things. -/
def count : Reading Nat := intWithin 0 9223372036854775807 Int.toNat
/-- A signed number of 32 bits. -/
def i32 : Reading Int32 := intWithin (-2147483648) 2147483647 Int32.ofInt
/-- A signed number of 64 bits. -/
def i64 : Reading Int64 := intWithin (-9223372036854775808) 9223372036854775807 Int64.ofInt

/-- A text. -/
def text : Reading String
  | .str s => some s
  | _ => none

/-- A truth value. -/
def truth : Reading Bool
  | .bool b => some b
  | _ => none

/-- An address of version 4. -/
def ipv4 : Reading Ipv4 := fun v => (text v).bind IpAddress.v4OfText?

/-- An address of either version. -/
def ip : Reading IpAddress := fun v => (text v).bind IpAddress.ofText?

/-- The items of a list. -/
def items? : Value → Option (List Value)
  | .array vs => some vs
  | .tables ts => some (ts.map (.table .header))
  | _ => none

/-- A list. -/
def list {α : Type} (r : Reading α) : Reading (List α) := fun v =>
  (items? v).bind fun vs => vs.mapM r

/-! ## 2. Groups -/

/-- The entries of a group; a date is a group without any. -/
def group : Reading Group
  | .table _ es => some (.named es)
  | .moment => some (.named [])
  | v => (items? v).map .listed

/-- The entry of a group with a name and a place. -/
def Group.get? (g : Group) (name : String) (place : Nat) : Option Value :=
  match g with
  | .named es => es.get? name
  | .listed vs => vs[place]?

/-- An entry, or its default. -/
def Group.field {α : Type} (g : Group) (name : String) (place : Nat) (r : Reading α)
    (default : α) : Option α :=
  match g.get? name place with
  | none => some default
  | some v => r v

/-- An entry that must be there. -/
def Group.required {α : Type} (g : Group) (name : String) (place : Nat) (r : Reading α) :
    Option α :=
  (g.get? name place).bind r

/-- Whether a value says no more than that it is there. -/
def isUnit : Value → Bool
  | .table _ es => es.isEmpty
  | v => (items? v).any List.isEmpty

/-- A word, alone or as the one name of a group that says no more. -/
def word : Reading String
  | .str s => some s
  | .table _ [(name, v)] => if isUnit v then some name else none
  | _ => none

/-- Which key to sign with. -/
def signKeyChoice : Reading SignKeyChoice := fun v =>
  match word v with
  | some "random" => some .random
  | some "prefer_primary" => some .preferPrimary
  | some "prefer_secondary" => some .preferSecondary
  | _ => none

/-- A ban policy of a kind, with its length. -/
def banPolicyOf (kind : String) (length : String → Option UInt64) : Option BanPolicy :=
  match kind with
  | "wall_clock" => (length "seconds").map .wallClock
  | "height" => (length "blocks").map .height
  | _ => none

/-- A ban policy: its kind and its length, by name or as a list of just these two. -/
def banPolicy : Reading BanPolicy := fun v =>
  match group v with
  | some (.named es) =>
    ((es.get? "kind").bind text).bind fun kind =>
      banPolicyOf kind fun name => (es.get? name).bind u64
  | some (.listed [kind, n]) => (text kind).bind fun kind => banPolicyOf kind fun _ => u64 n
  | _ => none

/-- Ports by topic. -/
def ports : Reading (List (String × UInt16))
  | .table _ es => es.mapM fun e => (u16 e.2).map fun p => (e.1, p)
  | _ => none

/-- A stake at the start of the chain. -/
def genesisStake : Reading GenesisStake := fun v => do
  let g ← group v
  return {
    delegatedId := ← g.required "delegated_id" 0 u8
    stake := ← g.required "stake" 1 u64
    operators := ← g.field "operators" 2 (list text) []
    operatorBalance := ← g.field "operator_balance" 3 u64 0 }

/-- A vote. -/
def schemeVote : Reading SchemeVote := fun v => do
  let g ← group v
  return {
    scheme := ← g.required "scheme" 0 text
    paused := ← g.field "paused" 1 truth false }

/-! ## 3. The tables of the document -/

/-- The table `node`.  Its place for data is not a setting but follows from where it is read. -/
def identityTable : Reading IdentitySettings := fun v => do
  let g ← group v
  let d := IdentitySettings.standard
  let _ ← g.field "data_dir" 0 text ""
  return {
    myIp := ← g.field "my_ip" 1 ipv4 d.myIp
    bootstrapPeers := ← g.field "bootstrap_peers" 2 (list ipv4) d.bootstrapPeers
    delegatedAccount := ← g.field "delegated_account" 3 u8 d.delegatedAccount
    rewardPercentage := ← g.field "reward_percentage" 4 u16 d.rewardPercentage
    chainId := ← g.field "chain_id" 5 u16 d.chainId }

/-- The table `network`. -/
def networkTable : Reading NetworkSettings := fun v => do
  let g ← group v
  let d := NetworkSettings.standard
  return {
    listenHost := ← g.field "listen_host" 0 ip d.listenHost
    ports := ← g.field "ports" 1 ports d.ports
    maxMessageBytes := ← g.field "max_message_bytes" 2 count d.maxMessageBytes
    trustBudget := ← g.field "trust_budget" 3 i32 d.trustBudget
    maxPeersConnected := ← g.field "max_peers_connected" 4 count d.maxPeersConnected
    dialRetries := ← g.field "dial_retries" 5 u32 d.dialRetries
    dialBackoffMs := ← g.field "dial_backoff_ms" 6 u64 d.dialBackoffMs
    sendLockTimeoutMs := ← g.field "send_lock_timeout_ms" 7 u64 d.sendLockTimeoutMs
    reconnectAttempts := ← g.field "reconnect_attempts" 8 u32 d.reconnectAttempts
    banPolicy := ← g.field "ban_policy" 9 banPolicy d.banPolicy }

/-- The table `consensus`. -/
def consensusTable : Reading ConsensusSettings := fun v => do
  let g ← group v
  let d := ConsensusSettings.standard
  return {
    rollbackDistance := ← g.field "rollback_distance" 0 u64 d.rollbackDistance
    signKeyChoice := ← g.field "sign_key_choice" 1 signKeyChoice d.signKeyChoice
    maxTransactionsPerBlock :=
      ← g.field "max_transactions_per_block" 2 count d.maxTransactionsPerBlock
    votingHeightDistance := ← g.field "voting_height_distance" 3 u64 d.votingHeightDistance
    minStakingForNode := ← g.field "min_staking_for_node" 4 u64 d.minStakingForNode
    blockTimeIntervalSecs := ← g.field "block_time_interval_secs" 5 u64 d.blockTimeIntervalSecs
    genesisStakes := ← g.field "genesis_stakes" 6 (list genesisStake) d.genesisStakes
    votes := ⟨← g.field "primary_vote" 7 (fun v => (schemeVote v).map some) none,
      ← g.field "secondary_vote" 8 (fun v => (schemeVote v).map some) none⟩
    priceSample := ← g.field "price_sample" 9 i64 d.priceSample }

/-- The table `pool`. -/
def poolTable : Reading PoolLimits := fun v => do
  let g ← group v
  let d := PoolLimits.standard
  return {
    maxTransactions := ← g.field "max_transactions" 0 count d.maxTransactions
    maxBytes := ← g.field "max_bytes" 1 count d.maxBytes }

/-- The settings of a document. -/
def ofEntries? (root : Entries) : Option Settings := do
  let g := Group.named root
  let d := Settings.standard
  return {
    identity := ← g.field "node" 0 identityTable d.identity
    network := ← g.field "network" 1 networkTable d.network
    consensus := ← g.field "consensus" 2 consensusTable d.consensus
    pool := ← g.field "pool" 3 poolTable d.pool }

/-- The settings written in a document, or the defaults when it has none that can be read. -/
def load (document : Option String) : Settings :=
  ((document.bind parse?).bind ofEntries?).getD Settings.standard

end SynergyNode.Settings
