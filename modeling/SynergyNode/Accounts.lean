import SynergyNode.Block

/-!
# Account balances and stakes

The balances of all accounts and the staking table of the delegated ones.  A list of transfers
is carried out in order on a copy of the balances and counts only if all of them succeed; a
block adds its reward, split between operator and delegated account.

`Accounts.toBytes` is the snapshot kept with every height, and `Accounts.ofBytes` restores it.
-/

namespace SynergyNode

/-- A delegated account at the start of the chain. -/
structure GenesisStake where
  delegatedId : UInt8
  stake : UInt64
  /-- The addresses of its operators, as text. -/
  operators : List String
  /-- What each operator can spend. -/
  operatorBalance : UInt64
deriving DecidableEq

/-- What can be wrong with a genesis stake. -/
inductive GenesisError where
  | reservedId
  | badOperator (text : String)
deriving DecidableEq

/-- The text of an error. -/
def GenesisError.message : GenesisError → String
  | .reservedId => "delegated id 0 is reserved"
  | .badOperator text => "bad operator " ++ text

/-- Why a change of the accounts is refused. -/
inductive AccountError where
  /-- This account cannot pay for this transaction. -/
  | insufficientBalance (address : Address) (transaction : Hash)
  /-- This account's balance would not fit. -/
  | overflow (address : Address)
  | genesis (cause : GenesisError)
  /-- The bytes are not those of a snapshot. -/
  | snapshot
deriving DecidableEq

namespace AccountError

/-- The text of an error. -/
def message : AccountError → String
  | insufficientBalance address transaction =>
    address.toText ++ " cannot cover transaction " ++ Bytes.toHex (transaction.toList.take 8)
  | overflow address => "balance overflow for " ++ address.toText
  | genesis e => "invalid genesis stake: " ++ e.message
  | snapshot => "snapshot"

/-- The cause of an error under a fixed name, followed by that of the error it wraps. -/
def code : AccountError → String
  | insufficientBalance _ _ => "InsufficientBalance"
  | overflow _ => "Overflow"
  | genesis _ => "Genesis"
  | snapshot => "Snapshot"

/-- The transaction that caused the failure, if one did. -/
def offendingTransaction? : AccountError → Option Hash
  | insufficientBalance _ transaction => some transaction
  | _ => none

end AccountError

/-- A delegated account's stake and the addresses that may sign for it. -/
structure StakingEntry where
  staked : UInt64
  operators : List Address
deriving DecidableEq

instance : Inhabited StakingEntry := ⟨⟨0, []⟩⟩

/-- The spendable balance of every account that was ever credited or debited. -/
abbrev Balances := Std.ExtTreeMap Address UInt64

/-- All accounts. -/
structure Accounts where
  balances : Balances
  staking : Std.ExtTreeMap UInt8 StakingEntry

namespace Balances

/-- The balance of an account, zero for an unknown one. -/
def get (b : Balances) (a : Address) : UInt64 := b[a]?.getD 0

/-- Adds an amount to a balance. -/
def credit (b : Balances) (a : Address) (amount : UInt64) : Except AccountError Balances :=
  match Word64.checkedAdd? (b.get a) amount with
  | some sum => .ok (b.insert a sum)
  | none => .error (.overflow a)

/-- Carries out one transfer: first the sender pays, then the recipient is credited. -/
def transfer (b : Balances) (t : Transaction) : Except AccountError Balances :=
  match Word64.checkedSub? (b.get t.body.sender) t.body.amount with
  | none => .error (.insufficientBalance t.body.sender t.hash)
  | some rest => Balances.credit (b.insert t.body.sender rest) t.body.recipient t.body.amount

/-- Carries out transfers in order. -/
def transfers (b : Balances) : List Transaction → Except AccountError Balances
  | [] => .ok b
  | t :: ts =>
    match b.transfer t with
    | .ok b' => transfers b' ts
    | .error e => .error e

/-- Pays a share of a reward; an empty share leaves no trace. -/
def payShare (b : Balances) (a : Address) (share : UInt64) : Except AccountError Balances :=
  if share = 0 then .ok b else b.credit a share

end Balances

namespace Accounts

/-- No accounts. -/
def empty : Accounts := ⟨∅, ∅⟩

instance : Inhabited Accounts := ⟨empty⟩

/-! ## 1. Looking up -/

/-- The balance of an account. -/
def balance (a : Accounts) (address : Address) : UInt64 := a.balances.get address

/-- The stake of a delegated account. -/
def stakingOf? (a : Accounts) (id : UInt8) : Option StakingEntry := a.staking[id]?

/-- The sum of all stakes, as far as it fits. -/
def totalStaked (a : Accounts) : UInt64 :=
  a.staking.toList.foldl (fun sum e => Word64.saturatingAdd sum e.2.staked) 0

/-! ## 2. Setting up -/

/-- Replaces a balance. -/
def setBalance (a : Accounts) (address : Address) (amount : UInt64) : Accounts :=
  { a with balances := a.balances.insert address amount }

/-- Replaces a stake. -/
def setStake (a : Accounts) (id : UInt8) (entry : StakingEntry) : Accounts :=
  { a with staking := a.staking.insert id entry }

/-- Lets one more address sign for a delegated account. -/
def addOperator (a : Accounts) (id : UInt8) (operator : Address) : Accounts :=
  let entry := a.staking[id]?.getD default
  if entry.operators.contains operator then a.setStake id entry
  else a.setStake id { entry with operators := entry.operators ++ [operator] }

/-- Credits operators one by one, collecting their addresses in reverse. -/
def genesisOperators (amount : UInt64) :
    (acc : List Address) → Balances → List String → Except AccountError (List Address × Balances)
  | acc, b, [] => .ok (acc.reverse, b)
  | acc, b, text :: rest =>
    match Address.ofText? text with
    | some a => genesisOperators amount (a :: acc) (b.insert a amount) rest
    | none => .error (.genesis (.badOperator text))

/-- Enters one genesis stake. -/
def addGenesis (a : Accounts) (g : GenesisStake) : Except AccountError Accounts :=
  if g.delegatedId = 0 then .error (.genesis .reservedId)
  else
    match genesisOperators g.operatorBalance [] a.balances g.operators with
    | .ok (operators, balances) =>
      .ok (Accounts.setStake { a with balances := balances } g.delegatedId ⟨g.stake, operators⟩)
    | .error e => .error e

/-- The accounts at the start of the chain. -/
def ofGenesis (stakes : List GenesisStake) : Except AccountError Accounts :=
  stakes.foldlM addGenesis empty

/-! ## 3. Blocks -/

/-- Checks that transfers, carried out in order, succeed. -/
def checkTransfers (a : Accounts) (txs : List Transaction) : Except AccountError Unit :=
  match a.balances.transfers txs with
  | .ok _ => .ok ()
  | .error e => .error e

/-- The accounts after a block with the given transactions. -/
def applyBlock (a : Accounts) (block : Block) (txs : List Transaction) :
    Except AccountError Accounts := do
  let (operatorShare, delegatedShare) := Synergy.splitReward block.reward block.rewardPercentage
  let b ← a.balances.transfers txs
  let b ← b.payShare block.header.operator operatorShare
  let b ← b.payShare (Address.delegated block.header.delegatedId) delegatedShare
  return { a with balances := b }

/-! ## 4. Snapshots -/

open Format in
/-- Both tables in the order of their keys. -/
def format : Format Accounts :=
  imap (both (table Address.format u64)
      (table u8 (imap (both u64 (list Address.format)) (fun p => ⟨p.1, p.2⟩)
        (fun (e : StakingEntry) => (e.staked, e.operators)))))
    (fun p => ⟨p.1, p.2⟩) (fun a => (a.balances, a.staking))

/-- The snapshot of all accounts. -/
def toBytes (a : Accounts) : Bytes := format.write a

/-- The accounts of a snapshot. -/
def ofBytes (b : Bytes) : Except AccountError Accounts :=
  match format.decode? b with
  | some a => .ok a
  | none => .error .snapshot

end Accounts

end SynergyNode
