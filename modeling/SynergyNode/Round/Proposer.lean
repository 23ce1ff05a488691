import SynergyNode.Ledger
import SynergyNode.Oracle
import SynergyNode.Round.NonceData
import SynergyNode.Settings
import SynergyNode.Surroundings

/-!
# Rounds

A round for the next height is opened by a nonce transaction: an operator of a delegated account
sends it to that account, names the last block, and adds a sample for each oracle and a vote for
each slot.  Every validator that accepts it records samples and votes and answers with a block
of its own.

`Round.answer` is everything from the nonce transaction to the finished block.
-/

namespace SynergyNode

/-- Why a round yields no block. -/
inductive ProposalError where
  | syncing
  | wrongHeight (expected got : UInt64)
  /-- The nonce transaction names another block than the last. -/
  | staleReference
  | transaction (cause : TransactionError)
  | notDelegated
  | insufficientStake (id : UInt8) (staked : UInt64)
  | notOperator (id : UInt8)
  | data (cause : NonceDataError)
  | block (cause : BlockError)
  | key (cause : KeyError)
  | scheme (cause : SchemeError)
  /-- The hash of the finished block does not meet the target. -/
  | noSynergy (difficulty : UInt32)
  /-- The pending transactions do not cover each other. -/
  | badTransfers (cause : AccountError)
deriving DecidableEq

/-- The text of an error. -/
def ProposalError.message : ProposalError → String
  | .syncing => "ledger is syncing"
  | .wrongHeight expected got =>
    "nonce for height " ++ toString got ++ ", expected " ++ toString expected
  | .staleReference => "nonce does not reference our last block"
  | .transaction e => "nonce transaction: " ++ e.message
  | .notDelegated => "nonce recipient is not a delegated account"
  | .insufficientStake id staked =>
    "delegated account " ++ toString id ++ " stakes " ++ toString staked ++
      ", below the minimum"
  | .notOperator id => "sender is not an operator of delegated account " ++ toString id
  | .data e => "malformed nonce data: " ++ e.message
  | .block e => e.message
  | .key e => e.message
  | .scheme e => e.message
  | .noSynergy difficulty => "proof of synergy failed at difficulty " ++ toString difficulty
  | .badTransfers e => "pool transfers do not balance: " ++ e.message

/-- The cause of an error under a fixed name, followed by that of the error it wraps. -/
def ProposalError.code : ProposalError → String
  | .syncing => "Syncing"
  | .wrongHeight _ _ => "WrongHeight"
  | .staleReference => "StaleReference"
  | .transaction e => "Transaction/" ++ e.code
  | .notDelegated => "NotDelegated"
  | .insufficientStake _ _ => "InsufficientStake"
  | .notOperator _ => "NotOperator"
  | .data _ => "OptData"
  | .block e => "Block/" ++ e.code
  | .key e => "Key/" ++ e.code
  | .scheme e => "Scheme/" ++ e.code
  | .noSynergy _ => "NoSynergy"
  | .badTransfers e => "BadTransfers/" ++ e.code

/-- Who a validator is and how it takes part in rounds. -/
structure ProposerSettings where
  delegatedId : UInt8
  rewardPercentage : UInt16
  chainId : UInt16
  signKeyChoice : SignKeyChoice
  maxTransactionsPerBlock : Nat
  minStakingForNode : UInt64
  priceSample : Int64
  /-- A descriptor in its binary form for each slot, empty for no vote. -/
  votes : PerSlot Bytes
deriving DecidableEq

namespace ProposerSettings

/-- The binary form of a vote. -/
def voteBytes : Option SchemeVote → Except KeyError Bytes
  | none => .ok []
  | some v =>
    match Scheme.ofName v.scheme with
    | .error e => .error e
    | .ok s => .ok (Descriptor.ofScheme s v.paused).toBytes

/-- The settings of the validator that a node's settings describe. -/
def ofSettings (c : ConsensusSettings) (id : UInt8) (rewardPercentage chainId : UInt16) :
    Except KeyError ProposerSettings := do
  let primary ← voteBytes c.votes.primary
  let secondary ← voteBytes c.votes.secondary
  return {
    delegatedId := id
    rewardPercentage := rewardPercentage
    chainId := chainId
    signKeyChoice := c.signKeyChoice
    maxTransactionsPerBlock := c.maxTransactionsPerBlock
    minStakingForNode := c.minStakingForNode
    priceSample := c.priceSample
    votes := ⟨primary, secondary⟩ }

end ProposerSettings

/-- What rounds read and change. -/
structure Round where
  ledger : Ledger
  oracle : OracleBook

namespace Round

/-! ## 1. Opening a round -/

/-- The nonce transaction with which a validator opens the next round. -/
def nonce [SignatureSuite] (r : Round) (s : ProposerSettings) (w : Wallet)
    (around : Surroundings) : Transaction :=
  let last := r.ledger.lastBlock
  let height := last.height + 1
  let slot := r.ledger.schemes.signingSlot height s.signKeyChoice around.coin
  let data : NonceData := ⟨last.height, last.blockHash, s.priceSample, around.rand, s.votes⟩
  Transaction.signed
    { kind := .standard
      sender := w.address slot
      recipient := Address.delegated s.delegatedId
      amount := 0
      nonce := height
      chainId := s.chainId
      height := height
      sendingTime := around.now
      data := data.toBytes }
    slot (w.key slot)

/-! ## 2. Accepting a nonce transaction -/

/-- What an accepted nonce transaction says, and for which account with how much stake. -/
structure Accepted where
  id : UInt8
  staked : UInt64
  data : NonceData

/-- Whether nonce data name a block as the last one. -/
def refersTo (data : NonceData) (last : Block) : Bool :=
  decide (data.lastHeight + 1 = last.height + 1 ∧ data.lastHash = last.blockHash)

/-- Checks that a sender may open rounds for an account. -/
def checkSender (r : Round) (s : ProposerSettings) (id : UInt8) (sender : Address) :
    Except ProposalError UInt64 :=
  let entry := (r.ledger.accounts.stakingOf? id).getD default
  if entry.staked < s.minStakingForNode then .error (.insufficientStake id entry.staked)
  else if sender ∉ entry.operators then .error (.notOperator id)
  else .ok entry.staked

/-- Checks a nonce transaction against the ledger. -/
def accept [SignatureSuite] (r : Round) (s : ProposerSettings) (nonce : Transaction) :
    Except ProposalError Accepted :=
  let last := r.ledger.lastBlock
  if r.ledger.syncing then .error .syncing
  else if nonce.body.height ≠ last.height + 1 then
    .error (.wrongHeight (last.height + 1) nonce.body.height)
  else
    match nonce.verify r.ledger.schemes with
    | .error e => .error (.transaction e)
    | .ok () =>
      match NonceData.ofBytes nonce.body.data with
      | .error e => .error (.data e)
      | .ok data =>
        if !refersTo data last then .error .staleReference
        else
          match nonce.body.recipient.delegatedId? with
          | none => .error .notDelegated
          | some id =>
            match r.checkSender s id nonce.body.sender with
            | .error e => .error e
            | .ok staked => .ok ⟨id, staked, data⟩

/-- What is kept of an attempt to add to a record: the new record, or the old one when the
addition is refused. -/
def orKeep {ε α : Type} (old : α) : Except ε α → α
  | .ok new => new
  | .error _ => old

/-- Records the vote for a slot. -/
def recordVote (v : Voting) (a : Accepted) (height : UInt64) (slot : Slot) : Voting :=
  orKeep v (v.saveVote slot a.id ⟨a.data.votes.get slot, height, a.staked⟩)

/-- Records the samples and votes of an accepted nonce transaction; one that is refused does not
keep out the others. -/
def record (r : Round) (a : Accepted) (height : UInt64) : Round :=
  let price := orKeep r.oracle (r.oracle.savePrice a.id ⟨a.data.price, height, a.staked⟩)
  let oracle := orKeep price (price.saveRand a.id ⟨a.data.rand, height, a.staked⟩)
  let voting := recordVote (recordVote r.ledger.voting a height .primary) a height .secondary
  { ledger := { r.ledger with voting := voting }, oracle := oracle }

/-! ## 3. Putting a block together -/

/-- The descriptor to declare for a slot: what the votes put there, or what is live. -/
def declared (l : Ledger) (height : UInt64) (slot : Slot) : Descriptor :=
  let live := l.schemes.get slot
  if Protocol.encryptionChangeMinHeight ≤ height then
    (l.voting.decide? slot height l.accounts.totalStaked live).getD live
  else live

/-- The descriptors to declare at a height. -/
def headerEncryption (l : Ledger) (height : UInt64) : PerSlot Bytes :=
  ⟨(declared l height .primary).toBytes, (declared l height .secondary).toBytes⟩

/-- The votes after they were asked for the descriptors to declare. -/
def votesAsked (v : Voting) (height : UInt64) : Voting :=
  if Protocol.encryptionChangeMinHeight ≤ height then
    (v.prune .primary height).prune .secondary height
  else v

/-- The transactions of the next block.  When they do not cover each other, the one at fault is
banned. -/
def selectTransactions (r : Round) (s : ProposerSettings) (height : UInt64) :
    Except ProposalError (List Transaction) × Round :=
  let txs := r.ledger.pools.peek s.maxTransactionsPerBlock height
  match r.ledger.accounts.checkTransfers txs with
  | .ok () => (.ok txs, r)
  | .error e =>
    let pools :=
      match e.offendingTransaction? with
      | some bad => r.ledger.pools.banEverywhere bad
      | none => r.ledger.pools
    (.error (.badTransfers e), { r with ledger := { r.ledger with pools := pools } })

/-- The signed header of the next block. -/
def header [SignatureSuite] (l : Ledger) (s : ProposerSettings) (w : Wallet)
    (around : Surroundings) (nonceTime : UInt64) (hashes : List Hash) : Header :=
  let last := l.lastBlock
  let height := last.height + 1
  let slot := l.schemes.signingSlot height s.signKeyChoice around.coin
  let unsigned : Header :=
    { previousHash := last.blockHash
      difficulty := Synergy.adjustDifficulty last.header.difficulty
        (Word64.saturatingSub nonceTime last.timestamp)
      height := height
      delegatedId := s.delegatedId
      operator := w.address slot
      merkleRoot := (⟨height, hashes⟩ : Merkle.Tree).root
      encryption := headerEncryption l height
      signerSlot := slot
      signerKey := []
      signature := []
      timestamp := nonceTime }
  unsigned.sign slot (w.key slot)

/-- An oracle's answer, zero when there is none. -/
def orZero : Except OracleError Int64 → Int64
  | .ok v => v
  | .error _ => 0

/-- The next block with the given transactions. -/
def assemble [SignatureSuite] (r : Round) (s : ProposerSettings) (w : Wallet)
    (around : Surroundings) (nonceTime : UInt64) (txs : List Transaction) : Block × Round :=
  let last := r.ledger.lastBlock
  let height := last.height + 1
  let hashes := txs.map Transaction.hash
  let reward := Synergy.rewardForSupply last.supply
  let (price, oracle) := r.oracle.price height
  let (rand, oracle) := oracle.rand height
  let block : Block :=
    { header := header r.ledger s w around nonceTime hashes
      headerHash := Hash.zero
      timestamp := around.now
      rewardPercentage := s.rewardPercentage
      supply := Word64.saturatingAdd last.supply reward
      reward := reward
      priceOracle := orZero price
      randOracle := orZero rand
      txHashes := hashes
      blockHash := Hash.zero }
  let voting := votesAsked r.ledger.voting height
  (block.sealed, { ledger := { r.ledger with voting := voting }, oracle := oracle })

/-- The block with which a validator answers a nonce transaction. -/
def answer [SignatureSuite] (r : Round) (s : ProposerSettings) (w : Wallet)
    (around : Surroundings) (nonce : Transaction) : Except ProposalError Block × Round :=
  match r.accept s nonce with
  | .error e => (.error e, r)
  | .ok accepted =>
    let height := r.ledger.lastBlock.height + 1
    match (r.record accepted height).selectTransactions s height with
    | (.error e, r) => (.error e, r)
    | (.ok txs, r) =>
      let (block, r) := r.assemble s w around nonce.body.sendingTime txs
      if Synergy.passes block.blockHash block.header.difficulty then (.ok block, r)
      else (.error (.noSynergy block.header.difficulty), r)

end Round

end SynergyNode
