/-!
# Protocol constants

The numbers all nodes of one network share, and the defaults of a single node.
-/

namespace SynergyNode.Protocol

/-! ## 1. Money -/

/-- Chain identifier carried in every message unless a node is set up otherwise. -/
def defaultChainId : UInt16 := 23
/-- The supply never passes this. -/
def maxTotalSupply : UInt64 := 230000000000000000
/-- The supply of the first block. -/
def initialSupply : UInt64 := 23000000000000000
/-- A block mints the mintable rest of the supply divided by this. -/
def rewardDivisor : UInt64 := 10000000
/-- Largest operator share of a reward, per mille. -/
def maxRewardPercentage : UInt16 := 500

/-! ## 2. Rounds -/

/-- Scale of the target a block hash must stay under. -/
def difficultyMultiplier : UInt32 := 10
/-- How far the difficulty moves when blocks come too fast or too slowly. -/
def difficultyChange : UInt32 := 10
/-- Difficulty of the first block. -/
def initialDifficulty : UInt32 := 10
/-- Seconds that should lie between two blocks. -/
def blockTimeIntervalSecs : UInt64 := 10
/-- Time of the first block. -/
def genesisTimestamp : UInt64 := 1700000000

/-! ## 3. Pending transactions -/

/-- Transactions taken into one block. -/
def maxTransactionsPerBlock : Nat := 5000
/-- Transactions one pool holds. -/
def maxTransactionsInPool : Nat := 10000
/-- Encoded bytes one pool holds. -/
def poolMaxBytes : Nat := 50 * 1024 * 1024
/-- Banned hashes one pool remembers. -/
def maxTransactionBans : Nat := 60480
/-- Blocks after its target height during which a transaction may be taken. -/
def maxTransactionDelay : UInt64 := 60480

/-! ## 4. Stakes, samples and votes -/

/-- Stake a delegated account needs to open a round. -/
def minStakingForNode : UInt64 := 100000000000000
/-- Blocks after which an oracle sample is forgotten. -/
def oraclesHeightDistance : UInt64 := 6
/-- Blocks after which a vote is forgotten. -/
def votingHeightDistance : UInt64 := 60
/-- First height at which a scheme slot may change. -/
def encryptionChangeMinHeight : UInt64 := 3

/-! ## 5. Catching up -/

/-- Blocks asked for in one request. -/
def hashesInBucket : UInt64 := 32
/-- Blocks given up below the first that differs. -/
def rollbackDistance : UInt64 := 1

/-! ## 6. Peers and messages -/

/-- Trust a peer starts with, and the most it can have. -/
def trustBudget : Int32 := 2
/-- With fewer peers than this, announced peers are dialed. -/
def maxPeersConnected : Nat := 6
/-- Longest message, and longest input of any decoder. -/
def maxMessageBytes : Nat := 16 * 1024 * 1024
/-- Attempts to reach a peer. -/
def dialRetries : UInt32 := 3
/-- Pause between two attempts, in milliseconds. -/
def dialBackoffMs : UInt64 := 2000
/-- Longest wait of a sender for the peer table, in milliseconds. -/
def sendLockTimeoutMs : UInt64 := 10
/-- Attempts to restore a dialed connection. -/
def reconnectAttempts : UInt32 := 2
/-- Length of a ban by the clock, in seconds. -/
def banDurationSecs : UInt64 := 3600
/-- Length of a ban by the chain, in blocks. -/
def banDurationBlocks : UInt64 := 360

end SynergyNode.Protocol
