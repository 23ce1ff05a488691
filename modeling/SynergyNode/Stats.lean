import SynergyNode.Block

/-!
# Chain statistics

Figures about the latest block, and the number of transactions so far.
-/

namespace SynergyNode

/-- Figures about the chain. -/
structure ChainStats where
  height : UInt64
  /-- Transactions of the latest block. -/
  transactions : Nat
  totalTransactions : Nat
  /-- Seconds between the last two blocks. -/
  blockTimeSecs : UInt64
  /-- Transactions a second, a block time of zero counting as one second. -/
  transactionsPerSecond : Float
  supply : UInt64
  difficulty : UInt32

namespace ChainStats

/-- The figures before the first block. -/
def empty : ChainStats := ⟨0, 0, 0, 0, 0, 0, 0⟩

instance : Inhabited ChainStats := ⟨empty⟩

/-- The figures after a block that follows another. -/
def update (s : ChainStats) (block previous : Block) : ChainStats :=
  let elapsed := Word64.saturatingSub block.timestamp previous.timestamp
  let count := block.txHashes.length
  { height := block.height
    transactions := count
    totalTransactions := s.totalTransactions + count
    blockTimeSecs := elapsed
    transactionsPerSecond := Float.ofNat count / (max elapsed 1).toFloat
    supply := block.supply
    difficulty := block.header.difficulty }

end ChainStats

end SynergyNode
