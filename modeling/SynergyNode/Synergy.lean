import SynergyNode.Hash
import SynergyNode.Protocol
import SynergyNode.Words

/-!
# Proof of synergy

How the difficulty follows the time between blocks, how much a block mints and who gets it, and
the target that the hash of a block must stay under.
-/

namespace SynergyNode.Synergy

open Protocol

/-- The difficulty after a block that came `elapsed` seconds after the one before: raised when
it came in less than half the wanted time, lowered, but not below one, when it took more than
twice that. -/
def adjustDifficulty (previous : UInt32) (elapsed : UInt64) : UInt32 :=
  if elapsed < blockTimeIntervalSecs / 2 then
    Word32.saturatingAdd previous difficultyChange
  else if blockTimeIntervalSecs * 2 < elapsed then
    max (Word32.saturatingSub previous difficultyChange) 1
  else previous

/-- What a block mints on top of a supply. -/
def rewardForSupply (supply : UInt64) : UInt64 :=
  Word64.saturatingSub maxTotalSupply supply / rewardDivisor

/-- The operator's and the delegated account's part of a reward. -/
def splitReward (reward : UInt64) (perMille : UInt16) : UInt64 × UInt64 :=
  let operator := UInt64.ofNat (reward.toNat * min perMille.toNat 1000 / 1000)
  (operator, reward - operator)

/-- The target at a difficulty. -/
def target (difficulty : UInt32) : UInt32 :=
  Word32.saturatingMul (Word32.max / max difficulty 1) difficultyMultiplier

/-- The number that the first four bytes of a hash denote, highest byte first. -/
def leadingWord (hash : Hash) : UInt32 :=
  UInt32.ofNat (ofLe (hash.toList.take 4).reverse)

/-- Whether a block hash meets the target. -/
def passes (hash : Hash) (difficulty : UInt32) : Bool :=
  decide (leadingWord hash ≤ target difficulty)

end SynergyNode.Synergy
