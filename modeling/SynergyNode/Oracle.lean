import SynergyNode.Protocol
import SynergyNode.Words
import Std.Data.ExtTreeMap

/-!
# Oracles

Every nonce transaction brings a price and a random number.  The latest sample of each
delegated account counts while it is recent; the price is the mean weighted by stake, the
random number the exclusive or over all accounts with a stake.  Asking forgets what is no
longer recent.
-/

namespace SynergyNode

/-- Why an oracle refuses. -/
inductive OracleError where
  /-- A newer sample of this account is on record. -/
  | stale (id : UInt8) (height : UInt64)
  /-- No sample with a stake within this many blocks. -/
  | noSamples (distance : UInt64)
deriving DecidableEq

/-- The text of an error. -/
def OracleError.message : OracleError → String
  | .stale id height =>
    "sample for delegated account " ++ toString id ++ " at height " ++ toString height ++
      " is older than the recorded one"
  | .noSamples distance => "no samples within " ++ toString distance ++ " blocks"

/-- The cause of an error under a fixed name, followed by that of the error it wraps. -/
def OracleError.code : OracleError → String
  | .stale _ _ => "Stale"
  | .noSamples _ => "NoSamples"

namespace Oracle

/-- What an account said, when, and with how much stake. -/
structure Sample where
  value : Int64
  height : UInt64
  staked : UInt64
deriving DecidableEq

/-- The latest sample of each delegated account. -/
abbrev Samples := Std.ExtTreeMap UInt8 Sample

namespace Samples

/-- Records a sample unless a newer one is on record. -/
def save (s : Samples) (id : UInt8) (sample : Sample) : Except OracleError Samples :=
  match s[id]? with
  | some old =>
    if sample.height < old.height then .error (.stale id sample.height)
    else .ok (s.insert id sample)
  | none => .ok (s.insert id sample)

/-- Whether a sample still counts at a height.  The sum is one of words: for a sample of one of
the last heights that there are it starts again at zero. -/
def isRecent (height : UInt64) (sample : Sample) : Bool :=
  decide (height ≤ sample.height + Protocol.oraclesHeightDistance)

/-- The samples that still count at a height. -/
def recent (s : Samples) (height : UInt64) : Samples :=
  s.filter fun _ sample => isRecent height sample

/-- The samples alone, in the order of the accounts. -/
def values (s : Samples) : List Sample := s.toList.map Prod.snd

end Samples

/-- The mean of the values weighted by stake, rounded toward zero. -/
def weightedMean (samples : List Sample) : Option Int64 :=
  let total : Nat := samples.foldl (fun n s => n + s.staked.toNat) 0
  if total = 0 then none
  else
    let sum : Int := samples.foldl (fun n s => n + s.value.toInt * (s.staked.toNat : Int)) 0
    some (Int64.ofInt (Int.tdiv sum total))

/-- The exclusive or over all samples with a stake, if there is one. -/
def combined (samples : List Sample) : Option Int64 :=
  match samples.filter fun s => decide (0 < s.staked) with
  | [] => none
  | staked => some (staked.foldl (fun acc s => acc ^^^ s.value) 0)

end Oracle

/-- The samples of both oracles. -/
structure OracleBook where
  prices : Oracle.Samples
  rands : Oracle.Samples

namespace OracleBook

open Oracle

/-- No samples. -/
def empty : OracleBook := ⟨∅, ∅⟩

instance : Inhabited OracleBook := ⟨empty⟩

/-- Records a price. -/
def savePrice (b : OracleBook) (id : UInt8) (sample : Sample) : Except OracleError OracleBook :=
  (b.prices.save id sample).map fun s => { b with prices := s }

/-- Records a random number. -/
def saveRand (b : OracleBook) (id : UInt8) (sample : Sample) : Except OracleError OracleBook :=
  (b.rands.save id sample).map fun s => { b with rands := s }

/-- An answer, or the error that there are no samples. -/
def orNoSamples : Option Int64 → Except OracleError Int64
  | some v => .ok v
  | none => .error (.noSamples Protocol.oraclesHeightDistance)

/-- The price at a height, and the book without forgotten prices. -/
def price (b : OracleBook) (height : UInt64) : Except OracleError Int64 × OracleBook :=
  let s := b.prices.recent height
  (orNoSamples (weightedMean s.values), { b with prices := s })

/-- The random number at a height, and the book without forgotten ones. -/
def rand (b : OracleBook) (height : UInt64) : Except OracleError Int64 × OracleBook :=
  let s := b.rands.recent height
  (orNoSamples (combined s.values), { b with rands := s })

end OracleBook

end SynergyNode
