import SynergyNode.Signature.Descriptor
import SynergyNode.Words

/-!
# Votes on the live schemes

Every delegated account may propose a descriptor for each slot.  At a height the votes that are
not older than the voting distance are live.  When more than two are live, one that differs
from the most common is set aside; the rest must agree.  The agreed descriptor is put in force
with more than a third of all stake if it only pauses or resumes the current scheme, and with
more than two thirds if it names another.

Looking at the votes of a slot forgets those that are no longer live.
-/

namespace SynergyNode

/-- Why a vote is refused. -/
inductive VotingError where
  /-- Delegated account zero does not exist. -/
  | invalidAccount
  /-- A newer vote of the account is on record. -/
  | nonMonotonic (recorded got : UInt64)
deriving DecidableEq

/-- The text of an error. -/
def VotingError.message : VotingError → String
  | .invalidAccount => "delegated account id 0 cannot vote"
  | .nonMonotonic recorded got =>
    "vote at height " ++ toString got ++ " is older than recorded height " ++ toString recorded

/-- The cause of an error under a fixed name, followed by that of the error it wraps. -/
def VotingError.code : VotingError → String
  | .invalidAccount => "InvalidAccount"
  | .nonMonotonic _ _ => "NonMonotonic"

/-- A proposed descriptor in its binary form, and the stake behind it. -/
structure Vote where
  values : Bytes
  height : UInt64
  staked : UInt64
deriving DecidableEq

/-- The latest vote of each delegated account for one slot. -/
abbrev VoteTable := Std.ExtTreeMap UInt8 Vote

/-! ## 1. Agreement -/

/-- The value that is first to reach the highest count when the list is read from the front;
`seen` holds the values read, `best` a value with its count. -/
def commonestFrom (seen : List Bytes) (best : Bytes × Nat) : List Bytes → Bytes
  | [] => best.1
  | v :: rest =>
    let count := seen.count v + 1
    commonestFrom (v :: seen) (if best.2 < count then (v, count) else best) rest

/-- The most common value of a list that starts with `v`. -/
def commonest (v : Bytes) (rest : List Bytes) : Bytes :=
  commonestFrom [] (v, 0) (v :: rest)

/-- The list without the first item that differs from the most common one. -/
def removeOneDifferent {α : Type} (key : α → Bytes) (items : List α) : List α :=
  match items with
  | a :: b :: rest =>
    let common := commonest (key a) ((b :: rest).map key)
    (a :: b :: rest).eraseP fun x => key x != common
  | short => short

/-- The sum of the stakes, as far as it fits. -/
def Vote.totalStake (votes : List Vote) : UInt64 :=
  votes.foldl (fun sum v => Word64.saturatingAdd sum v.staked) 0

/-- The one value left when one outlier among more than two votes is set aside, and the stake
behind it. -/
def Vote.agreed? (votes : List Vote) : Option (Bytes × UInt64) :=
  let rest := if 2 < votes.length then removeOneDifferent Vote.values votes else votes
  match rest with
  | [] => none
  | first :: _ =>
    if rest.all (fun v => v.values == first.values) then
      some (first.values, Vote.totalStake rest)
    else none

/-- Whether a stake is strictly more than `thirds` thirds of the total. -/
def exceedsThirds (staked total : UInt64) (thirds : Nat) : Bool :=
  decide (total.toNat * thirds < staked.toNat * 3)

/-! ## 2. The votes of both slots -/

/-- All votes, and how long they live. -/
structure Voting where
  distance : UInt64
  tables : PerSlot VoteTable

namespace Voting

/-- No votes. -/
def empty (distance : UInt64) : Voting := ⟨distance, PerSlot.both ∅⟩

/-- The number of votes on record for a slot, live or not. -/
def voteCount (v : Voting) (slot : Slot) : Nat := (v.tables.get slot).size

/-- Records a proposal; an empty one is no vote, and one older than the account's vote on record
is refused. -/
def saveVote (v : Voting) (slot : Slot) (id : UInt8) (vote : Vote) :
    Except VotingError Voting :=
  if vote.values = [] then .ok v
  else if id = 0 then .error .invalidAccount
  else
    let table := v.tables.get slot
    match table[id]? with
    | some old =>
      if vote.height < old.height then .error (.nonMonotonic old.height vote.height)
      else .ok { v with tables := v.tables.set slot (table.insert id vote) }
    | none => .ok { v with tables := v.tables.set slot (table.insert id vote) }

/-- Whether a vote is live at a height. -/
def isLive (distance height : UInt64) (vote : Vote) : Bool :=
  decide (height ≤ Word64.saturatingAdd vote.height distance) && !vote.values.isEmpty

/-- Forgets the votes for a slot that are not live at a height. -/
def prune (v : Voting) (slot : Slot) (height : UInt64) : Voting :=
  { v with tables :=
      v.tables.set slot ((v.tables.get slot).filter fun _ vote => isLive v.distance height vote) }

/-- The live votes for a slot in the order of the accounts. -/
def live (v : Voting) (slot : Slot) (height : UInt64) : List (UInt8 × Vote) :=
  ((v.prune slot height).tables.get slot).toList

/-- The agreed value, if more than `thirds` thirds of all stake are behind it. -/
def quorum? (v : Voting) (slot : Slot) (height totalStaked : UInt64) (thirds : Nat) :
    Option Bytes :=
  match Vote.agreed? ((v.live slot height).map Prod.snd) with
  | none => none
  | some (value, staked) => if exceedsThirds staked totalStaked thirds then some value else none

/-- The agreed value, if the stake behind it may pause or resume a scheme. -/
def pausing? (v : Voting) (slot : Slot) (height totalStaked : UInt64) : Option Bytes :=
  v.quorum? slot height totalStaked 1

/-- The agreed value, if the stake behind it may replace a scheme. -/
def replacing? (v : Voting) (slot : Slot) (height totalStaked : UInt64) : Option Bytes :=
  v.quorum? slot height totalStaked 2

/-- The descriptor that the votes put in the place of the current one. -/
def decide? (v : Voting) (slot : Slot) (height totalStaked : UInt64) (current : Descriptor) :
    Option Descriptor :=
  match v.pausing? slot height totalStaked with
  | none => none
  | some value =>
    match Descriptor.ofBytes value with
    | .error _ => none
    | .ok proposed =>
      if proposed = current then none
      else if proposed.sameScheme current then some proposed
      else if v.replacing? slot height totalStaked = some value then some proposed
      else none

/-- Forgets every vote. -/
def reset (v : Voting) : Voting := { v with tables := PerSlot.both ∅ }

end Voting

end SynergyNode
