import SynergyNode.Ledger

/-!
# Rolling back

Blocks are given up from the top: of each, the transactions go back to the pools and out of the
store, then block, tree and snapshot are removed.  When the wanted height is reached, the
accounts return to its snapshot and the height is written.

What was done before a failure stays done.
-/

namespace SynergyNode.Ledger

/-- Takes committed transactions out of the store and back into the pools. -/
def releaseTransactions (l : Ledger) : List Hash → Except LedgerError Unit × Ledger
  | [] => (.ok (), l)
  | h :: rest =>
    match l.store.transaction? h with
    | .error e => (.error (.store e), l)
    | .ok none => l.releaseTransactions rest
    | .ok (some t) =>
      match l.store.removeTransaction h with
      | .error e => (.error (.store e), l)
      | .ok s => releaseTransactions { l with store := s, pools := (l.pools.add t).2 } rest

/-- Takes the transactions of the block at a height, if there is one, back into the pools. -/
def releaseBlock (l : Ledger) (height : UInt64) : Except LedgerError Unit × Ledger :=
  match l.store.block? height with
  | .error e => (.error (.store e), l)
  | .ok none => (.ok (), l)
  | .ok (some b) => l.releaseTransactions b.txHashes

/-- Removes block, tree and snapshot at a height, in this order. -/
def removeHeight (s : Store) (height : UInt64) : Except StoreError Unit × Store :=
  match s.removeBlock height with
  | .error e => (.error e, s)
  | .ok s =>
    match s.removeTree height with
    | .error e => (.error e, s)
    | .ok s =>
      match s.removeSnapshot height with
      | .error e => (.error e, s)
      | .ok s => (.ok (), s)

/-- Gives up the block at a height. -/
def discard (l : Ledger) (height : UInt64) : Except LedgerError Unit × Ledger :=
  match l.releaseBlock height with
  | (.error e, l) => (.error e, l)
  | (.ok (), l) =>
    match removeHeight l.store height with
    | (.error e, s) => (.error (.store e), { l with store := s })
    | (.ok (), s) => (.ok (), { l with store := s })

/-- Gives up `count` blocks, from `base + count` down to the one above `base`. -/
def discardAbove (l : Ledger) (base : UInt64) : (count : Nat) → Except LedgerError Unit × Ledger
  | 0 => (.ok (), l)
  | n + 1 =>
    match l.discard (base + UInt64.ofNat (n + 1)) with
    | (.error e, l) => (.error e, l)
    | (.ok (), l) => l.discardAbove base n

/-- Stands at a block whose successors are gone. -/
def standAt (l : Ledger) (target : Block) (height : UInt64) : Except LedgerError Unit × Ledger :=
  match restoredAccounts l.store height l.accounts with
  | .error e => (.error e, l)
  | .ok accounts =>
    let l := { l with accounts := accounts }
    match l.store.putHeight height with
    | .error e => (.error (.store e), l)
    | .ok s =>
      let l := { l with store := s }
      match takeUpSchemes target.header Slot.all l.schemes with
      | (.error e, schemes) => (.error e, { l with schemes := schemes })
      | (.ok (), schemes) =>
        (.ok (), { l with schemes := schemes, lastBlock := target, height := height })

/-- Gives up every block above a height. -/
def rollback (l : Ledger) (height : UInt64) : Except LedgerError Unit × Ledger :=
  if l.height ≤ height then (.ok (), l)
  else
    match requireBlock l.store height with
    | .error e => (.error e, l)
    | .ok target =>
      match l.discardAbove height (l.height.toNat - height.toNat) with
      | (.error e, l) => (.error e, l)
      | (.ok (), l) => l.standAt target height

end SynergyNode.Ledger
