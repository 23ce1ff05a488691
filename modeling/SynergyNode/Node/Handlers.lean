import SynergyNode.Node

/-!
# Messages to a node

`Node.onMessage` takes one message: it turns banned senders away, makes the sender pay for what
cannot be read, and hands the rest to the handler of its opcode.  A handler that fails for a
reason the sender is to blame for costs trust too.
-/

namespace SynergyNode

/-- What became of a message. -/
inductive HandlerOutcome where
  | handled
  | dropped (reason : String)
deriving DecidableEq

namespace Node

/-! ## 1. Blocks -/

/-- Puts a key of the live scheme into a slot of the wallet. -/
def alignWallet (n : Node) (around : Surroundings) (slot : Slot) : Node :=
  match (n.ledger.schemes.get slot).scheme with
  | .error _ => n
  | .ok s => { n with wallet := (n.wallet.rotate around.freshKeys slot s).2 }

/-- After a commit the clock of bans follows the chain, and the wallet the live schemes. -/
def afterCommit (n : Node) (around : Surroundings) (changed : List Slot) : Node :=
  changed.foldl (fun n slot => n.alignWallet around slot) n.syncClock

variable [SignatureSuite]

/-- Commits a block that has passed the checks, as part of a round. -/
def commitProposal (n : Node) (around : Surroundings) (b : Block) :
    Except NodeError Unit × Node :=
  match n.ledger.commit b .proposal with
  | (.ok report, l) => (.ok (), afterCommit { n with ledger := l } around report.changed)
  | (.error e, l) => (.error (.ledger e), { n with ledger := l })

/-- Takes a block on top of the last one: checks it, asks for what it lacks, or commits it. -/
def takeBlock (n : Node) (around : Surroundings) (sender : PeerAddress) (b : Block) :
    Except NodeError Unit × Node :=
  match b.checkBase n.ledger.lastBlock with
  | .error e => (.error (.block e), n)
  | .ok _ =>
    match n.ledger.checkOperator b with
    | .error e => (.error (.ledger e), n)
    | .ok () =>
      match n.ledger.missingTransactions b with
      | .error e => (.error (.ledger e), n)
      | .ok [] => n.commitProposal around b
      | .ok missing => (.ok (), n.requestTransactions sender .getTxFromPool missing)

/-- A proposed block; one for another height is passed over. -/
def handleBlock (n : Node) (around : Surroundings) (sender : PeerAddress) (m : Message) :
    Except NodeError Unit × Node :=
  match m.first? Topic.block with
  | none => (.error (.malformed .noBlock), n)
  | some bytes =>
    match Block.ofBytes bytes with
    | .error e => (.error (.block e), n)
    | .ok b =>
      if b.height ≠ n.ledger.height + 1 then (.ok (), n) else n.takeBlock around sender b

/-- A nonce transaction: a validator answers it with a block of its own, which it proposes to
all and takes like any other. -/
def handleNonce (n : Node) (around : Surroundings) (sender : PeerAddress) (v : CheckedMessage) :
    Except NodeError Unit × Node :=
  match n.proposer with
  | none => (.ok (), n)
  | some s =>
    match (v.transactions[Topic.nonceTransaction]?).bind List.head? with
    | none => (.error (.malformed .noNonce), n)
    | some nonce =>
      match n.round.answer s n.wallet around nonce with
      | (.error e, r) => (.error (.proposal e), n.setRound r)
      | (.ok b, r) =>
        let n := n.setRound r
        let n :=
          if sender = n.myIp then n else n.setRegistry (n.registry.registerNode sender)
        let m := (n.codec.message .block).put Topic.block [b.toBytes]
        (n.broadcast Topic.sync m).handleBlock around n.myIp m

/-! ## 2. Catching up -/

omit [SignatureSuite] in
/-- Dials suggested peers one after the other, as long as there are too few. -/
def exchangePeers (n : Node) (around : Surroundings) : List PeerAddress → Node
  | [] => n
  | peer :: rest =>
    if n.settings.network.maxPeersConnected ≤ n.registry.peerCount then n
    else if peer = PeerAddress.wildcard ∨ peer = n.myIp then n.exchangePeers around rest
    else if n.registry.isBanned around.now peer Topic.sync ||
        n.registry.hasConnection ⟨Topic.sync, peer⟩ then n.exchangePeers around rest
    else (n.meet around peer).exchangePeers around rest

omit [SignatureSuite] in
/-- A peer's height and tip. -/
def handleAnnouncement (n : Node) (around : Surroundings) (sender : PeerAddress) (m : Message) :
    Except NodeError Unit × Node :=
  match HeightAnnouncement.ofMessage m with
  | .error e => (.error (.sync e), n)
  | .ok a =>
    let n := n.exchangePeers around a.peers
    let (request, f) := n.toFollower.onAnnouncement a
    let n := { n with toFollower := f }
    match request with
    | none => (.ok (), n)
    | some r => (.ok (), n.sendTo Topic.sync sender (r.toMessage n.codec))

omit [SignatureSuite] in
/-- A request for blocks. -/
def handleGetHeaders (n : Node) (sender : PeerAddress) (m : Message) :
    Except NodeError Unit × Node :=
  match HeaderRequest.ofMessage m with
  | .error e => (.error (.sync e), n)
  | .ok r =>
    match n.ledger.serve r with
    | .error e => (.error (.sync e), n)
    | .ok [] => (.ok (), n)
    | .ok batch => (.ok (), n.sendTo Topic.sync sender (HeaderBatch.toMessage batch n.codec))

omit [SignatureSuite] in
/-- What a batch of blocks entails. -/
def afterBatch (n : Node) (around : Surroundings) (sender : PeerAddress) : BatchOutcome → Node
  | .ignored _ => n
  | .missingTransactions hashes => n.requestTransactions sender .getTxFromLedger hashes
  | .forked _ _ => n.afterCommit around Slot.all
  | .committed reports => reports.foldl (fun n r => n.afterCommit around r.changed) n

/-- A batch of blocks. -/
def handleHeaders (n : Node) (around : Surroundings) (sender : PeerAddress) (m : Message) :
    Except NodeError Unit × Node :=
  match HeaderBatch.ofMessage m with
  | .error e => (.error (.sync e), n)
  | .ok batch =>
    match n.toFollower.onHeaders batch with
    | (.error e, f) => (.error (.sync e), { n with toFollower := f })
    | (.ok outcome, f) => (.ok (), afterBatch { n with toFollower := f } around sender outcome)

/-! ## 3. Transactions -/

omit [SignatureSuite] in
/-- Adds transactions that are neither pending nor committed to the pools; gives those that were
added. -/
def addFresh (n : Node) : List Transaction → Except NodeError (List Transaction) × Node
  | [] => (.ok [], n)
  | t :: rest =>
    if n.ledger.pools.contains t.hash then n.addFresh rest
    else
      match n.ledger.store.hasTransaction t.hash with
      | .error e => (.error (.store e), n)
      | .ok true => n.addFresh rest
      | .ok false =>
        let (added, pools) := n.ledger.pools.add t
        match (n.setPools pools).addFresh rest with
        | (.error e, n) => (.error e, n)
        | (.ok fresh, n) => (.ok (if added then t :: fresh else fresh), n)

omit [SignatureSuite] in
/-- Pending transactions of a peer; those that are new are spread further. -/
def handleGossip (n : Node) (v : CheckedMessage) : Except NodeError Unit × Node :=
  match n.addFresh (v.transactions.toList.flatMap Prod.snd) with
  | (.error e, n) => (.error e, n)
  | (.ok fresh, n) =>
    if fresh = [] ∨ n.ledger.syncing then (.ok (), n)
    else (.ok (), n.broadcast Topic.transaction (transactionsMessage n.codec fresh))

omit [SignatureSuite] in
/-- The transaction with a hash, committed if that is wanted, else pending. -/
def findTransaction (l : Ledger) (committed : Bool) (hash : Hash) :
    Except NodeError (Option Transaction) :=
  if committed then
    match l.store.transaction? hash with
    | .error e => .error (.store e)
    | .ok (some t) => .ok (some t)
    | .ok none => .ok (l.pools.find? hash)
  else .ok (l.pools.find? hash)

omit [SignatureSuite] in
/-- The transactions whose hashes are given as blobs. -/
def findAll (l : Ledger) (committed : Bool) : List Bytes → Except NodeError (List Transaction)
  | [] => .ok []
  | b :: rest =>
    match (FixedBytes.ofBytes? b : Option Hash) with
    | none => .error (.malformed .hashLength)
    | some hash =>
      match findTransaction l committed hash with
      | .error e => .error e
      | .ok found =>
        match findAll l committed rest with
        | .error e => .error e
        | .ok others => .ok (found.toList ++ others)

omit [SignatureSuite] in
/-- A request for transactions. -/
def handleTransactionRequest (n : Node) (sender : PeerAddress) (committed : Bool) (m : Message) :
    Except NodeError Unit × Node :=
  match findAll n.ledger committed (m.blobs Topic.standardPool) with
  | .error e => (.error e, n)
  | .ok [] => (.ok (), n)
  | .ok found =>
    (.ok (), n.sendTo Topic.transaction sender (transactionsMessage n.codec found))

/-! ## 4. Dispatch -/

/-- Whether messages of a kind have a place on a topic. -/
def isServed (opcode : Opcode) (topic : Topic) : Bool :=
  match opcode with
  | .nonce => topic == Topic.nonce || topic == Topic.selfNonce
  | .block => topic == Topic.sync
  | .heightAnnounce => topic == Topic.sync
  | .getHeaders => topic == Topic.sync
  | .sendHeaders => topic == Topic.sync
  | .txGossip => topic == Topic.transaction
  | .getTxFromPool => topic == Topic.transaction
  | .getTxFromLedger => topic == Topic.transaction

/-- Hands a message to the handler of its opcode. -/
def dispatch (n : Node) (around : Surroundings) (topic : Topic) (sender : PeerAddress)
    (v : CheckedMessage) : Except NodeError Unit × Node :=
  if !isServed v.message.head topic then
    (.error (.wrongTopic v.message.head topic), n)
  else
    match v.message.head with
    | .nonce => n.handleNonce around sender v
    | .block => n.handleBlock around sender v.message
    | .heightAnnounce => n.handleAnnouncement around sender v.message
    | .getHeaders => n.handleGetHeaders sender v.message
    | .sendHeaders => n.handleHeaders around sender v.message
    | .txGossip => n.handleGossip v
    | .getTxFromPool => n.handleTransactionRequest sender false v.message
    | .getTxFromLedger => n.handleTransactionRequest sender true v.message

omit [SignatureSuite] in
/-- Makes a sender pay for bytes that cannot be read: with a ban on the topic of rounds, and a
point of trust on the others. -/
def punishUnreadable (n : Node) (around : Surroundings) (topic : Topic) (sender : PeerAddress) :
    Node :=
  n.setRegistry
    (if topic = Topic.nonce then (n.registry.ban around.now sender (some Topic.nonce)).2
      else (n.registry.fault around.now sender).2)

/-- Takes a message from a peer. -/
def onMessage (n : Node) (around : Surroundings) (topic : Topic) (sender : PeerAddress)
    (bytes : Bytes) : HandlerOutcome × Node :=
  if n.registry.isBanned around.now sender topic then
    (.dropped (sender.toText ++ " is banned"), n)
  else
    match n.codec.checkMessage bytes topic n.ledger.schemes with
    | .error e => (.dropped e.message, n.punishUnreadable around topic sender)
    | .ok v =>
      match (n.setRegistry (n.registry.reward sender)).dispatch around topic sender v with
      | (.ok (), n) => (.handled, n)
      | (.error e, n) =>
        if e.isPeerFault then
          (.dropped e.message, n.setRegistry (n.registry.fault around.now sender).2)
        else (.dropped e.message, n)

/-- Takes the message that has waited longest, if one waits. -/
def handleNext? (n : Node) (around : Surroundings) : Option Node :=
  match n.transport.inbound with
  | [] => none
  | m :: rest =>
    some (onMessage { n with transport := { n.transport with inbound := rest } } around m.topic
      m.sender m.bytes).2

/-- Takes the waiting messages one after the other, and those that come in meanwhile, up to a
number. -/
def handleAll (n : Node) (around : Surroundings) : (most : Nat) → Node
  | 0 => n
  | k + 1 =>
    match n.handleNext? around with
    | none => n
    | some n => n.handleAll around k

end Node

end SynergyNode
