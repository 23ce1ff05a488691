import SynergyNode.Node.Handlers
import SynergyNode.Proofs.Ledger.Orderly
import SynergyNode.Proofs.Round.Proposal
import SynergyNode.Proofs.Sync.Messages
import SynergyNode.Proofs.Sync.Verdict
import SynergyNode.Proofs.Wire.Sifting

/-!
# What messages do to the ledger of a node

Whoever sends a node whatever bytes, on whatever topic, the ledger only goes through regular events:
blocks that were read from bytes are committed, blocks are given up, transactions come in that were
verified on arrival and are new, and pools lose transactions.

* `Codec.checkMessage_eq_ok`: the transactions that are left of a message;
* sections 2 and 3: one lemma for each handler, most of which leave the ledger alone;
* `leads_onMessage`, `leads_gossipPool`: one message, and spreading the pool;
* `leads_run`: any number of them in any order.
-/

namespace SynergyNode

/-! ## 1. The transactions of a message -/

section

variable [SignatureSuite]

/-- Every transaction that is left can be stored and read again. -/
theorem Codec.checkMessage_eq_ok {c : Codec} {bytes : Bytes} {topic : Topic} {live : LiveSchemes}
    {v : CheckedMessage} (h : c.checkMessage bytes topic live = .ok v) {t : Transaction}
    (ht : t ∈ v.transactions.toList.flatMap Prod.snd) :
    t.toBytes.length ≤ Protocol.maxMessageBytes ∧
      (verifiesOn topic = true → t.verify live = .ok ()) := by
  obtain ⟨blob, hread, -, hverified⟩ := of_mem_checkMessage h ht
  exact ⟨Transaction.length_of_ofBytes hread, hverified⟩

end

/-- The blocks of a batch that was read can be stored and read again. -/
theorem HeaderBatch.length_of_ofMessage {m : Message} {batch : HeaderBatch}
    (h : HeaderBatch.ofMessage m = .ok batch) :
    ∀ e ∈ batch, e.2.toBytes.length ≤ Protocol.maxMessageBytes := by
  intro e he
  obtain ⟨i, hi⟩ := List.mem_iff_getElem?.mp he
  obtain ⟨-, -, hplaces⟩ := ofMessage_getElem? h
  obtain ⟨index, block, -, -, hread⟩ := hplaces i e hi
  exact Block.length_of_ofBytes hread.block

/-! ## 2. Batches of blocks -/

namespace Ledger

variable [SignatureSuite] {l : Ledger}

theorem leads_commitBatch : ∀ {batch : HeaderBatch} {l : Ledger} (done : List CommitReport),
    (∀ e ∈ batch, e.2.toBytes.length ≤ Protocol.maxMessageBytes) →
      Leads l (l.commitBatch done batch).2
  | [], l, _, _ => Leads.refl l
  | (index, b) :: rest, l, done, hshort => by
    obtain ⟨hb, hrest⟩ := List.forall_mem_cons.mp hshort
    have hfirst (l : Ledger) : Leads l (l.commit b .sync).2 := leads_commit hb .sync
    unfold commitBatch
    split
    · exact leads_commitBatch done hrest
    · have hfirst := hfirst l
      split
      · rename_i report l' hcommit
        rw [hcommit] at hfirst
        exact hfirst.trans (leads_commitBatch (done ++ [report]) hrest)
      · rename_i hashes l' hcommit
        rw [hcommit] at hfirst
        exact hfirst
      · rename_i e l' _ hcommit
        rw [hcommit] at hfirst
        split
        · exact hfirst
        · exact hfirst

theorem leads_abandonFrom (l : Ledger) (fork distance : UInt64) :
    Leads l (l.abandonFrom fork distance).2 := by
  have hrollback := leads_rollback l (Word64.saturatingSub fork distance)
  unfold abandonFrom
  split
  · rename_i heq
    rw [heq] at hrollback
    exact hrollback
  · rename_i heq
    rw [heq] at hrollback
    exact hrollback

/-- **A batch is taken in regular events.** -/
theorem leads_takeBatch {batch : HeaderBatch} (distance : UInt64)
    (hshort : ∀ e ∈ batch, e.2.toBytes.length ≤ Protocol.maxMessageBytes) :
    Leads l (l.takeBatch distance batch).2 := by
  have hraised := leads_setSyncing l true
  rcases takeBatch_cases l distance batch with
    ⟨_, -, htake⟩ | ⟨fork, -, -, htake⟩ | ⟨-, -, htake⟩
  · rw [htake]
    exact Leads.refl l
  · rw [htake]
    have hgiven := leads_abandonFrom { l with syncing := true } fork distance
    exact (hraised.trans hgiven).trans (leads_setSyncing _ false)
  · rw [htake]
    have hcommitted : Leads { l with syncing := true }
        (commitBatch { l with syncing := true } [] batch).2 := leads_commitBatch [] hshort
    exact (hraised.trans hcommitted).trans (leads_setSyncing _ false)

end Ledger

namespace Node

open Ledger (Leads)

variable {n : Node}

/-! ## 3. Handlers -/

@[simp] theorem ledger_setRegistry (n : Node) (r : Registry) : (n.setRegistry r).ledger = n.ledger :=
  rfl

@[simp] theorem ledger_syncClock (n : Node) : n.syncClock.ledger = n.ledger := rfl

@[simp] theorem ledger_sendTo (n : Node) (topic : Topic) (receiver : PeerAddress) (m : Message) :
    (n.sendTo topic receiver m).ledger = n.ledger := by
  unfold sendTo
  split <;> rfl

@[simp] theorem ledger_broadcast (n : Node) (topic : Topic) (m : Message) :
    (n.broadcast topic m).ledger = n.ledger := ledger_sendTo ..

@[simp] theorem ledger_requestTransactions (n : Node) (receiver : PeerAddress) (opcode : Opcode)
    (hashes : List Hash) : (n.requestTransactions receiver opcode hashes).ledger = n.ledger :=
  ledger_sendTo ..

@[simp] theorem ledger_meet (n : Node) (around : Surroundings) (peer : PeerAddress) :
    (n.meet around peer).ledger = n.ledger := by
  unfold meet dial
  generalize Topic.peerServices = topics
  generalize hn : n.setRegistry (n.registry.registerNode peer) = n'
  have hledger : n'.ledger = n.ledger := by rw [← hn, ledger_setRegistry]
  rw [← hledger]
  clear hn hledger
  induction topics generalizing n' with
  | nil => rfl
  | cons topic topics ih =>
    rw [List.foldl_cons, ih]

@[simp] theorem ledger_alignWallet (n : Node) (around : Surroundings) (slot : Slot) :
    (n.alignWallet around slot).ledger = n.ledger := by
  unfold alignWallet
  split <;> rfl

@[simp] theorem ledger_afterCommit (n : Node) (around : Surroundings) (changed : List Slot) :
    (n.afterCommit around changed).ledger = n.ledger := by
  unfold afterCommit
  rw [← ledger_syncClock n]
  generalize n.syncClock = n'
  induction changed generalizing n' with
  | nil => rfl
  | cons slot changed ih => rw [List.foldl_cons, ih, ledger_alignWallet]

@[simp] theorem ledger_afterBatch (n : Node) (around : Surroundings) (sender : PeerAddress)
    (outcome : BatchOutcome) : (n.afterBatch around sender outcome).ledger = n.ledger := by
  cases outcome with
  | ignored reason => rfl
  | missingTransactions hashes => exact ledger_requestTransactions ..
  | forked fork height => exact ledger_afterCommit ..
  | committed reports =>
    simp only [afterBatch]
    induction reports generalizing n with
    | nil => rfl
    | cons report reports ih => rw [List.foldl_cons, ih, ledger_afterCommit]

theorem ledger_exchangePeers (around : Surroundings) : ∀ (peers : List PeerAddress) (n : Node),
    (n.exchangePeers around peers).ledger = n.ledger
  | [], _ => rfl
  | peer :: rest, n => by
    unfold exchangePeers
    split
    · rfl
    · split
      · exact ledger_exchangePeers around rest n
      · split
        · exact ledger_exchangePeers around rest n
        · rw [ledger_exchangePeers around rest, ledger_meet]

theorem ledger_handleAnnouncement (n : Node) (around : Surroundings) (sender : PeerAddress)
    (m : Message) : (n.handleAnnouncement around sender m).2.ledger = n.ledger := by
  unfold handleAnnouncement
  split
  · rfl
  · rename_i a _
    have hheard (f : Follower) : (f.onAnnouncement a).2.ledger = f.ledger := by
      unfold Follower.onAnnouncement
      split <;> rfl
    have hledger : ((n.exchangePeers around a.peers).toFollower.onAnnouncement a).2.ledger =
        n.ledger := (hheard _).trans (ledger_exchangePeers around a.peers n)
    simp only
    split
    · exact hledger
    · exact (ledger_sendTo ..).trans hledger

theorem ledger_handleGetHeaders (n : Node) (sender : PeerAddress) (m : Message) :
    (n.handleGetHeaders sender m).2.ledger = n.ledger := by
  unfold handleGetHeaders
  split
  · rfl
  · split
    · rfl
    · rfl
    · exact ledger_sendTo ..

theorem ledger_handleTransactionRequest (n : Node) (sender : PeerAddress) (committed : Bool)
    (m : Message) : (n.handleTransactionRequest sender committed m).2.ledger = n.ledger := by
  unfold handleTransactionRequest
  split
  · rfl
  · rfl
  · exact ledger_sendTo ..

/-- What becomes of the first transaction: it is pending or committed and passed over, or the store
fails at it, or it is new and offered to the pools, and the rest is taken after it. -/
theorem addFresh_cons (n : Node) (t : Transaction) (txs : List Transaction) :
    (n.ledger.pools.contains t.hash = true ∨ n.ledger.store.hasTransaction t.hash = .ok true) ∧
        n.addFresh (t :: txs) = n.addFresh txs ∨
      (∃ e, n.ledger.pools.contains t.hash = false ∧
        n.ledger.store.hasTransaction t.hash = .error e ∧
        n.addFresh (t :: txs) = (.error (.store e), n)) ∨
      n.ledger.pools.contains t.hash = false ∧
        n.ledger.store.hasTransaction t.hash = .ok false ∧
        n.addFresh (t :: txs) =
          (((n.setPools (n.ledger.pools.add t).2).addFresh txs).1.map fun fresh =>
              if (n.ledger.pools.add t).1 then t :: fresh else fresh,
            ((n.setPools (n.ledger.pools.add t).2).addFresh txs).2) := by
  cases hpending : n.ledger.pools.contains t.hash with
  | true => simp [addFresh, hpending]
  | false =>
    cases hstored : n.ledger.store.hasTransaction t.hash with
    | error e => simp [addFresh, hpending, hstored]
    | ok stored =>
      cases stored with
      | true => simp [addFresh, hpending, hstored]
      | false =>
        refine Or.inr (Or.inr ⟨rfl, rfl, ?_⟩)
        simp only [addFresh, hpending, hstored, Bool.false_eq_true, if_false]
        rcases (n.setPools (n.ledger.pools.add t).2).addFresh txs with ⟨_ | _, _⟩ <;> rfl

variable [SignatureSuite]

/-- **A transaction comes in when it is neither pending nor committed**; those given were
verified. -/
theorem leads_addFresh : ∀ {txs : List Transaction} {n : Node},
    (∀ t ∈ txs, t.toBytes.length ≤ Protocol.maxMessageBytes ∧
      t.verify n.ledger.schemes = .ok ()) → Leads n.ledger (n.addFresh txs).2.ledger
  | [], n, _ => Leads.refl n.ledger
  | t :: txs, n, h => by
    obtain ⟨⟨hshort, hverified⟩, hrest⟩ := List.forall_mem_cons.mp h
    rcases n.addFresh_cons t txs with ⟨-, hnext⟩ | ⟨e, -, -, hnext⟩ | ⟨hfresh, hstored, hnext⟩
    · rw [hnext]
      exact leads_addFresh hrest
    · rw [hnext]
      exact Leads.refl n.ledger
    · rw [hnext]
      have hadmits : n.ledger.Admits t :=
        { verified := hverified
          short := hshort
          fresh := hfresh
          unstored := Store.contains_of_hasTransaction hstored }
      have hfirst := Ledger.leads_admits hadmits
      have hlater : Leads (n.setPools (n.ledger.pools.add t).2).ledger
          ((n.setPools (n.ledger.pools.add t).2).addFresh txs).2.ledger := leads_addFresh hrest
      exact hfirst.trans hlater

omit [SignatureSuite] in
theorem ledger_handleGossip (n : Node) (v : CheckedMessage) : (n.handleGossip v).2.ledger =
    (n.addFresh (v.transactions.toList.flatMap Prod.snd)).2.ledger := by
  unfold handleGossip
  split
  · rename_i heq
    rw [heq]
  · rename_i heq
    rw [heq]
    split
    · rfl
    · exact ledger_broadcast ..

theorem leads_handleGossip {v : CheckedMessage}
    (h : ∀ t ∈ v.transactions.toList.flatMap Prod.snd,
      t.toBytes.length ≤ Protocol.maxMessageBytes ∧ t.verify n.ledger.schemes = .ok ()) :
    Leads n.ledger (n.handleGossip v).2.ledger := by
  rw [ledger_handleGossip]
  exact leads_addFresh h

theorem ledger_commitProposal (n : Node) (around : Surroundings) (b : Block) :
    (n.commitProposal around b).2.ledger = (n.ledger.commit b .proposal).2 := by
  unfold commitProposal
  split
  · rename_i heq
    rw [ledger_afterCommit, heq]
  · rename_i heq
    rw [heq]

theorem ledger_takeBlock_cases (n : Node) (around : Surroundings) (sender : PeerAddress)
    (b : Block) : (n.takeBlock around sender b).2.ledger = n.ledger ∨
      (n.takeBlock around sender b).2.ledger = (n.ledger.commit b .proposal).2 := by
  unfold takeBlock
  split
  · exact Or.inl rfl
  · split
    · exact Or.inl rfl
    · split
      · exact Or.inl rfl
      · exact Or.inr (ledger_commitProposal n around b)
      · exact Or.inl (ledger_requestTransactions ..)

/-- A message with a block commits the block that was read from it, or does nothing to the
ledger. -/
theorem ledger_handleBlock_cases (n : Node) (around : Surroundings) (sender : PeerAddress)
    (m : Message) : (n.handleBlock around sender m).2.ledger = n.ledger ∨
      ∃ b, b.toBytes.length ≤ Protocol.maxMessageBytes ∧
        (n.handleBlock around sender m).2.ledger = (n.ledger.commit b .proposal).2 := by
  unfold handleBlock
  split
  · exact Or.inl rfl
  · split
    · exact Or.inl rfl
    · rename_i b hread
      split
      · exact Or.inl rfl
      · exact (ledger_takeBlock_cases n around sender b).imp id
          fun htaken => ⟨b, Block.length_of_ofBytes hread, htaken⟩

/-- A round changes votes and bans, and its block is taken like any other. -/
theorem ledger_handleNonce_cases (n : Node) (around : Surroundings) (sender : PeerAddress)
    (v : CheckedMessage) : ∃ l voting pools, Round.Banned n.ledger.pools pools ∧
      l = { n.ledger with voting := voting, pools := pools } ∧
        ((n.handleNonce around sender v).2.ledger = l ∨
          ∃ b, b.toBytes.length ≤ Protocol.maxMessageBytes ∧
            (n.handleNonce around sender v).2.ledger = (l.commit b .proposal).2) := by
  unfold handleNonce
  split
  · exact ⟨n.ledger, _, _, Or.inl rfl, rfl, Or.inl rfl⟩
  rename_i s _
  split
  · exact ⟨n.ledger, _, _, Or.inl rfl, rfl, Or.inl rfl⟩
  rename_i nonce _
  obtain ⟨voting, pools, hbanned, hround⟩ := Round.ledger_answer n.round s n.wallet around nonce
  refine ⟨(n.round.answer s n.wallet around nonce).2.ledger, voting, pools, hbanned, hround, ?_⟩
  split
  · rename_i heq
    rw [heq]
    exact Or.inl rfl
  · rename_i r heq
    rw [heq]
    have hproposed (n' : Node) (hledger : n'.ledger = r.ledger) (m : Message) :
        ((n'.broadcast Topic.sync m).handleBlock around n'.myIp m).2.ledger = r.ledger ∨
          ∃ b, b.toBytes.length ≤ Protocol.maxMessageBytes ∧
            ((n'.broadcast Topic.sync m).handleBlock around n'.myIp m).2.ledger =
              (r.ledger.commit b .proposal).2 := by
      have hblock := ledger_handleBlock_cases (n'.broadcast Topic.sync m) around n'.myIp m
      rw [ledger_broadcast, hledger] at hblock
      exact hblock
    refine hproposed _ ?_ _
    split <;> rfl

theorem leads_handleBlock (n : Node) (around : Surroundings) (sender : PeerAddress) (m : Message) :
    Leads n.ledger (n.handleBlock around sender m).2.ledger := by
  rcases n.ledger_handleBlock_cases around sender m with hledger | ⟨b, hb, hledger⟩
  · rw [hledger]
    exact Leads.refl n.ledger
  · rw [hledger]
    exact Ledger.leads_commit hb .proposal

theorem leads_handleNonce (n : Node) (around : Surroundings) (sender : PeerAddress)
    (v : CheckedMessage) : Leads n.ledger (n.handleNonce around sender v).2.ledger := by
  obtain ⟨l, voting, pools, hbanned, rfl, hround⟩ := n.ledger_handleNonce_cases around sender v
  have hbans : Leads n.ledger { n.ledger with voting := voting, pools := pools } :=
    Ledger.leads_sheds hbanned.sheds voting n.ledger.syncing
  rcases hround with hledger | ⟨b, hb, hledger⟩
  · rw [hledger]
    exact hbans
  · rw [hledger]
    exact hbans.trans (Ledger.leads_commit hb .proposal)

theorem leads_handleHeaders (n : Node) (around : Surroundings) (sender : PeerAddress)
    (m : Message) : Leads n.ledger (n.handleHeaders around sender m).2.ledger := by
  unfold handleHeaders
  split
  · exact Leads.refl n.ledger
  · rename_i batch hread
    have htaken : Leads n.ledger (n.toFollower.onHeaders batch).2.ledger :=
      Ledger.leads_takeBatch n.rollbackDistance (HeaderBatch.length_of_ofMessage hread)
    split
    · rename_i heq
      rw [heq] at htaken
      exact htaken
    · rename_i heq
      rw [heq] at htaken
      rw [ledger_afterBatch]
      exact htaken

/-! ## 4. Messages and the clock -/

theorem leads_dispatch (n : Node) (around : Surroundings) {topic : Topic} (sender : PeerAddress)
    {v : CheckedMessage}
    (h : ∀ t ∈ v.transactions.toList.flatMap Prod.snd,
      t.toBytes.length ≤ Protocol.maxMessageBytes ∧
        (Codec.verifiesOn topic = true → t.verify n.ledger.schemes = .ok ())) :
    Leads n.ledger (n.dispatch around topic sender v).2.ledger := by
  unfold dispatch
  split
  · exact Leads.refl n.ledger
  rename_i hserved
  split
  · exact leads_handleNonce n around sender v
  · exact leads_handleBlock n around sender v.message
  · rw [ledger_handleAnnouncement]
    exact Leads.refl n.ledger
  · rw [ledger_handleGetHeaders]
    exact Leads.refl n.ledger
  · exact leads_handleHeaders n around sender v.message
  · -- Transactions are only taken on their own topic, on which they are verified.
    rename_i hhead
    rw [hhead] at hserved
    have htopic : topic = Topic.transaction := by simpa [isServed] using hserved
    have hverifies : Codec.verifiesOn topic = true := by
      rw [htopic]
      decide
    exact leads_handleGossip fun t ht => ⟨(h t ht).1, (h t ht).2 hverifies⟩
  · rw [ledger_handleTransactionRequest]
    exact Leads.refl n.ledger
  · rw [ledger_handleTransactionRequest]
    exact Leads.refl n.ledger

/-- What a message that is read does to the ledger is what its handler does. -/
theorem ledger_onMessage {around : Surroundings} {topic : Topic} {sender : PeerAddress}
    {bytes : Bytes} {v : CheckedMessage}
    (hfree : n.registry.isBanned around.now sender topic = false)
    (hread : n.codec.checkMessage bytes topic n.ledger.schemes = .ok v) :
    (n.onMessage around topic sender bytes).2.ledger =
      ((n.setRegistry (n.registry.reward sender)).dispatch around topic sender v).2.ledger := by
  simp only [onMessage, hfree, hread, Bool.false_eq_true, if_false]
  split
  · rename_i heq
    rw [heq]
  · rename_i heq
    rw [heq]
    split
    · rfl
    · rfl

/-- A message that is not read leaves the ledger alone. -/
theorem ledger_onMessage_cases (n : Node) (around : Surroundings) (topic : Topic)
    (sender : PeerAddress) (bytes : Bytes) :
    (n.onMessage around topic sender bytes).2.ledger = n.ledger ∨
      ∃ v, n.codec.checkMessage bytes topic n.ledger.schemes = .ok v ∧
        (n.onMessage around topic sender bytes).2.ledger =
          ((n.setRegistry (n.registry.reward sender)).dispatch around topic sender v).2.ledger := by
  cases hfree : n.registry.isBanned around.now sender topic with
  | true =>
    left
    simp only [onMessage, hfree, if_true]
  | false =>
    cases hread : n.codec.checkMessage bytes topic n.ledger.schemes with
    | error e =>
      left
      simp only [onMessage, hfree, hread, Bool.false_eq_true, if_false]
      rfl
    | ok v => exact Or.inr ⟨v, rfl, ledger_onMessage hfree hread⟩

/-- **Whatever is sent to a node, its ledger goes through regular events.** -/
theorem leads_onMessage (n : Node) (around : Surroundings) (topic : Topic) (sender : PeerAddress)
    (bytes : Bytes) : Leads n.ledger (n.onMessage around topic sender bytes).2.ledger := by
  rcases ledger_onMessage_cases n around topic sender bytes with h | ⟨v, hread, h⟩
  · rw [h]
    exact Leads.refl n.ledger
  · rw [h]
    refine leads_dispatch (n.setRegistry (n.registry.reward sender)) around sender ?_
    intro t ht
    exact Codec.checkMessage_eq_ok hread ht

omit [SignatureSuite] in
theorem ledger_announceHeight (n : Node) (around : Surroundings) :
    (n.announceHeight around).ledger = n.ledger := ledger_broadcast ..

theorem ledger_sendNonce (n : Node) (around : Surroundings) :
    (n.sendNonce around).ledger = n.ledger := by
  unfold sendNonce
  split
  · rfl
  · split
    · rfl
    · simp only [ledger_sendTo, ledger_broadcast]

theorem leads_gossipPool (n : Node) : Leads n.ledger n.gossipPool.ledger := by
  have hpruned := Ledger.leads_sheds (l := n.ledger)
    (Pools.sheds_pruneExpired n.ledger.pools n.ledger.height) n.ledger.voting n.ledger.syncing
  unfold gossipPool
  split
  · exact Leads.refl n.ledger
  · simp only
    split
    · exact hpruned
    · rw [ledger_broadcast]
      exact hpruned

/-- What happens to a node. -/
inductive Happening where
  | message (around : Surroundings) (topic : Topic) (sender : PeerAddress) (bytes : Bytes)
  /-- Its pending transactions are spread, after dropping those that are too old. -/
  | gossip
  | announcement (around : Surroundings)
  /-- It opens a round. -/
  | nonce (around : Surroundings)

/-- The node after something happened. -/
def after (n : Node) : Happening → Node
  | .message around topic sender bytes => (n.onMessage around topic sender bytes).2
  | .gossip => n.gossipPool
  | .announcement around => n.announceHeight around
  | .nonce around => n.sendNonce around

/-- The node after one thing after the other happened. -/
def run (n : Node) (happenings : List Happening) : Node := happenings.foldl after n

theorem leads_after (n : Node) (h : Happening) : Leads n.ledger (n.after h).ledger := by
  cases h with
  | message around topic sender bytes => exact leads_onMessage n around topic sender bytes
  | gossip => exact leads_gossipPool n
  | announcement around =>
    rw [after, ledger_announceHeight]
    exact Leads.refl n.ledger
  | nonce around =>
    rw [after, ledger_sendNonce]
    exact Leads.refl n.ledger

/-- **Along every run of a node its ledger goes through regular events.** -/
theorem leads_run (n : Node) (happenings : List Happening) :
    Leads n.ledger (n.run happenings).ledger := by
  induction happenings generalizing n with
  | nil => exact Leads.refl n.ledger
  | cons h rest ih => exact (leads_after n h).trans (ih (n.after h))

end Node

end SynergyNode
