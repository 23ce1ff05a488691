import SynergyNode.Proofs.Node.Places
import SynergyNode.Proofs.Wire.Message

/-!
# What a message brings into the pools

A message of any kind but one brings a transaction into a pool only as gossip, and only if the
transaction may come in (`Node.Takes`).  All other messages can only take transactions out: a block
those that it lists, a round those that it bans.  The exception are batches of blocks: a fork gives
the transactions of the blocks that are given up back to the pools.

* `Ledger.sheds_commit`: a commit adds to no pool, whatever the store does;
* `Node.takes_addFresh`: transactions are added one after the other, and each could have come in
  first;
* `Node.takes_dispatch`: gossip is only served on the topic on which transactions are verified;
* `Node.takes_onMessage`: one message, on any topic, from any sender.
-/

namespace SynergyNode

/-! ## 1. What only takes out -/

namespace Ledger

theorem pools_advance (l : Ledger) (b : Block) (txs : List Transaction) (changed : List Slot) :
    (l.advance b txs changed).2.pools = txs.foldl (fun p t => (p.remove t.hash).2) l.pools := by
  unfold advance
  simp only
  split
  · rfl
  · rfl

theorem sheds_finish (l : Ledger) (b : Block) (txs : List Transaction) (accounts : Accounts)
    (changed : List Slot) : l.pools.Sheds (l.finish b txs accounts changed).2.pools := by
  unfold finish
  split
  · rename_i store _
    have hadvanced : l.pools.Sheds
        (advance { l with store := store, accounts := accounts } b txs changed).2.pools := by
      rw [pools_advance]
      exact Pools.sheds_removeAll txs l.pools
    split
    · rename_i heq
      rw [heq] at hadvanced
      exact hadvanced
    · rename_i heq
      rw [heq] at hadvanced
      exact hadvanced
  · split
    · exact Pools.Sheds.refl l.pools
    · exact Pools.Sheds.refl l.pools

variable [SignatureSuite]

/-- **A commit adds to no pool**, whether it succeeds, is refused, or the store fails. -/
theorem sheds_commit (l : Ledger) (b : Block) (origin : BlockOrigin) :
    l.pools.Sheds (l.commit b origin).2.pools := by
  rcases commit_stages l b origin with ⟨_, -, hcommit⟩ |
    ⟨-, looked, ⟨_, -, hcommit⟩ | ⟨-, ⟨_, -, hcommit⟩ | ⟨txs, accounts, -, hcommit⟩⟩⟩ <;>
    rw [hcommit]
  · exact Pools.Sheds.refl l.pools
  · exact Pools.Sheds.refl l.pools
  · exact Pools.Sheds.refl l.pools
  · exact sheds_finish { l with voting := l.voting.look looked b.height } b txs accounts
      (b.changedSlots l.lastBlock)

end Ledger

namespace Node

section

variable [SignatureSuite] {n : Node}

theorem sheds_handleBlock (n : Node) (around : Surroundings) (sender : PeerAddress) (m : Message) :
    n.ledger.pools.Sheds (n.handleBlock around sender m).2.ledger.pools := by
  rcases n.ledger_handleBlock_cases around sender m with hledger | ⟨b, -, hledger⟩
  · rw [hledger]
    exact Pools.Sheds.refl n.ledger.pools
  · rw [hledger]
    exact n.ledger.sheds_commit b .proposal

/-- A round bans transactions, and its block takes out those that it lists. -/
theorem sheds_handleNonce (n : Node) (around : Surroundings) (sender : PeerAddress)
    (v : CheckedMessage) : n.ledger.pools.Sheds (n.handleNonce around sender v).2.ledger.pools := by
  obtain ⟨l, voting, pools, hbanned, rfl, hround⟩ := n.ledger_handleNonce_cases around sender v
  rcases hround with hledger | ⟨b, -, hledger⟩
  · rw [hledger]
    exact hbanned.sheds
  · rw [hledger]
    exact hbanned.sheds.trans
      (Ledger.sheds_commit { n.ledger with voting := voting, pools := pools } b .proposal)

/-! ## 2. What may come in -/

/-- What a node asks of a transaction that comes in. -/
structure Takes (n : Node) (t : Transaction) : Prop where
  /-- It is of the node's chain. -/
  chain : t.body.chainId = n.codec.chainId
  /-- Its hash is that of its content. -/
  hash : Transaction.contentHash t.body t.slot t.publicKey = t.hash
  /-- Its sender holds the key. -/
  sender : Address.ofPublicKey t.publicKey = t.body.sender
  /-- The signature is valid under the live schemes. -/
  signature : n.ledger.schemes.verify t.slot t.publicKey t.hash.toList t.signature = .ok ()
  /-- It is not committed. -/
  unstored : n.ledger.store.hasTransaction t.hash = .ok false
  /-- It is in no pool. -/
  fresh : n.ledger.pools.contains t.hash = false
  /-- The pool of its kind has not banned it. -/
  unbanned : (n.ledger.pools.get t.body.kind).isBanned t.hash = false

/-- What a node asks has nothing to do with its peers. -/
theorem Takes.of_setRegistry {r : Registry} {t : Transaction} (h : (n.setRegistry r).Takes t) :
    n.Takes t :=
  ⟨h.chain, h.hash, h.sender, h.signature, h.unstored, h.fresh, h.unbanned⟩

/-- A node that has more pending asks for at least as much. -/
theorem Takes.of_add {t u : Transaction}
    (h : (n.setPools (n.ledger.pools.add u).2).Takes t) : n.Takes t where
  chain := h.chain
  hash := h.hash
  sender := h.sender
  signature := h.signature
  unstored := h.unstored
  fresh := by
    have hlater := Pools.contains_eq_false.mp h.fresh
    rw [Pools.contains_eq_false]
    intro k
    cases hget : (n.ledger.pools.get k).get? t.hash with
    | none => rfl
    | some w =>
      have hkept := Pools.get?_addAll_of_some [u] hget
      cases hkept.symm.trans (hlater k)
  unbanned := by
    have hsame := Pools.isBanned_get_addAll t.body.kind t.hash [u] n.ledger.pools
    exact hsame.symm.trans h.unbanned

/-- **Transactions are added one after the other**, but each is one that the node would have taken
at first. -/
theorem takes_addFresh {kind : PoolKind} {hash : Hash} {t : Transaction} :
    ∀ {txs : List Transaction} {n : Node},
      (∀ u ∈ txs, u.body.chainId = n.codec.chainId ∧ u.verify n.ledger.schemes = .ok ()) →
      ((n.addFresh txs).2.ledger.pools.get kind).get? hash = some t →
      (n.ledger.pools.get kind).get? hash = some t ∨
        n.Takes t ∧ t.body.kind = kind ∧ t.hash = hash
  | [], _, _, h => Or.inl h
  | u :: txs, n, htxs, h => by
    obtain ⟨⟨hchain, hverified⟩, hrest⟩ := List.forall_mem_cons.mp htxs
    rcases n.addFresh_cons u txs with ⟨-, hnext⟩ | ⟨e, -, -, hnext⟩ | ⟨hfresh, hstored, hnext⟩
    · rw [hnext] at h
      exact takes_addFresh hrest h
    · rw [hnext] at h
      exact Or.inl h
    · rw [hnext] at h
      have hrest' : ∀ w ∈ txs, w.body.chainId =
          (n.setPools (n.ledger.pools.add u).2).codec.chainId ∧
            w.verify (n.setPools (n.ledger.pools.add u).2).ledger.schemes = .ok () := hrest
      rcases takes_addFresh hrest' h with hfirst | ⟨htakes, hplace⟩
      · rcases Pools.get?_add_new hfirst with hold | ⟨rfl, hkind, hhash, hopen⟩
        · exact Or.inl hold
        · right
          obtain ⟨hcontent, hsender, hsignature⟩ := Transaction.verify_eq_ok.mp hverified
          refine ⟨⟨hchain, hcontent, hsender, hsignature, hstored, hfresh, ?_⟩, hkind, hhash⟩
          rw [hkind]
          exact hopen
      · exact Or.inr ⟨htakes.of_add, hplace⟩

variable {kind : PoolKind} {hash : Hash} {t : Transaction}

theorem takes_handleGossip {v : CheckedMessage}
    (hv : ∀ u ∈ v.transactions.toList.flatMap Prod.snd,
      u.body.chainId = n.codec.chainId ∧ u.verify n.ledger.schemes = .ok ())
    (h : ((n.handleGossip v).2.ledger.pools.get kind).get? hash = some t) :
    (n.ledger.pools.get kind).get? hash = some t ∨
      n.Takes t ∧ t.body.kind = kind ∧ t.hash = hash := by
  rw [ledger_handleGossip] at h
  exact takes_addFresh hv h

/-- **A handler brings in what the node takes**, unless it is that for batches of blocks. -/
theorem takes_dispatch {around : Surroundings} {topic : Topic} {sender : PeerAddress}
    {v : CheckedMessage} (hhead : v.message.head ≠ .sendHeaders)
    (hv : ∀ u ∈ v.transactions.toList.flatMap Prod.snd, u.body.chainId = n.codec.chainId ∧
      (Codec.verifiesOn topic = true → u.verify n.ledger.schemes = .ok ()))
    (h : ((n.dispatch around topic sender v).2.ledger.pools.get kind).get? hash = some t) :
    (n.ledger.pools.get kind).get? hash = some t ∨
      n.Takes t ∧ t.body.kind = kind ∧ t.hash = hash := by
  unfold dispatch at h
  split at h
  · exact Or.inl h
  rename_i hserved
  split at h
  · exact Or.inl ((sheds_handleNonce n around sender v kind).get? h)
  · exact Or.inl ((sheds_handleBlock n around sender v.message kind).get? h)
  · rw [ledger_handleAnnouncement] at h
    exact Or.inl h
  · rw [ledger_handleGetHeaders] at h
    exact Or.inl h
  · rename_i heq
    exact absurd heq hhead
  · -- Gossip is only served on the topic of transactions, on which they are verified.
    rename_i heq
    rw [heq] at hserved
    have htopic : topic = Topic.transaction := by simpa [isServed] using hserved
    have hverifies : Codec.verifiesOn topic = true := by
      rw [htopic]
      decide
    refine takes_handleGossip ?_ h
    intro u hu
    obtain ⟨hchain, hverified⟩ := hv u hu
    exact ⟨hchain, hverified hverifies⟩
  · rw [ledger_handleTransactionRequest] at h
    exact Or.inl h
  · rw [ledger_handleTransactionRequest] at h
    exact Or.inl h

/-- **What is new in a pool after a message came in as the node asks it**, and is in the pool of its
kind: for every message but a batch of blocks, on every topic and from every sender. -/
theorem takes_onMessage (n : Node) (around : Surroundings) (topic : Topic) (sender : PeerAddress)
    {bytes : Bytes} (hhead : ∀ m, Message.ofBytes bytes = .ok m → m.head ≠ .sendHeaders)
    (h : ((n.onMessage around topic sender bytes).2.ledger.pools.get kind).get? hash = some t) :
    (n.ledger.pools.get kind).get? hash = some t ∨
      n.Takes t ∧ t.body.kind = kind ∧ t.hash = hash := by
  rcases ledger_onMessage_cases n around topic sender bytes with hsame | ⟨v, hread, hsame⟩
  · rw [hsame] at h
    exact Or.inl h
  · rw [hsame] at h
    obtain ⟨m, hbytes, hm⟩ := Codec.head_of_checkMessage hread
    have hv : ∀ u ∈ v.transactions.toList.flatMap Prod.snd, u.body.chainId = n.codec.chainId ∧
        (Codec.verifiesOn topic = true → u.verify n.ledger.schemes = .ok ()) := by
      intro u hu
      obtain ⟨blob, -, hchain, hverified⟩ := Codec.of_mem_checkMessage hread hu
      exact ⟨hchain, hverified⟩
    have hother : v.message.head ≠ .sendHeaders := by
      rw [hm]
      exact hhead m hbytes
    have hrewarded := takes_dispatch (n := n.setRegistry (n.registry.reward sender)) hother hv h
    rcases hrewarded with hold | ⟨htakes, hplace⟩
    · exact Or.inl hold
    · exact Or.inr ⟨htakes.of_setRegistry, hplace⟩

end

/-- Every signature is valid. -/
local instance trusting : SignatureSuite := Ledger.Sample.suite

namespace Sample

open Ledger.Sample (OperatorKey transfer)

variable {key : Bytes}

/-- The node, on the chain of the transfer. -/
def listening (key : Bytes) : Node := { node key with codec := ⟨0, Protocol.maxMessageBytes⟩ }

/-- The message with which the transfer is spread. -/
def gossip (key : Bytes) : Message :=
  (Message.empty .txGossip 0).put Topic.standardPool [(transfer key).toBytes]

theorem encodedLength_gossip (key : Bytes) :
    (gossip key).encodedLength = 20 + (transfer key).toBytes.length := by
  have hentries : (gossip key).entries =
      [(Topic.standardPool, [(transfer key).toBytes])] := rfl
  rw [Message.encodedLength, hentries]
  simp

theorem encodedLength_gossip_le (hkey : OperatorKey key) : (gossip key).encodedLength ≤ 2000 := by
  have hpublic : (transfer key).publicKey.length = 897 := hkey.length
  have hdata : (transfer key).body.data.length = 0 := rfl
  have hsignature : (transfer key).signature.length = 1 := rfl
  rw [encodedLength_gossip, Transaction.length_toBytes, hdata, hpublic, hsignature]
  decide

theorem fits_gossip (hkey : OperatorKey key) : (gossip key).Fits :=
  Message.fits_of_encodedLength_lt
    (Nat.lt_of_le_of_lt (encodedLength_gossip_le hkey) (by decide))

theorem decode_gossip (hkey : OperatorKey key) :
    (listening key).codec.decode (gossip key).toBytes = .ok (gossip key) := by
  have hencode : (listening key).codec.encode (gossip key) = .ok (gossip key).toBytes := by
    have hlimit : 2000 ≤ (listening key).codec.maxMessageBytes := by
      change 2000 ≤ Protocol.maxMessageBytes
      decide
    exact Codec.encode_eq_ok.mpr ⟨(encodedLength_gossip_le hkey).trans hlimit, rfl⟩
  have hchain : (gossip key).chainId = (listening key).codec.chainId := rfl
  rw [Codec.decode_of_fits hencode (fits_gossip hkey), if_pos hchain]

/-- The transfer is all that is left of the message. -/
theorem checkMessage_gossip (hkey : OperatorKey key) :
    ∃ v, (listening key).codec.checkMessage (gossip key).toBytes Topic.transaction
        LiveSchemes.initial = .ok v ∧ v.message.head = .txGossip ∧
      v.transactions.toList.flatMap Prod.snd = [transfer key] := by
  have hkept : (listening key).codec.keep? true LiveSchemes.initial (transfer key).toBytes =
      some (transfer key) := by
    refine Codec.keep?_eq_some_iff.mpr ⟨?_, rfl, ?_⟩
    · exact Transaction.ofBytes_toBytes (Ledger.Sample.length_transfer hkey)
    · intro _
      exact Ledger.Sample.verify_transfer hkey
  have hsifted : ((listening key).codec.sift true LiveSchemes.initial
      [(transfer key).toBytes]).transactions = [transfer key] := by
    simp [Codec.sift_eq, hkept]
  refine ⟨(listening key).codec.siftMessage true LiveSchemes.initial (gossip key), ?_, rfl, ?_⟩
  · have hcarries : (gossip key).head.carriesTransactions = true := rfl
    have hverifies : Codec.verifiesOn Topic.transaction = true := by decide
    simp only [Codec.checkMessage, decode_gossip hkey, hcarries, hverifies, if_true]
  · have hentries : (gossip key).payload.toList =
        [(Topic.standardPool, [(transfer key).toBytes])] := rfl
    simp only [Codec.siftMessage, Std.ExtTreeMap.toList_map, hentries, List.map_cons, List.map_nil,
      hsifted, List.flatMap_cons, List.flatMap_nil, List.append_nil]

/-- The transfer comes in. -/
theorem pools_gossip (hkey : OperatorKey key) {around : Surroundings} {sender : PeerAddress}
    (hfree : (listening key).registry.isBanned around.now sender Topic.transaction = false) :
    ((listening key).onMessage around Topic.transaction sender (gossip key).toBytes).2.ledger.pools =
      ((Pools.empty .standard).add (transfer key)).2 := by
  obtain ⟨v, hread, hhead, hleft⟩ := checkMessage_gossip hkey
  have hread' : (listening key).codec.checkMessage (gossip key).toBytes Topic.transaction
      (listening key).ledger.schemes = .ok v := hread
  generalize hn : (listening key).setRegistry ((listening key).registry.reward sender) = n
  have hledger : n.ledger = opened key := by
    rw [← hn]
    rfl
  have hempty : n.ledger.pools = Pools.empty .standard := by
    rw [hledger]
    rfl
  have hfresh : n.ledger.pools.contains (transfer key).hash = false := by
    rw [hempty, Pools.contains_eq_false]
    intro kind
    exact Pools.vacant_empty .standard kind (transfer key).hash
  have hstored : n.ledger.store.hasTransaction (transfer key).hash = .ok false := by
    rw [hledger]
    exact Ledger.Sample.hasTransaction_transfer _
  have hgossip : n.dispatch around Topic.transaction sender v = n.handleGossip v := by
    simp [dispatch, hhead, isServed]
  rw [ledger_onMessage hfree hread', hn, hgossip, ledger_handleGossip, hleft]
  simp only [addFresh, hfresh, hstored, setPools, Bool.false_eq_true, if_false]
  rw [hempty]

end Sample

/-- A transfer that is spread comes into the pool of its kind. -/
theorem takes_onMessage_gossip :
    ∃ (_ : SignatureSuite) (n : Node) (around : Surroundings) (sender : PeerAddress) (bytes : Bytes)
      (kind : PoolKind) (t : Transaction),
      (∀ m, Message.ofBytes bytes = .ok m → m.head ≠ .sendHeaders) ∧
        (n.ledger.pools.get kind).get? t.hash = none ∧
        ((n.onMessage around Topic.transaction sender bytes).2.ledger.pools.get kind).get? t.hash =
          some t ∧
        n.Takes t ∧ t.body.kind = kind := by
  obtain ⟨key, hkey⟩ : ∃ key, Ledger.Sample.OperatorKey key := ⟨_, Ledger.Sample.operatorKey_zeros⟩
  have hbytes : ∀ m, Message.ofBytes (Sample.gossip key).toBytes = .ok m →
      m.head ≠ .sendHeaders := by
    intro m hm
    rw [Message.ofBytes_toBytes (Sample.fits_gossip hkey)] at hm
    cases hm
    exact nofun
  have hfree : (Sample.listening key).registry.isBanned Round.Sample.around.now
      PeerAddress.loopback Topic.transaction = false := by
    simp [Registry.isBanned, Registry.isBannedAt, Registry.isExempt, Sample.listening, Sample.node,
      Transport.new, Registry.empty]
  have hpools := Sample.pools_gossip hkey hfree
  have hmax : Protocol.maxMessageBytes ≤ PoolLimits.standard.maxBytes := by decide
  obtain ⟨kind, hkind⟩ := Pools.exists_of_find? (Pools.find?_add_empty (by decide)
    ((Ledger.Sample.length_transfer hkey).trans hmax))
  rw [← hpools] at hkind
  have hnone : ((Sample.listening key).ledger.pools.get kind).get?
      (Ledger.Sample.transfer key).hash = none := Pools.vacant_empty .standard kind _
  rcases takes_onMessage (Sample.listening key) Round.Sample.around Topic.transaction
    PeerAddress.loopback hbytes hkind with hold | ⟨htakes, hplace, -⟩
  · cases hnone.symm.trans hold
  · exact ⟨trusting, Sample.listening key, Round.Sample.around, PeerAddress.loopback,
      (Sample.gossip key).toBytes, kind, Ledger.Sample.transfer key, hbytes, hnone, hkind, htakes,
      hplace⟩

end Node

end SynergyNode
