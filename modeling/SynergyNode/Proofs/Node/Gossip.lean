import SynergyNode.Proofs.Node.Intake
import SynergyNode.Proofs.Pool.Bookkeeping

/-!
# Gossip that is heard again

A node takes the transactions of a message one after the other, and what it takes uses up room that
those behind lack.  Heard again, the message brings nothing: what was taken is pending, and what was
refused is refused again, since the pools only grew.

* `Pool.refuses_add_self`, `Pools.refuses_addAll`: what was offered is refused from then on, since
  no reason for it goes away while a pool grows;
* `Ledger.Skips`: a transaction that gossip does not bring in, however much is pending beside it;
* `Node.addFresh_again`: the transactions of a message, one after the other;
* `Node.gossip_heard_again`: one message, heard twice.
-/

namespace SynergyNode

/-! ## 1. What is refused -/

section

variable {p : Pool} {ps : Pools} {t : Transaction}

/-- **What was offered to a pool is refused from then on**, whether it was taken or not. -/
theorem Pool.refuses_add_self (p : Pool) (t : Transaction) : (p.add t).2.Refuses t := by
  rcases p.get?_add_self_cases t with ⟨u, hin⟩ | hbanned | hfull
  · left
    simp [contains_eq, hin]
  · right; left
    simpa [isBanned_add] using hbanned
  · right; right
    exact hfull.add

namespace Pools

@[simp] theorem set_get (ps : Pools) (k : PoolKind) : ps.set k (ps.get k) = ps := by
  cases k <;> rfl

theorem add_of_refuses (h : (ps.get t.body.kind).Refuses t) : ps.add t = (false, ps) := by
  simp [add, Pool.add_of_refuses h]

theorem refuses_add_self (ps : Pools) (t : Transaction) :
    ((ps.add t).2.get t.body.kind).Refuses t := by
  simpa [get_add_self] using Pool.refuses_add_self (ps.get t.body.kind) t

theorem contains_addAll {hash : Hash} (txs : List Transaction) (h : ps.contains hash = true) :
    (ps.addAll txs).contains hash = true := by
  rw [← Bool.not_eq_false, contains_eq_false, not_forall] at h ⊢
  obtain ⟨k, hk⟩ := h
  obtain ⟨u, hu⟩ := Option.ne_none_iff_exists'.mp hk
  refine ⟨k, ?_⟩
  simp [get?_addAll_of_some txs hu]

/-- Nothing that is refused is taken after more has come. -/
theorem refuses_addAll {k : PoolKind} (txs : List Transaction) (h : (ps.get k).Refuses t) :
    ((ps.addAll txs).get k).Refuses t := by
  rcases h with hin | hbanned | hfull
  · left
    rw [Pool.contains_eq, Option.isSome_iff_exists] at hin ⊢
    obtain ⟨u, hu⟩ := hin
    exact ⟨u, get?_addAll_of_some txs hu⟩
  · right; left
    simpa [isBanned_get_addAll] using hbanned
  · right; right
    exact full_addAll k txs hfull

end Pools

end

/-! ## 2. What is skipped -/

namespace Ledger

variable {l : Ledger} {t : Transaction}

/-- Gossip does not bring in a transaction that is pending or committed, or that the pool of its
kind refuses. -/
def Skips (l : Ledger) (t : Transaction) : Prop :=
  l.pools.contains t.hash = true ∨ l.store.hasTransaction t.hash = .ok true ∨
    l.store.hasTransaction t.hash = .ok false ∧ (l.pools.get t.body.kind).Refuses t

theorem Skips.addAll (h : l.Skips t) (txs : List Transaction) :
    Skips { l with pools := l.pools.addAll txs } t := by
  rcases h with hin | hstored | ⟨hstored, hrefused⟩
  · exact Or.inl (Pools.contains_addAll txs hin)
  · exact Or.inr (Or.inl hstored)
  · exact Or.inr (Or.inr ⟨hstored, Pools.refuses_addAll txs hrefused⟩)

end Ledger

namespace Node

variable {n m : Node} {t : Transaction} {txs : List Transaction}

theorem addFresh_of_skips (h : n.ledger.Skips t) (txs : List Transaction) :
    n.addFresh (t :: txs) = n.addFresh txs := by
  rcases n.addFresh_cons t txs with ⟨-, hnext⟩ | ⟨e, hout, hfailed, -⟩ | ⟨hout, hunstored, hnext⟩
  · exact hnext
  · simp [Ledger.Skips, hout, hfailed] at h
  · -- Nothing is added, so the rest is taken by the node as it is.
    have hrefused : (n.ledger.pools.get t.body.kind).Refuses t := by
      simpa [Ledger.Skips, hout, hunstored] using h
    have hsame : n.setPools n.ledger.pools = n := rfl
    rw [hnext, Pools.add_of_refuses hrefused, hsame]
    rcases n.addFresh txs with ⟨_ | _, _⟩ <;> rfl

/-! ## 3. The transactions of a message -/

/-- A message only adds to the pools. -/
theorem addFresh_grows : ∀ (txs : List Transaction) (n : Node),
    ∃ added, (n.addFresh txs).2 = n.setPools (n.ledger.pools.addAll added)
  | [], _ => ⟨[], rfl⟩
  | t :: txs, n => by
    rcases n.addFresh_cons t txs with ⟨-, hnext⟩ | ⟨e, -, -, hnext⟩ | ⟨-, -, hnext⟩
    · rw [hnext]
      exact addFresh_grows txs n
    · rw [hnext]
      exact ⟨[], rfl⟩
    · obtain ⟨added, hadded⟩ := addFresh_grows txs (n.setPools (n.ledger.pools.add t).2)
      refine ⟨t :: added, ?_⟩
      rw [hnext, hadded]
      rfl

/-- What is skipped before a message is skipped after it. -/
theorem skips_addFresh (h : n.ledger.Skips t) (txs : List Transaction) :
    (n.addFresh txs).2.ledger.Skips t := by
  obtain ⟨added, hadded⟩ := addFresh_grows txs n
  rw [hadded]
  exact h.addAll added

/-- **Transactions that come again are skipped one by one**, up to the one at which the store
failed, if it did.  The induction is on the transactions, and the node that hears them again is any
with the ledger that the first time led to. -/
theorem addFresh_again : ∀ {txs : List Transaction} {n : Node},
    m.ledger = (n.addFresh txs).2.ledger →
      m.addFresh txs = ((n.addFresh txs).1.map fun _ => [], m)
  | [], _, _ => rfl
  | t :: txs, n, h => by
    rcases n.addFresh_cons t txs with ⟨hknown, hnext⟩ | ⟨e, hout, hfailed, hnext⟩ |
      ⟨-, hunstored, hnext⟩
    · rw [hnext] at h ⊢
      have hskips : n.ledger.Skips t := hknown.imp_right Or.inl
      have hagain : m.ledger.Skips t := h ▸ skips_addFresh hskips txs
      rw [addFresh_of_skips hagain]
      exact addFresh_again h
    · -- The store has not changed, so it fails again.
      rw [hnext] at h ⊢
      simp [addFresh, h, hout, hfailed, Except.map]
    · -- It was offered to its pool, which refuses it now, whether it took it or not.
      rw [hnext] at h ⊢
      have hoffered : (n.setPools (n.ledger.pools.add t).2).ledger.Skips t :=
        Or.inr (Or.inr ⟨hunstored, Pools.refuses_add_self n.ledger.pools t⟩)
      have hagain : m.ledger.Skips t := h ▸ skips_addFresh hoffered txs
      rw [addFresh_of_skips hagain, addFresh_again h]
      rcases (n.setPools (n.ledger.pools.add t).2).addFresh txs with ⟨_ | _, _⟩ <;> rfl

/-! ## 4. A message -/

/-- **What a handler makes of gossip that comes again**: the outcome of the first time, and nothing
else. -/
theorem handleGossip_again {v : CheckedMessage} (h : m.ledger = (n.handleGossip v).2.ledger) :
    m.handleGossip v = ((n.handleGossip v).1, m) := by
  rw [ledger_handleGossip] at h
  have hagain := addFresh_again h
  rw [handleGossip, hagain, handleGossip]
  rcases n.addFresh (v.transactions.toList.flatMap Prod.snd) with ⟨e | fresh, n'⟩
  · rfl
  · simp only [Except.map, true_or, if_true]
    split <;> rfl

/-- Gossip changes the pools and what is sent, and nothing else. -/
theorem handleGossip_grows (n : Node) (v : CheckedMessage) :
    ∃ added transport, (n.handleGossip v).2 =
      { n.setPools (n.ledger.pools.addAll added) with transport := transport } := by
  obtain ⟨added, hadded⟩ := addFresh_grows (v.transactions.toList.flatMap Prod.snd) n
  refine ⟨added, ?_⟩
  unfold handleGossip
  split
  · rename_i heq
    rw [heq] at hadded
    exact ⟨_, hadded⟩
  · rename_i heq
    rw [heq] at hadded
    subst hadded
    split
    · exact ⟨_, rfl⟩
    · unfold broadcast sendTo
      split
      · exact ⟨_, rfl⟩
      · exact ⟨_, rfl⟩

section

variable [SignatureSuite]

/-- On the topic of transactions, gossip that is heard is handed to its handler, and the sender is
rewarded before and may be faulted after. -/
theorem onMessage_gossip {around : Surroundings} {sender : PeerAddress} {bytes : Bytes}
    {v : CheckedMessage}
    (hfree : n.registry.isBanned around.now sender Topic.transaction = false)
    (hread : n.codec.checkMessage bytes Topic.transaction n.ledger.schemes = .ok v)
    (hhead : v.message.head = .txGossip) :
    ∃ r, (n.onMessage around Topic.transaction sender bytes).2 =
      ((n.setRegistry (n.registry.reward sender)).handleGossip v).2.setRegistry r := by
  have hgossip : (n.setRegistry (n.registry.reward sender)).dispatch around Topic.transaction sender
      v = (n.setRegistry (n.registry.reward sender)).handleGossip v := by
    simp [dispatch, hhead, isServed]
  simp only [onMessage, hfree, hread, hgossip, Bool.false_eq_true, if_false]
  split
  · rename_i heq
    rw [heq]
    exact ⟨_, rfl⟩
  · rename_i heq
    rw [heq]
    split
    · exact ⟨_, rfl⟩
    · exact ⟨_, rfl⟩

theorem onMessage_of_banned {around : Surroundings} {topic : Topic} {sender : PeerAddress}
    (h : n.registry.isBanned around.now sender topic = true) (bytes : Bytes) :
    (n.onMessage around topic sender bytes).2 = n := by
  simp only [onMessage, h, if_true]

/-- **Gossip from senders that are both heard**: the second time only the peers are left to
change. -/
theorem onMessage_gossip_again {around around' : Surroundings} {sender sender' : PeerAddress}
    {bytes : Bytes} {g : Message} (hdecode : n.codec.decode bytes = .ok g)
    (hhead : g.head = .txGossip)
    (hfirst : n.registry.isBanned around.now sender Topic.transaction = false)
    (hm : m = (n.onMessage around Topic.transaction sender bytes).2)
    (hsecond : m.registry.isBanned around'.now sender' Topic.transaction = false) :
    ∃ r, (m.onMessage around' Topic.transaction sender' bytes).2 = m.setRegistry r := by
  obtain ⟨v, hread, hv⟩ : ∃ v, n.codec.checkMessage bytes Topic.transaction n.ledger.schemes = .ok v ∧
      v.message.head = .txGossip := by
    refine ⟨_, Codec.checkMessage_eq hdecode, ?_⟩
    split
    · exact hhead
    · exact hhead
  obtain ⟨r, honce⟩ := onMessage_gossip hfirst hread hv
  rw [honce] at hm
  -- The second time the bytes are read as before, for neither the codec nor the schemes changed.
  have hread' : m.codec.checkMessage bytes Topic.transaction m.ledger.schemes = .ok v := by
    obtain ⟨added, transport, hgrown⟩ :=
      handleGossip_grows (n.setRegistry (n.registry.reward sender)) v
    rw [hm, hgrown]
    exact hread
  obtain ⟨r', htwice⟩ := onMessage_gossip hsecond hread' hv
  have hledger : (m.setRegistry (m.registry.reward sender')).ledger =
      ((n.setRegistry (n.registry.reward sender)).handleGossip v).2.ledger := by
    rw [ledger_setRegistry, hm, ledger_setRegistry]
  rw [handleGossip_again hledger] at htwice
  exact ⟨r', htwice⟩

/-- **Gossip that is heard again changes no pool and is not spread.**  A handler that is given the
same transactions twice does nothing the second time, and has the same outcome.  Bytes that are
received twice, from whichever senders and at whatever times, change only what the node knows of its
peers the second time, unless it was deaf to the first sender and is not to the second. -/
theorem gossip_heard_again (n : Node) :
    (∀ v : CheckedMessage, (n.handleGossip v).2.handleGossip v = n.handleGossip v) ∧
      ∀ (around around' : Surroundings) (sender sender' : PeerAddress) (bytes : Bytes) (g : Message),
        n.codec.decode bytes = .ok g → g.head = .txGossip →
        (n.registry.isBanned around.now sender Topic.transaction = true →
          n.registry.isBanned around'.now sender' Topic.transaction = true) →
        let n₁ := (n.onMessage around Topic.transaction sender bytes).2
        let n₂ := (n₁.onMessage around' Topic.transaction sender' bytes).2
        n₂.ledger.pools = n₁.ledger.pools ∧ n₂.transport.outbox = n₁.transport.outbox ∧
          n₂ = n₁.setRegistry n₂.registry := by
  refine ⟨fun v => handleGossip_again rfl, ?_⟩
  intro around around' sender sender' bytes g hdecode hhead hheard n₁ n₂
  suffices hpeers : ∃ r, n₂ = n₁.setRegistry r by
    obtain ⟨r, hr⟩ := hpeers
    simp [hr, setRegistry]
  cases hsecond : n₁.registry.isBanned around'.now sender' Topic.transaction with
  | true => exact ⟨n₁.registry, onMessage_of_banned hsecond bytes⟩
  | false =>
    refine onMessage_gossip_again hdecode hhead ?_ rfl hsecond
    rw [← Bool.not_eq_true]
    intro hbanned
    have hsame : n₁ = n := onMessage_of_banned hbanned bytes
    rw [hsame, hheard hbanned] at hsecond
    cases hsecond

end

/-- A transfer that is spread twice comes into its pool once. -/
theorem gossip_heard_again_transfer :
    ∃ (_ : SignatureSuite) (n : Node) (around : Surroundings) (sender : PeerAddress) (bytes : Bytes)
      (t : Transaction),
      let n₁ := (n.onMessage around Topic.transaction sender bytes).2
      let n₂ := (n₁.onMessage around Topic.transaction sender bytes).2
      n.ledger.pools.find? t.hash = none ∧ n₁.ledger.pools.find? t.hash = some t ∧
        n₂.ledger.pools = n₁.ledger.pools ∧ n₂.transport.outbox = n₁.transport.outbox := by
  obtain ⟨key, hkey⟩ : ∃ key, Ledger.Sample.OperatorKey key := ⟨_, Ledger.Sample.operatorKey_zeros⟩
  have hfree : (Sample.listening key).registry.isBanned Round.Sample.around.now
      PeerAddress.loopback Topic.transaction = false := by
    simp [Registry.isBanned, Registry.isBannedAt, Registry.isExempt, Sample.listening, Sample.node,
      Transport.new, Registry.empty]
  have hmax : Protocol.maxMessageBytes ≤ PoolLimits.standard.maxBytes := by decide
  have hnone : (Sample.listening key).ledger.pools.find? (Ledger.Sample.transfer key).hash = none :=
    Pools.find?_eq_none.mpr fun kind => Pools.vacant_empty .standard kind _
  have hin : ((Pools.empty .standard).add (Ledger.Sample.transfer key)).2.find?
      (Ledger.Sample.transfer key).hash = some (Ledger.Sample.transfer key) :=
    Pools.find?_add_empty (by decide) ((Ledger.Sample.length_transfer hkey).trans hmax)
  rw [← Sample.pools_gossip hkey hfree] at hin
  obtain ⟨hpools, hspread, -⟩ := (@gossip_heard_again trusting (Sample.listening key)).2
    Round.Sample.around Round.Sample.around PeerAddress.loopback PeerAddress.loopback
    (Sample.gossip key).toBytes (Sample.gossip key) (Sample.decode_gossip hkey) rfl id
  exact ⟨trusting, Sample.listening key, Round.Sample.around, PeerAddress.loopback,
    (Sample.gossip key).toBytes, Ledger.Sample.transfer key, hnone, hin, hpools, hspread⟩

end Node

end SynergyNode
