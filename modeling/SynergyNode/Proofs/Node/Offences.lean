import SynergyNode.Proofs.Node.Places
import SynergyNode.Proofs.Peer.Operations

/-!
# What faulty messages cost

A message that a node drops as its sender's fault is an offence: its bytes could not be read, or a
handler rejected it (`Node.Offends`).  A message that can be read is rewarded before a handler sees
it, so that the fault that follows takes the point back that was just given.

* `Node.registry_of_rejected`: a handler that rejects a message has marked its sender at most;
* `Node.Offends.registry_after`: what one offence does to the registry;
* `Node.Offends.pays`: bytes that cannot be read cost a point, or a ban on the topic of rounds; a
  rejected message costs a point only if its sender had the whole budget;
* `Node.offences_ban_iff`: so a row of offences costs `Offence.toll` in the end, and a peer is
  banned when its trust is no more than that.  A node's registry holds trust within the bounds that
  are asked here (`Registry.trustBounded_perform`).
-/

namespace SynergyNode

namespace Node

variable {n : Node}

/-! ## 1. The peers of a node that rejects a message -/

@[simp] theorem registry_setRegistry (n : Node) (r : Registry) :
    (n.setRegistry r).registry = r := rfl

@[simp] theorem registry_sendTo (n : Node) (topic : Topic) (receiver : PeerAddress) (m : Message) :
    (n.sendTo topic receiver m).registry = n.registry := by
  unfold sendTo
  split
  · rfl
  · simp only [registry, Transport.send]
    split
    · rfl
    · split
      · rfl
      · split <;> rfl

@[simp] theorem registry_broadcast (n : Node) (topic : Topic) (m : Message) :
    (n.broadcast topic m).registry = n.registry := registry_sendTo ..

theorem registry_addFresh : ∀ (txs : List Transaction) (n : Node),
    (n.addFresh txs).2.registry = n.registry
  | [], _ => rfl
  | t :: txs, n => by
    unfold addFresh
    split
    · exact registry_addFresh txs n
    · split
      · rfl
      · exact registry_addFresh txs n
      · have hlater := registry_addFresh txs (n.setPools (n.ledger.pools.add t).2)
        simp only
        split
        · rename_i heq
          rw [heq] at hlater
          exact hlater
        · rename_i heq
          rw [heq] at hlater
          exact hlater

variable [SignatureSuite] {n' : Node} {around : Surroundings} {sender : PeerAddress} {m : Message}
  {v : CheckedMessage} {topic : Topic} {e : NodeError}

theorem registry_of_takeBlock {b : Block} (h : n.takeBlock around sender b = (.error e, n')) :
    n'.registry = n.registry := by
  unfold takeBlock at h
  split at h
  · cases h
    rfl
  · split at h
    · cases h
      rfl
    · split at h
      · cases h
        rfl
      · unfold commitProposal at h
        split at h
        · cases h
        · cases h
          rfl
      · cases h

theorem registry_of_handleBlock (h : n.handleBlock around sender m = (.error e, n')) :
    n'.registry = n.registry := by
  unfold handleBlock at h
  split at h
  · cases h
    rfl
  · split at h
    · cases h
      rfl
    · split at h
      · cases h
      · exact registry_of_takeBlock h

/-- A round that fails may have taken its sender for a validator. -/
theorem registry_of_handleNonce (h : n.handleNonce around sender v = (.error e, n')) :
    n'.registry = n.registry ∨ n'.registry = n.registry.registerNode sender := by
  unfold handleNonce at h
  split at h
  · cases h
  · split at h
    · cases h
      exact Or.inl rfl
    · split at h
      · cases h
        exact Or.inl rfl
      · have hblock := registry_of_handleBlock h
        rw [registry_broadcast] at hblock
        split at hblock
        · exact Or.inl hblock
        · exact Or.inr hblock

omit [SignatureSuite] in
theorem registry_of_handleAnnouncement
    (h : n.handleAnnouncement around sender m = (.error e, n')) : n'.registry = n.registry := by
  unfold handleAnnouncement at h
  split at h
  · cases h
    rfl
  · simp only at h
    split at h <;> cases h

omit [SignatureSuite] in
theorem registry_of_handleGetHeaders (h : n.handleGetHeaders sender m = (.error e, n')) :
    n'.registry = n.registry := by
  unfold handleGetHeaders at h
  split at h
  · cases h
    rfl
  · split at h
    · cases h
      rfl
    · cases h
    · cases h

theorem registry_of_handleHeaders (h : n.handleHeaders around sender m = (.error e, n')) :
    n'.registry = n.registry := by
  unfold handleHeaders at h
  split at h
  · cases h
    rfl
  · split at h
    · cases h
      rfl
    · cases h

omit [SignatureSuite] in
theorem registry_of_handleGossip (h : n.handleGossip v = (.error e, n')) :
    n'.registry = n.registry := by
  have hadded := registry_addFresh (v.transactions.toList.flatMap Prod.snd) n
  unfold handleGossip at h
  split at h
  · rename_i heq
    rw [heq] at hadded
    cases h
    exact hadded
  · split at h <;> cases h

omit [SignatureSuite] in
theorem registry_of_transactionRequest {committed : Bool}
    (h : n.handleTransactionRequest sender committed m = (.error e, n')) :
    n'.registry = n.registry := by
  unfold handleTransactionRequest at h
  split at h
  · cases h
    rfl
  · cases h
  · cases h

/-- **A handler that rejects a message has changed nothing about peers**, but for the mark of a
validator. -/
theorem registry_of_rejected (h : n.dispatch around topic sender v = (.error e, n')) :
    n'.registry = n.registry ∨ n'.registry = n.registry.registerNode sender := by
  unfold dispatch at h
  split at h
  · cases h
    exact Or.inl rfl
  split at h
  · exact registry_of_handleNonce h
  · exact Or.inl (registry_of_handleBlock h)
  · exact Or.inl (registry_of_handleAnnouncement h)
  · exact Or.inl (registry_of_handleGetHeaders h)
  · exact Or.inl (registry_of_handleHeaders h)
  · exact Or.inl (registry_of_handleGossip h)
  · exact Or.inl (registry_of_transactionRequest h)
  · exact Or.inl (registry_of_transactionRequest h)

/-! ## 2. One offence -/

end Node

/-- How a message is its sender's fault. -/
inductive Offence where
  /-- Its bytes could not be read as a message on this topic. -/
  | unreadable (topic : Topic)
  /-- It was read, and its handler blames the sender. -/
  | rejected
deriving DecidableEq

namespace Offence

/-- The trust of a sender when the fault is counted: what can be read is rewarded first. -/
def credit (budget t : Int32) : Offence → Int32
  | unreadable _ => t
  | rejected => min (t + 1) budget

/-- The points that an offence costs in the end. -/
def price (budget t : Int32) : Offence → Int
  | unreadable _ => 1
  | rejected => if t = budget then 1 else 0

variable {budget t : Int32} {k : Offence}

theorem toInt_credit (hle : t ≤ budget) (hmax : budget < Int32.maxValue) :
    (k.credit budget t).toInt - 1 = t.toInt - k.price budget t := by
  cases k with
  | unreadable on => rfl
  | rejected =>
    simp only [credit, price, Trust.toInt_gain hle (Int32.ne_of_lt hmax), ← Int32.toInt_inj]
    rw [Int32.le_iff_toInt_le] at hle
    split <;> omega

theorem credit_pos (hpos : 0 < t) (hle : t ≤ budget) (hmax : budget < Int32.maxValue) :
    0 < k.credit budget t := by
  cases k with
  | unreadable on => exact hpos
  | rejected =>
    rw [Trust.pos_iff] at hpos
    rw [Int32.le_iff_toInt_le] at hle
    rw [credit, Trust.pos_iff, Trust.toInt_gain (Int32.le_iff_toInt_le.mpr hle) (Int32.ne_of_lt hmax)]
    omega

theorem price_nonneg : 0 ≤ k.price budget t := by
  cases k with
  | unreadable on => exact Int.one_nonneg
  | rejected =>
    simp only [price]
    split <;> decide

end Offence

namespace Node

variable [SignatureSuite] {n : Node} {around : Surroundings} {topic : Topic} {sender : PeerAddress}
  {bytes : Bytes} {k : Offence}

/-- A message is dropped as the fault of its sender, who is not banned on the topic. -/
inductive Offends (n : Node) (around : Surroundings) (topic : Topic) (sender : PeerAddress)
    (bytes : Bytes) : Offence → Prop where
  | unreadable {e : CodecError} (hfree : n.registry.isBanned around.now sender topic = false)
      (hread : n.codec.checkMessage bytes topic n.ledger.schemes = .error e) :
      Offends n around topic sender bytes (.unreadable topic)
  | rejected {v : CheckedMessage} {e : NodeError} {n' : Node}
      (hfree : n.registry.isBanned around.now sender topic = false)
      (hread : n.codec.checkMessage bytes topic n.ledger.schemes = .ok v)
      (hdispatch : (n.setRegistry (n.registry.reward sender)).dispatch around topic sender v =
        (.error e, n'))
      (hblame : e.isPeerFault = true) :
      Offends n around topic sender bytes .rejected

/-- **What an offence does to the registry**: a ban from rounds, or a fault.  In front of the fault
for a rejected message stands a reward. -/
theorem Offends.registry_after (h : n.Offends around topic sender bytes k) :
    (k = .unreadable Topic.nonce ∧ (n.onMessage around topic sender bytes).2.registry =
      (n.registry.ban around.now sender (some Topic.nonce)).2) ∨
    (k ≠ .unreadable Topic.nonce ∧ ∃ r : Registry,
      (n.onMessage around topic sender bytes).2.registry = (r.fault around.now sender).2 ∧
      r.fixed = n.registry.fixed ∧
      r.trust[sender]? = (n.registry.trust[sender]?).map (k.credit n.registry.budget) ∧
      ∀ on, r.isBanned around.now sender on = n.registry.isBanned around.now sender on) := by
  cases h with
  | unreadable hfree hread =>
    by_cases htopic : topic = Topic.nonce
    · subst htopic
      refine Or.inl ⟨rfl, ?_⟩
      simp [onMessage, hfree, hread, punishUnreadable]
    · refine Or.inr ⟨by simpa using htopic, n.registry, ?_, rfl, ?_, fun on => rfl⟩
      · simp [onMessage, hfree, hread, punishUnreadable, htopic]
      · simp [Offence.credit]
  | rejected hfree hread hdispatch hblame =>
    rename_i n'
    have hafter : (n.onMessage around topic sender bytes).2.registry =
        (n'.registry.fault around.now sender).2 := by
      simp only [onMessage, hfree, hread, hdispatch, hblame, Bool.false_eq_true, if_false, if_true,
        registry_setRegistry]
    have hreward : (n.registry.reward sender).trust[sender]? =
        (n.registry.trust[sender]?).map (Offence.rejected.credit n.registry.budget) := by
      rw [Registry.trust_reward, if_pos rfl]
      rfl
    have hkind : Offence.rejected ≠ .unreadable Topic.nonce := by decide
    refine Or.inr ⟨hkind, n'.registry, hafter, ?_⟩
    rcases registry_of_rejected hdispatch with hsame | hmarked
    · rw [hsame]
      exact ⟨Registry.fixed_reward .., hreward, fun on => Registry.isBanned_reward ..⟩
    · rw [hmarked]
      exact ⟨Registry.fixed_reward .., hreward, fun on => Registry.isBanned_reward ..⟩

theorem Offends.fixed_after (h : n.Offends around topic sender bytes k) :
    (n.onMessage around topic sender bytes).2.registry.fixed = n.registry.fixed := by
  rcases h.registry_after with ⟨-, hafter⟩ | ⟨-, r, hafter, hfixed, -, -⟩
  · rw [hafter, Registry.fixed_ban]
  · rw [hafter, Registry.fixed_fault, hfixed]

/-- An offence ends no ban of its sender. -/
theorem Offends.isBanned_after (h : n.Offends around topic sender bytes k)
    (hbans : n.registry.BansHold around.now) {on : Topic}
    (hbanned : n.registry.isBanned around.now sender on = true) :
    (n.onMessage around topic sender bytes).2.registry.isBanned around.now sender on = true := by
  rcases h.registry_after with ⟨-, hafter⟩ | ⟨-, r, hafter, hfixed, -, hsame⟩
  · rw [hafter]
    cases hexempt : n.registry.isExempt sender with
    | true =>
      rw [Registry.ban_of_exempt hexempt]
      exact hbanned
    | false =>
      rw [Registry.isBanned_ban hexempt hbans, hbanned, Bool.or_true]
  · rw [hafter]
    exact Registry.isBanned_fault (hbans.of_fixed hfixed) sender ((hsame on).trans hbanned)

/-- **Bytes that cannot be read on the topic of rounds cost a ban there.** -/
theorem Offends.isBanned_of_nonce
    (h : n.Offends around topic sender bytes (.unreadable Topic.nonce))
    (hexempt : n.registry.isExempt sender = false) (hbans : n.registry.BansHold around.now) :
    (n.onMessage around topic sender bytes).2.registry.isBanned around.now sender Topic.nonce =
      true := by
  rcases h.registry_after with ⟨-, hafter⟩ | ⟨hother, -⟩
  · rw [hafter, Registry.isBanned_ban hexempt hbans]
    simp [Registry.concerns]
  · exact absurd rfl hother

/-- **Any other offence costs its price**, and a ban on every topic when that is all the sender
has. -/
theorem Offends.pays {t : Int32} (h : n.Offends around topic sender bytes k)
    (hk : k ≠ .unreadable Topic.nonce) (hexempt : n.registry.isExempt sender = false)
    (hbans : n.registry.BansHold around.now) (htrust : n.registry.trust[sender]? = some t)
    (hpos : 0 < t) (hle : t ≤ n.registry.budget) (hmax : n.registry.budget < Int32.maxValue) :
    (t.toInt ≤ k.price n.registry.budget t ∧ ∀ on,
      (n.onMessage around topic sender bytes).2.registry.isBanned around.now sender on = true) ∨
    (k.price n.registry.budget t < t.toInt ∧
      (∀ on, (n.onMessage around topic sender bytes).2.registry.isBanned around.now sender on =
        n.registry.isBanned around.now sender on) ∧
      ∃ left, (n.onMessage around topic sender bytes).2.registry.trust[sender]? = some left ∧
        left.toInt = t.toInt - k.price n.registry.budget t) := by
  rcases h.registry_after with ⟨hnonce, -⟩ | ⟨-, r, hafter, hfixed, hcredit, hsame⟩
  · exact absurd hnonce hk
  have hexempt' : r.isExempt sender = false := (Registry.isExempt_of_fixed hfixed sender).trans hexempt
  have hone : (1 : Int32).toInt = 1 := rfl
  have hprice := Offence.toInt_credit (k := k) hle hmax
  have hnonneg : 0 ≤ k.price n.registry.budget t := Offence.price_nonneg
  rw [htrust, Option.map_some] at hcredit
  have hpositive : 0 < k.credit n.registry.budget t := Offence.credit_pos hpos hle hmax
  have hloss := Trust.toInt_loss hpositive
  have hfault := Registry.fault_of_trust hexempt' hcredit hpositive around.now
  by_cases hleft : 1 < k.credit n.registry.budget t
  · right
    rw [if_pos hleft] at hfault
    rw [hafter, hfault]
    rw [Int32.lt_iff_toInt_lt, hone] at hleft
    refine ⟨by omega, hsame, _, Std.ExtTreeMap.getElem?_insert_self, by omega⟩
  · left
    rw [if_neg hleft] at hfault
    rw [Int32.lt_iff_toInt_lt, hone] at hleft
    refine ⟨by omega, ?_⟩
    intro on
    rw [hafter, hfault, Registry.isBanned_ban hexempt' (hbans.of_fixed hfixed)]
    simp [Registry.concerns]

end Node

/-! ## 3. A row of offences -/

namespace Offence

/-- Whether the bytes could not be read. -/
def isUnreadable : Offence → Bool
  | unreadable _ => true
  | rejected => false

/-- The points that a row of offences costs in the end: one for all bytes that could not be read,
and one if it begins with a rejected message of a peer that has the whole budget. -/
def toll (budget t : Int32) (ks : List Offence) : Int :=
  ks.countP isUnreadable + if ks.head? = some rejected ∧ t = budget then 1 else 0

variable {budget t left : Int32} {k : Offence} {ks : List Offence}

theorem price_le_toll : k.price budget t ≤ toll budget t (k :: ks) := by
  cases k with
  | unreadable on =>
    simp [toll, price, List.countP_cons, isUnreadable]
  | rejected =>
    simp [toll, price, isUnreadable]

/-- After the first offence a peer has less than the budget, so that later rewards are not lost. -/
theorem toll_cons (ks : List Offence) (hle : t ≤ budget)
    (hleft : left.toInt = t.toInt - k.price budget t) :
    toll budget t (k :: ks) = k.price budget t + toll budget left ks := by
  have hless : left ≠ budget := by
    rintro rfl
    rw [Int32.le_iff_toInt_le] at hle
    cases k with
    | unreadable on =>
      simp only [price] at hleft
      omega
    | rejected =>
      simp only [price, ← Int32.toInt_inj] at hleft
      split at hleft <;> omega
  cases k with
  | unreadable on =>
    simp [toll, price, List.countP_cons, isUnreadable, hless]
    omega
  | rejected =>
    simp [toll, price, isUnreadable, hless]
    omega

end Offence

namespace Node

variable [SignatureSuite] {n n' : Node} {now : UInt64} {sender : PeerAddress} {ks : List Offence}

/-- A peer commits one offence after the other while the clock stands still. -/
inductive Misbehaves (now : UInt64) (sender : PeerAddress) : Node → List Offence → Node → Prop where
  | done (n : Node) : Misbehaves now sender n [] n
  | more {n n' : Node} {around : Surroundings} {topic : Topic} {bytes : Bytes} {k : Offence}
      {ks : List Offence} (hnow : around.now = now) (h : n.Offends around topic sender bytes k)
      (hrest : Misbehaves now sender (n.onMessage around topic sender bytes).2 ks n') :
      Misbehaves now sender n (k :: ks) n'

/-- No offence ends a ban of the sender. -/
theorem Misbehaves.isBanned_after (h : Misbehaves now sender n ks n')
    (hbans : n.registry.BansHold now) {on : Topic}
    (hbanned : n.registry.isBanned now sender on = true) :
    n'.registry.isBanned now sender on = true := by
  induction h with
  | done n => exact hbanned
  | more hnow hoffends hrest ih =>
    subst hnow
    exact ih (hbans.of_fixed hoffends.fixed_after) (hoffends.isBanned_after hbans hbanned)

/-- **When a row of offences gets a peer banned**: it was banned, it sent bytes on the topic of
rounds that cannot be read, or its trust is at most the toll.  Rejected messages alone never get a
peer banned that had two points. -/
theorem offences_ban_iff {t : Int32} (h : Misbehaves now sender n ks n')
    (hexempt : n.registry.isExempt sender = false) (hbans : n.registry.BansHold now)
    (htrust : n.registry.trust[sender]? = some t) (hpos : 0 < t) (hle : t ≤ n.registry.budget)
    (hmax : n.registry.budget < Int32.maxValue) :
    (∃ on, n'.registry.isBanned now sender on = true) ↔
      (∃ on, n.registry.isBanned now sender on = true) ∨ .unreadable Topic.nonce ∈ ks ∨
        t.toInt ≤ Offence.toll n.registry.budget t ks := by
  induction h generalizing t with
  | done n =>
    rw [Trust.pos_iff] at hpos
    have hpositive : ¬ t.toInt ≤ Offence.toll n.registry.budget t [] := by
      simp [Offence.toll]
      omega
    simp [hpositive]
  | more hnow hoffends hrest ih =>
    rename_i n n' around topic bytes k ks
    subst hnow
    have hfixed := hoffends.fixed_after
    have hbans' := hbans.of_fixed hfixed
    by_cases hk : k = .unreadable Topic.nonce
    · subst hk
      have hround := hrest.isBanned_after hbans' (hoffends.isBanned_of_nonce hexempt hbans)
      exact iff_of_true ⟨_, hround⟩ (Or.inr (Or.inl List.mem_cons_self))
    have hother : Offence.unreadable Topic.nonce ∈ k :: ks ↔ Offence.unreadable Topic.nonce ∈ ks := by
      rw [List.mem_cons, or_iff_right (Ne.symm hk)]
    rcases hoffends.pays hk hexempt hbans htrust hpos hle hmax with
      ⟨hlast, hbanned⟩ | ⟨hmore, hsame, left, hleft, hvalue⟩
    · have hall := hrest.isBanned_after hbans' (hbanned Topic.sync)
      exact iff_of_true ⟨_, hall⟩ (Or.inr (Or.inr (hlast.trans Offence.price_le_toll)))
    · have hbudget := Registry.budget_of_fixed hfixed
      have htoll := Offence.toll_cons ks hle hvalue
      have hnonneg : 0 ≤ k.price n.registry.budget t := Offence.price_nonneg
      have hpos' : 0 < left := by
        rw [Trust.pos_iff]
        omega
      have hle' : left ≤ n.registry.budget := by
        rw [Int32.le_iff_toInt_le] at hle ⊢
        omega
      have hiff := ih ((Registry.isExempt_of_fixed hfixed sender).trans hexempt) hbans' hleft hpos'
        (hbudget ▸ hle') (hbudget ▸ hmax)
      rw [hiff, hother, hbudget, htoll, hvalue]
      simp only [hsame]
      have hshift : t.toInt - k.price n.registry.budget t ≤ Offence.toll n.registry.budget left ks ↔
          t.toInt ≤ k.price n.registry.budget t + Offence.toll n.registry.budget left ks := by
        omega
      rw [hshift]

end Node

/-! ## 4. Two messages -/

namespace Node

/-- Every signature is valid. -/
local instance indulgent : SignatureSuite := Ledger.Sample.suite

namespace Sample

open Registry.Sample (peer)
open Round.Sample (around)

/-- The node when a peer has connected. -/
def visited : Node := (node []).setRegistry ((node []).registry.registerValid peer).2

theorem isBanned_visited (on : Topic) : visited.registry.isBanned around.now peer on = false := by
  have hempty : (node []).registry.isBanned around.now peer on = false := by
    simp [Registry.isBanned, Registry.isBannedAt, node, Transport.new, Registry.empty]
  rw [visited, registry_setRegistry, Registry.isBanned_registerValid, hempty]

theorem bansHold_visited : visited.registry.BansHold around.now := ⟨by decide, by decide⟩

theorem checkMessage_nothing (live : LiveSchemes) :
    (node []).codec.checkMessage [] Topic.transaction live = .error .insufficientBase := by
  rfl

/-- The peer sends nothing at all, twice. -/
theorem misbehaves_nothing :
    ∃ n', Misbehaves around.now peer visited
      [.unreadable Topic.transaction, .unreadable Topic.transaction] n' := by
  have hfirst : visited.Offends around Topic.transaction peer [] (.unreadable Topic.transaction) :=
    .unreadable (by decide) (checkMessage_nothing _)
  have hsecond : (visited.onMessage around Topic.transaction peer []).2.Offends around
      Topic.transaction peer [] (.unreadable Topic.transaction) :=
    .unreadable (by decide) (checkMessage_nothing _)
  exact ⟨_, .more rfl hfirst (.more rfl hsecond (.done _))⟩

end Sample

/-- A peer that sends bytes which cannot be read is banned with the second message. -/
theorem offences_ban_iff_nothing :
    ∃ (_ : SignatureSuite) (n n' : Node) (now : UInt64) (sender : PeerAddress),
      n.registry.trust[sender]? = some 2 ∧
        Misbehaves now sender n
          [.unreadable Topic.transaction, .unreadable Topic.transaction] n' ∧
        ∃ on, n'.registry.isBanned now sender on = true := by
  obtain ⟨n', h⟩ := Sample.misbehaves_nothing
  have htrust : Sample.visited.registry.trust[Registry.Sample.peer]? = some 2 := by decide
  have hiff := offences_ban_iff h (by decide) Sample.bansHold_visited htrust (by decide) (by decide)
    (by decide)
  have hpaid : (2 : Int32).toInt ≤ Offence.toll Sample.visited.registry.budget 2
      [.unreadable Topic.transaction, .unreadable Topic.transaction] := by decide
  exact ⟨indulgent, _, n', _, _, htrust, h, hiff.mpr (Or.inr (Or.inr hpaid))⟩

namespace Sample

open Registry.Sample (peer)
open Round.Sample (around)

/-- A request for blocks. -/
def request : Message := Message.empty .getHeaders Protocol.defaultChainId

theorem checkMessage_request (live : LiveSchemes) :
    (node []).codec.checkMessage request.toBytes Topic.transaction live = .ok ⟨request, ∅, 0⟩ := by
  rfl

/-- Requests for blocks have no place on the topic of transactions. -/
theorem offends_request {n : Node} (hfree : n.registry.isBanned around.now peer Topic.transaction =
    false) (hcodec : n.codec = (node []).codec) :
    n.Offends around Topic.transaction peer request.toBytes .rejected := by
  have hread := checkMessage_request n.ledger.schemes
  rw [← hcodec] at hread
  exact .rejected hfree hread rfl rfl

end Sample

/-- **A peer with the budget of two keeps its standing after two requests in the wrong place**: each
is rejected as its fault. -/
theorem spared_after_rejections :
    ∃ (_ : SignatureSuite) (n n' : Node) (now : UInt64) (sender : PeerAddress),
      n.registry.budget = 2 ∧ n.registry.isExempt sender = false ∧ n.registry.BansHold now ∧
        n.registry.trust[sender]? = some 2 ∧
        Misbehaves now sender n [.rejected, .rejected] n' ∧
        ∀ on, n'.registry.isBanned now sender on = false := by
  have hexempt : Sample.visited.registry.isExempt Registry.Sample.peer = false := by decide
  have htrust : Sample.visited.registry.trust[Registry.Sample.peer]? = some 2 := by decide
  have hbans := Sample.bansHold_visited
  have hfirst := Sample.offends_request (Sample.isBanned_visited Topic.transaction) rfl
  -- The first request costs the point by which the reward would have exceeded the budget.
  rcases hfirst.pays nofun hexempt hbans htrust (by decide) (by decide) (by decide) with
    ⟨hlast, -⟩ | ⟨-, hsame, left, hleft, hvalue⟩
  · exact absurd hlast (by decide)
  have hone : left = 1 := by
    rw [← Int32.toInt_inj, hvalue]
    decide
  subst hone
  have hfixed := hfirst.fixed_after
  have hsecond := Sample.offends_request
    ((hsame Topic.transaction).trans (Sample.isBanned_visited Topic.transaction)) rfl
  -- The second one costs the point that was given for it.
  rcases hsecond.pays nofun ((Registry.isExempt_of_fixed hfixed _).trans hexempt)
      (hbans.of_fixed hfixed) hleft (by decide) (by decide) (by decide) with
    ⟨hlast, -⟩ | ⟨-, hsame', -⟩
  · exact absurd hlast (by decide)
  refine ⟨indulgent, Sample.visited, _, _, _, rfl, hexempt, hbans, htrust,
    .more rfl hfirst (.more rfl hsecond (.done _)), ?_⟩
  intro on
  rw [hsame', hsame, Sample.isBanned_visited]

end Node

end SynergyNode
