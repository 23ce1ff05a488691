import SynergyNode.Peer.Registry
import SynergyNode.Proofs.Table

/-!
# What operations do to the registry

The registry is seen through the trust of each peer, its connection on each topic, and the topics on
which it is banned.

* `trust_registerValid`, `trust_reward`, `trust_ban`: the trust of every peer afterwards;
* `reduceTrust_cases`, `fault_cases`: all that a fault can do;
* `connections_closeWhere`, `connections_ban`: which connections are left;
* `isBanned_ban_self`, `isBanned_ban`, `isBanned_fault`: a ban that is made is in force, and one
  that is in force stays while the clock stands still.
-/

namespace SynergyNode

/-! ## 1. Points of trust -/

namespace Trust

variable {t budget : Int32}

/-- A point is given back up to the budget.  The sum fits in a word when the budget is not the
largest one. -/
theorem toInt_gain (hle : t ≤ budget) (hmax : budget ≠ Int32.maxValue) :
    (min (t + 1) budget).toInt = min (t.toInt + 1) budget.toInt := by
  have hone : (1 : Int32).toInt = 1 := rfl
  have htop : Int32.maxValue.toInt = 2147483647 := rfl
  have hlow := Int32.le_toInt t
  have hhigh := Int32.toInt_lt budget
  rw [Int32.le_iff_toInt_le] at hle
  rw [ne_eq, ← Int32.toInt_inj, htop] at hmax
  have hsum : (t + 1).toInt = t.toInt + 1 := by
    rw [Int32.toInt_add, hone, Int.bmod_eq_of_le (by omega) (by omega)]
  have hmin : min (t + 1) budget = if t + 1 ≤ budget then t + 1 else budget := rfl
  rw [hmin]
  split
  · rename_i h
    rw [Int32.le_iff_toInt_le] at h
    omega
  · rename_i h
    rw [Int32.le_iff_toInt_le] at h
    omega

theorem toInt_loss (hpos : 0 < t) : (t - 1).toInt = t.toInt - 1 := by
  have hone : (1 : Int32).toInt = 1 := rfl
  have hzero : (0 : Int32).toInt = 0 := rfl
  have hhigh := Int32.toInt_lt t
  rw [Int32.lt_iff_toInt_lt, hzero] at hpos
  rw [Int32.toInt_sub, hone, Int.bmod_eq_of_le (by omega) (by omega)]

theorem pos_iff : 0 < t ↔ 0 < t.toInt := by
  rw [Int32.lt_iff_toInt_lt]
  rfl

end Trust

namespace Registry

variable {r : Registry} {a b : PeerAddress} {route : Route} {now : UInt64}

/-- The settings of a registry and the height on which its bans are measured. -/
structure Fixed where
  myIp : PeerAddress
  budget : Int32
  policy : BanPolicy
  chainHeight : UInt64

/-- What operations on peers do not change. -/
def fixed (r : Registry) : Fixed := ⟨r.myIp, r.budget, r.policy, r.chainHeight⟩

theorem budget_of_fixed {r' : Registry} (h : r'.fixed = r.fixed) : r'.budget = r.budget :=
  congrArg Fixed.budget h

theorem isExempt_of_fixed {r' : Registry} (h : r'.fixed = r.fixed) (a : PeerAddress) :
    r'.isExempt a = r.isExempt a := by
  have hip : r'.myIp = r.myIp := congrArg Fixed.myIp h
  simp only [isExempt, hip]

theorem policy_of_fixed {r' : Registry} (h : r'.fixed = r.fixed) : r'.policy = r.policy :=
  congrArg Fixed.policy h

theorem clock_of_fixed {r' : Registry} (h : r'.fixed = r.fixed) (now : UInt64) :
    r'.clock now = r.clock now :=
  congrArg (ChainClock.mk · now) (congrArg Fixed.chainHeight h)

/-! ## 2. Trust -/

@[simp] theorem fixed_registerValid (r : Registry) (a : PeerAddress) :
    (r.registerValid a).2.fixed = r.fixed := by
  unfold registerValid
  split <;> rfl

@[simp] theorem fixed_reward (r : Registry) (a : PeerAddress) : (r.reward a).fixed = r.fixed := by
  unfold reward
  split <;> rfl

@[simp] theorem connections_registerValid (r : Registry) (a : PeerAddress) :
    (r.registerValid a).2.connections = r.connections := by
  unfold registerValid
  split <;> rfl

@[simp] theorem connections_reward (r : Registry) (a : PeerAddress) :
    (r.reward a).connections = r.connections := by
  unfold reward
  split <;> rfl

/-- The first contact gives a peer the budget, later ones leave it what it has. -/
theorem trust_registerValid (r : Registry) (a b : PeerAddress) :
    (r.registerValid a).2.trust[b]? =
      if a = b then some ((r.trust[a]?).getD r.budget) else r.trust[b]? := by
  unfold registerValid
  cases htrust : r.trust[a]? with
  | none => simp [Std.ExtTreeMap.getElem?_insert]
  | some t =>
    by_cases h : a = b
    · subst h
      simp [htrust]
    · simp [h]

theorem trust_reward (r : Registry) (a b : PeerAddress) :
    (r.reward a).trust[b]? =
      if a = b then (r.trust[a]?).map (fun t => min (t + 1) r.budget) else r.trust[b]? := by
  unfold reward
  cases htrust : r.trust[a]? with
  | none =>
    by_cases h : a = b
    · subst h
      simp [htrust]
    · simp [h]
  | some t => simp [Std.ExtTreeMap.getElem?_insert]

/-- **All that can happen when a peer loses a point**: it is exempt, it has none to lose, it keeps
some, or it loses the last. -/
theorem reduceTrust_cases (r : Registry) (a : PeerAddress) :
    (r.isExempt a = true ∧ r.reduceTrust a = (.exempt, r)) ∨
    (r.isExempt a = false ∧ r.trust[a]? = none ∧ r.reduceTrust a = (.unknown, r)) ∨
    (∃ t, r.isExempt a = false ∧ r.trust[a]? = some t ∧ 0 < t - 1 ∧
      r.reduceTrust a = (.remaining (t - 1), { r with trust := r.trust.insert a (t - 1) })) ∨
    ∃ t, r.isExempt a = false ∧ r.trust[a]? = some t ∧ ¬ 0 < t - 1 ∧
      r.reduceTrust a =
        (.exhausted, { r with trust := r.trust.erase a, nodes := r.nodes.erase a }) := by
  unfold reduceTrust
  cases hexempt : r.isExempt a with
  | true => simp
  | false =>
    cases htrust : r.trust[a]? with
    | none => simp
    | some t =>
      by_cases h : 0 < t - 1
      · simp [h]
      · refine Or.inr (Or.inr (Or.inr ⟨t, rfl, rfl, h, ?_⟩))
        simp only [h, if_false, Bool.false_eq_true]

@[simp] theorem fixed_reduceTrust (r : Registry) (a : PeerAddress) :
    (r.reduceTrust a).2.fixed = r.fixed := by
  rcases reduceTrust_cases r a with ⟨-, h⟩ | ⟨-, -, h⟩ | ⟨t, -, -, -, h⟩ | ⟨t, -, -, -, h⟩
  · rw [h]
  · rw [h]
  · rw [h]
    rfl
  · rw [h]
    rfl

/-! ## 3. Connections -/

@[simp] theorem fixed_closeWhere (r : Registry) (p : Route → Bool) :
    (r.closeWhere p).fixed = r.fixed := rfl

@[simp] theorem trust_closeWhere (r : Registry) (p : Route → Bool) :
    (r.closeWhere p).trust = r.trust := rfl

theorem connections_addConnection (r : Registry) (route route' : Route) (c : Connection) :
    (r.addConnection route c).connections[route']? =
      if route = route' then some c else r.connections[route']? := by
  simp [addConnection, Std.ExtTreeMap.getElem?_insert]

theorem connections_closeWhere (r : Registry) (p : Route → Bool) (route : Route) :
    (r.closeWhere p).connections[route]? = if p route then none else r.connections[route]? := by
  rw [closeWhere, Std.ExtTreeMap.getElem?_filter']
  cases p route with
  | true => simp
  | false => cases r.connections[route]? <;> simp

/-- A connection is removed, or nothing happens. -/
theorem removeConnection_cases (r : Registry) (route : Route) (id : UInt64) :
    (r.removeConnection route id).2 = r ∨
      (r.removeConnection route id).2 = r.closeWhere (· == route) := by
  unfold removeConnection
  split
  · split
    · exact Or.inr rfl
    · exact Or.inl rfl
  · exact Or.inl rfl

@[simp] theorem fixed_removeConnection (r : Registry) (route : Route) (id : UInt64) :
    (r.removeConnection route id).2.fixed = r.fixed := by
  rcases removeConnection_cases r route id with h | h
  · rw [h]
  · rw [h, fixed_closeWhere]

@[simp] theorem trust_removeConnection (r : Registry) (route : Route) (id : UInt64) :
    (r.removeConnection route id).2.trust = r.trust := by
  rcases removeConnection_cases r route id with h | h
  · rw [h]
  · rw [h]
    rfl

/-! ## 4. Bans -/

/-- The routes that a ban of a peer concerns: all of its own, or the one on a topic. -/
def concerns (a : PeerAddress) (topic : Option Topic) (route : Route) : Prop :=
  route.peer = a ∧ ∀ t, topic = some t → route.topic = t

instance (a : PeerAddress) (topic : Option Topic) (route : Route) :
    Decidable (concerns a topic route) :=
  match topic with
  | none => decidable_of_iff (route.peer = a) (by simp [concerns])
  | some t => decidable_of_iff (route.peer = a ∧ route.topic = t) (by simp [concerns])

@[simp] theorem fixed_ban (r : Registry) (now : UInt64) (a : PeerAddress) (topic : Option Topic) :
    (r.ban now a topic).2.fixed = r.fixed := by
  unfold ban
  cases topic with
  | none => simp only; split <;> rfl
  | some t => simp only; split <;> rfl

theorem ban_of_exempt (h : r.isExempt a = true) (now : UInt64) (topic : Option Topic) :
    r.ban now a topic = (false, r) := by
  rw [ban, if_pos h]

theorem trust_ban (h : r.isExempt a = false) (now : UInt64) (topic : Option Topic)
    (b : PeerAddress) :
    (r.ban now a topic).2.trust[b]? = if a = b then none else r.trust[b]? := by
  cases topic with
  | none => simp [ban, h, Std.ExtTreeMap.getElem?_erase]
  | some t => simp [ban, h, Std.ExtTreeMap.getElem?_erase]

/-- A ban closes the connections that it concerns and no others. -/
theorem connections_ban (h : r.isExempt a = false) (now : UInt64) (topic : Option Topic)
    (route : Route) :
    (r.ban now a topic).2.connections[route]? =
      if concerns a topic route then none else r.connections[route]? := by
  obtain ⟨on, peer⟩ := route
  cases topic with
  | none => simp [ban, h, connections_closeWhere, concerns]
  | some t => simp [ban, h, connections_closeWhere, concerns, and_comm]

/-- **All that a fault can do.** -/
theorem fault_cases (r : Registry) (now : UInt64) (a : PeerAddress) :
    (r.isExempt a = true ∧ r.fault now a = (.exempt, r)) ∨
    (r.isExempt a = false ∧ r.trust[a]? = none ∧ r.fault now a = (.unknown, r)) ∨
    (∃ t, r.isExempt a = false ∧ r.trust[a]? = some t ∧ 0 < t - 1 ∧
      r.fault now a = (.remaining (t - 1), { r with trust := r.trust.insert a (t - 1) })) ∨
    ∃ t, r.isExempt a = false ∧ r.trust[a]? = some t ∧ ¬ 0 < t - 1 ∧
      r.fault now a = (.exhausted, (r.ban now a none).2) := by
  rcases reduceTrust_cases r a with ⟨hexempt, h⟩ | ⟨hexempt, htrust, h⟩ |
    ⟨t, hexempt, htrust, hleft, h⟩ | ⟨t, hexempt, htrust, hlast, h⟩
  · exact Or.inl ⟨hexempt, by simp [fault, h]⟩
  · exact Or.inr (Or.inl ⟨hexempt, htrust, by simp [fault, h]⟩)
  · exact Or.inr (Or.inr (Or.inl ⟨t, hexempt, htrust, hleft, by simp [fault, h]⟩))
  · -- The ban takes the peer out of both tables a second time.
    have htrust' : (r.trust.erase a).erase a = r.trust.erase a :=
      Table.erase_of_absent (by simp)
    have hnodes' : (r.nodes.erase a).erase a = r.nodes.erase a :=
      Std.ExtTreeSet.ext_mem (by simp)
    have hban : (Registry.ban { r with trust := r.trust.erase a, nodes := r.nodes.erase a } now a
        none).2 = (r.ban now a none).2 := by
      have hexempt' : Registry.isExempt { r with trust := r.trust.erase a, nodes := r.nodes.erase a }
          a = false := hexempt
      simp only [ban, hexempt, hexempt', htrust', hnodes']
      rfl
    refine Or.inr (Or.inr (Or.inr ⟨t, hexempt, htrust, hlast, ?_⟩))
    simp only [fault, h, hban]

/-- A fault takes a point of trust, or with the last point bans the peer. -/
theorem fault_of_trust {t : Int32} (hexempt : r.isExempt a = false) (htrust : r.trust[a]? = some t)
    (hpos : 0 < t) (now : UInt64) :
    r.fault now a =
      if 1 < t then (.remaining (t - 1), { r with trust := r.trust.insert a (t - 1) })
      else (.exhausted, (r.ban now a none).2) := by
  have hleft : 0 < t - 1 ↔ 1 < t := by
    have hone : (1 : Int32).toInt = 1 := rfl
    rw [Trust.pos_iff, Trust.toInt_loss hpos, Int32.lt_iff_toInt_lt, hone]
    omega
  rcases fault_cases r now a with ⟨h, -⟩ | ⟨-, h, -⟩ | ⟨t', -, h, hsome, hfault⟩ |
    ⟨t', -, h, hlast, hfault⟩
  · rw [hexempt] at h
    cases h
  · rw [htrust] at h
    cases h
  · rw [htrust] at h
    cases h
    rw [hfault, if_pos (hleft.mp hsome)]
  · rw [htrust] at h
    cases h
    rw [hfault, if_neg (fun h => hlast (hleft.mpr h))]

@[simp] theorem fixed_fault (r : Registry) (now : UInt64) (a : PeerAddress) :
    (r.fault now a).2.fixed = r.fixed := by
  rcases fault_cases r now a with ⟨-, h⟩ | ⟨-, -, h⟩ | ⟨t, -, -, -, h⟩ | ⟨t, -, -, -, h⟩
  · rw [h]
  · rw [h]
  · rw [h]
    rfl
  · rw [h]
    exact fixed_ban r now a none

/-! ## 5. Bans in force -/

@[simp] theorem isBanned_registerValid (r : Registry) (a b : PeerAddress) (now : UInt64)
    (topic : Topic) : (r.registerValid a).2.isBanned now b topic = r.isBanned now b topic := by
  unfold registerValid
  split <;> rfl

@[simp] theorem isBanned_reward (r : Registry) (a b : PeerAddress) (now : UInt64)
    (topic : Topic) : (r.reward a).isBanned now b topic = r.isBanned now b topic := by
  unfold reward
  split <;> rfl

/-- Bans are of some length, and the clock is not at its end. -/
structure BansHold (r : Registry) (now : UInt64) : Prop where
  duration : 0 < r.policy.duration
  clock : (r.policy.reading (r.clock now)).toNat + 1 < UInt64.size

/-- So a ban is in force when it is made. -/
theorem BansHold.isActive (h : r.BansHold now) :
    r.policy.isActive (r.clock now) (r.policy.expiry (r.clock now)) = true := by
  have hpositive : 0 < r.policy.duration.toNat := UInt64.lt_iff_toNat_lt.mp h.duration
  have hclock := h.clock
  have hsize : UInt64.size = 2 ^ 64 := rfl
  have hmax := Word64.toNat_max
  rw [BanPolicy.isActive, decide_eq_true_eq, UInt64.lt_iff_toNat_lt, BanPolicy.expiry,
    Word64.toNat_saturatingAdd]
  omega

theorem BansHold.of_fixed {r' : Registry} (h : r.BansHold now) (hfixed : r'.fixed = r.fixed) :
    r'.BansHold now := by
  have hpolicy := policy_of_fixed hfixed
  have hclock := clock_of_fixed hfixed now
  constructor
  · rw [hpolicy]
    exact h.duration
  · rw [hpolicy, hclock]
    exact h.clock

theorem isBanned_of_exempt (h : r.isExempt a = true) (now : UInt64) (topic : Topic) :
    r.isBanned now a topic = false := by
  simp [isBanned, isBannedAt, h]

/-- A ban on every topic enters its end; what has run out leaves. -/
theorem bansEverywhere_ban (h : r.isExempt a = false) (now : UInt64) (topic : Option Topic)
    (b : PeerAddress) :
    (r.ban now a topic).2.bansEverywhere[b]? =
      if topic = none ∧ a = b then some (r.policy.expiry (r.clock now))
      else (r.bansEverywhere[b]?).filter (r.policy.isActive (r.clock now)) := by
  cases topic with
  | none => simp [ban, h, closeWhere, Std.ExtTreeMap.getElem?_insert]
  | some t => simp [ban, h, closeWhere]

/-- A ban on one topic enters its end; what has run out leaves. -/
theorem bansOnTopic_ban (h : r.isExempt a = false) (now : UInt64) (topic : Option Topic)
    (route : Route) :
    (r.ban now a topic).2.bansOnTopic[route]? =
      if topic = some route.topic ∧ a = route.peer then some (r.policy.expiry (r.clock now))
      else (r.bansOnTopic[route]?).filter (r.policy.isActive (r.clock now)) := by
  obtain ⟨on, peer⟩ := route
  cases topic with
  | none => simp [ban, h, closeWhere]
  | some t => simp [ban, h, closeWhere, Std.ExtTreeMap.getElem?_insert]

/-- **While the clock stands still a ban is in force where it was meant**, and the bans that were
in force stay so. -/
theorem isBanned_ban (hexempt : r.isExempt a = false) (hbans : r.BansHold now)
    (topic : Option Topic) (b : PeerAddress) (on : Topic) :
    (r.ban now a topic).2.isBanned now b on =
      (decide (concerns a topic ⟨on, b⟩) || r.isBanned now b on) := by
  have hactive := hbans.isActive
  have hfixed := fixed_ban r now a topic
  cases hb : r.isExempt b with
  | true =>
    have hne : a ≠ b := by
      rintro rfl
      rw [hexempt] at hb
      cases hb
    rw [isBanned_of_exempt ((isExempt_of_fixed hfixed b).trans hb), isBanned_of_exempt hb]
    simp [concerns, Ne.symm hne]
  | false =>
    rw [isBanned, isBanned, isBannedAt, isBannedAt, isExempt_of_fixed hfixed, hb,
      policy_of_fixed hfixed, clock_of_fixed hfixed, bansEverywhere_ban hexempt,
      bansOnTopic_ban hexempt]
    cases topic with
    | none =>
      by_cases h : a = b
      · subst h
        simp [concerns, hactive]
      · simp [concerns, h, Ne.symm h, Option.any_filter]
    | some t =>
      by_cases h : t = on ∧ a = b
      · obtain ⟨rfl, rfl⟩ := h
        simp [concerns, hactive]
      · have hconcern : ¬ concerns a (some t) ⟨on, b⟩ := by
          rintro ⟨hpeer, htopic⟩
          exact h ⟨(htopic t rfl).symm, hpeer.symm⟩
        simp [hconcern, h]

/-- A fault ends no ban. -/
theorem isBanned_fault (hbans : r.BansHold now) (a : PeerAddress) {on : Topic}
    (h : r.isBanned now b on = true) : (r.fault now a).2.isBanned now b on = true := by
  rcases fault_cases r now a with ⟨-, hfault⟩ | ⟨-, -, hfault⟩ | ⟨t, -, -, -, hfault⟩ |
    ⟨t, hexempt, -, -, hfault⟩
  · rw [hfault]
    exact h
  · rw [hfault]
    exact h
  · rw [hfault]
    exact h
  · rw [hfault]
    simp only [isBanned_ban hexempt hbans, h, Bool.or_true]

end Registry

end SynergyNode
