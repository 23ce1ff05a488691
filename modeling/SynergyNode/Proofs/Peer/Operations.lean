import SynergyNode.Proofs.Peer.Registry

/-!
# Runs of operations on a registry

The registry is changed by many parts of a node, in any order.  An `Operation` is one change, and
`perform` makes a row of them, each at its own time.  What is known of a peer lies in several tables
that are changed one by one; the laws here hold after every row of operations.

* `TrustBounded`: trust lies between one and the budget.  A reward adds the point before it looks at
  the budget, so with the largest word as the budget the sum starts again at the lowest
  (`trust_reward_of_max`); with any other no operation leaves the bounds
  (`Operation.trustBounded_after`);
* `Operation.trust_after_of_exempt`: what one operation does to the trust of an exempt address;
* `Operation.expiryOf?_after`: **all that an operation does to the bans**, by the ban that it makes
  (`Operation.bans?`);
* `forgotten_of_exhausted`: a peer that loses its last point of trust is in no table any more;
* `perform_orderly`: so, but for that budget, trust stays within the bounds and the node itself and
  the wildcard keep theirs; they are never banned, and no peer is left half removed.
-/

namespace SynergyNode

namespace Registry

variable {r : Registry} {a b : PeerAddress} {now : UInt64}

/-! ## 1. Operations -/

/-- One change of a registry. -/
inductive Operation where
  | registerValid (a : PeerAddress)
  | registerNode (a : PeerAddress)
  | reward (a : PeerAddress)
  | reduceTrust (a : PeerAddress)
  | fault (a : PeerAddress)
  | ban (a : PeerAddress) (topic : Option Topic)
  | addConnection (route : Route) (c : Connection)
  | removeConnection (route : Route) (id : UInt64)
  | closeAll (a : PeerAddress)
  | setChainHeight (height : UInt64)
deriving DecidableEq

namespace Operation

/-- The registry after an operation that is made at a time. -/
def after (now : UInt64) (r : Registry) : Operation → Registry
  | registerValid a => (r.registerValid a).2
  | registerNode a => r.registerNode a
  | reward a => r.reward a
  | reduceTrust a => (r.reduceTrust a).2
  | fault a => (r.fault now a).2
  | ban a topic => (r.ban now a topic).2
  | addConnection route c => r.addConnection route c
  | removeConnection route id => (r.removeConnection route id).2
  | closeAll a => (r.closeAll a).2
  | setChainHeight height => r.setChainHeight height

end Operation

/-- The registry after a row of operations, each with the time at which it is made. -/
def perform (r : Registry) : (ops : List (UInt64 × Operation)) → Registry
  | [] => r
  | (now, op) :: rest => (op.after now r).perform rest

theorem perform_append (r : Registry) (before later : List (UInt64 × Operation)) :
    r.perform (before ++ later) = (r.perform before).perform later := by
  induction before generalizing r with
  | nil => rfl
  | cons e before ih => exact ih (e.2.after e.1 r)

/-- What is set when a registry is made. -/
structure SameSettings (r r' : Registry) : Prop where
  myIp : r'.myIp = r.myIp
  budget : r'.budget = r.budget
  policy : r'.policy = r.policy

theorem SameSettings.of_fixed {r' : Registry} (h : r'.fixed = r.fixed) : r.SameSettings r' :=
  ⟨congrArg Fixed.myIp h, budget_of_fixed h, policy_of_fixed h⟩

theorem SameSettings.refl (r : Registry) : r.SameSettings r := ⟨rfl, rfl, rfl⟩

theorem SameSettings.trans {r' r'' : Registry} (h : r.SameSettings r') (h' : r'.SameSettings r'') :
    r.SameSettings r'' :=
  ⟨h'.myIp.trans h.myIp, h'.budget.trans h.budget, h'.policy.trans h.policy⟩

theorem SameSettings.isExempt {r' : Registry} (h : r.SameSettings r') (a : PeerAddress) :
    r'.isExempt a = r.isExempt a := by
  simp [Registry.isExempt, h.myIp]

namespace Operation

theorem fixed_after (now : UInt64) (r : Registry) {op : Operation}
    (h : ∀ height, op ≠ setChainHeight height) : (op.after now r).fixed = r.fixed := by
  cases op with
  | registerValid a => exact fixed_registerValid r a
  | registerNode a => rfl
  | reward a => exact fixed_reward r a
  | reduceTrust a => exact fixed_reduceTrust r a
  | fault a => exact fixed_fault r now a
  | ban a topic => exact fixed_ban r now a topic
  | addConnection route c => rfl
  | removeConnection route id => exact fixed_removeConnection r route id
  | closeAll a => rfl
  | setChainHeight height => exact absurd rfl (h height)

theorem sameSettings_after (now : UInt64) (r : Registry) (op : Operation) :
    r.SameSettings (op.after now r) := by
  cases op with
  | setChainHeight height => exact ⟨rfl, rfl, rfl⟩
  | _ => exact .of_fixed (fixed_after now r nofun)

end Operation

theorem sameSettings_perform (r : Registry) (ops : List (UInt64 × Operation)) :
    r.SameSettings (r.perform ops) := by
  induction ops generalizing r with
  | nil => exact SameSettings.refl r
  | cons e ops ih => exact (e.2.sameSettings_after e.1 r).trans (ih (e.2.after e.1 r))

/-! ## 2. The bounds of trust -/

/-- Every peer with trust has a point, and none has more than the budget. -/
def TrustBounded (r : Registry) : Prop :=
  ∀ (a : PeerAddress) (t : Int32), r.trust[a]? = some t → 0 < t ∧ t ≤ r.budget

/-- What a peer has afterwards it had before, or a step within the bounds gave it. -/
theorem TrustBounded.of_trust {r' : Registry} (h : r.TrustBounded) (hfixed : r'.fixed = r.fixed)
    (htrust : ∀ (b : PeerAddress) (t : Int32), r'.trust[b]? = some t →
      r.trust[b]? = some t ∨ 0 < t ∧ t ≤ r.budget) : r'.TrustBounded := by
  intro b t ht
  rw [budget_of_fixed hfixed]
  rcases htrust b t ht with ht | ht
  · exact h b t ht
  · exact ht

theorem TrustBounded.registerValid (h : r.TrustBounded) (hbudget : 0 < r.budget)
    (a : PeerAddress) : (r.registerValid a).2.TrustBounded := by
  refine h.of_trust (fixed_registerValid r a) ?_
  intro b t ht
  rw [trust_registerValid] at ht
  split at ht
  · cases htrust : r.trust[a]? with
    | none =>
      rw [htrust] at ht
      cases ht
      exact Or.inr ⟨hbudget, Int32.le_refl _⟩
    | some t' =>
      rw [htrust] at ht
      cases ht
      exact Or.inr (h a t' htrust)
  · exact Or.inl ht

theorem TrustBounded.reward (h : r.TrustBounded) (hbudget : 0 < r.budget)
    (hmax : r.budget ≠ Int32.maxValue) (a : PeerAddress) : (r.reward a).TrustBounded := by
  refine h.of_trust (fixed_reward r a) ?_
  intro b t ht
  rw [trust_reward] at ht
  split at ht
  · right
    obtain ⟨t', htrust, rfl⟩ := Option.map_eq_some_iff.mp ht
    obtain ⟨hpos, hle⟩ := h a t' htrust
    have hgain := Trust.toInt_gain hle hmax
    rw [Trust.pos_iff] at hpos hbudget ⊢
    rw [Int32.le_iff_toInt_le] at hle ⊢
    omega
  · exact Or.inl ht

theorem TrustBounded.ban (h : r.TrustBounded) (now : UInt64) (a : PeerAddress)
    (topic : Option Topic) : (r.ban now a topic).2.TrustBounded := by
  cases hexempt : r.isExempt a with
  | true =>
    rw [ban_of_exempt hexempt]
    exact h
  | false =>
    refine h.of_trust (fixed_ban r now a topic) ?_
    intro b t ht
    rw [trust_ban hexempt] at ht
    split at ht
    · cases ht
    · exact Or.inl ht

theorem TrustBounded.reduceTrust (h : r.TrustBounded) (a : PeerAddress) :
    (r.reduceTrust a).2.TrustBounded := by
  rcases reduceTrust_cases r a with ⟨-, hreduced⟩ | ⟨-, -, hreduced⟩ | ⟨t, -, ht, hleft, hreduced⟩ |
    ⟨t, -, -, -, hreduced⟩
  · rw [hreduced]
    exact h
  · rw [hreduced]
    exact h
  · rw [hreduced]
    refine h.of_trust rfl ?_
    intro b t' ht'
    simp only [Std.ExtTreeMap.getElem?_insert] at ht'
    split at ht'
    · cases ht'
      obtain ⟨hpos, hle⟩ := h a t ht
      have hloss := Trust.toInt_loss hpos
      refine Or.inr ⟨hleft, ?_⟩
      rw [Int32.le_iff_toInt_le] at hle ⊢
      omega
    · exact Or.inl ht'
  · rw [hreduced]
    refine h.of_trust rfl ?_
    intro b t' ht'
    simp only [Std.ExtTreeMap.getElem?_erase] at ht'
    split at ht'
    · cases ht'
    · exact Or.inl ht'

theorem TrustBounded.fault (h : r.TrustBounded) (now : UInt64) (a : PeerAddress) :
    (r.fault now a).2.TrustBounded := by
  have hreduced := h.reduceTrust a
  unfold Registry.fault
  split
  · rename_i heq
    rw [heq] at hreduced
    exact hreduced.ban now a none
  · exact hreduced

theorem TrustBounded.removeConnection (h : r.TrustBounded) (route : Route) (id : UInt64) :
    (r.removeConnection route id).2.TrustBounded := by
  refine h.of_trust (fixed_removeConnection r route id) ?_
  intro b t ht
  rw [trust_removeConnection] at ht
  exact Or.inl ht

/-- **No operation leaves the bounds of trust**, as long as one point more than the budget fits in a
word. -/
theorem Operation.trustBounded_after (now : UInt64) {op : Operation} (h : r.TrustBounded)
    (hbudget : 0 < r.budget) (hmax : r.budget ≠ Int32.maxValue) :
    (op.after now r).TrustBounded := by
  cases op with
  | registerValid a => exact h.registerValid hbudget a
  | registerNode a => exact h
  | reward a => exact h.reward hbudget hmax a
  | reduceTrust a => exact h.reduceTrust a
  | fault a => exact h.fault now a
  | ban a topic => exact h.ban now a topic
  | addConnection route c => exact h
  | removeConnection route id => exact h.removeConnection route id
  | closeAll a => exact h
  | setChainHeight height => exact h

theorem trustBounded_perform (h : r.TrustBounded) (hbudget : 0 < r.budget)
    (hmax : r.budget ≠ Int32.maxValue) (ops : List (UInt64 × Operation)) :
    (r.perform ops).TrustBounded := by
  induction ops generalizing r with
  | nil => exact h
  | cons e ops ih =>
    have hsame := (e.2.sameSettings_after e.1 r).budget
    exact ih (Operation.trustBounded_after e.1 h hbudget hmax) (hsame ▸ hbudget) (hsame ▸ hmax)

/-- With the largest word as the budget, a reward at full trust leaves the lowest word. -/
theorem trust_reward_of_max (hbudget : r.budget = Int32.maxValue)
    (htrust : r.trust[a]? = some Int32.maxValue) :
    (r.reward a).trust[a]? = some Int32.minValue := by
  rw [trust_reward, if_pos rfl, htrust, hbudget]
  rfl

/-! ## 3. Exempt addresses -/

theorem ne_of_isExempt (ha : r.isExempt a = true) (hb : r.isExempt b = false) : b ≠ a := by
  rintro rfl
  simp [ha] at hb

theorem trust_reduceTrust_of_exempt (h : r.isExempt a = true) (b : PeerAddress) :
    (r.reduceTrust b).2.trust[a]? = r.trust[a]? := by
  rcases reduceTrust_cases r b with ⟨-, hreduced⟩ | ⟨-, -, hreduced⟩ |
    ⟨t, hb, -, -, hreduced⟩ | ⟨t, hb, -, -, hreduced⟩
  · rw [hreduced]
  · rw [hreduced]
  · simp [hreduced, Std.ExtTreeMap.getElem?_insert, ne_of_isExempt h hb]
  · simp [hreduced, Std.ExtTreeMap.getElem?_erase, ne_of_isExempt h hb]

theorem trust_ban_of_exempt (h : r.isExempt a = true) (now : UInt64) (b : PeerAddress)
    (topic : Option Topic) : (r.ban now b topic).2.trust[a]? = r.trust[a]? := by
  cases hb : r.isExempt b with
  | true => rw [ban_of_exempt hb]
  | false => rw [trust_ban hb, if_neg (ne_of_isExempt h hb)]

theorem trust_fault_of_exempt (h : r.isExempt a = true) (now : UInt64) (b : PeerAddress) :
    (r.fault now b).2.trust[a]? = r.trust[a]? := by
  rcases fault_cases r now b with ⟨-, hfault⟩ | ⟨-, -, hfault⟩ | ⟨t, hb, -, -, hfault⟩ |
    ⟨t, -, -, -, hfault⟩
  · rw [hfault]
  · rw [hfault]
  · simp [hfault, Std.ExtTreeMap.getElem?_insert, ne_of_isExempt h hb]
  · rw [hfault]
    exact trust_ban_of_exempt h now b none

/-- **No operation takes trust from the node itself or the wildcard.** -/
theorem Operation.trust_after_of_exempt (now : UInt64) {op : Operation} {t : Int32}
    (hbounded : r.TrustBounded) (hmax : r.budget ≠ Int32.maxValue) (h : r.isExempt a = true)
    (ht : r.trust[a]? = some t) :
    ∃ t', (op.after now r).trust[a]? = some t' ∧ t ≤ t' := by
  have hsame {r' : Registry} (htrust : r'.trust[a]? = r.trust[a]?) :
      ∃ t', r'.trust[a]? = some t' ∧ t ≤ t' := ⟨t, htrust.trans ht, Int32.le_refl t⟩
  cases op with
  | registerValid b =>
    refine hsame ?_
    simp only [after, trust_registerValid]
    split
    · rename_i heq
      simp [heq, ht]
    · rfl
  | reward b =>
    simp only [after, trust_reward]
    split
    · rename_i heq
      subst heq
      have hle := (hbounded b t ht).2
      have hgain := Trust.toInt_gain hle hmax
      refine ⟨min (t + 1) r.budget, by rw [ht, Option.map_some], ?_⟩
      rw [Int32.le_iff_toInt_le] at hle ⊢
      omega
    · exact hsame rfl
  | reduceTrust b => exact hsame (trust_reduceTrust_of_exempt h b)
  | fault b => exact hsame (trust_fault_of_exempt h now b)
  | ban b topic => exact hsame (trust_ban_of_exempt h now b topic)
  | removeConnection route id => exact hsame (by simp [after])
  | _ => exact hsame rfl

theorem trust_perform_of_exempt {t : Int32} (hbounded : r.TrustBounded) (hbudget : 0 < r.budget)
    (hmax : r.budget ≠ Int32.maxValue) (h : r.isExempt a = true) (ht : r.trust[a]? = some t)
    (ops : List (UInt64 × Operation)) :
    ∃ t', (r.perform ops).trust[a]? = some t' ∧ t ≤ t' := by
  induction ops generalizing r t with
  | nil => exact ⟨t, ht, Int32.le_refl t⟩
  | cons e ops ih =>
    have hsame := e.2.sameSettings_after e.1 r
    obtain ⟨t₁, ht₁, hle₁⟩ := Operation.trust_after_of_exempt e.1 hbounded hmax h ht
    obtain ⟨t₂, ht₂, hle₂⟩ := ih (Operation.trustBounded_after e.1 hbounded hbudget hmax)
      (hsame.budget ▸ hbudget) (hsame.budget ▸ hmax) ((hsame.isExempt a).trans h) ht₁
    exact ⟨t₂, ht₂, Int32.le_trans hle₁ hle₂⟩

/-! ## 4. Bans on record -/

/-- When the ban of a peer on a topic, or on all, runs out. -/
def expiryOf? (r : Registry) (topic : Option Topic) (a : PeerAddress) : Option UInt64 :=
  match topic with
  | none => r.bansEverywhere[a]?
  | some t => r.bansOnTopic[(⟨t, a⟩ : Route)]?

/-- A peer is banned by a ban on the topic or by one on all. -/
theorem isBannedAt_eq_true {topic : Topic} {clock : ChainClock} :
    r.isBannedAt a topic clock = true ↔
      r.isExempt a = false ∧ ∃ on expiry, r.expiryOf? on a = some expiry ∧
        (∀ t, on = some t → t = topic) ∧ r.policy.reading clock < expiry := by
  simp only [isBannedAt, Bool.and_eq_true, Bool.not_eq_true', Bool.or_eq_true, Option.any_eq_true,
    BanPolicy.isActive, decide_eq_true_eq]
  refine and_congr_right fun _ => ?_
  constructor
  · rintro (⟨expiry, hban, hactive⟩ | ⟨expiry, hban, hactive⟩)
    · refine ⟨none, expiry, hban, ?_, hactive⟩
      intro t ht
      cases ht
    · refine ⟨some topic, expiry, hban, ?_, hactive⟩
      intro t ht
      exact (Option.some.inj ht).symm
  · rintro ⟨on, expiry, hban, htopic, hactive⟩
    cases on with
    | none => exact Or.inl ⟨expiry, hban, hactive⟩
    | some t =>
      obtain rfl := htopic t rfl
      exact Or.inr ⟨expiry, hban, hactive⟩

/-- The ban that an operation makes. -/
def Operation.bans? (now : UInt64) (r : Registry) :
    Operation → Option (PeerAddress × Option Topic)
  | ban a topic => if r.isExempt a then none else some (a, topic)
  | fault a => if (r.fault now a).1 = .exhausted then some (a, none) else none
  | _ => none

theorem expiryOf?_ban (h : r.isExempt a = false) (now : UInt64) (on topic : Option Topic)
    (b : PeerAddress) :
    (r.ban now a on).2.expiryOf? topic b =
      if on = topic ∧ a = b then some (r.policy.expiry (r.clock now))
      else (r.expiryOf? topic b).filter (r.policy.isActive (r.clock now)) := by
  cases topic with
  | none => simp only [expiryOf?, bansEverywhere_ban h]
  | some t => simp only [expiryOf?, bansOnTopic_ban h]

/-- **All that an operation does to the bans.**  One that makes a ban enters its end, in place of
the end of an earlier one of the same kind, and clears what has run out. -/
theorem Operation.expiryOf?_after (now : UInt64) (r : Registry) (op : Operation)
    (topic : Option Topic) (b : PeerAddress) :
    (op.after now r).expiryOf? topic b =
      match op.bans? now r with
      | none => r.expiryOf? topic b
      | some (a, on) =>
        if on = topic ∧ a = b then some (r.policy.expiry (r.clock now))
        else (r.expiryOf? topic b).filter (r.policy.isActive (r.clock now)) := by
  cases op with
  | registerValid a =>
    simp only [after, bans?, Registry.registerValid]
    split <;> rfl
  | reward a =>
    simp only [after, bans?, Registry.reward]
    split <;> rfl
  | reduceTrust a =>
    simp only [after, bans?]
    rcases reduceTrust_cases r a with ⟨-, h⟩ | ⟨-, -, h⟩ | ⟨t, -, -, -, h⟩ | ⟨t, -, -, -, h⟩ <;>
      rw [h] <;> rfl
  | fault a =>
    simp only [after, bans?]
    rcases fault_cases r now a with ⟨-, h⟩ | ⟨-, -, h⟩ | ⟨t, -, -, -, h⟩ | ⟨t, ha, -, -, h⟩
    · simp [h]
    · simp [h]
    · simp only [h, reduceCtorEq, if_false]
      rfl
    · simp only [h, if_true, expiryOf?_ban ha]
  | ban a on =>
    simp only [after, bans?]
    cases ha : r.isExempt a with
    | true => simp [ban_of_exempt ha]
    | false => simp only [Bool.false_eq_true, if_false, expiryOf?_ban ha]
  | removeConnection route id =>
    simp only [after, bans?]
    rcases removeConnection_cases r route id with heq | heq <;> rw [heq]
    rfl
  | _ => rfl

/-- An operation bans neither the node itself nor the wildcard. -/
theorem Operation.isExempt_of_bans? {op : Operation} {topic : Option Topic}
    (h : op.bans? now r = some (a, topic)) : r.isExempt a = false := by
  cases op with
  | ban b on =>
    simp only [bans?] at h
    split at h
    · cases h
    · rename_i hexempt
      cases h
      exact Bool.eq_false_iff.mpr hexempt
  | fault b =>
    simp only [bans?] at h
    rcases fault_cases r now b with ⟨-, hfault⟩ | ⟨-, -, hfault⟩ | ⟨t, -, -, -, hfault⟩ |
      ⟨t, hb, -, -, hfault⟩ <;> simp [hfault] at h
    rw [← h.1]
    exact hb
  | _ => cases h

/-- No ban of the node itself or of the wildcard is on record. -/
def SparesExempt (r : Registry) : Prop :=
  ∀ a, r.isExempt a = true → ∀ topic, r.expiryOf? topic a = none

theorem SparesExempt.perform (h : r.SparesExempt) (ops : List (UInt64 × Operation)) :
    (r.perform ops).SparesExempt := by
  induction ops generalizing r with
  | nil => exact h
  | cons e ops ih =>
    refine ih ?_
    intro a ha topic
    rw [(e.2.sameSettings_after e.1 r).isExempt] at ha
    rw [Operation.expiryOf?_after, h a ha topic]
    split
    · rfl
    · rename_i b on hbans
      have hother := ne_of_isExempt ha (Operation.isExempt_of_bans? hbans)
      simp [hother]

/-! ## 5. A peer that has lost its trust -/

theorem nodes_ban (h : r.isExempt a = false) (now : UInt64) (topic : Option Topic) :
    (r.ban now a topic).2.nodes = r.nodes.erase a := by
  cases topic with
  | none => simp [ban, h, closeWhere]
  | some t => simp [ban, h, closeWhere]

/-- No table knows a peer but that of the bans. -/
structure Forgotten (r : Registry) (a : PeerAddress) : Prop where
  untrusted : r.trust[a]? = none
  unmarked : r.isNode a = false
  unconnected : ∀ topic, r.hasConnection ⟨topic, a⟩ = false

/-- At the end of its clock no ban is in force. -/
theorem isBanned_of_end (hclock : r.policy.reading (r.clock now) = Word64.max) (a : PeerAddress)
    (topic : Topic) : r.isBanned now a topic = false := by
  refine Bool.eq_false_iff.mpr fun hbanned => ?_
  obtain ⟨-, on, expiry, -, -, hactive⟩ := isBannedAt_eq_true.mp hbanned
  rw [hclock] at hactive
  exact UInt64.not_lt.mpr (Word64.le_max expiry) hactive

/-- **A peer that loses its last point is forgotten and banned.**  On the ban's own clock the ban is
in force from now on, unless the clock has come to its end. -/
theorem forgotten_of_exhausted (h : (r.fault now a).1 = .exhausted)
    (hduration : 0 < r.policy.duration) :
    (r.fault now a).2.Forgotten a ∧
      ((∀ topic, (r.fault now a).2.isBanned now a topic = true) ↔
        r.policy.reading (r.clock now) ≠ Word64.max) := by
  rcases fault_cases r now a with ⟨-, hfault⟩ | ⟨-, -, hfault⟩ | ⟨t, -, -, -, hfault⟩ |
    ⟨t, ha, -, -, hfault⟩
  · simp [hfault] at h
  · simp [hfault] at h
  · simp [hfault] at h
  · have hconcerns (topic : Topic) : concerns a none ⟨topic, a⟩ := ⟨rfl, nofun⟩
    have hfixed := fixed_ban r now a none
    rw [hfault]
    refine ⟨⟨?_, ?_, ?_⟩, ?_, ?_⟩
    · simp [trust_ban ha]
    · simp [isNode, nodes_ban ha]
    · intro topic
      simp [hasConnection, Std.ExtTreeMap.contains_eq_isSome_getElem?, connections_ban ha,
        if_pos (hconcerns topic)]
    · intro hbanned hclock
      rw [← policy_of_fixed hfixed, ← clock_of_fixed hfixed] at hclock
      have hspared := isBanned_of_end hclock a Topic.sync
      rw [hbanned Topic.sync] at hspared
      cases hspared
    · intro hclock topic
      have hend : (r.policy.reading (r.clock now)).toNat ≠ Word64.max.toNat := fun heq =>
        hclock (UInt64.toNat_inj.mp heq)
      have hbelow := (r.policy.reading (r.clock now)).toNat_lt
      rw [Word64.toNat_max] at hend
      have hholds : r.BansHold now := by
        refine ⟨hduration, ?_⟩
        show _ < 18446744073709551616
        omega
      simp [isBanned_ban ha hholds, hconcerns topic]

/-! ## 6. The order of a registry -/

theorem trustBounded_empty (myIp : PeerAddress) (budget : Int32) (policy : BanPolicy) :
    (empty myIp budget policy).TrustBounded := by
  intro a t ht
  simp [empty] at ht

theorem sparesExempt_empty (myIp : PeerAddress) (budget : Int32) (policy : BanPolicy) :
    (empty myIp budget policy).SparesExempt := by
  intro a _ topic
  cases topic <;> simp [expiryOf?, empty]

theorem isExempt_perform_empty {myIp : PeerAddress} {budget : Int32} {policy : BanPolicy}
    (ha : a = myIp ∨ a = PeerAddress.wildcard) (ops : List (UInt64 × Operation)) :
    ((empty myIp budget policy).perform ops).isExempt a = true := by
  rw [(sameSettings_perform _ ops).isExempt]
  simpa [isExempt, empty] using ha

/-- With the largest word as the budget the first reward takes all trust. -/
theorem trust_perform_of_max (myIp : PeerAddress) (policy : BanPolicy) (a : PeerAddress) :
    ((empty myIp Int32.maxValue policy).perform [(0, .registerValid a)]).trust[a]? =
        some Int32.maxValue ∧
      ((empty myIp Int32.maxValue policy).perform
        ([(0, .registerValid a)] ++ [(0, .reward a)])).trust[a]? = some Int32.minValue := by
  have hfirst : ((empty myIp Int32.maxValue policy).perform [(0, .registerValid a)]).trust[a]? =
      some Int32.maxValue := by
    simp [perform, Operation.after, trust_registerValid, empty]
  have hbudget := (sameSettings_perform (empty myIp Int32.maxValue policy)
    [(0, .registerValid a)]).budget
  refine ⟨hfirst, ?_⟩
  rw [perform_append]
  exact trust_reward_of_max hbudget hfirst

/-- **After any operations the registry is in order**, but for the sum of a reward.  Unless the
budget is the largest word, trust lies between one and the budget, and the node itself and the
wildcard have at least the trust that they ever had.  They are never banned.  And a peer whose fault
takes its last point of trust is then unknown to every table but that of the bans, and banned on
every topic unless the clock of the bans has come to its end. -/
theorem perform_orderly (myIp : PeerAddress) {budget : Int32} {policy : BanPolicy}
    (hbudget : 0 < budget) (hduration : 0 < policy.duration) :
    ((∀ (ops : List (UInt64 × Operation)) (a : PeerAddress) (t : Int32),
        ((empty myIp budget policy).perform ops).trust[a]? = some t → 0 < t ∧ t ≤ budget) ↔
      budget ≠ Int32.maxValue) ∧
    ((∀ a, a = myIp ∨ a = PeerAddress.wildcard →
        ∀ (before later : List (UInt64 × Operation)) (t : Int32),
          ((empty myIp budget policy).perform before).trust[a]? = some t →
          ∃ t', ((empty myIp budget policy).perform (before ++ later)).trust[a]? = some t' ∧
            t ≤ t') ↔
      budget ≠ Int32.maxValue) ∧
    (∀ (ops : List (UInt64 × Operation)) (a : PeerAddress), a = myIp ∨ a = PeerAddress.wildcard →
      ∀ topic, ((empty myIp budget policy).perform ops).expiryOf? topic a = none) ∧
    ∀ (ops : List (UInt64 × Operation)) (now : UInt64) (a : PeerAddress),
      (((empty myIp budget policy).perform ops).fault now a).1 = .exhausted →
      (((empty myIp budget policy).perform ops).fault now a).2.Forgotten a ∧
      ((∀ topic,
          (((empty myIp budget policy).perform ops).fault now a).2.isBanned now a topic = true) ↔
        policy.reading (((empty myIp budget policy).perform ops).clock now) ≠ Word64.max) := by
  have hstart := trustBounded_empty myIp budget policy
  have hsettings := sameSettings_perform (empty myIp budget policy)
  have hwraps : ¬ (0 : Int32) < Int32.minValue := by decide
  refine ⟨⟨?_, ?_⟩, ⟨?_, ?_⟩, ?_, ?_⟩
  · rintro hbounds rfl
    exact hwraps (hbounds _ myIp _ (trust_perform_of_max myIp policy myIp).2).1
  · intro hmax ops a t ht
    have hbounds := trustBounded_perform hstart hbudget hmax ops a t ht
    rw [(hsettings ops).budget] at hbounds
    exact hbounds
  · rintro hkept rfl
    obtain ⟨hfirst, hlater⟩ := trust_perform_of_max myIp policy myIp
    obtain ⟨t', ht', hle⟩ := hkept myIp (Or.inl rfl) _ _ _ hfirst
    rw [hlater] at ht'
    cases ht'
    exact absurd hle (by decide)
  · intro hmax a ha before later t ht
    have hsame := (hsettings before).budget
    have hbounded := trustBounded_perform hstart hbudget hmax before
    rw [perform_append]
    exact trust_perform_of_exempt hbounded (hsame ▸ hbudget) (hsame ▸ hmax)
      (isExempt_perform_empty ha before) ht later
  · intro ops a ha
    exact ((sparesExempt_empty myIp budget policy).perform ops) a (isExempt_perform_empty ha ops)
  · intro ops now a hexhausted
    have hpolicy := (hsettings ops).policy
    have hlost := forgotten_of_exhausted hexhausted (hpolicy ▸ hduration)
    rw [hpolicy] at hlost
    exact hlost

namespace Sample

/-- A registry without peers that forgives one fault. -/
def start : Registry := empty PeerAddress.loopback 2 BanPolicy.standard

/-- A peer. -/
def peer : PeerAddress := ⟨⟨[10, 0, 0, 2], rfl⟩⟩

/-- The peer's connection for blocks. -/
def blockRoute : Route := ⟨Topic.sync, peer⟩

/-- The peer, with a mark and a connection, is at fault, sends something good, and is at fault
again; meanwhile the node hears itself. -/
def troubled : List (UInt64 × Operation) :=
  [(10, .registerValid peer), (10, .registerNode peer), (10, .addConnection blockRoute ⟨1, 0, false⟩),
    (11, .fault peer), (12, .registerValid PeerAddress.loopback), (12, .fault PeerAddress.loopback),
    (12, .reward peer), (13, .reduceTrust peer)]

end Sample

/-- One more fault, and the peer is gone and banned. -/
theorem perform_orderly_troubled :
    ((Sample.start.perform Sample.troubled).fault 20 Sample.peer).1 = .exhausted ∧
      ((Sample.start.perform Sample.troubled).fault 20 Sample.peer).2.Forgotten Sample.peer ∧
      ((Sample.start.perform Sample.troubled).fault 20 Sample.peer).2.isBanned 20 Sample.peer
        Topic.nonce = true := by
  have hlast : ((Sample.start.perform Sample.troubled).fault 20 Sample.peer).1 = .exhausted := by
    decide
  have hbudget : (0 : Int32) < 2 := by decide
  have hduration : 0 < BanPolicy.standard.duration := by decide
  obtain ⟨-, -, -, hfaults⟩ := perform_orderly PeerAddress.loopback hbudget hduration
  obtain ⟨hforgotten, hbanned⟩ := hfaults Sample.troubled 20 Sample.peer hlast
  exact ⟨hlast, hforgotten, hbanned.mpr (by decide) Topic.nonce⟩

/-- A peer with as much trust as a word holds is rewarded, and has less than none.  And at the last
height of all a peer loses its last point and is banned nowhere. -/
theorem disorderly_at_the_ends :
    ((empty PeerAddress.loopback 2147483647 BanPolicy.standard).perform
      [(0, .registerValid Sample.peer), (0, .reward Sample.peer)]).trust[Sample.peer]? =
        some (-2147483648) ∧
      (((empty PeerAddress.loopback 1 (.height 10)).perform
        [(0, .setChainHeight 18446744073709551615), (0, .registerValid Sample.peer)]).fault 0
          Sample.peer).1 = .exhausted ∧
      (((empty PeerAddress.loopback 1 (.height 10)).perform
        [(0, .setChainHeight 18446744073709551615), (0, .registerValid Sample.peer)]).fault 0
          Sample.peer).2.isBanned 0 Sample.peer Topic.sync = false := by
  decide

end Registry

end SynergyNode
