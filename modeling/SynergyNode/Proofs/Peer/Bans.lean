import SynergyNode.Proofs.Peer.Operations

/-!
# How long a ban lasts

Every new ban clears what has run out and replaces an earlier ban of the same kind, and what is
looked up is one of two entries.  While the clock that the bans are measured on never goes back,
neither ends a ban before its time: what is cleared is over, and what replaces a ban ends no
earlier.

* `expiryOf?_perform`: an entry that runs out later than the clock will show stays, or a later one
  takes its place;
* `banned_of_expiryOf?`: an entry comes from an operation that made a ban;
* `bans_last`: so a peer is reported banned on a topic as long as a ban that concerns it has not run
  out, whatever happens in between, and never without such a ban.
-/

namespace SynergyNode

namespace Registry

variable {r : Registry} {a b : PeerAddress} {topic on : Option Topic} {now c c' e : UInt64}
  {op : Operation} {ops before later : List (UInt64 × Operation)}

/-! ## 1. The clock of the bans -/

/-- What the clock shows that bans are measured on. -/
def reading (r : Registry) (now : UInt64) : UInt64 := r.policy.reading (r.clock now)

/-- In the course of some operations the clock of the bans goes from a reading to another and never
back.  It is read after each of them. -/
def Forward (r : Registry) (c : UInt64) (ops : List (UInt64 × Operation)) (c' : UInt64) : Prop :=
  match ops with
  | [] => c ≤ c'
  | (now, op) :: rest =>
    c ≤ (op.after now r).reading now ∧
      (op.after now r).Forward ((op.after now r).reading now) rest c'

instance Forward.decide (c' : UInt64) : ∀ (ops : List (UInt64 × Operation)) (r : Registry)
    (c : UInt64), Decidable (r.Forward c ops c')
  | [], _, c => inferInstanceAs (Decidable (c ≤ c'))
  | (now, op) :: rest, r, c =>
    have := Forward.decide c' rest (op.after now r) ((op.after now r).reading now)
    inferInstanceAs (Decidable (c ≤ (op.after now r).reading now ∧ _))

theorem Forward.le (h : r.Forward c ops c') : c ≤ c' := by
  induction ops generalizing r c with
  | nil => exact h
  | cons first ops ih => exact UInt64.le_trans h.1 (ih h.2)

theorem Forward.of_append (h : r.Forward c (before ++ later) c') :
    ∃ m, (r.perform before).Forward m later c' := by
  induction before generalizing r c with
  | nil => exact ⟨c, h⟩
  | cons first before ih => exact ih h.2

/-- An operation that makes a ban does not move the clock. -/
theorem reading_after_of_bans? (h : op.bans? now r = some (a, topic)) :
    (op.after now r).reading now = r.reading now := by
  have hfixed : (op.after now r).fixed = r.fixed := by
    refine Operation.fixed_after now r ?_
    rintro height rfl
    cases h
  rw [reading, reading, policy_of_fixed hfixed, clock_of_fixed hfixed]

theorem saturatingAdd_mono (h : c ≤ c') (n : UInt64) :
    Word64.saturatingAdd c n ≤ Word64.saturatingAdd c' n := by
  rw [UInt64.le_iff_toNat_le] at h ⊢
  rw [Word64.toNat_saturatingAdd, Word64.toNat_saturatingAdd]
  omega

/-! ## 2. Entries stay -/

/-- A peer is on record with a ban that runs out at a point of the clock or later. -/
def Keeps (r : Registry) (topic : Option Topic) (b : PeerAddress) (e : UInt64) : Prop :=
  ∃ e', r.expiryOf? topic b = some e' ∧ e ≤ e'

/-- One operation: a new ban of the same kind ends no earlier, and what is cleared by a ban of
another kind is over. -/
theorem Keeps.after (h : r.Keeps topic b e) (hle : c ≤ (op.after now r).reading now)
    (hnew : e ≤ Word64.saturatingAdd c r.policy.duration)
    (hactive : (op.after now r).reading now < e) : (op.after now r).Keeps topic b e := by
  obtain ⟨e', hrecord, hlater⟩ := h
  unfold Keeps
  rw [Operation.expiryOf?_after]
  split
  · exact ⟨e', hrecord, hlater⟩
  · rename_i a on hbans
    rw [reading_after_of_bans? hbans] at hle hactive
    split
    · exact ⟨_, rfl, UInt64.le_trans hnew (saturatingAdd_mono hle r.policy.duration)⟩
    · have hstill : r.policy.isActive (r.clock now) e' = true :=
        decide_eq_true (UInt64.lt_of_lt_of_le hactive hlater)
      exact ⟨e', by simp [hrecord, hstill], hlater⟩

/-- **An entry stays as long as the clock shows less than its end**, or a later one takes its place.
The induction is on the operations: at each the clock shows no less than at the one before, and less
than the end. -/
theorem expiryOf?_perform (hforward : r.Forward c ops c') (h : r.Keeps topic b e)
    (hnew : e ≤ Word64.saturatingAdd c r.policy.duration) (hactive : c' < e) :
    (r.perform ops).Keeps topic b e := by
  induction ops generalizing r c with
  | nil => exact h
  | cons first ops ih =>
    obtain ⟨now, op⟩ := first
    obtain ⟨hle, hrest⟩ := hforward
    have hnow : (op.after now r).reading now < e := UInt64.lt_of_le_of_lt hrest.le hactive
    refine ih hrest (h.after hle hnew hnow) ?_
    rw [(op.sameSettings_after now r).policy]
    exact UInt64.le_trans hnew (saturatingAdd_mono hle r.policy.duration)

/-! ## 3. Entries come from bans -/

/-- An operation of a row banned a peer, on a topic or on all, and the ban runs out at a point of
the clock: as long after its reading then as the policy says. -/
def Banned (r : Registry) (ops : List (UInt64 × Operation)) (a : PeerAddress)
    (topic : Option Topic) (expiry : UInt64) : Prop :=
  ∃ before now op later, ops = before ++ (now, op) :: later ∧
    op.bans? now (r.perform before) = some (a, topic) ∧
    expiry = Word64.saturatingAdd ((r.perform before).reading now) r.policy.duration

theorem Banned.cons (first : UInt64 × Operation)
    (h : (first.2.after first.1 r).Banned ops a topic e) : r.Banned (first :: ops) a topic e := by
  obtain ⟨before, now, op, later, rfl, hbans, rfl⟩ := h
  rw [(first.2.sameSettings_after first.1 r).policy]
  exact ⟨first :: before, now, op, later, rfl, hbans, rfl⟩

/-- **An entry was there before, or a ban made it.** -/
theorem banned_of_expiryOf? (h : (r.perform ops).expiryOf? topic b = some e) :
    r.expiryOf? topic b = some e ∨ r.Banned ops b topic e := by
  induction ops generalizing r with
  | nil => exact Or.inl h
  | cons first ops ih =>
    rcases ih h with hrecord | hlater
    · rw [Operation.expiryOf?_after] at hrecord
      split at hrecord
      · exact Or.inl hrecord
      · rename_i a on hbans
        split at hrecord
        · rename_i hsame
          obtain ⟨rfl, rfl⟩ := hsame
          exact Or.inr ⟨[], first.1, first.2, ops, rfl, hbans, (Option.some.inj hrecord).symm⟩
        · exact Or.inl (Option.filter_eq_some_iff.mp hrecord).1
    · exact Or.inr (hlater.cons first)

/-- **A ban that was made is on record**, until the clock shows its end. -/
theorem Banned.keeps (h : r.Banned ops a topic e) (hforward : r.Forward c ops c')
    (hactive : c' < e) : (r.perform ops).Keeps topic a e := by
  obtain ⟨before, now, op, later, rfl, hbans, rfl⟩ := h
  have hpolicy := (sameSettings_perform r before).policy
  obtain ⟨m, -, hrest⟩ := hforward.of_append
  have hstill := reading_after_of_bans? hbans
  rw [perform_append, perform]
  refine expiryOf?_perform hrest ?_ ?_ hactive
  · unfold Keeps
    rw [Operation.expiryOf?_after, hbans]
    simp only [and_self, if_true]
    refine ⟨_, rfl, ?_⟩
    rw [reading, BanPolicy.expiry, hpolicy]
    exact UInt64.le_refl _
  · rw [hstill, (op.sameSettings_after now _).policy, hpolicy]
    exact UInt64.le_refl _

/-! ## 4. What is reported -/

/-- **A ban lasts as long as it should.**  Whoever is reported banned on a topic was banned, on that
topic or on all, and the ban has not run out.  Conversely, if the clock of the bans never goes back,
a peer that was banned is reported banned on every topic that the ban concerns at every later point
of the clock before its end, whatever was done in between. -/
theorem bans_last (myIp : PeerAddress) (budget : Int32) (policy : BanPolicy)
    (ops : List (UInt64 × Operation)) (a : PeerAddress) (topic : Topic) (clock : ChainClock) :
    (((empty myIp budget policy).perform ops).isBannedAt a topic clock = true →
      ∃ on expiry, (empty myIp budget policy).Banned ops a on expiry ∧
        (∀ t, on = some t → t = topic) ∧ policy.reading clock < expiry) ∧
    ((empty myIp budget policy).Forward 0 ops (policy.reading clock) →
      ∀ on expiry, (empty myIp budget policy).Banned ops a on expiry →
        (∀ t, on = some t → t = topic) → policy.reading clock < expiry →
        ((empty myIp budget policy).perform ops).isBannedAt a topic clock = true) := by
  have hpolicy : ((empty myIp budget policy).perform ops).policy = policy :=
    (sameSettings_perform _ ops).policy
  constructor
  · intro hreported
    obtain ⟨-, on, expiry, hrecord, htopic, hactive⟩ := isBannedAt_eq_true.mp hreported
    rw [hpolicy] at hactive
    rcases banned_of_expiryOf? hrecord with hempty | hbanned
    · cases on <;> simp [expiryOf?, empty] at hempty
    · exact ⟨on, expiry, hbanned, htopic, hactive⟩
  · intro hforward on expiry hbanned htopic hactive
    have hexempt : ((empty myIp budget policy).perform ops).isExempt a = false := by
      obtain ⟨before, now, op, later, -, hbans, -⟩ := hbanned
      have hspared := Operation.isExempt_of_bans? hbans
      rw [(sameSettings_perform _ before).isExempt] at hspared
      rw [(sameSettings_perform _ ops).isExempt, hspared]
    obtain ⟨e, hrecord, hlater⟩ := hbanned.keeps hforward hactive
    refine isBannedAt_eq_true.mpr ⟨hexempt, on, e, hrecord, htopic, ?_⟩
    rw [hpolicy]
    exact UInt64.lt_of_lt_of_le hactive hlater

/-- A peer that is banned from rounds for an hour, comes back, is rewarded, and is banned from
blocks while others come and go. -/
def Sample.returning : List (UInt64 × Operation) :=
  [(100, .registerValid Sample.peer), (100, .ban Sample.peer (some Topic.nonce)),
    (200, .registerValid Sample.peer), (300, .reward Sample.peer),
    (400, .ban ⟨⟨[10, 0, 0, 3], rfl⟩⟩ none), (500, .ban Sample.peer (some Topic.sync)),
    (600, .addConnection ⟨Topic.nonce, Sample.peer⟩ ⟨1, 0, false⟩)]

/-- It stays banned from rounds up to the last second of the hour. -/
theorem bans_last_returning :
    Sample.start.Forward 0 Sample.returning 3699 ∧
      Sample.start.Banned Sample.returning Sample.peer (some Topic.nonce) 3700 ∧
      (Sample.start.perform Sample.returning).isBannedAt Sample.peer Topic.nonce ⟨0, 3699⟩ = true := by
  have hforward : Sample.start.Forward 0 Sample.returning 3699 := by decide
  have hbanned : Sample.start.Banned Sample.returning Sample.peer (some Topic.nonce) 3700 :=
    ⟨Sample.returning.take 1, 100, .ban Sample.peer (some Topic.nonce), Sample.returning.drop 2,
      rfl, by decide, by decide⟩
  obtain ⟨-, hlasts⟩ := bans_last PeerAddress.loopback 2 BanPolicy.standard Sample.returning
    Sample.peer Topic.nonce ⟨0, 3699⟩
  exact ⟨hforward, hbanned,
    hlasts hforward (some Topic.nonce) 3700 hbanned (fun t ht => (Option.some.inj ht).symm)
      (by decide)⟩

end Registry

end SynergyNode
