import SynergyNode.Proofs.Ledger.Release
import SynergyNode.Proofs.Sync.Fork
import SynergyNode.Proofs.Sync.Segment

/-!
# Going after the chain of a peer

A follower that hears of a better chain over and over again, asks for blocks and takes what it is
sent ends up with that chain (`Follower.converges`), however far the two have drifted apart.

A round does one of two things.

* The follower's chain is not a part of the peer's.  Then what is served differs from it
  somewhere, and it is cut back below the first height that is seen to differ.  A fork below the
  range that was asked for takes several such rounds.
* It is a part of the peer's.  Then it gets higher and stays a part of it.

So the length of the own chain bounds the rounds of the first kind, and that of the peer's those
of the second.  The peer does not move meanwhile, whatever it is served in turn.
-/

namespace SynergyNode

open History

/-! ## 1. One round -/

section

variable [SignatureSuite]

namespace Follower

/-- A round: the peer announces its height, the follower asks for blocks, the peer serves them
and the follower takes them.  A peer that cannot serve them sends nothing. -/
def exchange (f r : Follower) (peers : List PeerAddress) : Follower :=
  match f.onAnnouncement (r.announcement peers) with
  | (none, f) => f
  | (some request, f) =>
    match r.ledger.serve request with
    | .error _ => f
    | .ok batch => (f.onHeaders batch).2

/-- A number of rounds with a peer that stays as it is. -/
def rounds (f r : Follower) (peers : List PeerAddress) : Nat → Follower
  | 0 => f
  | n + 1 => rounds (f.exchange r peers) r peers n

variable {f r : Follower} {peers : List PeerAddress}

theorem rounds_add (m n : Nat) :
    f.rounds r peers (m + n) = (f.rounds r peers m).rounds r peers n := by
  induction m generalizing f with
  | zero => rw [Nat.zero_add, rounds]
  | succ m ih =>
    have hsum : m + 1 + n = m + n + 1 := by omega
    rw [hsum, rounds, ih, rounds]

omit [SignatureSuite] in
theorem onAnnouncement_of_ahead {a : HeightAnnouncement}
    (h : ¬ (a.height < f.ledger.lastBlock.height ∨
      a.height = f.ledger.lastBlock.height ∧ a.lastHash = f.ledger.lastBlock.blockHash)) :
    f.onAnnouncement a =
      (some (.forHeights f.ledger.lastBlock.height a.height),
        { f with phase := .requesting (.forHeights f.ledger.lastBlock.height a.height) }) :=
  if_neg h

/-- A follower whose last block is the peer's has nothing to ask for. -/
theorem ledger_exchange_of_same (h : r.ledger.lastBlock = f.ledger.lastBlock) :
    (f.exchange r peers).ledger = f.ledger := by
  simp only [exchange, onAnnouncement, announcement, h, and_self, or_true, if_true]

theorem ledger_exchange_of_served {batch : HeaderBatch}
    (hahead : ¬ (r.ledger.lastBlock.height < f.ledger.lastBlock.height ∨
      r.ledger.lastBlock.height = f.ledger.lastBlock.height ∧
        r.ledger.lastBlock.blockHash = f.ledger.lastBlock.blockHash))
    (hserved : r.ledger.serve
      (.forHeights f.ledger.lastBlock.height r.ledger.lastBlock.height) = .ok batch) :
    (f.exchange r peers).ledger = (f.ledger.takeBatch f.rollbackDistance batch).2 := by
  have hasked := onAnnouncement_of_ahead (f := f) (a := r.announcement peers) hahead
  simp only [announcement] at hasked
  simp only [exchange, announcement, hasked, hserved, ledger_onHeaders]

theorem rollbackDistance_exchange (f r : Follower) (peers : List PeerAddress) :
    (f.exchange r peers).rollbackDistance = f.rollbackDistance := by
  have hkept : ∀ a, (f.onAnnouncement a).2.rollbackDistance = f.rollbackDistance := by
    intro a
    unfold onAnnouncement
    split <;> rfl
  unfold exchange
  split
  · rename_i hnone
    rw [← hkept (r.announcement peers), hnone]
  · rename_i hsome
    rw [← hkept (r.announcement peers), hsome]
    split <;> rfl

end Follower

namespace Ledger

variable {start : Accounts} {l : Ledger} {c d : History} {f r : Follower}
  {peers : List PeerAddress}

/-- A ledger that is behind another one, or stands where it does. -/
structure Chases (start : Accounts) (l r : Ledger) (c d : History) : Prop where
  run : Run Event.Fits start l c
  flag : l.syncing = false
  stake : l.minStake = r.minStake
  blocks : Distinguishes c d
  behind : c = d ∨ Behind c d

/-- What a round does to the ledger of a follower. -/
inductive Round (start : Accounts) (l r : Ledger) (c d : History) : Ledger → Prop where
  | rested (same : c = d) : Round start l r c d l
  | advanced {l' : Ledger} {n : Nat} (part : c <:+ d) (low : c.length < n) (high : n ≤ d.length)
      (run : Run Event.Fits start l' (d.cut n)) (flag : l'.syncing = false)
      (stake : l'.minStake = r.minStake) (awaits : l'.Awaits (d.cut n) d) :
      Round start l r c d l'
  | receded {target : UInt64} (apart : ¬ c <:+ d) (low : target.toNat < c.length) :
      Round start l r c d (Ledger.rollback { l with syncing := true } target).2.endSync

/-- A follower whose chain is not the peer's asks for blocks, and takes a segment of the peer's
chain that starts on its own and reaches its height, or goes beyond it if the peer is higher. -/
theorem Chases.served (chases : Chases start f.ledger r.ledger c d)
    (run' : Run Event.Fits start r.ledger d)
    (hstart : start.toBytes.length ≤ Protocol.maxMessageBytes) (hbehind : Behind c d)
    (peers : List PeerAddress) :
    ∃ first count, first ≤ c.length ∧ c.length ≤ first + count ∧ first + count ≤ d.length ∧
      (c.length < d.length → c.length < first + count) ∧
      (f.exchange r peers).ledger =
        (f.ledger.takeBatch f.rollbackDistance (d.segment first (count + 1))).2 := by
  have hle := length_le_of_behind (Or.inr hbehind)
  have hown : f.ledger.lastBlock.height.toNat = c.length := by
    rw [chases.run.follows.last, chases.run.follows.sound.tip_height]
  have hpeer : r.ledger.lastBlock.height.toNat = d.length := by
    rw [run'.follows.last, run'.follows.sound.tip_height]
  have hahead : ¬ (r.ledger.lastBlock.height < f.ledger.lastBlock.height ∨
      r.ledger.lastBlock.height = f.ledger.lastBlock.height ∧
        r.ledger.lastBlock.blockHash = f.ledger.lastBlock.blockHash) := by
    rw [UInt64.lt_iff_toNat_lt, ← UInt64.toNat_inj, hown, hpeer, chases.run.follows.last,
      run'.follows.last]
    rintro (hlow | ⟨hlevel, htip⟩)
    · omega
    · rcases hbehind with hlow | ⟨-, hlower⟩
      · omega
      · rw [htip] at hlower
        exact absurd hlower (compare_tip_of_behind (Or.inl rfl) rfl)
  have hheights : f.ledger.lastBlock.height ≤ r.ledger.lastBlock.height := by
    rw [UInt64.le_iff_toNat_le, hown, hpeer]
    exact hle
  obtain ⟨hfirst, hlast, hend, hfurther⟩ := HeaderRequest.forHeights_bounds hheights
  have hserved := (run'.completes hstart).keeps.serve run'.follows run'.fits
    (.forHeights f.ledger.lastBlock.height r.ledger.lastBlock.height)
  rw [Follower.ledger_exchange_of_served hahead hserved]
  generalize HeaderRequest.forHeights f.ledger.lastBlock.height r.ledger.lastBlock.height = q
    at hfirst hlast hend hfurther
  rw [hown] at hfirst hlast
  rw [hpeer] at hend
  rw [UInt64.lt_iff_toNat_lt, hown, hpeer] at hfurther
  obtain ⟨count, hcount⟩ := Nat.exists_eq_add_of_le (Nat.le_trans hfirst hlast)
  have hsize : min q.last.toNat d.length + 1 - q.first.toNat = count + 1 := by omega
  rw [hcount] at hlast hend hfurther
  exact ⟨q.first.toNat, count, hfirst, hlast, hend, hfurther, by rw [hsize]⟩

/-- **What a round does**: nothing if the chains are the same, and otherwise the chain gets higher
if it is a part of the peer's and lower if it is not. -/
theorem Chases.exchange (chases : Chases start f.ledger r.ledger c d)
    (run' : Run Event.Fits start r.ledger d)
    (hstart : start.toBytes.length ≤ Protocol.maxMessageBytes) (hdistance : 1 ≤ f.rollbackDistance)
    (hholds : ∀ t ∈ transactions d, f.ledger.Holds t) (peers : List PeerAddress) :
    Round start f.ledger r.ledger c d (f.exchange r peers).ledger := by
  by_cases hsame : c = d
  · have hlast : r.ledger.lastBlock = f.ledger.lastBlock := by
      rw [run'.follows.last, chases.run.follows.last, hsame]
    rw [Follower.ledger_exchange_of_same hlast]
    exact .rested hsame
  have hbehind := chases.behind.resolve_left hsame
  have hle := length_le_of_behind (Or.inr hbehind)
  obtain ⟨first, count, hfirst, hlast, hend, hfurther, hserved⟩ :=
    chases.served run' hstart hbehind peers
  rw [hserved]
  by_cases hpart : c <:+ d
  · have hlonger : c.length < d.length :=
      Nat.lt_of_le_of_ne hle fun hlevel => hsame (hpart.eq_of_length hlevel)
    obtain ⟨reports, l', htaken, hflag', hstake', run₁, hawaits⟩ :=
      chases.run.takeBatch_part run' hstart chases.stake chases.flag hpart hholds hfirst
        (hfurther hlonger) hend f.rollbackDistance
    rw [htaken]
    exact .advanced hpart (hfurther hlonger) hend run₁ hflag' hstake' hawaits
  · have hlower : first + count = c.length →
        compare (d.cut (first + count)).tip.blockHash c.tip.blockHash = .lt := by
      intro hlevel
      rcases hbehind with hlow | ⟨hheights, hlower⟩
      · have hhigher := hfurther hlow
        omega
      · rw [cut_of_length_le (by omega)]
        exact hlower
    obtain ⟨fork, target, hlow, htaken⟩ :=
      chases.run.takeBatch_apart run' hstart chases.stake chases.flag hpart chases.blocks hholds
        hfirst hlast hend hlower hdistance
    rw [htaken]
    exact .receded hpart hlow

/-! ## 2. Any number of rounds -/

/-- The pools have room for all transactions of a chain, ban nothing, and have no other
transaction under the hash of one of the other chain. -/
structure Stocked (ps : Pools) (c d : History) : Prop where
  room : ps.Room (transactions c)
  unbanned : ∀ hash, ps.isBanned hash = false
  only : ∀ t ∈ transactions d, ps.Only t

omit [SignatureSuite] in
/-- Pools that have taken what was given up are stocked for what is left. -/
theorem Stocked.addAll {ps : Pools} {c' : History} {released : List Transaction}
    (h : Stocked ps c d) (hsub : (released ++ transactions c').Sublist (transactions c))
    (hsame : ∀ t ∈ transactions d, ∀ u ∈ transactions c, u.hash = t.hash → u = t) :
    Stocked (ps.addAll released) c' d where
  room := (h.room.sublist hsub).addAll
  unbanned hash := Pools.isBanned_addAll released (h.unbanned hash)
  only t ht := (h.only t ht).addAll fun u hu =>
    hsame t ht u (hsub.subset (List.mem_append_left _ hu))

omit [SignatureSuite] in
/-- What a rollback offers to the pools and what stays on the chain are all that was on it. -/
theorem Keeps.released_rollback (h : Keeps start l c) (hfollows : Follows start l c)
    (hfits : ∀ e ∈ c, e.Fits) (height : UInt64) :
    ∃ released, (released ++ transactions (c.cut height.toNat)).Sublist (transactions c) ∧
      (∀ t ∈ transactions c, t ∈ released ∨ t ∈ transactions (c.cut height.toNat)) ∧
      (l.rollback height).2.pools = l.pools.addAll released := by
  have hlist : transactions c =
      transactions (c.above height.toNat) ++ transactions (c.cut height.toNat) := by
    conv => lhs; rw [← above_append_cut c height.toNat]
    exact List.flatMap_append
  refine ⟨offered (c.above height.toNat), ?_, fun t ht => ?_,
    h.pools_rollback hfollows hfits height⟩
  · rw [hlist]
    exact (offered_sublist _).append (List.Sublist.refl _)
  · rw [hlist] at ht
    exact (List.mem_append.mp ht).imp_left mem_offered.mpr

omit [SignatureSuite] in
/-- **Stocked pools keep the transactions of the other chain when blocks are given up.** -/
theorem Keeps.stocked_rollback {height : UInt64} (h : Keeps start l c)
    (hfollows : Follows start l c) (hfits : ∀ e ∈ c, e.Fits)
    (hback : Keeps start (l.rollback height).2 (c.cut height.toNat))
    (hfollows' : Follows start (l.rollback height).2 (c.cut height.toNat))
    (hstocked : Stocked l.pools c d) (hholds : ∀ t ∈ transactions d, l.Holds t) :
    Stocked (l.rollback height).2.pools (c.cut height.toNat) d ∧
      ∀ t ∈ transactions d, (l.rollback height).2.Holds t := by
  obtain ⟨released, hsub, hall, hpools⟩ := h.released_rollback hfollows hfits height
  -- Whatever was committed under the hash of a transaction that is at hand is this transaction.
  have hsame : ∀ t ∈ transactions d, ∀ u ∈ transactions c, u.hash = t.hash → u = t :=
    fun t ht u hu hhash => h.eq_of_holds hfollows hfits hu (hholds t ht) hhash
  have hgone : ∀ u ∈ released, u ∈ transactions c := fun u hu =>
    hsub.subset (List.mem_append_left _ hu)
  refine ⟨by rw [hpools]; exact hstocked.addAll hsub hsame, fun t ht => ?_⟩
  by_cases hkept : t.hash ∈ txHashes (c.cut height.toNat)
  · obtain ⟨u, hu, hhash⟩ := (mem_txHashes_iff hfollows'.sound).mp hkept
    rw [← hsame t ht u (hsub.subset (List.mem_append_right _ hu)) hhash]
    exact hback.holds hfollows' (fits_cut hfits _) hu
  · refine Or.inr ⟨hback.transaction?_eq_none hfollows' hkept, ?_⟩
    rw [hpools]
    by_cases hfreed : t.hash ∈ released.map Transaction.hash
    · obtain ⟨u, hu, hhash⟩ := List.mem_map.mp hfreed
      rw [hsame t ht u (hgone u hu) hhash] at hu
      have hroom := hstocked.room.sublist ((List.sublist_append_left _ _).trans hsub)
      exact Pools.find?_addAll hroom hstocked.unbanned (hstocked.only t ht)
        (fun v hv => hsame t ht v (hgone v hv)) hu
    · rw [Pools.find?_addAll_of_not_mem hfreed]
      refine h.awaits hfollows hholds t ht fun hlisted => ?_
      obtain ⟨u, hu, hhash⟩ := (mem_txHashes_iff hfollows.sound).mp hlisted
      rcases hall u hu with hdropped | hstays
      · exact hfreed (List.mem_map.mpr ⟨u, hdropped, hhash⟩)
      · exact hkept ((mem_txHashes_iff hfollows'.sound).mpr ⟨u, hstays, hhash⟩)

/-- A ledger that goes back still chases the other one. -/
theorem Chases.receded {r : Ledger} (chases : Chases start l r c d)
    (hstart : start.toBytes.length ≤ Protocol.maxMessageBytes) {target : UInt64}
    (hlow : target.toNat < c.length) :
    Chases start (Ledger.rollback { l with syncing := true } target).2.endSync r
      (c.cut target.toNat) d := by
  have hraised := chases.run.setSyncing true trivial
  have hlength := length_cut (Nat.le_of_lt hlow)
  have hle := length_le_of_behind chases.behind
  exact
    { run := (hraised.rollback hstart target).2.setSyncing false trivial
      flag := rfl
      stake := (minStake_rollback hraised.follows.reliable target).trans chases.stake
      blocks := chases.blocks.suffix (List.drop_suffix _ c) (List.suffix_refl d)
      behind := Or.inr (Or.inl (by omega)) }

/-- A ledger that stands on a part of the other chain chases the other one. -/
theorem Chases.of_part {r : Ledger} {n : Nat} (run : Run Event.Fits start l (d.cut n))
    (flag : l.syncing = false) (stake : l.minStake = r.minStake) (hn : n ≤ d.length) :
    Chases start l r (d.cut n) d where
  run := run
  flag := flag
  stake := stake
  blocks := distinguishes_of_suffix (List.drop_suffix _ d)
  behind := by
    have hlength := length_cut hn
    rcases Nat.lt_or_eq_of_le hn with hlow | heq
    · exact Or.inr (Or.inl (by omega))
    · exact Or.inl (cut_of_length_le (Nat.le_of_eq heq.symm))

/-- **Transactions that are at hand stay so through any number of rounds**, if the pools are
stocked. -/
theorem Chases.holds_rounds (run' : Run Event.Fits start r.ledger d)
    (hstart : start.toBytes.length ≤ Protocol.maxMessageBytes) :
    ∀ (n : Nat) {f : Follower} {c : History}, Chases start f.ledger r.ledger c d →
      1 ≤ f.rollbackDistance → (∀ t ∈ transactions d, f.ledger.Holds t) →
      c <:+ d ∨ Stocked f.ledger.pools c d →
      ∀ t ∈ transactions d, (f.rounds r peers n).ledger.Holds t
  | 0, _, _, _, _, hholds, _ => hholds
  | n + 1, f, c, chases, hdistance, hholds, hstocked => by
    have hround := chases.exchange run' hstart hdistance hholds peers
    rw [← Follower.rollbackDistance_exchange f r peers] at hdistance
    rw [Follower.rounds]
    generalize f.exchange r peers = f' at hround hdistance
    obtain ⟨l', distance, phase⟩ := f'
    cases hround with
    | rested same => exact Chases.holds_rounds run' hstart n chases hdistance hholds hstocked
    | @advanced _ k part low high run flag stake awaits =>
      have hpart : d.cut k <:+ d := List.drop_suffix _ d
      have hkeeps' := (run'.completes hstart).keeps
      refine Chases.holds_rounds run' hstart n (.of_part run flag stake high) hdistance ?_
        (Or.inl hpart)
      refine awaits.holds (run.completes hstart).keeps run.follows run.fits hpart ?_
      intro t ht u hu hhash
      exact hkeeps'.eq_of_holds run'.follows run'.fits ht
        (hkeeps'.holds run'.follows run'.fits hu) hhash
    | @receded target apart low =>
      have hraised := chases.run.setSyncing true trivial
      obtain ⟨-, hback⟩ := hraised.rollback hstart target
      obtain ⟨hstocked', hholds'⟩ := (hraised.completes hstart).keeps.stocked_rollback
        hraised.follows hraised.fits (hback.completes hstart).keeps hback.follows
        (hstocked.resolve_left apart) hholds
      exact Chases.holds_rounds run' hstart n (chases.receded hstart low) hdistance hholds'
        (Or.inr hstocked')

theorem Round.chases {r l' : Ledger} (h : Round start l r c d l') (chases : Chases start l r c d)
    (hstart : start.toBytes.length ≤ Protocol.maxMessageBytes) :
    ∃ c', Chases start l' r c' d := by
  cases h with
  | rested same => exact ⟨c, chases⟩
  | advanced part low high run flag stake awaits => exact ⟨_, .of_part run flag stake high⟩
  | receded apart low => exact ⟨_, chases.receded hstart low⟩

theorem Chases.rounds (run' : Run Event.Fits start r.ledger d)
    (hstart : start.toBytes.length ≤ Protocol.maxMessageBytes) :
    ∀ (n : Nat) {f : Follower} {c : History}, Chases start f.ledger r.ledger c d →
      1 ≤ f.rollbackDistance →
      (∀ m, ∀ t ∈ transactions d, (f.rounds r peers m).ledger.Holds t) →
      ∃ c', Chases start (f.rounds r peers n).ledger r.ledger c' d
  | 0, _, c, chases, _, _ => ⟨c, chases⟩
  | n + 1, f, c, chases, hdistance, hholds => by
    have hround := chases.exchange run' hstart hdistance (hholds 0) peers
    rw [← Follower.rollbackDistance_exchange f r peers] at hdistance
    obtain ⟨c', chases'⟩ := hround.chases chases hstart
    exact Chases.rounds run' hstart n chases' hdistance fun m => hholds (m + 1)

/-- **The chains become the same.**  Each round brings a part of the peer's chain nearer to it, and
makes any other chain lower; a chain that was cut back to a part of the peer's stays one. -/
theorem Chases.reaches (run' : Run Event.Fits start r.ledger d)
    (hstart : start.toBytes.length ≤ Protocol.maxMessageBytes) :
    ∀ (k : Nat) {f : Follower} {c : History},
      (c <:+ d ∧ d.length ≤ c.length + k ∨ c.length + d.length ≤ k) →
      Chases start f.ledger r.ledger c d → 1 ≤ f.rollbackDistance →
      (∀ m, ∀ t ∈ transactions d, (f.rounds r peers m).ledger.Holds t) →
      ∃ n, n ≤ k ∧ Chases start (f.rounds r peers n).ledger r.ledger d d
  | 0, f, c, hk, chases, _, _ => by
    have hsame : c = d := by
      rcases hk with ⟨hpart, hlow⟩ | hempty
      · exact hpart.eq_of_length_le hlow
      · rw [List.eq_nil_of_length_eq_zero (Nat.eq_zero_of_add_eq_zero_right
          (Nat.le_zero.mp hempty)), List.eq_nil_of_length_eq_zero
          (Nat.eq_zero_of_add_eq_zero_left (Nat.le_zero.mp hempty))]
    subst hsame
    exact ⟨0, Nat.le_refl 0, chases⟩
  | k + 1, f, c, hk, chases, hdistance, hholds => by
    have hround := chases.exchange run' hstart hdistance (hholds 0) peers
    rw [← Follower.rollbackDistance_exchange f r peers] at hdistance
    -- What is reached from the follower after the round takes one round more.
    have hlater {c' : History}
        (hk' : c' <:+ d ∧ d.length ≤ c'.length + k ∨ c'.length + d.length ≤ k)
        (chases' : Chases start (f.exchange r peers).ledger r.ledger c' d) :
        ∃ n, n ≤ k + 1 ∧ Chases start (f.rounds r peers n).ledger r.ledger d d := by
      obtain ⟨n, hn, hreached⟩ :=
        Chases.reaches run' hstart k hk' chases' hdistance fun m => hholds (m + 1)
      exact ⟨n + 1, Nat.succ_le_succ hn, hreached⟩
    generalize (f.exchange r peers).ledger = l' at hround hlater
    cases hround with
    | rested same =>
      subst same
      exact ⟨0, Nat.zero_le _, chases⟩
    | @advanced _ n part low high run flag stake awaits =>
      have hlength := length_cut high
      have hpart : d.cut n <:+ d := List.drop_suffix _ d
      exact hlater (Or.inl ⟨hpart, by omega⟩) (.of_part run flag stake high)
    | @receded target apart low =>
      have hlong := hk.resolve_left fun h => apart h.1
      have hlength := length_cut (Nat.le_of_lt low)
      exact hlater (Or.inr (by omega)) (chases.receded hstart low)

/-- Once the chains are the same, nothing changes any more. -/
theorem Chases.ledger_rounds (run' : Run Event.Fits start r.ledger d) :
    ∀ (n : Nat) {f : Follower}, Chases start f.ledger r.ledger d d →
      (f.rounds r peers n).ledger = f.ledger
  | 0, _, _ => rfl
  | n + 1, f, chases => by
    have hlast : r.ledger.lastBlock = f.ledger.lastBlock := by
      rw [run'.follows.last, chases.run.follows.last]
    have hkept : (f.exchange r peers).ledger = f.ledger := Follower.ledger_exchange_of_same hlast
    rw [← hkept] at chases
    exact (Chases.ledger_rounds run' n chases).trans hkept

/-- **The peer passes over what it is served** by a ledger that chases it. -/
theorem Chases.passed (chases : Chases start l r.ledger c d)
    (run' : Run Event.Fits start r.ledger d)
    (hstart : start.toBytes.length ≤ Protocol.maxMessageBytes) (q : HeaderRequest) :
    ∃ batch reason, l.serve q = .ok batch ∧
      r.onHeaders batch = (.ok (.ignored reason), { r with phase := .idle }) := by
  have hserved := (chases.run.completes hstart).keeps.serve chases.run.follows chases.run.fits q
  have hlast : q.first.toNat + (min q.last.toNat c.length + 1 - q.first.toNat) ≤ c.length + 1 ∨
      min q.last.toNat c.length + 1 - q.first.toNat = 0 := by omega
  obtain ⟨reason, hreason⟩ := run'.follows.ignores?_of_behind chases.behind hlast
  refine ⟨_, reason, hserved, ?_⟩
  simp only [Follower.onHeaders, takeBatch, hreason]

/-- Two ledgers have the same chain and stand at its end. -/
structure SameChain (l r : Ledger) : Prop where
  store : l.store = r.store
  lastBlock : l.lastBlock = r.lastBlock
  height : l.height = r.height
  accounts : l.accounts = r.accounts
  schemes : l.schemes = r.schemes

theorem Run.sameChain {r : Ledger} (run : Run Event.Fits start l d)
    (run' : Run Event.Fits start r d)
    (hstart : start.toBytes.length ≤ Protocol.maxMessageBytes) : SameChain l r where
  store := by rw [(run.completes hstart).keeps.store, (run'.completes hstart).keeps.store]
  lastBlock := by rw [run.follows.last, run'.follows.last]
  height := by rw [run.follows.height, run'.follows.height]
  accounts := by rw [run.follows.accounts, run'.follows.accounts]
  schemes := Except.ok.inj (run.follows.schemes.symm.trans run'.follows.schemes)

/-- Where a follower gets the transactions of its peer's chain from: they are at hand in every
round, or they are at the start and the pools keep what is given up. -/
inductive Supplied (f r : Follower) (peers : List PeerAddress) (c d : History) : Prop where
  | throughout
      (holds : ∀ n, ∀ t ∈ transactions d, (f.rounds r peers n).ledger.Holds t) :
      Supplied f r peers c d
  | atStart (holds : ∀ t ∈ transactions d, f.ledger.Holds t)
      (stocked : Stocked f.ledger.pools c d) : Supplied f r peers c d

end Ledger

/-- **A follower that is behind a peer gets to the peer's chain** and stays there, in no more
rounds than the two chains have blocks.  Whatever it serves meanwhile, the peer passes over. -/
theorem Follower.converges {start : Accounts} {c d : History} {f r : Follower}
    (run : Ledger.Run Ledger.Event.Fits start f.ledger c)
    (run' : Ledger.Run Ledger.Event.Fits start r.ledger d)
    (hstart : start.toBytes.length ≤ Protocol.maxMessageBytes)
    (hstake : f.ledger.minStake = r.ledger.minStake) (hflag : f.ledger.syncing = false)
    (hdistance : 1 ≤ f.rollbackDistance) (hbehind : Behind c d) (hblocks : Distinguishes c d)
    {peers : List PeerAddress} (supplied : Ledger.Supplied f r peers c d) :
    (∃ n, n ≤ c.length + d.length ∧ ∀ m, n ≤ m →
      Ledger.SameChain (f.rounds r peers m).ledger r.ledger ∧
        Ledger.Run Ledger.Event.Fits start (f.rounds r peers m).ledger d) ∧
      ∀ m q, ∃ batch reason, (f.rounds r peers m).ledger.serve q = .ok batch ∧
        r.onHeaders batch = (.ok (.ignored reason), { r with phase := .idle }) := by
  have chases : Ledger.Chases start f.ledger r.ledger c d :=
    ⟨run, hflag, hstake, hblocks, Or.inr hbehind⟩
  have hholds : ∀ m, ∀ t ∈ transactions d, (f.rounds r peers m).ledger.Holds t := by
    cases supplied with
    | throughout holds => exact holds
    | atStart holds stocked =>
      exact fun m => Ledger.Chases.holds_rounds run' hstart m chases hdistance holds (Or.inr stocked)
  constructor
  · obtain ⟨n, hn, hreached⟩ := Ledger.Chases.reaches run' hstart (c.length + d.length)
      (Or.inr (Nat.le_refl _)) chases hdistance hholds
    refine ⟨n, hn, fun m hm => ?_⟩
    obtain ⟨k, rfl⟩ := Nat.exists_eq_add_of_le hm
    rw [rounds_add, Ledger.Chases.ledger_rounds run' k hreached]
    exact ⟨hreached.run.sameChain run' hstart, hreached.run⟩
  · intro m q
    obtain ⟨c', hlater⟩ := Ledger.Chases.rounds run' hstart m chases hdistance hholds
    exact hlater.passed run' hstart q

end

namespace Ledger.Sample

variable {key : Bytes}

theorem get?_pools {t u : Transaction} {k : PoolKind} {hash : Hash}
    (h : ((pools t).get k).get? hash = some u) : u = t := by
  cases k with
  | standard =>
    simp only [pools, Pools.get, Pool.get?, Std.ExtTreeMap.getElem?_insert] at h
    split at h
    · cases h
      rfl
    · simp at h
  | escrow => simp [pools, Pools.get, Pools.empty, Pool.empty, Pool.get?] at h
  | multiSig => simp [pools, Pools.get, Pools.empty, Pool.empty, Pool.get?] at h

/-- The pools have nothing to take from a chain without transactions. -/
theorem stocked_pools {c d : History} (hc : transactions c = [])
    (hd : ∀ t ∈ transactions d, t = transfer key) : Stocked (pools (transfer key)) c d where
  room := by
    have hsize := @Std.ExtTreeMap.size_insert_le _ _ _ (∅ : Std.ExtTreeMap Hash PoolEntry) _
      (transfer key).hash ⟨transfer key, 0, 0⟩
    rw [Std.ExtTreeMap.size_empty] at hsize
    have hlimit : 1 ≤ PoolLimits.standard.maxTransactions := by decide
    rw [hc]
    rintro (_ | _ | _)
    · exact ⟨Nat.le_trans hsize hlimit, Nat.zero_le _⟩
    · exact ⟨Nat.zero_le _, Nat.zero_le _⟩
    · exact ⟨Nat.zero_le _, Nat.zero_le _⟩
  unbanned hash := by
    simp [Pools.isBanned, Pools.toList, Pool.isBanned, pools, Pools.empty, Pool.empty]
  only t ht := by
    rw [hd t ht]
    exact fun k u h => get?_pools h

theorem transactions_entry (n : Nat) (paying paid : UInt64) :
    transactions [entry key n paying paid] = List.replicate n (transfer key) :=
  List.append_nil _

/-- A ledger whose block lists nothing has the transfer pending that the block of its peer lists. -/
theorem supplied_transfer [SignatureSuite] (hkey : OperatorKey key) (r : Follower) :
    Supplied (.new (later key 0 100 0) 1) r [] [entry key 0 100 0] [entry key 1 70 30] := by
  obtain ⟨hkeeps, hfollows⟩ := keeps_later hkey 0 100 0 (by decide) rfl rfl
  have hlisted : ∀ t ∈ transactions [entry key 1 70 30], t = transfer key := by
    rw [transactions_entry]
    exact fun t ht => List.eq_of_mem_replicate ht
  have hpools : (later key 0 100 0).pools = pools (transfer key) := rfl
  refine .atStart (fun t ht => Or.inr ⟨?_, ?_⟩) ?_
  · refine hkeeps.transaction?_eq_none hfollows ?_
    simp [txHashes, entry, block]
  · rw [hlisted t ht]
    exact find?_transfer (transfer key)
  · rw [Follower.new, hpools]
    exact stocked_pools (transactions_entry 0 100 0) hlisted

/-- The chains of two blocks that differ. -/
theorem distinguishes_entries :
    Distinguishes [entry zeros 0 100 0] [entry zeros 1 70 30] := by
  intro n hn _ hsame
  rcases Nat.le_one_iff_eq_zero_or_eq_one.mp hn with rfl | rfl
  · rw [cut_zero, cut_zero]
  · rw [cut_of_length_le (Nat.le_refl 1), cut_of_length_le (Nat.le_refl 1)] at hsame
    exact absurd hsame.symm blockHash_entry

theorem behind_entries : Behind [entry zeros 0 100 0] [entry zeros 1 70 30] := by
  refine Or.inr ⟨?_, ?_⟩
  · rw [List.length_singleton, List.length_singleton]
  · rw [tip, tip]
    exact compare_entry

theorem minStake_later (n : Nat) (rest sum : UInt64) : (later key n rest sum).minStake = 0 := rfl

end Ledger.Sample

/-- A follower gives up its block for that of a peer, which has the lower hash. -/
theorem Follower.converges_block :
    ∃ (_ : SignatureSuite) (start : Accounts) (f r : Follower) (e e' : Entry),
      Ledger.Run Ledger.Event.Fits start f.ledger [e] ∧
        Ledger.Run Ledger.Event.Fits start r.ledger [e'] ∧
        e.block.blockHash ≠ e'.block.blockHash ∧ e'.transactions.length = 1 ∧
        Ledger.Supplied f r [] [e] [e'] ∧
        ∃ n, n ≤ 2 ∧ Ledger.SameChain (f.rounds r [] n).ledger r.ledger := by
  let := Ledger.Sample.suite
  have hkey := Ledger.Sample.operatorKey_zeros
  have run := Ledger.Sample.run_block hkey 0 100 0 (by decide) rfl rfl
  have run' := Ledger.Sample.run_block hkey 1 70 30 (by decide) rfl rfl
  have supplied := Ledger.Sample.supplied_transfer hkey
    (.new (Ledger.Sample.later Ledger.Sample.zeros 1 70 30) 1)
  have hstake : (Ledger.Sample.later Ledger.Sample.zeros 0 100 0).minStake =
      (Ledger.Sample.later Ledger.Sample.zeros 1 70 30).minStake := by
    rw [Ledger.Sample.minStake_later, Ledger.Sample.minStake_later]
  obtain ⟨⟨n, hn, hreached⟩, -⟩ := Follower.converges
    (f := .new (Ledger.Sample.later Ledger.Sample.zeros 0 100 0) 1)
    (r := .new (Ledger.Sample.later Ledger.Sample.zeros 1 70 30) 1) run run'
    Ledger.Sample.length_start hstake rfl (UInt64.le_refl 1)
    Ledger.Sample.behind_entries Ledger.Sample.distinguishes_entries supplied
  exact ⟨Ledger.Sample.suite, _, _, _, _, _, run, run', Ne.symm Ledger.Sample.blockHash_entry, rfl,
    supplied, n, hn, (hreached n (Nat.le_refl n)).1⟩

end SynergyNode
