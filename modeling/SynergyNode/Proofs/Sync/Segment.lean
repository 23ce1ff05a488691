import Mathlib.Data.Nat.Find
import SynergyNode.Proofs.Sync.Adoption

/-!
# Being served a segment of another chain

What a ledger does with a segment of another run's chain depends on whether its own chain is a
part of that one.

* If it is, the segment is committed from the own height on (`Run.takeBatch_part`).
* If it is not, the segment differs from it somewhere, and it is cut back below that height
  (`Run.takeBatch_apart`).

A segment of a chain that is behind is passed over (`Follows.ignores?_of_behind`).
-/

namespace SynergyNode

/-! ## 1. Comparing histories -/

namespace History

variable {start : Accounts} {c d : History}

theorem cut_of_suffix (h : c <:+ d) {n : Nat} (hn : n ≤ c.length) : c.cut n = d.cut n := by
  have hcut := cut_eq_of_suffix h
  conv => lhs; rw [← hcut]
  exact cut_cut hn h.length_le

/-- Blocks of two chains at one height are the same if their hashes are. -/
def Distinguishes (c d : History) : Prop :=
  ∀ n, n ≤ c.length → n ≤ d.length → (c.cut n).tip.blockHash = (d.cut n).tip.blockHash →
    (c.cut n).tip = (d.cut n).tip

theorem distinguishes_of_suffix (h : c <:+ d) : Distinguishes c d := by
  intro n hn _ _
  rw [cut_of_suffix h hn]

theorem Distinguishes.suffix {c' d' : History} (h : Distinguishes c d) (hc : c' <:+ c)
    (hd : d' <:+ d) : Distinguishes c' d' := by
  intro n hn hn'
  rw [cut_of_suffix hc hn, cut_of_suffix hd hn']
  exact h n (Nat.le_trans hn hc.length_le) (Nat.le_trans hn' hd.length_le)

theorem mem_transactions_of_suffix {t : Transaction} (h : c <:+ d) (ht : t ∈ transactions c) :
    t ∈ transactions d := by
  obtain ⟨e, he, hte⟩ := List.mem_flatMap.mp ht
  exact List.mem_flatMap.mpr ⟨e, h.subset he, hte⟩

/-- Lists of transactions with the same hashes are the same if transactions with one hash are. -/
theorem eq_of_map_hash : ∀ {txs txs' : List Transaction},
    txs.map Transaction.hash = txs'.map Transaction.hash →
    (∀ t ∈ txs, ∀ u ∈ txs', t.hash = u.hash → t = u) → txs = txs'
  | [], [], _, _ => rfl
  | t :: txs, u :: txs', h, hsame => by
    obtain ⟨hfirst, hrest⟩ := List.cons.inj h
    have htail := eq_of_map_hash hrest fun t' ht' u' hu' =>
      hsame t' (List.mem_cons_of_mem t ht') u' (List.mem_cons_of_mem u hu')
    rw [htail, hsame t List.mem_cons_self u List.mem_cons_self hfirst]

/-- **Sound chains with one tip are the same**: each block names the one below it, and the
accounts follow from the blocks. -/
theorem Sound.eq_of_tip : ∀ {c d : History}, c.Sound start → d.Sound start →
    c.length = d.length → Distinguishes c d →
    (∀ t ∈ transactions c, ∀ u ∈ transactions d, t.hash = u.hash → t = u) →
    c.tip.blockHash = d.tip.blockHash → c = d
  | [], [], _, _, _, _, _, _ => rfl
  | e :: c, e' :: d, hc, hd, hlength, hblocks, htxs, htip => by
    have hblock : e.block = e'.block := by
      have h := hblocks (e :: c).length (Nat.le_refl _) (Nat.le_of_eq hlength)
      rw [cut_of_length_le (Nat.le_refl _), cut_of_length_le (Nat.le_of_eq hlength.symm)] at h
      exact h htip
    have hprevious : (tip c).blockHash = (tip d).blockHash := by
      rw [← hc.1.previousHash, hblock, hd.1.previousHash]
    have hbelow : c = d :=
      Sound.eq_of_tip hc.2 hd.2 (Nat.succ.inj hlength)
        (hblocks.suffix (List.suffix_cons e c) (List.suffix_cons e' d))
        (fun t ht u hu => htxs t (List.mem_append_right _ ht) u (List.mem_append_right _ hu))
        hprevious
    have htransactions : e.transactions = e'.transactions := by
      refine eq_of_map_hash ?_ fun t ht u hu =>
        htxs t (List.mem_append_left _ ht) u (List.mem_append_left _ hu)
      rw [hc.1.hashes, hd.1.hashes, hblock]
    have haccounts : e.accounts = e'.accounts := by
      have h := hc.1.applied
      rw [hbelow, hblock, htransactions, hd.1.applied] at h
      exact (Except.ok.inj h).symm
    cases e
    cases e'
    cases hblock
    cases htransactions
    cases haccounts
    rw [hbelow]

/-- One chain is behind another: it is lower, or of the same height and its tip has the higher
hash. -/
def Behind (c d : History) : Prop :=
  c.length < d.length ∨ c.length = d.length ∧ compare d.tip.blockHash c.tip.blockHash = .lt

theorem length_le_of_behind (h : c = d ∨ Behind c d) : c.length ≤ d.length := by
  rcases h with rfl | hlow | ⟨hlevel, -⟩
  · exact Nat.le_refl _
  · exact Nat.le_of_lt hlow
  · exact Nat.le_of_eq hlevel

/-- A chain that is behind another one, or the same, has no lower tip at its height. -/
theorem compare_tip_of_behind (h : c = d ∨ Behind c d) (hlevel : c.length = d.length) :
    compare c.tip.blockHash d.tip.blockHash ≠ .lt := by
  rcases h with rfl | hlow | ⟨-, hlower⟩
  · have hself : compare c.tip.blockHash c.tip.blockHash = .eq := Std.ReflCmp.compare_self
    rw [hself]
    decide
  · omega
  · rw [Std.OrientedCmp.gt_of_lt hlower]
    decide

end History

open History

/-! ## 2. The transactions of the other chain -/

namespace Ledger

variable {start : Accounts} {l r : Ledger} {c d : History} {t : Transaction}

/-- The very transaction is at hand: it is committed, or it is pending and none is committed under
its hash.  Two transactions that differ only in their signatures have one hash. -/
def Holds (l : Ledger) (t : Transaction) : Prop :=
  l.store.transaction? t.hash = .ok (some t) ∨
    l.store.transaction? t.hash = .ok none ∧ l.pools.find? t.hash = some t

theorem Holds.knows (h : l.Holds t) (hs : l.store.Reliable) : l.Knows t.hash := by
  rcases h with hstored | ⟨-, hpending⟩
  · obtain ⟨x, hx, -⟩ := hs.transaction?_eq_some.mp hstored
    right
    rw [hs.hasTransaction, Std.ExtTreeMap.contains_eq_isSome_getElem?, hx, Option.isSome_some]
  · left
    rw [Pools.contains_eq, hpending, Option.isSome_some]

theorem Keeps.transaction?_eq_none (h : Keeps start l c) (hfollows : Follows start l c)
    {hash : Hash} (hnew : hash ∉ txHashes c) : l.store.transaction? hash = .ok none := by
  have hcontains := Store.contains_transactions_ofHistory hfollows.sound hash
  rw [← h.store, Std.ExtTreeMap.contains_eq_isSome_getElem?] at hcontains
  rw [hfollows.reliable.transaction?_eq_none, ← Option.not_isSome_iff_eq_none, hcontains]
  exact hnew

/-- No other transaction is committed under the hash of one that is at hand. -/
theorem Keeps.eq_of_holds (h : Keeps start l c) (hfollows : Follows start l c)
    (hfits : ∀ e ∈ c, e.Fits) {u : Transaction} (hu : u ∈ transactions c) (ht : l.Holds t)
    (hhash : u.hash = t.hash) : u = t := by
  have hread := h.transaction? hfollows hfits hu
  rw [hhash] at hread
  rcases ht with hstored | ⟨habsent, -⟩
  · rw [hread] at hstored
    cases hstored
    rfl
  · rw [hread] at habsent
    cases habsent

theorem Keeps.holds (h : Keeps start l c) (hfollows : Follows start l c)
    (hfits : ∀ e ∈ c, e.Fits) (ht : t ∈ transactions c) : l.Holds t :=
  Or.inl (h.transaction? hfollows hfits ht)

/-- Transactions that are at hand and not committed are pending. -/
theorem Keeps.awaits (h : Keeps start l c) (hfollows : Follows start l c)
    (hholds : ∀ t ∈ transactions d, l.Holds t) : l.Awaits c d := by
  intro t ht hnew
  rcases hholds t ht with hstored | ⟨-, hpending⟩
  · rw [h.transaction?_eq_none hfollows hnew] at hstored
    cases hstored
  · exact hpending

/-- On a part of the other chain, its transactions are committed or pending. -/
theorem Awaits.holds (h : l.Awaits c d) (hkeeps : Keeps start l c) (hfollows : Follows start l c)
    (hfits : ∀ e ∈ c, e.Fits) (hpart : c <:+ d)
    (hsame : ∀ t ∈ transactions d, ∀ u ∈ transactions d, t.hash = u.hash → t = u) :
    ∀ t ∈ transactions d, l.Holds t := by
  intro t ht
  by_cases hold : t.hash ∈ txHashes c
  · obtain ⟨u, hu, hhash⟩ := (mem_txHashes_iff hfollows.sound).mp hold
    rw [hsame t ht u (mem_transactions_of_suffix hpart hu) hhash.symm]
    exact hkeeps.holds hfollows hfits hu
  · exact Or.inr ⟨hkeeps.transaction?_eq_none hfollows hold, h t ht hold⟩

/-! ## 3. Which segments are looked at -/

/-- A segment that starts on the own chain and reaches its height is looked at, and one that ends
at this height is if its tip is the lower one. -/
theorem Follows.ignores?_segment (h : Follows start l c) {first count : Nat}
    (hsize : first + count < UInt64.size) (hfirst : first ≤ c.length)
    (hlast : c.length ≤ first + count)
    (hlower : first + count = c.length →
      compare (d.cut (first + count)).tip.blockHash c.tip.blockHash = .lt) :
    l.ignores? (d.segment first (count + 1)) = none := by
  have hheight : l.lastBlock.height.toNat = c.length := by rw [h.last, h.sound.tip_height]
  have hwordLast : (UInt64.ofNat (first + count)).toNat = first + count :=
    UInt64.toNat_ofNat_of_lt' hsize
  have hwordFirst : (UInt64.ofNat first).toNat = first := UInt64.toNat_ofNat_of_lt' (by omega)
  have hlong : ¬ UInt64.ofNat (first + count) < l.lastBlock.height := by
    rw [UInt64.lt_iff_toNat_lt, hwordLast, hheight]
    omega
  have hpreferred : ¬ (UInt64.ofNat (first + count) = l.lastBlock.height ∧
      compare (d.cut (first + count)).tip.blockHash l.lastBlock.blockHash ≠ .lt) := by
    rintro ⟨hlevel, hother⟩
    rw [h.last] at hother
    exact hother (hlower (by rw [← hwordLast, hlevel, hheight]))
  have hconnected : ¬ l.lastBlock.height < UInt64.ofNat first := by
    rw [UInt64.lt_iff_toNat_lt, hwordFirst, hheight]
    omega
  simp only [Ledger.ignores?, head?_segment, getLast?_segment, if_neg hlong, if_neg hpreferred,
    if_neg hconnected]

/-- What is served of a chain that is behind, or the same, is passed over, whatever range was
asked for. -/
theorem Follows.ignores?_of_behind (h : Follows start r d) (hbehind : c = d ∨ Behind c d)
    {first count : Nat} (hlast : first + count ≤ c.length + 1 ∨ count = 0) :
    ∃ reason, r.ignores? (c.segment first count) = some reason := by
  cases count with
  | zero => exact ⟨.empty, rfl⟩
  | succ count =>
    have hheight : r.lastBlock.height.toNat = d.length := by rw [h.last, h.sound.tip_height]
    have hlow : first + count ≤ c.length := by omega
    have hlong := h.length_lt
    have hle := length_le_of_behind hbehind
    have hword : (UInt64.ofNat (first + count)).toNat = first + count :=
      UInt64.toNat_ofNat_of_lt' (by omega)
    by_cases hshort : first + count < d.length
    · have hshorter : UInt64.ofNat (first + count) < r.lastBlock.height := by
        rw [UInt64.lt_iff_toNat_lt, hword, hheight]
        exact hshort
      exact ⟨.shorter, by
        simp only [Ledger.ignores?, head?_segment, getLast?_segment, if_pos hshorter]⟩
    · have hlevel : c.length = d.length := by omega
      have hend : c.cut (first + count) = c := cut_of_length_le (by omega)
      have hsame : UInt64.ofNat (first + count) = r.lastBlock.height := by
        apply UInt64.toNat_inj.mp
        rw [hword, hheight]
        omega
      have hother := compare_tip_of_behind hbehind hlevel
      refine ⟨.notPreferred, ?_⟩
      simp only [Ledger.ignores?, head?_segment, getLast?_segment, hend, hsame, h.last,
        UInt64.lt_irrefl, if_false, true_and, ne_eq, hother, not_false_eq_true, if_true]

/-! ## 4. What a batch does -/

section

variable [SignatureSuite]

/-- Entries up to the height of the chain are passed over when a batch is committed. -/
theorem commitBatch_append {before : HeaderBatch} (done : List CommitReport)
    (rest : HeaderBatch) (hlow : ∀ e ∈ before, e.1 ≤ l.height) :
    l.commitBatch done (before ++ rest) = l.commitBatch done rest := by
  induction before with
  | nil => rfl
  | cons e before ih =>
    obtain ⟨hfirst, hrest⟩ := List.forall_mem_cons.mp hlow
    rw [List.cons_append, commitBatch, if_pos hfirst, ih hrest]

/-- A segment of a chain that the own one is part of extends it, and nothing is missing. -/
theorem Run.examine_part (run : Run Event.Fits start l c) (run' : Run Event.Fits start r d)
    (hstart : start.toBytes.length ≤ Protocol.maxMessageBytes) (hpart : c <:+ d)
    (hholds : ∀ t ∈ transactions d, l.Holds t) {first count : Nat} (hfirst : first ≤ c.length)
    (hhigh : first + count ≤ d.length) :
    l.examine none [] (d.segment first (count + 1)) = .ok (.extension []) := by
  have hknown : ∀ k, c.length < k → k < first + (count + 1) →
      ∀ hash ∈ (d.cut k).tip.txHashes, l.Knows hash := by
    intro k habove hbelow hash hmem
    have hk : k - 1 + 1 = k := by omega
    have hlisted : hash ∈ txHashes d := mem_txHashes_iff_cut.mpr ⟨k - 1, by omega, by rwa [hk]⟩
    obtain ⟨t, ht, rfl⟩ := (mem_txHashes_iff run'.follows.sound).mp hlisted
    exact (hholds t ht).knows run.follows.reliable
  obtain ⟨seen, hpasses, -⟩ := run.passes_segment run' hstart (count + 1) first (by omega)
    (fun k _ _ hk => by rw [cut_of_suffix hpart hk]) hknown (Or.inl ⟨rfl, Or.inl hfirst⟩)
  exact examine_eq_extension.mpr ⟨seen, hpasses⟩

/-- Such a segment is committed from the own height on. -/
theorem Run.commitBatch_part (run : Run Event.Fits start l c) (run' : Run Event.Fits start r d)
    (hstart : start.toBytes.length ≤ Protocol.maxMessageBytes) (hstake : l.minStake = r.minStake)
    (hpart : c <:+ d) (hawaits : l.Awaits c d) {first count : Nat} (hfirst : first ≤ c.length)
    (hlow : c.length < first + count) (hhigh : first + count ≤ d.length) :
    ∃ reports l', l.commitBatch [] (d.segment first (count + 1)) = (.ok (.committed reports), l') ∧
      Run Event.Fits start l' (d.cut (first + count)) ∧ l'.minStake = r.minStake ∧
      l'.Awaits (d.cut (first + count)) d := by
  have hlong := run.follows.length_lt
  have hsplit : count + 1 = c.length + 1 - first + (first + count - c.length) := by omega
  have hmiddle : first + (c.length + 1 - first) = c.length + 1 := by omega
  have hend : c.length + (first + count - c.length) = first + count := by omega
  have hskipped : ∀ e ∈ d.segment first (c.length + 1 - first), e.1 ≤ l.height := by
    intro e he
    obtain ⟨n, hn, rfl⟩ := List.mem_map.mp he
    rw [List.mem_range'_1] at hn
    have hword : (UInt64.ofNat n).toNat = n := UInt64.toNat_ofNat_of_lt' (by omega)
    rw [run.follows.toNat_le, hword]
    omega
  have hcut : d.cut c.length = c := cut_eq_of_suffix hpart
  rw [← hcut] at run hawaits
  obtain ⟨reports, l', hdone, hrest⟩ := Run.commitBatch_segment run' hstart
    (first + count - c.length) c.length [] run hstake hawaits (by omega)
  rw [hend] at hrest
  refine ⟨reports, l', ?_, hrest⟩
  rw [hsplit, segment_append, hmiddle, commitBatch_append [] _ hskipped, hdone]

/-- **A segment of a chain that the own one is part of is committed**, as far as it is higher. -/
theorem Run.takeBatch_part (run : Run Event.Fits start l c) (run' : Run Event.Fits start r d)
    (hstart : start.toBytes.length ≤ Protocol.maxMessageBytes) (hstake : l.minStake = r.minStake)
    (hflag : l.syncing = false) (hpart : c <:+ d) (hholds : ∀ t ∈ transactions d, l.Holds t)
    {first count : Nat} (hfirst : first ≤ c.length) (hlow : c.length < first + count)
    (hhigh : first + count ≤ d.length) (distance : UInt64) :
    ∃ reports l', l.takeBatch distance (d.segment first (count + 1)) =
        (.ok (.committed reports), l') ∧
      l'.syncing = false ∧ l'.minStake = r.minStake ∧
      Run Event.Fits start l' (d.cut (first + count)) ∧ l'.Awaits (d.cut (first + count)) d := by
  have hlong := run'.follows.length_lt
  have hlooked : l.ignores? (d.segment first (count + 1)) = none :=
    run.follows.ignores?_segment (by omega) hfirst (Nat.le_of_lt hlow) (by omega)
  have hverdict := run.examine_part run' hstart hpart hholds hfirst hhigh
  have hawaits := (run.completes hstart).keeps.awaits run.follows hholds
  obtain ⟨reports, l', hdone, hrun, hstake', hleft⟩ :=
    (run.setSyncing true trivial).commitBatch_part run' hstart hstake hpart hawaits hfirst hlow hhigh
  refine ⟨reports, l'.endSync, ?_, rfl, hstake', hrun.setSyncing false trivial, hleft⟩
  rw [takeBatch_of_extension distance hlooked hverdict hflag, hdone]

omit [SignatureSuite] in
theorem exists_first_difference {first : Nat} (hfirst : first ≤ c.length)
    (hother : c.tip.blockHash ≠ (d.cut c.length).tip.blockHash) :
    ∃ n, n < c.length ∧ first ≤ n + 1 ∧
      (c.cut (n + 1)).tip.blockHash ≠ (d.cut (n + 1)).tip.blockHash ∧
      ∀ k, first ≤ k → k ≤ n → (c.cut k).tip.blockHash = (d.cut k).tip.blockHash := by
  have hexists : ∃ n, first ≤ n ∧ (c.cut n).tip.blockHash ≠ (d.cut n).tip.blockHash :=
    ⟨c.length, hfirst, by rwa [cut_of_length_le (Nat.le_refl c.length)]⟩
  obtain ⟨hleast, hdiffers⟩ := Nat.find_spec hexists
  have hsize : Nat.find hexists ≤ c.length :=
    Nat.find_min' hexists ⟨hfirst, by rwa [cut_of_length_le (Nat.le_refl c.length)]⟩
  have hpos : Nat.find hexists ≠ 0 := by
    intro hzero
    rw [hzero, cut_zero, cut_zero] at hdiffers
    exact hdiffers rfl
  have hnext : Nat.find hexists - 1 + 1 = Nat.find hexists := by omega
  refine ⟨Nat.find hexists - 1, by omega, by omega, by rwa [hnext], fun k hk hlow => ?_⟩
  by_contra hne
  exact Nat.find_min hexists (by omega) ⟨hk, hne⟩

/-- A chain of which the other one has the tip at its height is a part of it. -/
theorem Run.suffix_of_tip (run : Run Event.Fits start l c) (run' : Run Event.Fits start r d)
    (hstart : start.toBytes.length ≤ Protocol.maxMessageBytes) (hblocks : Distinguishes c d)
    (hholds : ∀ t ∈ transactions d, l.Holds t) (hle : c.length ≤ d.length)
    (htip : c.tip.blockHash = (d.cut c.length).tip.blockHash) : c <:+ d := by
  have hpart : d.cut c.length <:+ d := List.drop_suffix _ d
  have hsame : c = d.cut c.length :=
    Sound.eq_of_tip run.follows.sound (run'.follows.sound.cut c.length) (length_cut hle).symm
      (hblocks.suffix (List.suffix_refl c) hpart)
      (fun t ht u hu hhash => (run.completes hstart).keeps.eq_of_holds run.follows run.fits ht
        (hholds u (mem_transactions_of_suffix hpart hu)) hhash)
      htip
  rw [hsame]
  exact hpart

/-- A segment of a chain that the own one is not part of differs from it at some height. -/
theorem Run.examine_apart (run : Run Event.Fits start l c) (run' : Run Event.Fits start r d)
    (hstart : start.toBytes.length ≤ Protocol.maxMessageBytes) (hstake : l.minStake = r.minStake)
    (hapart : ¬ c <:+ d) (hblocks : Distinguishes c d) (hholds : ∀ t ∈ transactions d, l.Holds t)
    {first count : Nat} (hfirst : first ≤ c.length) (hlow : c.length ≤ first + count)
    (hhigh : first + count ≤ d.length) :
    ∃ n, n < c.length ∧ l.examine none [] (d.segment first (count + 1)) =
      .ok (.fork (UInt64.ofNat (n + 1))) := by
  have hother : c.tip.blockHash ≠ (d.cut c.length).tip.blockHash := fun htip =>
    hapart (run.suffix_of_tip run' hstart hblocks hholds (Nat.le_trans hlow hhigh) htip)
  obtain ⟨n, hn, hstarts, hdiffers, hagree⟩ := exists_first_difference hfirst hother
  have hsame (k : Nat) (hk : k ≤ c.length)
      (hhash : (c.cut k).tip.blockHash = (d.cut k).tip.blockHash) :
      (c.cut k).tip = (d.cut k).tip := hblocks k hk (by omega) hhash
  obtain ⟨seen, hpasses, hseen⟩ := run.passes_segment run' hstart (n + 1 - first) first (by omega)
    (fun k hlow hhigh hk => hsame k hk (hagree k hlow (by omega)))
    (fun k habove hbelow => by omega) (Or.inl ⟨rfl, Or.inl hfirst⟩)
  have hends : first + (n + 1 - first) - 1 = n := by omega
  rw [hends] at hseen
  have hfork := run.differs run' hstart hstake hn (by omega) (fun hhash => hsame n (by omega) hhash)
    hdiffers hseen
  have hsplit : count + 1 = n + 1 - first + (first + count - (n + 1) + 1) := by omega
  have hmiddle : first + (n + 1 - first) = n + 1 := by omega
  refine ⟨n, hn, ?_⟩
  rw [hsplit, segment_append, hmiddle, segment_succ, examine_append hpasses, hfork.examine]

/-- **A segment of a chain that the own one is not part of makes the ledger go back.** -/
theorem Run.takeBatch_apart (run : Run Event.Fits start l c) (run' : Run Event.Fits start r d)
    (hstart : start.toBytes.length ≤ Protocol.maxMessageBytes) (hstake : l.minStake = r.minStake)
    (hflag : l.syncing = false) (hapart : ¬ c <:+ d) (hblocks : Distinguishes c d)
    (hholds : ∀ t ∈ transactions d, l.Holds t)
    {first count : Nat} (hfirst : first ≤ c.length) (hlow : c.length ≤ first + count)
    (hhigh : first + count ≤ d.length)
    (hlower : first + count = c.length →
      compare (d.cut (first + count)).tip.blockHash c.tip.blockHash = .lt)
    {distance : UInt64} (hdistance : 1 ≤ distance) :
    ∃ fork target, target.toNat < c.length ∧
      l.takeBatch distance (d.segment first (count + 1)) =
        (.ok (.forked fork target), (Ledger.rollback { l with syncing := true } target).2.endSync) := by
  have hlong := run'.follows.length_lt
  have hlooked : l.ignores? (d.segment first (count + 1)) = none :=
    run.follows.ignores?_segment (by omega) hfirst hlow hlower
  obtain ⟨n, hn, hverdict⟩ :=
    run.examine_apart run' hstart hstake hapart hblocks hholds hfirst hlow hhigh
  have hraised := run.setSyncing true trivial
  have hword : (UInt64.ofNat (n + 1)).toNat = n + 1 := UInt64.toNat_ofNat_of_lt' (by omega)
  have hbelow : UInt64.ofNat (n + 1) ≤ l.height := by
    rw [run.follows.toNat_le, hword]
    omega
  refine ⟨UInt64.ofNat (n + 1), Word64.saturatingSub (UInt64.ofNat (n + 1)) distance, ?_, ?_⟩
  · have hone : 1 ≤ distance.toNat := UInt64.le_iff_toNat_le.mp hdistance
    rw [Word64.toNat_saturatingSub, hword]
    omega
  · rw [takeBatch_of_fork distance hlooked hverdict hflag,
      abandonFrom_eq_forked hraised.follows hbelow (hraised.rollback hstart _).1]

end

end Ledger

end SynergyNode
