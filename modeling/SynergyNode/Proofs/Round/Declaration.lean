import SynergyNode.Proofs.Ledger.SchemeChange
import SynergyNode.Round.Proposer

/-!
# The descriptors that a round declares

The proposer of a block starts from the live descriptors and writes them anew; whoever commits it
compares bytes with those of the last block, and asks the votes where they differ.  The two agree
only as far as the last block was written in the same way.  Reading is lenient: it takes what
follows the 33 bytes or the end of the name, and any byte but zero for a paused slot.

* `descriptor_of_headerEncryption`: the header declares just what was meant;
* `mem_changedSlots_iff`: a slot counts as changed when the votes decide on it, or when the last
  block does not have the canonical bytes there;
* `declaration_passes_iff`: the block passes when every slot is canonical or decided on, and only
  then is a slot counted as changed for the votes alone;
* `declaration_refused_behind_padding`: one byte behind a descriptor, and the next block of the
  round is refused.
-/

namespace SynergyNode

/-- Bytes that are the form of the descriptor they denote. -/
def Descriptor.Canonical (bytes : Bytes) : Prop :=
  ∃ d, ofBytes bytes = .ok d ∧ d.toBytes = bytes

theorem Descriptor.canonical_iff {bytes : Bytes} {d : Descriptor} (h : ofBytes bytes = .ok d) :
    Canonical bytes ↔ d.toBytes = bytes := by
  constructor
  · rintro ⟨e, he, hbytes⟩
    have hsame : e = d := Except.ok.inj (he.symm.trans h)
    rw [← hsame, hbytes]
  · intro hbytes
    exact ⟨d, h, hbytes⟩

/-- Only the canonical bytes among those of a descriptor are its form. -/
theorem Descriptor.canonical_toBytes {bytes : Bytes} {d : Descriptor} (h : ofBytes bytes = .ok d) :
    Canonical d.toBytes :=
  ⟨d, ofBytes_toBytes h, rfl⟩

/-- What follows the 33 bytes is not looked at. -/
theorem Descriptor.ofBytes_append {bytes : Bytes} (h : encodedLength ≤ bytes.length)
    (rest : Bytes) : ofBytes (bytes ++ rest) = ofBytes bytes := by
  rw [encodedLength] at h
  have hpart (start n : Nat) (hn : start + n ≤ 33) :
      ((bytes ++ rest).drop start).take n = (bytes.drop start).take n := by
    rw [List.drop_append_of_le_length (by omega), List.take_append_of_le_length]
    rw [List.length_drop]
    omega
  have hname : (bytes ++ rest).take nameLength = bytes.take nameLength :=
    hpart 0 nameLength (by decide)
  have hpaused : ((bytes ++ rest).drop 32).headD 0 = (bytes.drop 32).headD 0 := by
    have hone := congrArg List.head? (hpart 32 1 (by decide))
    rw [List.head?_take, List.head?_take, if_neg Nat.one_ne_zero, if_neg Nat.one_ne_zero] at hone
    rw [List.headD_eq_head?_getD, List.headD_eq_head?_getD, hone]
  have hfields : readFields (bytes ++ rest) = readFields bytes := by
    simp only [readFields, hname, hpart 20 4 (by decide), hpart 24 4 (by decide),
      hpart 28 4 (by decide), hpaused]
  have hlong : ¬ (bytes ++ rest).length < encodedLength := by
    rw [List.length_append, encodedLength]
    omega
  have hown : ¬ bytes.length < encodedLength := Nat.not_lt.mpr h
  simp only [ofBytes, if_neg hlong, if_neg hown, hfields]

namespace Ledger

open Round (headerEncryption declared)

variable {l : Ledger} {b : Block} {slot : Slot} {height : UInt64}

/-! ## 1. What the votes decide -/

/-- The descriptor that the votes put in the place of the live one, from the first height on at
which a slot may change. -/
def decided? (l : Ledger) (height : UInt64) (slot : Slot) : Option Descriptor :=
  if Protocol.encryptionChangeMinHeight ≤ height then
    l.voting.decide? slot height l.accounts.totalStaked (l.schemes.get slot)
  else none

theorem declared_eq (l : Ledger) (height : UInt64) (slot : Slot) :
    declared l height slot = (l.decided? height slot).getD (l.schemes.get slot) := by
  simp only [declared, decided?]
  split
  · rfl
  · rfl

/-- The votes never decide for what is live already, and only for what can be read. -/
theorem decided?_eq_some {d : Descriptor} (h : l.decided? height slot = some d) :
    d ≠ l.schemes.get slot ∧ ∃ value, Descriptor.ofBytes value = .ok d := by
  unfold decided? at h
  split at h
  · obtain ⟨value, hvalue, hdiffers, -, -⟩ := Voting.decide?_eq_some h
    exact ⟨hdiffers, value, hvalue⟩
  · cases h

theorem get_headerEncryption (l : Ledger) (height : UInt64) (slot : Slot) :
    (headerEncryption l height).get slot = (declared l height slot).toBytes := by
  cases slot <;> rfl

/-- **The header declares the descriptors that were meant**, whether they are live or decided on. -/
theorem descriptor_of_headerEncryption
    (hlive : declaredSchemes l.lastBlock.header = .ok l.schemes)
    (hdeclares : b.header.encryption = headerEncryption l height) (slot : Slot) :
    b.header.descriptor slot = .ok (declared l height slot) := by
  have hread : ∃ bytes, Descriptor.ofBytes bytes = .ok (declared l height slot) := by
    rw [declared_eq]
    cases hdecided : l.decided? height slot with
    | none => exact ⟨_, declaredSchemes_eq_ok.mp hlive slot⟩
    | some d => exact (decided?_eq_some hdecided).2
  obtain ⟨bytes, hbytes⟩ := hread
  rw [Header.descriptor, hdeclares, get_headerEncryption]
  exact Descriptor.ofBytes_toBytes hbytes

/-! ## 2. What counts as a change -/

/-- **A slot counts as changed when the votes decide on it, or when the last block does not have the
canonical bytes of its descriptor there.** -/
theorem mem_changedSlots_iff
    (hlive : declaredSchemes l.lastBlock.header = .ok l.schemes)
    (hdeclares : b.header.encryption = headerEncryption l b.height) :
    slot ∈ b.changedSlots l.lastBlock ↔
      (l.decided? b.height slot).isSome ∨
        ¬ Descriptor.Canonical (l.lastBlock.header.encryption.get slot) := by
  have hcurrent : Descriptor.ofBytes (l.lastBlock.header.encryption.get slot) =
      .ok (l.schemes.get slot) := declaredSchemes_eq_ok.mp hlive slot
  rw [Block.mem_changedSlots, hdeclares, get_headerEncryption, declared_eq,
    Descriptor.canonical_iff hcurrent]
  cases hdecided : l.decided? b.height slot with
  | none => simp
  | some d =>
    obtain ⟨hdiffers, value, hvalue⟩ := decided?_eq_some hdecided
    have hbytes : d.toBytes ≠ l.lastBlock.header.encryption.get slot := by
      intro hsame
      have hread := Descriptor.ofBytes_toBytes hvalue
      rw [hsame, hcurrent] at hread
      exact hdiffers (Except.ok.inj hread).symm
    simp [hbytes]

/-- Votes that were looked at before back the same slots. -/
theorem checkBacked_look (l : Ledger) (b : Block) (looked : List Slot) (slot : Slot) :
    checkBacked { l with voting := l.voting.look looked b.height } b slot =
      l.checkBacked b slot := by
  induction looked generalizing l with
  | nil => rfl
  | cons first rest ih =>
    have hrest := ih { l with voting := l.voting.prune first b.height }
    rw [checkBacked_prune] at hrest
    exact hrest

/-- The votes back a slot of the block exactly when they decide on it. -/
theorem checkBacked_iff
    (hlive : declaredSchemes l.lastBlock.header = .ok l.schemes)
    (hdeclares : b.header.encryption = headerEncryption l b.height) :
    (Protocol.encryptionChangeMinHeight ≤ b.height ∧ l.checkBacked b slot = .ok ()) ↔
      (l.decided? b.height slot).isSome := by
  have hcurrent := declaredSchemes_eq_ok.mp hlive slot
  have hdeclared := descriptor_of_headerEncryption hlive hdeclares slot
  rw [checkBacked_eq_ok]
  constructor
  · rintro ⟨hheight, current, proposed, hcurrent', -, hdecide⟩
    have hsame : current = l.schemes.get slot := Except.ok.inj (hcurrent'.symm.trans hcurrent)
    rw [hsame] at hdecide
    simp only [decided?, if_pos hheight, hdecide, Option.isSome_some]
  · intro hsome
    obtain ⟨d, hd⟩ := Option.isSome_iff_exists.mp hsome
    rw [declared_eq, hd, Option.getD_some] at hdeclared
    unfold decided? at hd
    split at hd
    · rename_i hheight
      exact ⟨hheight, _, _, hcurrent, hdeclared, hd⟩
    · cases hd

/-! ## 3. What passes -/

/-- **The block that a round declares passes the check of its changes exactly when each slot has its
canonical bytes in the last block or is decided on**, also when the votes were looked at in between.
Under the same condition a slot counts as changed for the votes alone. -/
theorem declaration_passes_iff (l : Ledger) (b : Block) (looked : List Slot)
    (hlive : declaredSchemes l.lastBlock.header = .ok l.schemes)
    (hdeclares : b.header.encryption = headerEncryption l b.height) :
    (∀ slot, b.header.descriptor slot = .ok (declared l b.height slot)) ∧
    ((checkChanges { l with voting := l.voting.look looked b.height } b .proposal
        (b.changedSlots l.lastBlock)).1 = .ok () ↔
      ∀ slot, Descriptor.Canonical (l.lastBlock.header.encryption.get slot) ∨
        (l.decided? b.height slot).isSome) ∧
    ∀ slot, (slot ∈ b.changedSlots l.lastBlock ↔ (l.decided? b.height slot).isSome) ↔
      Descriptor.Canonical (l.lastBlock.header.encryption.get slot) ∨
        (l.decided? b.height slot).isSome := by
  refine ⟨descriptor_of_headerEncryption hlive hdeclares, ?_, fun slot => ?_⟩
  · rw [checkChanges_eq_ok]
    constructor
    · intro hpasses slot
      by_cases hcanonical : Descriptor.Canonical (l.lastBlock.header.encryption.get slot)
      · exact Or.inl hcanonical
      · right
        have hchanged := (mem_changedSlots_iff hlive hdeclares).mpr (Or.inr hcanonical)
        have hbacked := hpasses slot hchanged
        rw [checkBacked_look] at hbacked
        exact (checkBacked_iff hlive hdeclares).mp hbacked
    · intro hall slot hchanged
      have hdecided : (l.decided? b.height slot).isSome := by
        rcases (mem_changedSlots_iff hlive hdeclares).mp hchanged with hdecided | hother
        · exact hdecided
        · exact (hall slot).resolve_left hother
      rw [checkBacked_look]
      exact (checkBacked_iff hlive hdeclares).mpr hdecided
  · rw [mem_changedSlots_iff hlive hdeclares]
    by_cases hcanonical : Descriptor.Canonical (l.lastBlock.header.encryption.get slot)
    · simp [hcanonical]
    · simp [hcanonical]

namespace Sample

theorem decided?_voted (slot : Slot) :
    voted.decided? changing.height slot = some (proposed.get slot) := by
  have hallowed : Protocol.encryptionChangeMinHeight ≤ changing.height := by decide
  rw [decided?, if_pos hallowed]
  exact decide?_votes slot

theorem encryption_changing_eq :
    changing.header.encryption = headerEncryption voted changing.height := by
  refine PerSlot.ext fun slot => ?_
  rw [get_headerEncryption, declared_eq, decided?_voted, changing, Block.header_sealed]
  cases slot <;> rfl

end Sample

/-- The block that changes both slots is the one that the votes make a round declare, and it
passes. -/
theorem declaration_passes_iff_both :
    Sample.voted.lastBlock.height + 1 = Sample.changing.height ∧
    declaredSchemes Sample.voted.lastBlock.header = .ok Sample.voted.schemes ∧
    Sample.changing.header.encryption = headerEncryption Sample.voted Sample.changing.height ∧
    (Sample.voted.checkChanges Sample.changing .proposal
      (Sample.changing.changedSlots Sample.voted.lastBlock)).1 = .ok () ∧
    ∀ slot, slot ∈ Sample.changing.changedSlots Sample.voted.lastBlock ∧
      Sample.changing.header.descriptor slot = .ok (Sample.proposed.get slot) := by
  have hdecided (slot : Slot) : (Sample.voted.decided? Sample.changing.height slot).isSome := by
    rw [Sample.decided?_voted, Option.isSome_some]
  obtain ⟨hdescriptor, hpasses, hchanged⟩ := declaration_passes_iff Sample.voted Sample.changing []
    Sample.declaredSchemes_parent Sample.encryption_changing_eq
  refine ⟨rfl, Sample.declaredSchemes_parent, Sample.encryption_changing_eq,
    hpasses.mpr fun slot => Or.inr (hdecided slot), fun slot => ⟨?_, ?_⟩⟩
  · exact ((hchanged slot).mpr (Or.inr (hdecided slot))).mpr (hdecided slot)
  · rw [hdescriptor, declared_eq, Sample.decided?_voted, Option.getD_some]

/-! ## 4. A byte behind a descriptor -/

/-- Without votes nothing is decided. -/
theorem decided?_of_empty (h : l.voting.tables.get slot = ∅) : l.decided? height slot = none := by
  have hlive : l.voting.live slot height = [] := by
    simp [Voting.live, Voting.prune, h]
  have hquorum (total : UInt64) : l.voting.pausing? slot height total = none := by
    simp only [Voting.pausing?, Voting.quorum?, hlive, List.map_nil]
    rfl
  simp only [decided?, Voting.decide?, hquorum, ite_self]

namespace Sample

local instance anySignature : SignatureSuite := suite

/-- The descriptors of a new chain, with a byte behind that of the secondary slot. -/
def padded : PerSlot Bytes :=
  ⟨(LiveSchemes.initial.get .primary).toBytes, (LiveSchemes.initial.get .secondary).toBytes ++ [0]⟩

theorem ofBytes_padded (slot : Slot) :
    Descriptor.ofBytes (padded.get slot) = .ok (LiveSchemes.initial.get slot) := by
  cases slot with
  | primary => exact Descriptor.ofBytes_ofScheme ..
  | secondary =>
    have hlong := (Descriptor.length_toBytes (LiveSchemes.initial.get .secondary)).ge
    exact (Descriptor.ofBytes_append hlong [0]).trans (Descriptor.ofBytes_ofScheme ..)

theorem declaredSchemes_padded :
    declaredSchemes (declaring padded).header = .ok LiveSchemes.initial := by
  refine declaredSchemes_eq_ok.mpr fun slot => ?_
  rw [declaring, Block.header_sealed, Header.descriptor]
  exact ofBytes_padded slot

theorem not_canonical_padded : ¬ Descriptor.Canonical (padded.get .secondary) := by
  rintro ⟨d, -, hbytes⟩
  have hlength := congrArg List.length hbytes
  rw [Descriptor.length_toBytes] at hlength
  have hpadded : (padded.get .secondary).length = 34 := by
    simp [padded, PerSlot.get, Descriptor.length_toBytes, Descriptor.encodedLength]
  rw [hpadded] at hlength
  cases hlength

/-- The history of a peer may hold the block with the byte. -/
theorem commit_padded : ∃ report l, voted.commit (declaring padded) .sync = (.ok report, l) ∧
    l.lastBlock = declaring padded ∧ l.schemes = LiveSchemes.initial ∧
    ∀ slot, l.voting.tables.get slot = ∅ := by
  have hs : voted.store.Reliable := Store.reliable_ofHistory _ []
  obtain ⟨accounts, haccepts⟩ := accepts_declaring declaredSchemes_padded
  have hheader : (declaring padded).header.encryption = padded := by
    rw [declaring, Block.header_sealed]
  have hchanged : Slot.secondary ∈ (declaring padded).changedSlots voted.lastBlock := by
    rw [Block.mem_changedSlots, hheader]
    intro hsame
    have hparent : parent.header.encryption.get .secondary =
        (LiveSchemes.initial.get .secondary).toBytes := by
      rw [parent, Block.encryption_genesis]
      rfl
    exact not_canonical_padded
      ⟨_, ofBytes_padded .secondary, (hsame.trans hparent).symm⟩
  have hallowed : (voted.checkChanges (declaring padded) .sync
      ((declaring padded).changedSlots voted.lastBlock)).1 = .ok () := by
    have hheight : Protocol.encryptionChangeMinHeight ≤ (declaring padded).height := by decide
    rw [checkChanges_sync_of_le hheight]
  obtain ⟨looked, hcommit⟩ := commit_of_checkChanges hs haccepts hallowed
  refine ⟨_, _, hcommit, rfl, ?_, fun slot => ?_⟩
  · exact takeUpSchemes_changedSlots declaredSchemes_parent declaredSchemes_padded
  · have hreset := List.ne_nil_of_mem hchanged
    simp only [committed, if_neg hreset]
    cases slot <;> rfl

end Sample

/-- **A byte that reading ignores makes every next block of the round fail**: after the block with
the byte was committed, no votes are on record, so the next header declares just the live
descriptors; but its bytes differ from those of the last block, and nothing backs that. -/
theorem declaration_refused_behind_padding :
    ∃ (_ : SignatureSuite) (before l : Ledger) (last : Block) (report : CommitReport),
      before.commit last .sync = (.ok report, l) ∧ l.lastBlock = last ∧ last.height = 3 ∧
      declaredSchemes l.lastBlock.header = .ok l.schemes ∧
      (∀ slot, l.decided? 4 slot = none) ∧
      ∀ b : Block, b.height = 4 → b.header.encryption = headerEncryption l 4 →
        (l.checkChanges b .proposal (b.changedSlots l.lastBlock)).1 =
          .error (.unbackedChange .secondary) := by
  let := Sample.suite
  obtain ⟨report, l, hcommit, hlast, hschemes, hvotes⟩ := Sample.commit_padded
  have hlive : declaredSchemes l.lastBlock.header = .ok l.schemes := by
    rw [hlast, hschemes]
    exact Sample.declaredSchemes_padded
  have hnone (slot : Slot) : l.decided? 4 slot = none := decided?_of_empty (hvotes slot)
  have hencryption : l.lastBlock.header.encryption = Sample.padded := by
    rw [hlast, Sample.declaring, Block.header_sealed]
  refine ⟨Sample.suite, Sample.voted, l, _, report, hcommit, hlast, rfl, hlive, hnone, ?_⟩
  intro b hheight hdeclares
  rw [← hheight] at hdeclares hnone
  have hchanged : b.changedSlots l.lastBlock = [.secondary] := by
    have hprimary : Slot.primary ∉ b.changedSlots l.lastBlock := by
      have hcanonical : Descriptor.Canonical (Sample.padded.get .primary) :=
        Descriptor.canonical_toBytes (Sample.ofBytes_padded .primary)
      rw [mem_changedSlots_iff hlive hdeclares, hnone, hencryption]
      simp [hcanonical]
    have hsecondary : Slot.secondary ∈ b.changedSlots l.lastBlock := by
      rw [mem_changedSlots_iff hlive hdeclares, hencryption]
      exact Or.inr Sample.not_canonical_padded
    simp only [Block.mem_changedSlots, Decidable.not_not] at hprimary hsecondary
    simp [Block.changedSlots, Slot.all, hprimary, hsecondary]
  have hallowed : Protocol.encryptionChangeMinHeight ≤ b.height := by
    rw [hheight]
    decide
  have hundecided := hnone .secondary
  rw [decided?, if_pos hallowed] at hundecided
  have hbacked : l.checkBacked b .secondary = .error (.unbackedChange .secondary) := by
    simp only [checkBacked, declaredSchemes_eq_ok.mp hlive .secondary,
      descriptor_of_headerEncryption hlive hdeclares .secondary, hundecided, reduceCtorEq, if_false]
  simp only [hchanged, checkChanges, if_neg (UInt64.not_lt.mpr hallowed), if_true, hbacked]

end Ledger

end SynergyNode
