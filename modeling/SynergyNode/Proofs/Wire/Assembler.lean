import SynergyNode.Proofs.Wire.Mark

/-!
# What an assembler makes of its buffer

An assembler looks at its buffer again and again until it has to wait for more bytes.  This module
says once what a look can come to, and what a run of looks does:

* `Looks` lists the outcomes of a look by what stands in the buffer.  How far the open frame has
  been searched before does not matter for it, as long as there is no closing mark in that part
  (`Searched`): `Searched.looks` and `Looks.turn_eq` say that a look has the listed outcome and no
  other.
* `Turns` are the looks that take something off the buffer.  Each depends on those bytes only, so
  more bytes behind them change nothing (`Turns.feed`), and no bytes of them are needed after
  (`Turns.resolves`).
* A look that waits without a report is repeated when bytes have come in, with what it kept instead
  of what it saw (`turn_feed_of_wait`).  A look that gives up a frame is the one after which bytes
  are gone that would still matter (`Looks.exceeds`).
-/

namespace SynergyNode

open SynergyNode.Frame (magic terminator wrap)

/-! ## 1. The marks -/

namespace Frame

theorem terminator_ne_nil : terminator ≠ [] := by decide

theorem terminator_unbordered : Bytes.Unbordered terminator := by decide

/-- No ending of the opening mark begins the closing one. -/
theorem magic_apart : ∀ k < magic.length, ¬ magic.drop k <+: terminator := by decide

theorem not_infix_magic : ¬ terminator <:+: magic := by decide

theorem wrap_append (payload v : Bytes) :
    wrap payload ++ v = magic ++ (payload ++ (terminator ++ v)) := by
  simp only [wrap, List.append_assoc]

end Frame

namespace ControlToken

theorem mem_all (t : ControlToken) : t ∈ all := by cases t <;> decide

/-- No ending of a token begins the closing mark. -/
theorem toBytes_apart (t : ControlToken) :
    ∀ k < t.toBytes.length, ¬ t.toBytes.drop k <+: terminator := by
  cases t <;> decide

theorem not_infix_toBytes (t : ControlToken) : ¬ terminator <:+: t.toBytes := by
  cases t <;> decide

theorem not_magic_prefix_toBytes (t : ControlToken) (v : Bytes) : ¬ magic <+: t.toBytes ++ v := by
  cases t <;> simp [magic, toBytes, List.cons_prefix_cons]

/-- Tokens are told apart by their first bytes. -/
theorem eq_of_begins {t u : ControlToken} {v : Bytes} (h : u.toBytes <+: t.toBytes ++ v) :
    u = t := by
  cases t <;> cases u <;> simp_all [toBytes, List.cons_prefix_cons]

/-- The token that bytes begin with is found. -/
theorem find?_all (t : ControlToken) (v : Bytes) :
    (all.find? fun u => u.toBytes.isPrefixOf (t.toBytes ++ v)) = some t := by
  cases hfound : all.find? fun u => u.toBytes.isPrefixOf (t.toBytes ++ v) with
  | some u =>
    have hu := List.find?_some hfound
    rw [List.isPrefixOf_iff_prefix] at hu
    rw [eq_of_begins hu]
  | none =>
    have hnot := List.find?_eq_none.mp hfound t (mem_all t)
    simp at hnot

end ControlToken

namespace Assembler

variable {a b c : Assembler} {es fs : List StreamEvent} {T : Turn}

/-! ## 2. How far a frame has been searched -/

/-- An assembler that passes over everything up to the next closing mark. -/
def skipping (maxPayload : Nat) : Assembler := ⟨maxPayload, [], true, 0⟩

/-- There is no closing mark in what counts as searched, and only the body of a frame does. -/
structure Searched (a : Assembler) : Prop where
  inFrame : 0 < a.scanned → a.discarding = false ∧ magic <+: a.buffer
  scanned_le : a.scanned ≤ (a.buffer.drop magic.length).length
  unmarked : ¬ terminator <:+: (a.buffer.drop magic.length).take a.scanned

theorem Searched.of_eq_zero (h : a.scanned = 0) : a.Searched where
  inFrame hpos := by omega
  scanned_le := by omega
  unmarked := by
    rw [h, List.take_zero]
    decide

theorem Searched.feed (h : a.Searched) (d : Bytes) : (a.feed d).Searched := by
  rcases Nat.eq_zero_or_pos a.scanned with hzero | hpos
  · exact .of_eq_zero hzero
  · have hle := h.scanned_le
    have hdrop : (a.buffer ++ d).drop magic.length = a.buffer.drop magic.length ++ d := by
      rw [List.length_drop] at hle
      rw [List.drop_append_of_le_length (by omega)]
    refine ⟨fun _ => ?_, ?_, ?_⟩
    · exact ⟨(h.inFrame hpos).1, (h.inFrame hpos).2.trans (List.prefix_append a.buffer d)⟩
    · simp only [Assembler.feed, hdrop, List.length_append]
      omega
    · simp only [Assembler.feed, hdrop, List.take_append_of_le_length hle]
      exact h.unmarked

theorem Searched.scanned_of_discarding (h : a.Searched) (hd : a.discarding = true) :
    a.scanned = 0 := by
  refine Nat.eq_zero_of_not_pos fun hpos => ?_
  rw [(h.inFrame hpos).1] at hd
  cases hd

theorem Searched.scanned_of_not_prefix (h : a.Searched) (hm : ¬ magic <+: a.buffer) :
    a.scanned = 0 :=
  Nat.eq_zero_of_not_pos fun hpos => hm (h.inFrame hpos).2

/-- The search from where the last one stopped gives the first closing mark of the body. -/
theorem Searched.findFrom? (h : a.Searched) {body : Bytes} (hbuffer : a.buffer = magic ++ body) :
    Bytes.findFrom? terminator (a.scanned - (terminator.length - 1))
        (body.drop (a.scanned - (terminator.length - 1))) =
      Bytes.find? terminator body := by
  have hbody : a.buffer.drop magic.length = body := by rw [hbuffer, List.drop_left]
  have hle := h.scanned_le
  have hunmarked := h.unmarked
  rw [hbody] at hle hunmarked
  exact Bytes.findFrom?_resume hle hunmarked

/-! ## 3. What a look comes to -/

/-- Bytes that neither begin with a frame or a token nor are the beginning of one. -/
structure Stray (buffer : Bytes) : Prop where
  ne_nil : buffer ≠ []
  not_magic : ¬ magic <+: buffer
  not_token : ∀ t : ControlToken, ¬ t.toBytes <+: buffer
  not_opening : isOpening buffer = false

/-- The outcomes of a look at the buffer. -/
inductive Looks (a : Assembler) : Turn → Prop
  /-- There is nothing to look at. -/
  | empty (hbuffer : a.buffer = []) : Looks a (.wait [] a)
  /-- What was to be passed over ends. -/
  | ends {x v : Bytes} (hd : a.discarding = true) (hbuffer : a.buffer = x ++ (terminator ++ v))
      (hx : ¬ terminator <:+: x) : Looks a (.next [] ((new a.maxPayload).feed v))
  /-- What is to be passed over goes on. -/
  | passes (hd : a.discarding = true) (hne : a.buffer ≠ []) (hbuffer : ¬ terminator <:+: a.buffer) :
      Looks a (.wait [] ((skipping a.maxPayload).feed
        (a.buffer.drop (a.buffer.length - (terminator.length - 1)))))
  /-- A frame is there. -/
  | closes {payload v : Bytes} (hd : a.discarding = false) (hbuffer : a.buffer = wrap payload ++ v)
      (hpayload : ¬ terminator <:+: payload) :
      Looks a (.next [.ofPayload a.maxPayload payload] ((new a.maxPayload).feed v))
  /-- A frame that is not yet there is longer than any acceptable one. -/
  | exceeds {body : Bytes} (hd : a.discarding = false) (hbuffer : a.buffer = magic ++ body)
      (hbody : ¬ terminator <:+: body)
      (hlong : a.maxPayload + terminator.length < body.length) :
      Looks a (.wait [.oversized] (skipping a.maxPayload))
  /-- A frame is not yet there. -/
  | grows {body : Bytes} (hd : a.discarding = false) (hbuffer : a.buffer = magic ++ body)
      (hbody : ¬ terminator <:+: body)
      (hshort : body.length ≤ a.maxPayload + terminator.length) :
      Looks a (.wait [] { a with scanned := body.length })
  /-- A token is there. -/
  | token {t : ControlToken} {v : Bytes} (hd : a.discarding = false)
      (hbuffer : a.buffer = t.toBytes ++ v) :
      Looks a (.next [.control t] ((new a.maxPayload).feed v))
  /-- A frame or a token may be about to begin. -/
  | opens (hd : a.discarding = false) (hne : a.buffer ≠ []) (hm : ¬ magic <+: a.buffer)
      (hopening : isOpening a.buffer = true) : Looks a (.wait [] a)
  /-- Neither is there, nor will be. -/
  | strays (hd : a.discarding = false) (hbuffer : Stray a.buffer) :
      Looks a (.next [.badMagic] ((skipping a.maxPayload).feed a.buffer))

theorem drop_mark (x v : Bytes) :
    (x ++ (terminator ++ v)).drop (x.length + terminator.length) = v := by
  rw [← List.append_assoc, ← List.length_append, List.drop_left]

theorem turn_of_discarding (hne : a.buffer ≠ []) (hd : a.discarding = true) :
    a.turn = a.skip := by
  rw [turn, if_neg hne, if_pos hd]

/-- A look at an open frame depends on its body only. -/
theorem Searched.turn_of_frame (h : a.Searched) (hd : a.discarding = false) {body : Bytes}
    (hbuffer : a.buffer = magic ++ body) :
    a.turn =
      match Bytes.find? terminator body with
      | some n =>
        .next [.ofPayload a.maxPayload (body.take n)]
          ((new a.maxPayload).feed (body.drop (n + terminator.length)))
      | none =>
        if a.maxPayload + terminator.length < body.length then
          .wait [.oversized] (skipping a.maxPayload)
        else .wait [] { a with scanned := body.length } := by
  have hm : magic.isPrefixOf a.buffer = true :=
    List.isPrefixOf_iff_prefix.mpr ⟨body, hbuffer.symm⟩
  have hne : a.buffer ≠ [] := by simp [hbuffer, magic]
  rw [turn, if_neg hne, if_neg (by rw [hd]; decide), if_pos hm]
  simp only [takeFrame, hbuffer, List.drop_left, h.findFrom? hbuffer, hd]
  rfl

theorem Searched.looks_skip (h : a.Searched) (hne : a.buffer ≠ []) (hd : a.discarding = true) :
    a.Looks a.skip := by
  have hscanned := h.scanned_of_discarding hd
  unfold skip
  split
  · rename_i n hfound
    obtain ⟨x, v, hbuffer, rfl, hx⟩ := Bytes.find?_eq_some Frame.terminator_ne_nil hfound
    rw [hbuffer, drop_mark]
    exact .ends hd hbuffer hx
  · rename_i hnone
    rw [hscanned, hd]
    exact .passes hd hne ((Bytes.find?_eq_none Frame.terminator_ne_nil).mp hnone)

theorem Searched.looks_of_frame (h : a.Searched) (hd : a.discarding = false)
    (hm : magic <+: a.buffer) : a.Looks a.turn := by
  obtain ⟨body, hbody⟩ := hm
  have hbuffer := hbody.symm
  rw [h.turn_of_frame hd hbuffer]
  split
  · rename_i n hfound
    obtain ⟨payload, v, hclosed, rfl, hpayload⟩ :=
      Bytes.find?_eq_some Frame.terminator_ne_nil hfound
    rw [hclosed, ← Frame.wrap_append] at hbuffer
    rw [hclosed, List.take_left, drop_mark]
    exact .closes hd hbuffer hpayload
  · rename_i hnone
    have hopen := (Bytes.find?_eq_none Frame.terminator_ne_nil).mp hnone
    split
    · rename_i hlong
      exact .exceeds hd hbuffer hopen hlong
    · rename_i hshort
      exact .grows hd hbuffer hopen (Nat.le_of_not_lt hshort)

/-- **A look has one of the outcomes.** -/
theorem Searched.looks (h : a.Searched) : a.Looks a.turn := by
  by_cases hframe : a.discarding = false ∧ magic <+: a.buffer
  · exact h.looks_of_frame hframe.1 hframe.2
  · unfold turn
    split
    · rename_i hempty
      exact .empty hempty
    · rename_i hne
      split
      · rename_i hd
        exact h.looks_skip hne hd
      · rename_i hd
        rw [Bool.not_eq_true] at hd
        have hm : ¬ magic <+: a.buffer := fun hm => hframe ⟨hd, hm⟩
        have hscanned := h.scanned_of_not_prefix hm
        rw [if_neg (by rwa [List.isPrefixOf_iff_prefix])]
        split
        · rename_i t ht
          have hstarts := List.find?_some ht
          rw [List.isPrefixOf_iff_prefix] at hstarts
          obtain ⟨v, hv⟩ := hstarts
          rw [← hv, List.drop_left, hscanned, hd]
          exact .token hd hv.symm
        · rename_i htokens
          split
          · rename_i hopening
            exact .opens hd hne hm hopening
          · rename_i hopening
            rw [hscanned]
            refine .strays hd ⟨hne, hm, fun t ht => ?_, by rwa [Bool.not_eq_true] at hopening⟩
            exact List.find?_eq_none.mp htokens t (ControlToken.mem_all t)
              (List.isPrefixOf_iff_prefix.mpr ht)

theorem isOpening_iff {b : Bytes} :
    isOpening b = true ↔
      (b <+: magic ∧ b.length < magic.length) ∨
        ∃ t : ControlToken, b <+: t.toBytes ∧ b.length < t.toBytes.length := by
  simp only [isOpening, List.any_cons, List.any_map, Bool.or_eq_true, Bool.and_eq_true,
    decide_eq_true_iff, List.isPrefixOf_iff_prefix, List.any_eq_true, Function.comp_apply]
  constructor
  · rintro (⟨hlt, hstarts⟩ | ⟨t, -, hlt, hstarts⟩)
    · exact .inl ⟨hstarts, hlt⟩
    · exact .inr ⟨t, hstarts, hlt⟩
  · rintro (⟨hstarts, hlt⟩ | ⟨t, hstarts, hlt⟩)
    · exact .inl ⟨hlt, hstarts⟩
    · exact .inr ⟨t, ControlToken.mem_all t, hlt, hstarts⟩

/-- No mark or token is longer than the closing mark. -/
theorem length_of_opening {b : Bytes} (h : isOpening b = true) : b.length < terminator.length := by
  rcases isOpening_iff.mp h with ⟨-, hlt⟩ | ⟨t, -, hlt⟩
  · exact Nat.lt_trans hlt (by decide)
  · exact Nat.lt_of_lt_of_le hlt (by cases t <;> decide)

/-- Bytes that are the beginning of a frame or of a token hold no token. -/
theorem find?_all_of_opening {b : Bytes} (h : isOpening b = true) :
    (ControlToken.all.find? fun t => t.toBytes.isPrefixOf b) = none := by
  rw [List.find?_eq_none]
  intro t _ ht
  rw [List.isPrefixOf_iff_prefix] at ht
  rcases isOpening_iff.mp h with ⟨hstarts, -⟩ | ⟨u, hstarts, hlt⟩
  · have hnot : ¬ t.toBytes <+: magic := by cases t <;> decide
    exact hnot (ht.trans hstarts)
  · have hsame : t = u :=
      ControlToken.eq_of_begins ((ht.trans hstarts).trans (List.prefix_append u.toBytes []))
    subst hsame
    have := ht.length_le
    omega

/-- **And no other.** -/
theorem Looks.turn_eq (hl : a.Looks T) (h : a.Searched) : a.turn = T := by
  cases hl with
  | empty hbuffer => rw [turn, if_pos hbuffer]
  | @ends x v hd hbuffer hx =>
    have hne : a.buffer ≠ [] := by
      rw [hbuffer]
      simp [terminator]
    have hfound := Bytes.find?_append_mark Frame.terminator_unbordered Frame.terminator_ne_nil hx v
    simp only [turn_of_discarding hne hd, skip, hbuffer, hfound, drop_mark]
    rfl
  | passes hd hne hbuffer =>
    have hnone := (Bytes.find?_eq_none Frame.terminator_ne_nil).mpr hbuffer
    simp only [turn_of_discarding hne hd, skip, hnone, hd, h.scanned_of_discarding hd]
    rfl
  | @closes payload v hd hbuffer hpayload =>
    rw [Frame.wrap_append] at hbuffer
    have hfound :=
      Bytes.find?_append_mark Frame.terminator_unbordered Frame.terminator_ne_nil hpayload v
    simp only [h.turn_of_frame hd hbuffer, hfound, List.take_left, drop_mark]
  | exceeds hd hbuffer hbody hlong =>
    have hnone := (Bytes.find?_eq_none Frame.terminator_ne_nil).mpr hbody
    simp only [h.turn_of_frame hd hbuffer, hnone, if_pos hlong]
  | grows hd hbuffer hbody hshort =>
    have hnone := (Bytes.find?_eq_none Frame.terminator_ne_nil).mpr hbody
    simp only [h.turn_of_frame hd hbuffer, hnone, if_neg (Nat.not_lt_of_le hshort)]
  | @token t v hd hbuffer =>
    have hm : ¬ magic <+: a.buffer := by
      rw [hbuffer]
      exact ControlToken.not_magic_prefix_toBytes t v
    have hne : a.buffer ≠ [] := by
      rw [hbuffer]
      cases t <;> simp [ControlToken.toBytes]
    rw [turn, if_neg hne, if_neg (by rw [hd]; decide),
      if_neg (by rwa [List.isPrefixOf_iff_prefix]), hbuffer, ControlToken.find?_all]
    simp only [List.drop_left, hd, h.scanned_of_not_prefix hm]
    rfl
  | opens hd hne hm hopening =>
    rw [turn, if_neg hne, if_neg (by rw [hd]; decide), if_neg (by rwa [List.isPrefixOf_iff_prefix]),
      find?_all_of_opening hopening]
    simp only [if_pos hopening]
  | strays hd hbuffer =>
    have hnone : (ControlToken.all.find? fun t => t.toBytes.isPrefixOf a.buffer) = none := by
      rw [List.find?_eq_none]
      intro t _
      rw [List.isPrefixOf_iff_prefix]
      exact hbuffer.not_token t
    rw [turn, if_neg hbuffer.ne_nil, if_neg (by rw [hd]; decide),
      if_neg (by rw [List.isPrefixOf_iff_prefix]; exact hbuffer.not_magic), hnone]
    simp only [hbuffer.not_opening, h.scanned_of_not_prefix hbuffer.not_magic]
    rfl

/-! ## 4. More bytes behind -/

@[simp] theorem feed_feed (a : Assembler) (v d : Bytes) : (a.feed v).feed d = a.feed (v ++ d) := by
  simp only [feed, List.append_assoc]

@[simp] theorem feed_nil (a : Assembler) : a.feed [] = a := by
  simp only [feed, List.append_nil]

@[simp] theorem maxPayload_feed (a : Assembler) (d : Bytes) :
    (a.feed d).maxPayload = a.maxPayload := rfl

theorem searched_new (maxPayload : Nat) : (new maxPayload).Searched := .of_eq_zero rfl

theorem searched_skipping (maxPayload : Nat) : (skipping maxPayload).Searched := .of_eq_zero rfl

/-- What begins with something longer is the beginning of it. -/
theorem prefix_of_prefix_append {full b d : Bytes} (h : full <+: b ++ d) (hnot : ¬ full <+: b) :
    b <+: full ∧ b.length < full.length := by
  have hb : b <+: full :=
    (List.prefix_or_prefix_of_prefix h (List.prefix_append b d)).resolve_left hnot
  refine ⟨hb, Nat.lt_of_le_of_ne hb.length_le fun hlength => hnot ?_⟩
  rw [hb.eq_of_length hlength]

theorem Stray.append {b : Bytes} (h : Stray b) (d : Bytes) : Stray (b ++ d) where
  ne_nil := by simp [h.ne_nil]
  not_magic hm := by
    have hopening := isOpening_iff.mpr (.inl (prefix_of_prefix_append hm h.not_magic))
    rw [h.not_opening] at hopening
    cases hopening
  not_token t ht := by
    have hopening := isOpening_iff.mpr (.inr ⟨t, prefix_of_prefix_append ht (h.not_token t)⟩)
    rw [h.not_opening] at hopening
    cases hopening
  not_opening := by
    refine Bool.eq_false_iff.mpr fun hlonger => ?_
    have hopening : isOpening b = true := by
      have hb := List.prefix_append b d
      have hle := hb.length_le
      rcases isOpening_iff.mp hlonger with ⟨hstarts, hlt⟩ | ⟨t, hstarts, hlt⟩
      · exact isOpening_iff.mpr (.inl ⟨hb.trans hstarts, Nat.lt_of_le_of_lt hle hlt⟩)
      · exact isOpening_iff.mpr (.inr ⟨t, hb.trans hstarts, Nat.lt_of_le_of_lt hle hlt⟩)
    rw [h.not_opening] at hopening
    cases hopening

/-- That bytes are stray shows in as many of them as the closing mark has. -/
theorem Stray.of_append {b d : Bytes} (h : Stray (b ++ d))
    (hlength : terminator.length ≤ b.length) : Stray b where
  ne_nil := by
    rintro rfl
    exact absurd hlength (by decide)
  not_magic hm := h.not_magic (hm.trans (List.prefix_append b d))
  not_token t ht := h.not_token t (ht.trans (List.prefix_append b d))
  not_opening := by
    refine Bool.eq_false_iff.mpr fun hopening => ?_
    have := length_of_opening hopening
    omega

/-- **What a look takes off the buffer does not depend on the bytes behind it.** -/
theorem Looks.feed (hl : a.Looks (.next es b)) (d : Bytes) :
    (a.feed d).Looks (.next es (b.feed d)) := by
  cases hl with
  | @ends x v hd hbuffer hx =>
    rw [feed_feed]
    refine .ends hd ?_ hx
    simp only [Assembler.feed, hbuffer, List.append_assoc]
  | @closes payload v hd hbuffer hpayload =>
    rw [feed_feed]
    refine .closes hd ?_ hpayload
    simp only [Assembler.feed, hbuffer, List.append_assoc]
  | @token t v hd hbuffer =>
    rw [feed_feed]
    refine .token hd ?_
    simp only [Assembler.feed, hbuffer, List.append_assoc]
  | strays hd hbuffer =>
    rw [feed_feed]
    exact .strays hd (hbuffer.append d)

theorem turn_feed_of_next (h : a.Searched) (ht : a.turn = .next es b) (d : Bytes) :
    (a.feed d).turn = .next es (b.feed d) := by
  have hl := h.looks
  rw [ht] at hl
  exact (hl.feed d).turn_eq (h.feed d)

theorem Searched.next (h : a.Searched) (ht : a.turn = .next es b) : b.Searched := by
  have hl := h.looks
  rw [ht] at hl
  cases hl <;> exact .of_eq_zero rfl

theorem Searched.wait (h : a.Searched) (ht : a.turn = .wait es b) : b.Searched := by
  have hl := h.looks
  rw [ht] at hl
  cases hl with
  | empty => exact h
  | passes => exact .of_eq_zero rfl
  | exceeds => exact .of_eq_zero rfl
  | opens => exact h
  | @grows body hd hbuffer hbody hshort =>
    have hdrop : a.buffer.drop magic.length = body := by rw [hbuffer, List.drop_left]
    refine ⟨fun _ => ⟨hd, ?_⟩, ?_, ?_⟩
    · rw [hbuffer]
      exact List.prefix_append magic body
    · exact Nat.le_of_eq (congrArg List.length hdrop.symm)
    · simp only [hdrop, List.take_length]
      exact hbody

/-- The last bytes of a string are the last bytes of what its last bytes continue. -/
theorem drop_last (buffer d : Bytes) (n : Nat) :
    (buffer.drop (buffer.length - n) ++ d).drop
        ((buffer.drop (buffer.length - n) ++ d).length - n) =
      (buffer ++ d).drop ((buffer ++ d).length - n) := by
  rw [← List.drop_append_of_le_length (by omega), List.drop_drop]
  congr 1
  simp only [List.length_drop, List.length_append]
  omega

/-- **A look that waits in silence can be repeated with what it kept.** -/
theorem turn_feed_of_wait (h : a.Searched) (ht : a.turn = .wait [] b) (d : Bytes) :
    (a.feed d).turn = (b.feed d).turn := by
  have hl := h.looks
  rw [ht] at hl
  cases hl with
  | empty => rfl
  | opens => rfl
  | passes hd hne hbuffer =>
    have hlength := List.length_pos_iff.mpr hne
    have hkept : a.buffer.drop (a.buffer.length - (terminator.length - 1)) ≠ [] := by
      rw [← List.length_pos_iff, List.length_drop]
      have : 0 < terminator.length - 1 := by decide
      omega
    have hseen : (a.feed d).turn = (a.feed d).skip :=
      turn_of_discarding (List.append_ne_nil_of_left_ne_nil hne d) hd
    have hrepeated (kept : Bytes) (hne : kept ≠ []) :
        ((skipping a.maxPayload).feed kept).turn = ((skipping a.maxPayload).feed kept).skip :=
      turn_of_discarding hne rfl
    rw [hseen, feed_feed, hrepeated _ (List.append_ne_nil_of_left_ne_nil hkept d)]
    simp only [skip, Assembler.feed, skipping, List.nil_append, hd, h.scanned_of_discarding hd,
      Bytes.find?_drop hbuffer d, drop_last]
    cases Bytes.find? terminator
        (a.buffer.drop (a.buffer.length - (terminator.length - 1)) ++ d) with
    | none => rfl
    | some n =>
      simp only [Option.map_some, ← List.drop_append_of_le_length
        (Nat.sub_le a.buffer.length (terminator.length - 1)), List.drop_drop, Nat.add_assoc]
  | @grows body hd hbuffer hbody hshort =>
    have hlonger : (a.feed d).buffer = magic ++ (body ++ d) := by
      simp only [Assembler.feed, hbuffer, List.append_assoc]
    rw [(h.feed d).turn_of_frame hd hlonger, ((h.wait ht).feed d).turn_of_frame hd hlonger]
    rfl

/-- **After a look that waits, the next one waits in silence.** -/
theorem turn_of_wait (h : a.Searched) (ht : a.turn = .wait es b) : b.turn = .wait [] b := by
  have hl := h.looks
  have hsearched := h.wait ht
  rw [ht] at hl
  cases hl with
  | empty => exact ht
  | opens => exact ht
  | exceeds => exact (Looks.empty rfl).turn_eq hsearched
  | @grows body hd hbuffer hbody hshort =>
    exact (Looks.grows (a := { a with scanned := body.length }) hd hbuffer hbody hshort).turn_eq
      hsearched
  | passes hd hne hbuffer =>
    have hlast := drop_last a.buffer [] (terminator.length - 1)
    simp only [List.append_nil] at hlast
    have hpos := List.length_pos_iff.mpr hne
    have hpasses := Looks.passes (a := (skipping a.maxPayload).feed
      (a.buffer.drop (a.buffer.length - (terminator.length - 1)))) rfl ?_ ?_
    · have hsame := hpasses.turn_eq hsearched
      simp only [feed, skipping, List.nil_append, hlast] at hsame ⊢
      exact hsame
    · show a.buffer.drop _ ≠ []
      rw [← List.length_pos_iff, List.length_drop]
      have : 0 < terminator.length - 1 := by decide
      omega
    · exact fun hin => hbuffer (hin.trans (List.drop_suffix _ _).isInfix)

/-! ## 5. Runs of looks -/

/-- The looks that take something off the buffer, with what they report. -/
inductive Turns : Assembler → List StreamEvent → Assembler → Prop
  | refl (a : Assembler) : Turns a [] a
  | next {a b c : Assembler} {es fs : List StreamEvent} (ht : a.turn = .next es b)
      (hrest : Turns b fs c) : Turns a (es ++ fs) c

theorem Turns.trans (h : Turns a es b) (hrest : Turns b fs c) : Turns a (es ++ fs) c := by
  induction h with
  | refl a => exact hrest
  | next ht _ ih =>
    rw [List.append_assoc]
    exact .next ht (ih hrest)

theorem Turns.searched (h : Turns a es b) (ha : a.Searched) : b.Searched := by
  induction h with
  | refl a => exact ha
  | next ht _ ih => exact ih (ha.next ht)

/-- **What the looks take off the buffer does not depend on the bytes behind it.** -/
theorem Turns.feed (h : Turns a es b) (ha : a.Searched) (d : Bytes) :
    Turns (a.feed d) es (b.feed d) := by
  induction h with
  | refl a => exact .refl _
  | next ht _ ih => exact .next (turn_feed_of_next ha ht d) (ih (ha.next ht))

theorem settle_of_next (ht : a.turn = .next es b) :
    a.settle = (es ++ b.settle.1, b.settle.2) := by
  rw [settle]
  split
  · rename_i events b' hturn
    rw [ht] at hturn
    cases hturn
    rfl
  · rename_i hturn
    rw [ht] at hturn
    cases hturn

theorem settle_of_wait (ht : a.turn = .wait es b) : a.settle = (es, b) := by
  rw [settle]
  split
  · rename_i hturn
    rw [ht] at hturn
    cases hturn
  · rename_i hturn
    rw [ht] at hturn
    cases hturn
    rfl

theorem Turns.settle (h : Turns a es b) : a.settle = (es ++ b.settle.1, b.settle.2) := by
  induction h with
  | refl a => rfl
  | next ht _ ih => rw [settle_of_next ht, ih, List.append_assoc]

/-- **Every run of looks ends with one that waits.** -/
theorem exists_turns (a : Assembler) :
    ∃ es b fs c, Turns a es b ∧ b.turn = .wait fs c ∧ a.settle = (es ++ fs, c) := by
  fun_induction settle a with
  | case1 a events b ht hload later c hsettle ih =>
    obtain ⟨es, b', fs, c', hturns, hwait, heq⟩ := ih
    rw [hsettle] at heq
    cases heq
    exact ⟨events ++ es, b', fs, _, .next ht hturns, hwait, by rw [List.append_assoc]⟩
  | case2 a events b ht => exact ⟨[], a, events, b, .refl a, ht, rfl⟩

theorem settle_congr (h : a.turn = b.turn) : a.settle = b.settle := by
  cases hb : b.turn with
  | next es c => rw [settle_of_next (h.trans hb), settle_of_next hb]
  | wait es c => rw [settle_of_wait (h.trans hb), settle_of_wait hb]

end Assembler

end SynergyNode
