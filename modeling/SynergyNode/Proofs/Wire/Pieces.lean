import SynergyNode.Proofs.Wire.Reading

/-!
# The pieces of a stream

A connection hands a stream over in pieces that it cuts where it likes (`pushAll`).  An assembler
that holds back what it cannot tell yet should not notice.  It does notice in one place: a frame
that is longer than any acceptable one at the end of a piece is given up together with the bytes
that may begin its closing mark, so when the piece ends inside the mark the mark is lost, and what
follows it is passed over up to the next one.

* `pushAll_of_not_oversized`: a stream in which no frame is too long is read the same in any pieces.
* `cuts_agree_iff`: exactly the streams in which nothing is reported behind a frame that can be
  given up inside its closing mark are read the same in any pieces.  A frame of one byte too many
  cannot: inside its mark it is not yet longer than an acceptable one.
* `cut_inside_mark`: the two ways in which a stream of two frames is read.
-/

namespace SynergyNode.Assembler

open SynergyNode.Frame (magic terminator wrap)

variable {a b c : Assembler} {es fs : List StreamEvent} {limit : Nat} {u v x d : Bytes}

/-! ## 1. Piece by piece -/

/-- The pieces of a stream one after the other. -/
def pushAll (a : Assembler) : (pieces : List Bytes) → List StreamEvent × Assembler
  | [] => ([], a)
  | piece :: pieces =>
    let (events, b) := a.push piece
    let (later, c) := b.pushAll pieces
    (events ++ later, c)

/-- There is nothing more to take off the buffer. -/
structure Resting (a : Assembler) : Prop where
  searched : a.Searched
  waits : a.turn = .wait [] a

theorem resting_new (limit : Nat) : (new limit).Resting :=
  ⟨searched_new limit, (Looks.empty rfl).turn_eq (searched_new limit)⟩

theorem resting_skipping (limit : Nat) : (skipping limit).Resting :=
  ⟨searched_skipping limit, (Looks.empty rfl).turn_eq (searched_skipping limit)⟩

theorem Resting.of_wait (ha : a.Searched) (ht : a.turn = .wait es b) : b.Resting :=
  ⟨ha.wait ht, turn_of_wait ha ht⟩

theorem Resting.push_nil (ha : a.Resting) : a.push [] = ([], a) := by
  rw [push, feed_nil]
  exact settle_of_wait ha.waits

/-- An open frame that is longer than any acceptable one. -/
structure Overlong (a : Assembler) (body : Bytes) : Prop where
  discarding : a.discarding = false
  buffer : a.buffer = magic ++ body
  unclosed : ¬ terminator <:+: body
  long : a.maxPayload + terminator.length < body.length

/-- **A piece is read by turns and a look that waits.**  The same turns read the piece with more
bytes behind it, and unless the look gives up a frame the rest is read from where it left off. -/
theorem push_append_cases (ha : a.Searched) (piece d : Bytes) :
    ∃ es b, Turns (a.feed piece) es b ∧ b.Searched ∧
      a.push (piece ++ d) = (es ++ (b.feed d).settle.1, (b.feed d).settle.2) ∧
      ((∃ c, b.turn = .wait [] c ∧ c.Resting ∧ a.push piece = (es, c) ∧
          (b.feed d).settle = c.push d) ∨
        ∃ body, b.Overlong body ∧ a.push piece = (es ++ [.oversized], skipping b.maxPayload)) := by
  obtain ⟨es, b, fs, c, hturns, hwait, hpiece⟩ := exists_turns (a.feed piece)
  have hb := hturns.searched (ha.feed piece)
  have hmore := (hturns.feed (ha.feed piece) d).settle
  rw [feed_feed] at hmore
  refine ⟨es, b, hturns, hb, hmore, ?_⟩
  have hsilent (hfs : fs = []) : ∃ c, b.turn = .wait [] c ∧ c.Resting ∧ a.push piece = (es, c) ∧
      (b.feed d).settle = c.push d := by
    subst hfs
    rw [List.append_nil] at hpiece
    exact ⟨c, hwait, .of_wait hb hwait, hpiece, settle_congr (turn_feed_of_wait hb hwait d)⟩
  have hl := hb.looks
  rw [hwait] at hl
  cases hl with
  | exceeds hd hbuffer hbody hlong => exact .inr ⟨_, ⟨hd, hbuffer, hbody, hlong⟩, hpiece⟩
  | empty => exact .inl (hsilent rfl)
  | passes => exact .inl (hsilent rfl)
  | grows => exact .inl (hsilent rfl)
  | opens => exact .inl (hsilent rfl)

/-! ## 2. A frame that is given up -/

/-- What a look makes of an open frame that is too long when `d` has come in behind it. -/
inductive GivenUp (b : Assembler) (d : Bytes) : Turn → Prop
  /-- Its closing mark does not come. -/
  | unclosed (hd : ¬ terminator <:+: d) :
      GivenUp b d (.wait [.oversized] (skipping b.maxPayload))
  /-- Its closing mark comes whole. -/
  | whole {x v : Bytes} (hd : d = x ++ (terminator ++ v)) (hx : ¬ terminator <:+: x) :
      GivenUp b d (.next [.oversized] ((new b.maxPayload).feed v))
  /-- Its closing mark had begun already, and the rest of it comes. -/
  | begun {p s z v : Bytes} (hbuffer : b.buffer ++ d = wrap p ++ v) (hp : ¬ terminator <:+: p)
      (hlong : b.maxPayload + 1 < p.length) (hsz : terminator = s ++ z) (hs : s ≠ [])
      (hd : d = z ++ v) : GivenUp b d (.next [.oversized] ((new b.maxPayload).feed v))

/-- **What becomes of a frame that is given up.** -/
theorem Overlong.givenUp {body : Bytes} (h : b.Overlong body) (hb : b.Searched) (d : Bytes) :
    b.GivenUp d (b.feed d).turn := by
  have hlong := h.long
  have hbuffer : (b.feed d).buffer = magic ++ (body ++ d) := by
    simp only [feed, h.buffer, List.append_assoc]
  by_cases hmark : terminator <:+: body ++ d
  · obtain ⟨p, v, hpv, hp⟩ := Bytes.exists_first_of_infix Frame.terminator_ne_nil hmark
    have hclosed : (b.feed d).buffer = wrap p ++ v := by
      rw [hbuffer, hpv, Frame.wrap_append]
    have hturn (hover : b.maxPayload < p.length) :
        (b.feed d).turn = .next [.oversized] ((new b.maxPayload).feed v) := by
      have hevent : StreamEvent.ofPayload b.maxPayload p = .oversized := if_pos hover
      rw [(Looks.closes (a := b.feed d) h.discarding hclosed hp).turn_eq (hb.feed d),
        maxPayload_feed, hevent]
    rcases List.append_eq_append_iff.mp hpv with ⟨x, rfl, hd⟩ | ⟨s, rfl, hs⟩
    · rw [hturn (by rw [List.length_append]; omega)]
      exact .whole hd fun hx => hp (hx.trans (List.suffix_append body x).isInfix)
    · by_cases hbegun : s = []
      · subst hbegun
        rw [List.append_nil] at hlong
        rw [hturn (by omega)]
        exact .whole (x := []) hs.symm (by decide)
      · rcases List.append_eq_append_iff.mp hs with ⟨w, rfl, -⟩ | ⟨z, hsz, hd⟩
        · exact absurd (List.infix_append' p terminator w) h.unclosed
        · have hz : z ≠ [] := by
            rintro rfl
            rw [List.append_nil] at hsz
            exact h.unclosed (hsz ▸ (List.suffix_append p s).isInfix)
          have hzpos := List.length_pos_iff.mpr hz
          have hlength := congrArg List.length hsz
          rw [List.length_append] at hlong hlength
          rw [hturn (by omega)]
          exact .begun hclosed hp (by omega) hsz hbegun hd
  · rw [(Looks.exceeds (a := b.feed d) h.discarding hbuffer hmark ?_).turn_eq (hb.feed d)]
    · exact .unclosed fun hd => hmark (hd.trans (List.suffix_append body d).isInfix)
    · rw [List.length_append, maxPayload_feed]
      omega

theorem Overlong.oversized_mem {body : Bytes} (h : b.Overlong body) (hb : b.Searched) (d : Bytes) :
    .oversized ∈ (b.feed d).settle.1 := by
  have hend := h.givenUp hb d
  generalize ht : (b.feed d).turn = T at hend
  cases hend with
  | unclosed =>
    rw [settle_of_wait ht]
    exact List.mem_singleton_self _
  | whole =>
    rw [settle_of_next ht]
    exact List.mem_append_left _ (List.mem_singleton_self _)
  | begun =>
    rw [settle_of_next ht]
    exact List.mem_append_left _ (List.mem_singleton_self _)

/-- **A stream in which no frame is too long is read the same in any pieces.** -/
theorem pushAll_of_not_oversized {pieces : List Bytes} (ha : a.Resting)
    (h : .oversized ∉ (a.push pieces.flatten).1) : a.pushAll pieces = a.push pieces.flatten := by
  induction pieces generalizing a with
  | nil => exact ha.push_nil.symm
  | cons piece pieces ih =>
    obtain ⟨es, b, -, hb, hwhole, ⟨c, -, hc, hpiece, hrest⟩ | ⟨body, hoverlong, -⟩⟩ :=
      push_append_cases ha.searched piece pieces.flatten
    · rw [List.flatten_cons, hwhole, hrest] at h ⊢
      have hlater := ih hc fun hmem => h (List.mem_append_right es hmem)
      simp only [pushAll, hpiece, hlater]
    · rw [List.flatten_cons, hwhole] at h
      exact absurd (List.mem_append_right es (hoverlong.oversized_mem hb _)) h

/-- **Behind the rest of its closing mark a frame that was given up takes the next one with it.** -/
theorem skipping_rest {s z : Bytes} (hsz : terminator = s ++ z) (hs : s ≠ []) (v : Bytes) :
    ((skipping limit).push (z ++ v)).1 = [] ∨
      ((skipping limit).push (z ++ v)).1.length < ((new limit).push v).1.length := by
  have hrest := Bytes.find?_rest Frame.terminator_unbordered hsz hs
  have hunmarked {w : Bytes} (hw : ¬ terminator <:+: w) : ¬ terminator <:+: z ++ w := by
    rw [← Bytes.find?_eq_none Frame.terminator_ne_nil] at hw ⊢
    rw [hrest, hw, Option.map_none]
  by_cases hmark : terminator <:+: v
  · obtain ⟨x, y, rfl, hx⟩ := Bytes.exists_first_of_infix Frame.terminator_ne_nil hmark
    obtain ⟨es, hes, hpush⟩ := push_mark limit hx y
    have hskipped : (skipping limit).push (z ++ (x ++ (terminator ++ y))) = (new limit).push y := by
      rw [← List.append_assoc z]
      exact settle_skipping_of_mark (hunmarked hx) y
    have hpos := List.length_pos_iff.mpr hes
    rw [hskipped, hpush, List.length_append]
    exact .inr (by omega)
  · exact .inl (congrArg Prod.fst (settle_skipping (hunmarked hmark)))

/-! ## 3. Nothing behind -/

/-- Whatever is taken off the buffer, nothing is reported behind a frame that can be given up inside
its closing mark. -/
def NothingBehind (a : Assembler) : Prop :=
  ∀ es b p v, Turns a es b → b.discarding = false → b.buffer = wrap p ++ v →
    ¬ terminator <:+: p → a.maxPayload + 1 < p.length → ((new a.maxPayload).push v).1 = []

theorem NothingBehind.turns (h : a.NothingBehind) (ha : a.Searched) (hturns : Turns a es b) :
    b.NothingBehind := by
  intro fs c p v hrest hd hbuffer hp hlong
  rw [hturns.maxPayload ha] at hlong ⊢
  exact h (es ++ fs) c p v (hturns.trans hrest) hd hbuffer hp hlong

/-- What was to be passed over holds no frame. -/
theorem NothingBehind.of_discarding (h : b.NothingBehind) (ha : a.Searched)
    (hd : a.discarding = true) (ht : a.turn = .next es b) : a.NothingBehind := by
  intro fs c p v hturns hc hbuffer hp hlong
  cases hturns with
  | refl =>
    rw [hd] at hc
    cases hc
  | next hturn hrest =>
    rw [ht] at hturn
    cases hturn
    have hmax := (Turns.next ht (.refl b)).maxPayload ha
    rw [← hmax] at hlong ⊢
    exact h _ c p v hrest hc hbuffer hp hlong

/-- After a look that waits in silence the same bytes lie ahead. -/
theorem NothingBehind.wait (h : (b.feed d).NothingBehind) (hb : b.Searched)
    (ht : b.turn = .wait [] c) : (c.feed d).NothingBehind := by
  have hturn := turn_feed_of_wait hb ht d
  have hl := hb.looks
  intro fs e p v hturns hd hbuffer hp hlong
  have hmax : c.maxPayload = b.maxPayload := by
    rw [ht] at hl
    cases hl <;> rfl
  simp only [maxPayload_feed, hmax] at hlong ⊢
  cases hturns with
  | next hnext hrest => exact h _ e p v (.next (hturn.trans hnext) hrest) hd hbuffer hp hlong
  | refl =>
    rw [ht] at hl
    cases hl with
    | empty => exact h [] _ p v (.refl _) hd hbuffer hp hlong
    | opens => exact h [] _ p v (.refl _) hd hbuffer hp hlong
    | grows hopen => exact h [] _ p v (.refl _) hopen hbuffer hp hlong
    | passes => cases hd

/-- Where nothing is reported in one piece, nothing is in more. -/
theorem pushAll_of_silent {pieces : List Bytes} (ha : a.Resting)
    (h : (a.push pieces.flatten).1 = []) : (a.pushAll pieces).1 = [] := by
  rw [pushAll_of_not_oversized ha (by rw [h]; exact List.not_mem_nil), h]

/-- **A stream with nothing behind a frame that can be given up inside its closing mark is read the
same in any pieces.** -/
theorem pushAll_of_nothingBehind {pieces : List Bytes} (ha : a.Resting)
    (h : (a.feed pieces.flatten).NothingBehind) :
    (a.pushAll pieces).1 = (a.push pieces.flatten).1 := by
  induction pieces generalizing a with
  | nil => exact congrArg Prod.fst ha.push_nil.symm
  | cons piece pieces ih =>
    obtain ⟨d, hd⟩ : ∃ d, pieces.flatten = d := ⟨_, rfl⟩
    rw [List.flatten_cons, hd] at h ⊢
    rw [hd] at ih
    have hfed := ha.searched.feed piece
    obtain ⟨es, b, hturns, hb, hwhole, hcases⟩ := push_append_cases ha.searched piece d
    have hbehind : (b.feed d).NothingBehind := by
      rw [← feed_feed] at h
      exact h.turns (hfed.feed d) (hturns.feed hfed d)
    rw [hwhole]
    rcases hcases with ⟨c, hwait, hc, hpiece, hrest⟩ | ⟨body, hoverlong, hpiece⟩
    · have hlater := ih hc (hbehind.wait hb hwait)
      simp only [pushAll, hpiece, hrest, hlater]
    · have hresting := resting_skipping b.maxPayload
      simp only [pushAll, hpiece, List.append_assoc, List.append_cancel_left_eq]
      have hend := hoverlong.givenUp hb d
      generalize ht : (b.feed d).turn = T at hend
      cases hend with
      | unclosed hnone =>
        have hsilent : ((skipping b.maxPayload).pushAll pieces).1 = [] :=
          pushAll_of_silent hresting (by rw [hd]; exact congrArg Prod.fst (settle_skipping hnone))
        rw [settle_of_wait ht, hsilent]
        rfl
      | @whole x v hxv hx =>
        have hskip : ((skipping b.maxPayload).feed d).turn =
            .next [] ((new b.maxPayload).feed v) := by
          rw [hxv]
          exact (Looks.ends rfl rfl hx).turn_eq ((searched_skipping _).feed _)
        have hv : ((new b.maxPayload).feed v).NothingBehind :=
          hbehind.turns (hb.feed d) (.next ht (.refl _))
        have hlater := ih hresting (hv.of_discarding ((searched_skipping _).feed d) rfl hskip)
        rw [hlater, settle_of_next ht, push, settle_of_next hskip]
        rfl
      | @begun p s z v hclosed hp hlong hsz hs hzv =>
        have hv : ((new b.maxPayload).push v).1 = [] :=
          hbehind [] _ p v (.refl _) hoverlong.discarding hclosed hp hlong
        have hsilent : ((skipping b.maxPayload).pushAll pieces).1 = [] := by
          refine pushAll_of_silent hresting ?_
          rw [hd, hzv]
          refine (skipping_rest hsz hs v).resolve_right ?_
          rw [hv]
          exact Nat.not_lt_zero _
        have hsettle : ((new b.maxPayload).feed v).settle.1 = [] := hv
        rw [settle_of_next ht, hsettle, hsilent]

/-! ## 4. Two ways to cut a stream -/

/-- A frame that is cut inside its closing mark, with what follows it. -/
theorem pushAll_cut {p : Bytes} (hu : ((new limit).push u).2 = new limit)
    (hp : ¬ terminator <:+: p) (hlong : limit + 1 < p.length) (v : Bytes) :
    ((new limit).pushAll [u ++ (magic ++ (p ++ terminator.take 6)), terminator.drop 6 ++ v]).1 =
      ((new limit).push u).1 ++
        .oversized :: ((skipping limit).push (terminator.drop 6 ++ v)).1 := by
  have hbody : ¬ terminator <:+: p ++ terminator.take 6 :=
    Bytes.not_infix_append_begun Frame.terminator_unbordered Frame.terminator_ne_nil
      (List.take_append_drop 6 terminator).symm (by decide) hp
  have hgiven : (new limit).push (magic ++ (p ++ terminator.take 6)) =
      ([.oversized], skipping limit) := by
    refine settle_of_wait ((Looks.exceeds rfl rfl hbody ?_).turn_eq ((searched_new limit).feed _))
    show limit + 7 < (p ++ terminator.take 6).length
    rw [List.length_append, show (terminator.take 6).length = 6 from rfl]
    omega
  simp only [pushAll, push_append hu, hgiven, List.append_nil, List.append_assoc,
    List.singleton_append]

/-- **The streams that are read the same however they are cut** are those in which nothing is
reported behind a frame that can be given up inside its closing mark. -/
theorem cuts_agree_iff (limit : Nat) (s : Bytes) :
    (∀ cs ds : List Bytes, cs.flatten = s → ds.flatten = s →
        ((new limit).pushAll cs).1 = ((new limit).pushAll ds).1) ↔
      ∀ u p v, s = u ++ (wrap p ++ v) → ((new limit).push u).2 = new limit →
        ¬ terminator <:+: p → limit + 1 < p.length → ((new limit).push v).1 = [] := by
  constructor
  · rintro hagree u p v rfl hu hp hlong
    have hsame := hagree [u ++ (wrap p ++ v)]
      [u ++ (magic ++ (p ++ terminator.take 6)), terminator.drop 6 ++ v] List.flatten_singleton ?_
    · have hoversized : StreamEvent.ofPayload limit p = .oversized := if_pos (by omega)
      rw [pushAll_cut hu hp hlong] at hsame
      simp only [pushAll, push_append hu, push_wrap hp, hoversized, List.append_nil,
        List.append_cancel_left_eq, List.cons.injEq, true_and] at hsame
      rcases skipping_rest (s := terminator.take 6) (List.take_append_drop 6 terminator).symm
        (by decide) v with hnone | hless
      · exact hsame.trans hnone
      · rw [hsame] at hless
        exact absurd hless (Nat.lt_irrefl _)
    · simp [wrap, terminator]
  · intro h cs ds hcs hds
    have hbehind : ((new limit).feed s).NothingBehind := by
      intro es b p v hturns hd hbuffer hp hlong
      obtain ⟨u, hu, hsettle⟩ := hturns.resolves ((searched_new limit).feed s) hd
      have hpush : ((new limit).push u).2 = new limit := congrArg Prod.snd hsettle
      rw [hbuffer] at hu
      exact h u p v hu hpush hp hlong
    have hone {pieces : List Bytes} (hpieces : pieces.flatten = s) :
        ((new limit).pushAll pieces).1 = ((new limit).push s).1 := by
      rw [← hpieces] at hbehind ⊢
      exact pushAll_of_nothingBehind (resting_new limit) hbehind
    rw [hone hcs, hone hds]

/-- A frame of two bytes too many and one behind it.  When the first is cut inside its closing mark,
the second is lost. -/
theorem cut_inside_mark :
    [magic ++ (List.replicate 10 7 ++ terminator.take 6),
          terminator.drop 6 ++ wrap [111, 107]].flatten =
        [wrap (List.replicate 10 7) ++ wrap [111, 107]].flatten ∧
      ((new 8).pushAll [wrap (List.replicate 10 7) ++ wrap [111, 107]]).1 =
        [.oversized, .frame [111, 107]] ∧
      ((new 8).pushAll [magic ++ (List.replicate 10 7 ++ terminator.take 6),
        terminator.drop 6 ++ wrap [111, 107]]).1 = [.oversized] := by
  have hfirst : ¬ terminator <:+: List.replicate 10 7 := by decide
  have hsecond : (new 8).push (wrap [111, 107]) = ([.frame [111, 107]], new 8) := by
    rw [← List.append_nil (wrap [111, 107]), push_wrap (by decide), (resting_new 8).push_nil]
    rfl
  have hskipped : ((skipping 8).push (terminator.drop 6 ++ wrap [111, 107])).1 = [] := by
    have hunmarked : ¬ terminator <:+: terminator.drop 6 ++ (magic ++ [111, 107]) := by decide
    have hend := (settle_skipping_of_mark hunmarked []).trans (resting_new 8).push_nil
    exact congrArg Prod.fst hend
  refine ⟨by decide, ?_, ?_⟩
  · simp only [pushAll, push_wrap hfirst, hsecond, List.append_nil]
    rfl
  · rw [← List.nil_append (magic ++ _), pushAll_cut (congrArg Prod.snd (resting_new 8).push_nil)
      hfirst (by decide), hskipped, (resting_new 8).push_nil, List.nil_append]

end SynergyNode.Assembler
