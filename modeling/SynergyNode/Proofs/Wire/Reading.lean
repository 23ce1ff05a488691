import SynergyNode.Proofs.Wire.Assembler

/-!
# Reading a stream in one piece

What `(new limit).push s` reports of a whole stream `s`.

* Section 1 reads what stands at the head of a stream: a frame, a token, bytes that are neither.
* `push_mark`: a closing mark puts the assembler between frames, whatever stands in front of it, and
  what stands there is reported as something.
* `Turns.resolves`: what has been taken off a stream is, on its own, a stream that leaves nothing
  behind; and what follows such a stream is read as if nothing had been there (`push_append`).
* `not_oversized_of_length_le`: in a short stream there is no frame that is too long.
-/

namespace SynergyNode.Assembler

open SynergyNode.Frame (magic terminator wrap)

variable {a b : Assembler} {es fs : List StreamEvent} {limit : Nat} {u v x : Bytes}

/-! ## 1. The head of a stream -/

theorem settle_new (limit : Nat) : (new limit).settle = ([], new limit) :=
  settle_of_wait ((Looks.empty rfl).turn_eq (searched_new limit))

/-- Nothing is reported before a closing mark is there. -/
theorem settle_skipping (hv : ¬ terminator <:+: v) :
    ((skipping limit).feed v).settle =
      ([], (skipping limit).feed (v.drop (v.length - (terminator.length - 1)))) := by
  have hsearched := (searched_skipping limit).feed v
  rcases List.eq_nil_or_concat v with rfl | ⟨_, _, hne⟩
  · exact settle_of_wait ((Looks.empty rfl).turn_eq hsearched)
  · exact settle_of_wait ((Looks.passes rfl (by simp [feed, skipping, hne]) hv).turn_eq hsearched)

/-- Behind the closing mark the assembler stands between frames. -/
theorem settle_skipping_of_mark (hx : ¬ terminator <:+: x) (v : Bytes) :
    ((skipping limit).feed (x ++ (terminator ++ v))).settle = (new limit).push v :=
  settle_of_next ((Looks.ends rfl rfl hx).turn_eq ((searched_skipping limit).feed _))

theorem push_wrap {payload : Bytes} (hpayload : ¬ terminator <:+: payload) (v : Bytes) :
    (new limit).push (wrap payload ++ v) =
      (.ofPayload limit payload :: ((new limit).push v).1, ((new limit).push v).2) :=
  settle_of_next ((Looks.closes rfl rfl hpayload).turn_eq ((searched_new limit).feed _))

theorem push_token (t : ControlToken) (v : Bytes) :
    (new limit).push (t.toBytes ++ v) =
      (.control t :: ((new limit).push v).1, ((new limit).push v).2) :=
  settle_of_next ((Looks.token rfl rfl).turn_eq ((searched_new limit).feed _))

theorem push_stray (hv : Stray v) :
    (new limit).push v =
      (.badMagic :: ((skipping limit).feed v).settle.1, ((skipping limit).feed v).settle.2) :=
  settle_of_next ((Looks.strays rfl hv).turn_eq ((searched_new limit).feed _))

/-! ## 2. The first closing mark -/

/-- The first closing mark behind a token is the first one of what follows it. -/
theorem exists_of_token_append (t : ControlToken) {v' : Bytes} (hx : ¬ terminator <:+: x)
    (h : x ++ (terminator ++ v) = t.toBytes ++ v') :
    ∃ x', x = t.toBytes ++ x' ∧ v' = x' ++ (terminator ++ v) ∧ ¬ terminator <:+: x' := by
  have hfound :=
    Bytes.find?_append_mark Frame.terminator_unbordered Frame.terminator_ne_nil hx v
  rw [h, Bytes.find?_append_of_apart t.not_infix_toBytes t.toBytes_apart] at hfound
  obtain ⟨k, hk, -⟩ := Option.map_eq_some_iff.mp hfound
  obtain ⟨x', v'', rfl, -, hx'⟩ := Bytes.find?_eq_some Frame.terminator_ne_nil hk
  have hfront := Bytes.not_infix_append_of_apart Frame.terminator_ne_nil t.not_infix_toBytes
    t.toBytes_apart hx'
  rw [← List.append_assoc t.toBytes] at h
  obtain ⟨hsame, rfl⟩ := Bytes.eq_of_append_mark Frame.terminator_unbordered
    Frame.terminator_ne_nil hx hfront h
  exact ⟨x', hsame, rfl, hx'⟩

/-- The first closing mark behind an opening one is the one that closes the frame. -/
theorem eq_of_wrap_append {payload v' : Bytes} (hx : ¬ terminator <:+: x)
    (hpayload : ¬ terminator <:+: payload) (h : x ++ (terminator ++ v) = wrap payload ++ v') :
    v = v' := by
  have hfront := Bytes.not_infix_append_of_apart Frame.terminator_ne_nil Frame.not_infix_magic
    Frame.magic_apart hpayload
  rw [Frame.wrap_append, ← List.append_assoc magic] at h
  exact (Bytes.eq_of_append_mark Frame.terminator_unbordered Frame.terminator_ne_nil hx hfront h).2

/-- **A closing mark puts the assembler between frames**, whatever stands in front of it, and what
stands there is reported as something. -/
theorem push_mark (limit : Nat) (hx : ¬ terminator <:+: x) (v : Bytes) :
    ∃ es, es ≠ [] ∧ (new limit).push (x ++ (terminator ++ v)) =
      (es ++ ((new limit).push v).1, ((new limit).push v).2) := by
  obtain ⟨n, hn⟩ : ∃ n, x.length = n := ⟨_, rfl⟩
  induction n using Nat.strong_induction_on generalizing x with
  | _ n ih =>
    obtain ⟨s, hs⟩ : ∃ s, x ++ (terminator ++ v) = s := ⟨_, rfl⟩
    have hmark : terminator <:+: s := hs ▸ List.infix_append' x terminator v
    have hl := ((searched_new limit).feed s).looks
    rw [hs]
    generalize ((new limit).feed s).turn = T at hl
    cases hl with
    | empty hbuffer =>
      have hnil : s = [] := hbuffer
      exact absurd hnil (hmark.ne_nil Frame.terminator_ne_nil)
    | ends hd => cases hd
    | passes hd => cases hd
    | @closes payload v' hd hbuffer hpayload =>
      have hsame : s = wrap payload ++ v' := hbuffer
      have hrest : v = v' := eq_of_wrap_append hx hpayload (hs.trans hsame)
      rw [hsame, hrest, push_wrap hpayload]
      exact ⟨[_], List.cons_ne_nil _ _, rfl⟩
    | @exceeds body hd hbuffer hbody =>
      have hsame : s = magic ++ body := hbuffer
      rw [hsame] at hmark
      exact absurd hmark (Bytes.not_infix_append_of_apart Frame.terminator_ne_nil
        Frame.not_infix_magic Frame.magic_apart hbody)
    | @grows body hd hbuffer hbody =>
      have hsame : s = magic ++ body := hbuffer
      rw [hsame] at hmark
      exact absurd hmark (Bytes.not_infix_append_of_apart Frame.terminator_ne_nil
        Frame.not_infix_magic Frame.magic_apart hbody)
    | @token t v' hd hbuffer =>
      have hsame : s = t.toBytes ++ v' := hbuffer
      obtain ⟨x', rfl, rfl, hx'⟩ := exists_of_token_append t hx (hs.trans hsame)
      have hshorter : x'.length < n := by
        have : 0 < t.toBytes.length := by cases t <;> decide
        rw [← hn, List.length_append]
        omega
      obtain ⟨es, -, hpush⟩ := ih x'.length hshorter hx' rfl
      rw [hsame, push_token, hpush]
      exact ⟨.control t :: es, List.cons_ne_nil _ _, rfl⟩
    | opens hd hne hm hopening =>
      have hshort : s.length < terminator.length := length_of_opening hopening
      have := hmark.length_le
      omega
    | strays hd hbuffer =>
      have hstray : Stray s := hbuffer
      rw [push_stray hstray, ← hs, settle_skipping_of_mark hx v]
      exact ⟨[.badMagic], List.cons_ne_nil _ _, rfl⟩

/-- Where a closing mark is, something is reported. -/
theorem push_ne_nil_of_infix {s : Bytes} (h : terminator <:+: s) : ((new limit).push s).1 ≠ [] := by
  obtain ⟨x, v, rfl, hx⟩ := Bytes.exists_first_of_infix Frame.terminator_ne_nil h
  obtain ⟨es, hes, hpush⟩ := push_mark limit hx v
  rw [hpush]
  exact List.append_ne_nil_of_left_ne_nil hes _

/-! ## 3. What has been resolved -/

theorem Turns.maxPayload (h : Turns a es b) (ha : a.Searched) : b.maxPayload = a.maxPayload := by
  induction h with
  | refl a => rfl
  | @next a b c es fs ht _ ih =>
    have hl := ha.looks
    rw [ht] at hl
    rw [ih (ha.next ht)]
    cases hl <;> rfl

/-- Only a closing mark ends what is passed over. -/
theorem infix_of_settle_skipping {es : List StreamEvent}
    (h : ((skipping limit).feed u).settle = (es, new limit)) : terminator <:+: u := by
  by_contra hnot
  have hdiscarding : true = false :=
    congrArg (fun r => r.2.discarding) ((settle_skipping hnot).symm.trans h)
  cases hdiscarding

/-- **What has been taken off a stream leaves nothing behind when it stands alone.** -/
theorem Turns.resolves (h : Turns a es b) (ha : a.Searched) (hb : b.discarding = false) :
    ∃ u, a.buffer = u ++ b.buffer ∧
      ({ a with buffer := u, scanned := 0 } : Assembler).settle = (es, new a.maxPayload) := by
  induction h with
  | refl a =>
    refine ⟨[], rfl, ?_⟩
    rw [hb]
    exact settle_new a.maxPayload
  | @next a b c es fs ht _ ih =>
    have hl := ha.looks
    obtain ⟨u, hu, hsettle⟩ := ih (ha.next ht) hb
    rw [ht] at hl
    cases hl with
    | @ends x v hd hbuffer hx =>
      refine ⟨x ++ (terminator ++ u), ?_, ?_⟩
      · have hv : v = u ++ c.buffer := hu
        rw [hbuffer, hv, List.append_assoc, List.append_assoc]
      · rw [hd]
        exact (settle_skipping_of_mark hx u).trans hsettle
    | @closes payload v hd hbuffer hpayload =>
      refine ⟨wrap payload ++ u, ?_, ?_⟩
      · have hv : v = u ++ c.buffer := hu
        rw [hbuffer, hv, List.append_assoc]
      · have hrest : (new a.maxPayload).push u = (fs, new a.maxPayload) := hsettle
        rw [hd]
        show (new a.maxPayload).push (wrap payload ++ u) = _
        rw [push_wrap hpayload, hrest]
        rfl
    | @token t v hd hbuffer =>
      refine ⟨t.toBytes ++ u, ?_, ?_⟩
      · have hv : v = u ++ c.buffer := hu
        rw [hbuffer, hv, List.append_assoc]
      · have hrest : (new a.maxPayload).push u = (fs, new a.maxPayload) := hsettle
        rw [hd]
        show (new a.maxPayload).push (t.toBytes ++ u) = _
        rw [push_token, hrest]
        rfl
    | strays hd hbuffer =>
      have hwhole : a.buffer = u ++ c.buffer := hu
      have hlength := (infix_of_settle_skipping hsettle).length_le
      have hrest : ((skipping a.maxPayload).feed u).settle = (fs, new a.maxPayload) := hsettle
      rw [hwhole] at hbuffer
      refine ⟨u, hwhole, ?_⟩
      rw [hd]
      show (new a.maxPayload).push u = _
      rw [push_stray (hbuffer.of_append hlength), hrest]
      rfl

theorem eq_of_wait_empty (ha : a.Searched) (ht : a.turn = .wait es b) (hd : b.discarding = false)
    (hbuffer : b.buffer = []) : es = [] ∧ b = a := by
  have hl := ha.looks
  rw [ht] at hl
  cases hl with
  | empty => exact ⟨rfl, rfl⟩
  | opens => exact ⟨rfl, rfl⟩
  | passes => cases hd
  | exceeds => cases hd
  | grows _ hframe =>
    rw [hframe] at hbuffer
    cases hbuffer

/-- **Behind a stream that leaves nothing behind, reading starts anew.** -/
theorem push_append (h : ((new limit).push u).2 = new limit) (w : Bytes) :
    (new limit).push (u ++ w) =
      (((new limit).push u).1 ++ ((new limit).push w).1, ((new limit).push w).2) := by
  have hsearched := (searched_new limit).feed u
  obtain ⟨es, b, fs, c, hturns, hwait, hsettle⟩ := exists_turns ((new limit).feed u)
  have hpush : (new limit).push u = (es ++ fs, c) := hsettle
  rw [hpush] at h
  cases h
  obtain ⟨rfl, rfl⟩ := eq_of_wait_empty (hturns.searched hsearched) hwait rfl rfl
  have hmore := (hturns.feed hsearched w).settle
  rw [feed_feed] at hmore
  rw [hpush, List.append_nil]
  exact hmore

/-! ## 4. Short streams -/

/-- A frame that is too long does not fit in the length of the longest acceptable one. -/
theorem Turns.not_oversized (h : Turns a es b) (ha : a.Searched)
    (hlength : a.buffer.length ≤ a.maxPayload + (magic.length + terminator.length)) :
    .oversized ∉ es ∧ b.buffer.length ≤ b.maxPayload + (magic.length + terminator.length) := by
  induction h with
  | refl a => exact ⟨List.not_mem_nil, hlength⟩
  | @next a b c es fs ht _ ih =>
    have hl := ha.looks
    have hrest := ih (ha.next ht)
    rw [List.mem_append, not_or]
    rw [ht] at hl
    cases hl with
    | @ends x v hd hbuffer hx =>
      rw [hbuffer, List.length_append, List.length_append] at hlength
      obtain ⟨hfs, hc⟩ := hrest (by show v.length ≤ a.maxPayload + _; omega)
      exact ⟨⟨List.not_mem_nil, hfs⟩, hc⟩
    | @closes payload v hd hbuffer hpayload =>
      rw [hbuffer, Frame.wrap_append] at hlength
      simp only [List.length_append] at hlength
      obtain ⟨hfs, hc⟩ := hrest (by show v.length ≤ a.maxPayload + _; omega)
      have hframe : StreamEvent.ofPayload a.maxPayload payload = .frame payload :=
        if_neg (by omega)
      exact ⟨⟨by rw [hframe]; simp, hfs⟩, hc⟩
    | @token t v hd hbuffer =>
      rw [hbuffer, List.length_append] at hlength
      obtain ⟨hfs, hc⟩ := hrest (by show v.length ≤ a.maxPayload + _; omega)
      exact ⟨⟨by simp, hfs⟩, hc⟩
    | strays hd hbuffer =>
      obtain ⟨hfs, hc⟩ := hrest hlength
      exact ⟨⟨by simp, hfs⟩, hc⟩

theorem not_oversized_of_length_le {s : Bytes}
    (hlength : s.length ≤ limit + (magic.length + terminator.length)) :
    .oversized ∉ ((new limit).push s).1 := by
  have hsearched := (searched_new limit).feed s
  obtain ⟨es, b, fs, c, hturns, hwait, hsettle⟩ := exists_turns ((new limit).feed s)
  have hpush : (new limit).push s = (es ++ fs, c) := hsettle
  obtain ⟨hes, hb⟩ := hturns.not_oversized hsearched hlength
  have hl := (hturns.searched hsearched).looks
  rw [hpush, List.mem_append, not_or]
  refine ⟨hes, ?_⟩
  rw [hwait] at hl
  cases hl with
  | exceeds hd hbuffer hbody hlong =>
    rw [hbuffer, List.length_append] at hb
    omega
  | empty => exact List.not_mem_nil
  | passes => exact List.not_mem_nil
  | grows => exact List.not_mem_nil
  | opens => exact List.not_mem_nil

end SynergyNode.Assembler
