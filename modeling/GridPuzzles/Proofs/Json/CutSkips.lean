import GridPuzzles.Proofs.Json.Cuts

/-! Skipped values that are cut short. A number that is skipped may be cut into a number or into
nothing that is one; a cut anywhere else leaves something open, and so is noticed as the end of the
input. -/
namespace GridPuzzles
namespace Json

variable {bs r s p q w v : List UInt8} {b : UInt8} {stack : List Bracket}

/-- A reader of a number that is skipped: more bytes behind do not change what it takes if it leaves
some already, and bytes that are no number are a bad one. -/
structure Numeric (g : List UInt8 → Outcome Unit) : Prop where
  settled : ∀ bs s q, g bs = .ok () s → s ≠ [] → g (bs ++ q) = .ok () (s ++ q)
  bad : ∀ bs, (∃ s, g bs = .ok () s) ∨ ∃ u, g bs = .failed .badNumber u

theorem dropWhile_settled (h : r.dropWhile isDigit ≠ []) (q : List UInt8) :
    (r ++ q).dropWhile isDigit = r.dropWhile isDigit ++ q := by
  rw [List.dropWhile_append, if_neg (by simpa using h)]

theorem skipExponent_numeric : Numeric skipExponent where
  settled bs s q h hs := by
    obtain ⟨sign, hsign, hbs⟩ := exponentSign_sound bs
    rw [skipExponent] at h
    split at h
    · cases h
    · rename_i d r hr
      split at h
      · rename_i hd
        cases h
        rw [hr] at hbs
        rw [skipExponent, hbs, List.append_assoc, List.cons_append, exponentSign_complete hsign hd]
        simp only [hd, if_true, dropWhile_settled hs]
      · cases h
  bad bs := by
    rw [skipExponent]
    split
    · exact .inr ⟨_, rfl⟩
    · split
      · exact .inl ⟨_, rfl⟩
      · exact .inr ⟨_, rfl⟩

theorem skipAfterDigits_numeric : Numeric skipAfterDigits where
  settled bs s q h hs := by
    cases bs with
    | nil =>
      cases h
      exact absurd rfl hs
    | cons b r =>
      rw [skipAfterDigits] at h
      rw [List.cons_append, skipAfterDigits]
      by_cases hb : isExponentMark b
      · rw [if_pos hb] at h ⊢
        exact skipExponent_numeric.settled r s q h hs
      · rw [if_neg hb] at h ⊢
        cases h
        rfl
  bad bs := by
    cases bs with
    | nil => exact .inl ⟨_, rfl⟩
    | cons b r =>
      rw [skipAfterDigits]
      split
      · exact skipExponent_numeric.bad r
      · exact .inl ⟨_, rfl⟩

theorem skipFraction_numeric : Numeric skipFraction where
  settled bs s q h hs := by
    cases bs with
    | nil => cases h
    | cons d r =>
      rw [skipFraction] at h
      split at h
      · rename_i hd
        have hne : r.dropWhile isDigit ≠ [] := by
          intro hnil
          rw [hnil] at h
          cases h
          exact hs rfl
        rw [List.cons_append, skipFraction, if_pos hd, dropWhile_settled hne]
        exact skipAfterDigits_numeric.settled _ s q h hs
      · cases h
  bad bs := by
    cases bs with
    | nil => exact .inr ⟨_, rfl⟩
    | cons d r =>
      rw [skipFraction]
      split
      · exact skipAfterDigits_numeric.bad _
      · exact .inr ⟨_, rfl⟩

theorem skipAfterInteger_numeric : Numeric skipAfterInteger where
  settled bs s q h hs := by
    cases bs with
    | nil =>
      cases h
      exact absurd rfl hs
    | cons b r =>
      rw [skipAfterInteger] at h
      rw [List.cons_append, skipAfterInteger]
      by_cases hb : b = byte '.'
      · rw [if_pos hb] at h ⊢
        exact skipFraction_numeric.settled r s q h hs
      · rw [if_neg hb] at h ⊢
        exact skipAfterDigits_numeric.settled (b :: r) s q h hs
  bad bs := by
    cases bs with
    | nil => exact .inl ⟨_, rfl⟩
    | cons b r =>
      rw [skipAfterInteger]
      split
      · exact skipFraction_numeric.bad r
      · exact skipAfterDigits_numeric.bad _

theorem skipUnsigned_numeric : Numeric skipUnsigned where
  settled bs s q h hs := by
    cases bs with
    | nil => cases h
    | cons d r =>
      rw [List.cons_append]
      by_cases hzero : d = byte '0'
      · cases r with
        | nil =>
          rw [skipUnsigned, if_pos hzero] at h
          cases h
          exact absurd rfl hs
        | cons b t =>
          rw [skipUnsigned, if_pos hzero] at h
          rw [List.cons_append, skipUnsigned, if_pos hzero]
          by_cases hb : isDigit b
          · simp only [if_pos hb, reduceCtorEq] at h
          · simp only [if_neg hb] at h ⊢
            exact skipAfterInteger_numeric.settled (b :: t) s q h hs
      · rw [skipUnsigned.eq_def] at h ⊢
        simp only [if_neg hzero] at h ⊢
        by_cases hd : isDigit d
        · rw [if_pos hd] at h ⊢
          have hne : r.dropWhile isDigit ≠ [] := by
            intro hnil
            rw [hnil] at h
            cases h
            exact hs rfl
          rw [dropWhile_settled hne]
          exact skipAfterInteger_numeric.settled _ s q h hs
        · rw [if_neg hd] at h
          cases h
  bad bs := by
    cases bs with
    | nil => exact .inr ⟨_, rfl⟩
    | cons d r =>
      rw [skipUnsigned.eq_def]
      simp only
      split
      · split
        · exact .inl ⟨_, rfl⟩
        · split
          · exact .inr ⟨_, rfl⟩
          · exact skipAfterInteger_numeric.bad _
      · split
        · exact skipAfterInteger_numeric.bad _
        · exact .inr ⟨_, rfl⟩

theorem skipScalar_digit (hb : isDigit b) (r : List UInt8) :
    skipScalar (b :: r) = skipUnsigned (b :: r) := by
  rw [skipScalar, if_neg (isDigit_ne hb rfl), if_neg (isDigit_ne hb rfl),
    if_neg (isDigit_ne hb rfl), if_neg (isDigit_ne hb rfl), if_pos hb]

theorem startsNumber_iff : startsNumber b ↔ b = byte '-' ∨ isDigit b := by
  rw [startsNumber, Bool.or_eq_true, decide_eq_true_eq]

theorem skipScalar_numeric (hb : startsNumber b) : Numeric fun r => skipScalar (b :: r) := by
  rcases startsNumber_iff.mp hb with rfl | hb
  · exact skipUnsigned_numeric
  · rw [funext (skipScalar_digit hb)]
    exact ⟨fun bs s q => skipUnsigned_numeric.settled (b :: bs) s q,
      fun bs => skipUnsigned_numeric.bad (b :: bs)⟩

/-- A number that is skipped, cut short: nothing is left, or no number, or a shorter one. -/
theorem skipScalar_cut (hv : Numeral v) (hpq : v = p ++ q) :
    p = [] ∨ (∃ u, skipScalar p = .failed .badNumber u) ∨ skipScalar p = .ok () [] := by
  cases p with
  | nil => exact .inl rfl
  | cons b p =>
    obtain ⟨c, r, hc, hstarts⟩ := numeral_starts hv
    have hb : startsNumber b := by
      rw [hc, List.cons_append, List.cons.injEq] at hpq
      rwa [← hpq.1]
    have hnumeric := skipScalar_numeric hb
    have halone := skipScalar_number hv ends_nil
    rw [List.append_nil, hpq] at halone
    rcases hnumeric.bad p with ⟨s, hs⟩ | hbad
    · cases s with
      | nil => exact .inr (.inr hs)
      | cons d s =>
        -- what a part of the number leaves over, the whole number would leave over too
        have hsettled := hnumeric.settled p (d :: s) q hs (by simp)
        rw [← List.cons_append, halone] at hsettled
        cases hsettled
    · exact .inr (.inl hbad)

theorem numeral_of_skipScalar (hb : startsNumber b) (h : skipScalar (b :: r) = .ok () s) :
    ∃ v, Numeral v ∧ b :: r = v ++ s := by
  rcases startsNumber_iff.mp hb with rfl | hb
  · obtain ⟨ds, fraction, exponent, hds, hf, he, rfl⟩ := skipUnsigned_sound h
    exact ⟨_, ⟨[byte '-'], ds, fraction, exponent, .inr rfl, hds, hf, he, rfl⟩, by simp⟩
  · rw [skipScalar_digit hb] at h
    obtain ⟨ds, fraction, exponent, hds, hf, he, hr⟩ := skipUnsigned_sound h
    exact ⟨_, ⟨[], ds, fraction, exponent, .inl rfl, hds, hf, he, rfl⟩, by simp [hr]⟩

theorem cautious_word (ws bs : List UInt8) : Cautious False (word ws) bs := by
  induction ws generalizing bs with
  | nil => exact cautious_pure False () bs
  | cons a ws ih =>
    have h0 : (word (a :: ws) []).Unfinished := unfinished_failed rfl _
    cases bs with
    | nil => exact cautious_nil h0
    | cons b bs =>
      refine Cautious.cons h0 ?_
      simp only [word]
      split
      · exact ih bs
      · exact cautious_failed

theorem hexEscape_short (h : p.length < 4) : hexEscape p = .failed .endInText [] := by
  match p with
  | [] | [_] | [_, _] | [_, _, _] => rfl
  | _ :: _ :: _ :: _ :: _ =>
    simp only [List.length_cons] at h
    omega

theorem cautious_hexEscape (bs : List UInt8) : Cautious False hexEscape bs := by
  intro n r hrun _
  obtain ⟨a, b, c, d, hquad, rfl⟩ := hexEscape_eq_ok.mp hrun
  refine ⟨[a, b, c, d], rfl, ?_, ?_⟩
  · intro rest _
    exact hexEscape_eq_ok.mpr ⟨a, b, c, d, hquad, rfl⟩
  · intro p q hpq hq
    have hlength := congrArg List.length hpq
    rw [List.length_append] at hlength
    have hpos := List.length_pos_iff.mpr hq
    have hlt : p.length < 4 := by
      have hfour : [a, b, c, d].length = 4 := rfl
      omega
    exact .unfinished (hexEscape_short hlt ▸ unfinished_failed rfl _)

theorem cautious_skipEscape (bs : List UInt8) : Cautious False skipEscape bs := by
  have h0 : (skipEscape []).Unfinished := unfinished_failed rfl _
  cases bs with
  | nil => exact cautious_nil h0
  | cons b r =>
    refine Cautious.cons h0 ?_
    simp only [skipEscape]
    split
    · exact (cautious_hexEscape r).map _
    · split
      · exact cautious_pure False () r
      · exact cautious_failed

theorem skipText_plain (hb : isPlain b) (r : List UInt8) : skipText (b :: r) = skipText r := by
  obtain ⟨hcontrol, hquote, hback⟩ := isPlain_iff.mp hb
  rw [skipText, if_neg hquote, if_neg hback, if_neg hcontrol]

theorem cautious_skipText (bs : List UInt8) : Cautious False skipText bs := by
  have h0 : (skipText []).Unfinished := by
    rw [skipText]
    exact unfinished_failed rfl _
  fun_induction skipText bs with
  | case1 => exact cautious_nil h0
  | case2 r =>
    refine Cautious.cons h0 ((cautious_pure False () r).of_eq fun r => ?_)
    rw [skipText, if_pos rfl]
  | case3 r _ s hs _ ih =>
    refine Cautious.cons h0 (Cautious.of_eq ?_ skipText_backslash)
    refine (cautious_skipEscape r).bind False.elim fun _ t ht => ?_
    rw [hs] at ht
    cases ht
    exact ih
  | case4 r e s hs =>
    refine Cautious.cons h0 (Cautious.of_eq ?_ skipText_backslash)
    exact cautious_of_ne_ok (by simp [hs, Outcome.bind])
  | case5 r e s hs =>
    refine Cautious.cons h0 (Cautious.of_eq ?_ skipText_backslash)
    exact cautious_of_ne_ok (by simp [hs, Outcome.bind])
  | case6 b r hquote hback hcontrol =>
    refine cautious_of_ne_ok fun a s hrun => ?_
    rw [skipText, if_neg hquote, if_neg hback, if_pos hcontrol] at hrun
    cases hrun
  | case7 b r hquote hback hcontrol ih =>
    exact Cautious.cons h0 (ih.of_eq (skipText_plain (isPlain_iff.mpr ⟨hcontrol, hquote, hback⟩)))

theorem cautious_skipScalar (hb : ¬ startsNumber b) (r : List UInt8) :
    Cautious False (fun r => skipScalar (b :: r)) r := by
  rw [startsNumber_iff, not_or] at hb
  simp only [skipScalar, if_neg hb.1, if_neg hb.2]
  split
  · exact cautious_word _ r
  · split
    · exact cautious_word _ r
    · split
      · exact cautious_word _ r
      · split
        · exact cautious_skipText r
        · exact cautious_failed

theorem cautious_colon (bs : List UInt8) : Cautious False colon bs := by
  have h0 : (colon []).Unfinished := unfinished_failed rfl _
  refine Cautious.mark (fun bs => by simp only [colon, skipBlanks_skipBlanks]) h0 ?_
  intro c r hbs
  simp only [colon, skipBlanks_cons (isBlank_of_skipBlanks hbs)]
  split
  · exact cautious_pure False () r
  · exact cautious_failed

theorem cautious_skipLabel (k : Bracket) (bs : List UInt8) : Cautious False (skipLabel k) bs := by
  cases k with
  | list => exact cautious_pure False () bs
  | object =>
    have h0 : (skipKey []).Unfinished := unfinished_failed rfl _
    refine Cautious.mark (g := skipKey) (fun bs => by simp only [skipKey, skipBlanks_skipBlanks])
      h0 ?_
    intro c r hbs
    simp only [skipKey, skipBlanks_cons (isBlank_of_skipBlanks hbs)]
    split
    · exact (cautious_skipText r).bind False.elim fun _ s _ => cautious_colon s
    · exact cautious_failed

section Machine

theorem unfinished_skipValue (stack : List Bracket) : (skipValue stack []).Unfinished := by
  rw [skipValue_eq]
  exact unfinished_failed rfl _

theorem unfinished_skipRest (k : Bracket) (outer : List Bracket) :
    (skipRest (k :: outer) []).Unfinished := by
  rw [skipRest_cons]
  cases k with
  | list => exact unfinished_failed rfl _
  | object => exact unfinished_failed rfl _

theorem parted_skipRest (k : Bracket) (outer : List Bracket) :
    Parted fun (_ : Unit) s => skipRest (k :: outer) s where
  unfinished _ := unfinished_skipRest k outer
  parts := by
    intro _ bs _ _ hrun
    refine parts_of_skipBlanks fun c r hbs => ?_
    rw [skipRest_cons, hbs] at hrun
    simp only at hrun
    split at hrun
    · rename_i hc
      rw [hc]
      rfl
    · split at hrun
      · rename_i hc
        rw [hc]
        cases k with
        | list => rfl
        | object => rfl
      · cases hrun

theorem isBlank_of_startsNumber (hb : startsNumber b) : isBlank b = false := by
  rcases startsNumber_iff.mp hb with rfl | hb
  · rfl
  · exact isBlank_of_isDigit hb

theorem opening?_of_startsNumber (hb : startsNumber b) : Bracket.opening? b = none := by
  cases hopening : Bracket.opening? b with
  | none => rfl
  | some k =>
    rw [eq_opening_of_opening? hopening] at hb
    cases k with
    | list => cases hb
    | object => cases hb

def skipGroup (k : Bracket) (stack : List Bracket) (bs : List UInt8) : Outcome Unit :=
  match skipBlanks bs with
  | [] => .failed k.unfinished []
  | c :: s =>
    if c = k.closing then skipRest stack s
    else (skipLabel k (c :: s)).bind fun _ t => skipValue (k :: stack) t

theorem unfinished_skipGroup (k : Bracket) (stack : List Bracket) :
    (skipGroup k stack []).Unfinished := by
  cases k with
  | list => exact unfinished_failed rfl _
  | object => exact unfinished_failed rfl _

theorem skipLabel_bind_nil_ne_ok (k : Bracket) (stack : List Bracket) (u : Unit)
    (r : List UInt8) :
    ((skipLabel k []).bind fun _ t => skipValue (k :: stack) t) ≠ .ok u r := by
  cases k with
  | list => exact (unfinished_skipValue _).ne_ok
  | object => exact Outcome.Unfinished.ne_ok (Outcome.Unfinished.bind (unfinished_failed rfl _) _)

/-- What the machine is at from these bytes on is taken whole, and no cut through it is mistaken.
Outside all brackets a number may be the last thing taken. -/
def CautiousSkips (bs : List UInt8) : Prop :=
  (∀ stack, Cautious (stack = []) (skipValue stack) bs) ∧
    ∀ stack, Cautious False (skipRest stack) bs

theorem cautious_skipGroup (ih : ∀ s : List UInt8, s.length ≤ bs.length → CautiousSkips s)
    (k : Bracket) (stack : List Bracket) : Cautious False (skipGroup k stack) bs := by
  have h0 := unfinished_skipGroup k stack
  refine Cautious.blanks (fun bs => by simp only [skipGroup, skipBlanks_skipBlanks]) h0 ?_
  intro c s hbs
  have hs := length_lt_of_skipBlanks hbs
  have hc := isBlank_of_skipBlanks hbs
  by_cases hclose : c = k.closing
  · refine Cautious.cons h0 (((ih s hs.le).2 stack).of_eq fun r => ?_)
    rw [skipGroup, skipBlanks_cons hc]
    simp only [if_pos hclose]
  -- the byte is not taken here, but by the label or the value after it
  · refine Cautious.agree (P := fun c => isBlank c = false ∧ c ≠ k.closing)
      (g := fun bs => (skipLabel k bs).bind fun _ t => skipValue (k :: stack) t) ?_ ⟨hc, hclose⟩
      (fun _ hblank hclosing => ⟨hblank, hclosing k⟩) h0
      (skipLabel_bind_nil_ne_ok k stack) ?_
    · refine (cautious_skipLabel k _).bind False.elim fun _ t ht => ?_
      have hle := skipLabel_within k (c :: s) _ _ ht
      exact ((ih t (by simp at hle; omega)).1 (k :: stack)).mono (List.cons_ne_nil k stack)
    · intro c r hc
      rw [skipGroup, skipBlanks_cons hc.1]
      simp only [if_neg hc.2]

theorem skipValue_number (hb : startsNumber b) (stack : List Bracket) (r : List UInt8) :
    skipValue stack (b :: r) = (skipScalar (b :: r)).bind fun _ s => skipRest stack s := by
  rw [skipValue_eq, skipBlanks_cons (isBlank_of_startsNumber hb)]
  simp only [opening?_of_startsNumber hb]

theorem ends_of_skipRest (hw : Whole False (skipRest stack) w ()) (hr : stack = [] → Ends r) :
    Ends (w ++ r) := by
  cases stack with
  | nil =>
    have halone := hw.alone
    rw [skipRest_nil] at halone
    cases halone
    exact hr rfl
  | cons k outer =>
    exact Whole.ends (f := fun _ s => skipRest (k :: outer) s) (a := ()) hw
      (parted_skipRest k outer) r

theorem whole_skipValue (hv : Value v) (hw : Whole False (skipRest stack) w ()) :
    Whole (stack = []) (skipValue stack) (v ++ w) () := by
  intro rest hrest
  have hskip := skipValue_complete hv stack [] (w ++ rest) blank_nil (ends_of_skipRest hw hrest)
  rw [List.append_assoc, ← List.nil_append (v ++ _), hskip]
  exact hw rest False.elim

/-- A number that is skipped, and all that closes the brackets that are open. A cut through the
number leaves no number, or a shorter one; only outside all brackets that one is all. -/
theorem takes_skipNumber (hv : Numeral v) (hw : Takes False (skipRest stack) w ()) :
    Takes (stack = []) (skipValue stack) (v ++ w) () where
  whole := whole_skipValue (.number hv) hw.whole
  cut p q hpq hq := by
    rcases cut_cases hpq with ⟨p', rfl, rfl⟩ | ⟨q', hq', rfl, rfl⟩
    · have hends : Ends p' := by
        have hends := ends_of_skipRest hw.whole fun _ => ends_nil
        cases p' with
        | nil => exact ends_nil
        | cons c p' => exact ends_cons (hends c rfl) p'
      have hskip := skipValue_complete (.number hv) stack [] p' blank_nil hends
      rw [List.nil_append] at hskip
      exact (hw.cut p' q rfl hq).behind v (fun e u hu => hskip ▸ hu)
        (fun w _ hw => whole_skipValue (.number hv) hw) fun _ hfalse => hfalse.elim
    · cases p with
      | nil => exact .unfinished (unfinished_skipValue stack)
      | cons b p =>
        obtain ⟨c, r, hc, hstarts⟩ := numeral_starts hv
        rw [List.cons_append, List.cons.injEq] at hc
        have hskip := skipValue_number (hc.1 ▸ hstarts) stack p
        rcases skipScalar_cut hv rfl with hnil | ⟨u, hu⟩ | hok
        · cases hnil
        · refine .breaks ⟨[], b :: p, q', w, rfl, rfl, by simp, hq', hv, ⟨u, ?_⟩, ?_⟩
          · rw [hskip, hu, Outcome.bind]
          · intro v hv
            rw [List.nil_append]
            exact whole_skipValue hv hw.whole
        -- a shorter number ends the machine only if no bracket is open
        · rw [hok, Outcome.bind] at hskip
          cases stack with
          | nil => exact .short rfl ⟨(), hskip.trans (skipRest_nil [])⟩
          | cons k outer => exact .unfinished (hskip ▸ unfinished_skipRest k outer)

theorem cautious_skipNumber (ih : ∀ s : List UInt8, s.length < (b :: r).length → CautiousSkips s)
    (hb : startsNumber b) (stack : List Bracket) :
    Cautious (stack = []) (skipValue stack) (b :: r) := by
  intro _ s hrun _
  rw [skipValue_number hb] at hrun
  obtain ⟨_, t, hscalar, hrest⟩ := Outcome.bind_eq_ok.mp hrun
  obtain ⟨v, hv, hbs⟩ := numeral_of_skipScalar hb hscalar
  have hlt := skipScalar_below (b :: r) _ _ hscalar
  obtain ⟨w, rfl, hw⟩ := (ih t hlt).2 stack _ s hrest False.elim
  exact ⟨v ++ w, by rw [hbs, List.append_assoc], takes_skipNumber hv hw⟩

theorem cautious_skipValue (ih : ∀ s : List UInt8, s.length < bs.length → CautiousSkips s)
    (stack : List Bracket) : Cautious (stack = []) (skipValue stack) bs := by
  have h0 := unfinished_skipValue stack
  have hskip : ∀ bs, skipValue stack (skipBlanks bs) = skipValue stack bs := by
    intro bs
    rw [skipValue_eq stack bs, skipValue_eq, skipBlanks_skipBlanks]
  refine Cautious.blanks hskip h0 ?_
  intro b r hbs
  have hr := length_lt_of_skipBlanks hbs
  have hle := length_skipBlanks_le bs
  have hb := isBlank_of_skipBlanks hbs
  rw [hbs] at hle
  by_cases hnumber : startsNumber b
  · exact cautious_skipNumber (fun s hs => ih s (by omega)) hnumber stack
  refine Cautious.cons h0 (Cautious.loosen ?_)
  cases hopening : Bracket.opening? b with
  | none =>
    simp only [skipValue_eq stack, skipBlanks_cons hb, hopening]
    refine (cautious_skipScalar hnumber r).bind False.elim fun _ s hs => ?_
    have hlt := skipScalar_below (b :: r) _ _ hs
    exact (ih s (by omega)).2 stack
  | some k =>
    refine (cautious_skipGroup (fun s hs => ih s (by omega)) k stack).of_eq fun r => ?_
    rw [skipValue_eq, skipBlanks_cons hb]
    simp only [hopening]
    rfl

theorem cautious_skipRest (ih : ∀ s : List UInt8, s.length < bs.length → CautiousSkips s)
    (stack : List Bracket) : Cautious False (skipRest stack) bs := by
  cases stack with
  | nil => exact (cautious_pure False () bs).of_eq skipRest_nil
  | cons k outer =>
    have h0 := unfinished_skipRest k outer
    have hskip : ∀ bs, skipRest (k :: outer) (skipBlanks bs) = skipRest (k :: outer) bs := by
      intro bs
      rw [skipRest_cons k outer bs, skipRest_cons, skipBlanks_skipBlanks]
    refine Cautious.mark hskip h0 ?_
    intro c r hbs
    have hr := length_lt_of_skipBlanks hbs
    simp only [skipRest_cons, skipBlanks_cons (isBlank_of_skipBlanks hbs)]
    split
    · refine (cautious_skipLabel k r).bind False.elim fun _ s hs => ?_
      have hle := skipLabel_within k r _ _ hs
      exact ((ih s (by omega)).1 (k :: outer)).mono (List.cons_ne_nil k outer)
    · split
      · exact (ih r hr).2 outer
      · exact cautious_failed

theorem cautiousSkips (bs : List UInt8) : CautiousSkips bs := by
  induction hn : bs.length using Nat.strongRecOn generalizing bs with
  | ind n ih =>
    have ih' : ∀ s : List UInt8, s.length < bs.length → CautiousSkips s := fun s hs =>
      ih s.length (hn ▸ hs) s rfl
    exact ⟨cautious_skipValue ih', cautious_skipRest ih'⟩

theorem cautious_skip (bs : List UInt8) : Cautious True skip.run bs :=
  ((cautiousSkips bs).1 []).mono fun _ => trivial

end Machine

end Json
end GridPuzzles
