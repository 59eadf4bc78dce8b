import GridPuzzles.Proofs.Json.Grammar
import GridPuzzles.Proofs.Text.Utf8

/-! Quoted texts. In a document of UTF-8 the bytes that a text stands for are UTF-8 too, so that
every text whose surrogates are paired can be read. -/
namespace GridPuzzles
namespace Json

variable {bs rest r raw name acc x pre : List UInt8} {a b c d : UInt8} {n : Nat}

theorem Outcome.bind_eq_ok {α β : Type} {o : Outcome α} {f : α → List UInt8 → Outcome β} {y : β} :
    o.bind f = .ok y rest ↔ ∃ v s, o = .ok v s ∧ f v s = .ok y rest := by
  cases o <;> simp [Outcome.bind]

theorem Outcome.map_eq_ok {α β : Type} {o : Outcome α} {f : α → β} {y : β} :
    o.map f = .ok y rest ↔ ∃ v, o = .ok v rest ∧ f v = y := by
  cases o <;> simp [Outcome.map, and_comm]

theorem isPlain_iff : isPlain a ↔ ¬ a < 0x20 ∧ a ≠ byte '"' ∧ a ≠ byte '\\' := by
  simp only [isPlain, Bool.and_eq_true, Bool.not_eq_true', decide_eq_false_iff_not,
    decide_eq_true_eq, and_assoc]

theorem hexEscape_eq_ok :
    hexEscape bs = .ok n r ↔
      ∃ a b c d, hexQuad? a b c d = some n ∧ bs = a :: b :: c :: d :: r := by
  constructor
  · intro h
    unfold hexEscape at h
    split at h
    · rename_i a b c d s
      split at h
      · rename_i m hm
        cases h
        exact ⟨a, b, c, d, hm, rfl⟩
      · cases h
    · cases h
  · rintro ⟨a, b, c, d, hquad, rfl⟩
    rw [hexEscape, hquad]

theorem secondHalf_eq_ok {m : Nat} :
    secondHalf m bs = .ok x r ↔
      ∃ a b c d n, hexQuad? a b c d = some n ∧ isTrailingSurrogate n ∧
        x = codePoint (pairValue m n) ∧ bs = byte '\\' :: byte 'u' :: a :: b :: c :: d :: r := by
  constructor
  · intro h
    unfold secondHalf at h
    split at h
    · cases h
    · split at h
      · rename_i hback
        split at h
        · cases h
        · split at h
          · rename_i hu
            obtain ⟨n, s, hn, hx⟩ := Outcome.bind_eq_ok.mp h
            obtain ⟨a, b, c, d, hquad, rfl⟩ := hexEscape_eq_ok.mp hn
            split at hx
            · rename_i htrailing
              obtain ⟨hvalue, hrest⟩ := Outcome.ok.inj hx
              exact ⟨a, b, c, d, n, hquad, htrailing, hvalue.symm, by rw [hback, hu, hrest]⟩
            · cases hx
          · cases h
      · cases h
  · rintro ⟨a, b, c, d, n, hquad, htrailing, hx, hbs⟩
    rw [hx, hbs, secondHalf, if_pos rfl]
    simp only [if_true, hexEscape, hquad, Outcome.bind, htrailing]

theorem not_trailing_of_leading (h : isLeadingSurrogate n) : ¬ isTrailingSurrogate n := by
  rw [isLeadingSurrogate, Bool.and_eq_true, decide_eq_true_eq, decide_eq_true_eq] at h
  rw [isTrailingSurrogate, Bool.and_eq_true, decide_eq_true_eq, decide_eq_true_eq]
  omega

theorem numericEscape_sound (h : numericEscape bs = .ok x r) :
    ∃ used, bs = used ++ r ∧ ∀ raw name, Names raw name →
      Names (byte '\\' :: byte 'u' :: (used ++ raw)) (x ++ name) := by
  obtain ⟨m, s, hm, hx⟩ := Outcome.bind_eq_ok.mp h
  obtain ⟨a, b, c, d, hquad, rfl⟩ := hexEscape_eq_ok.mp hm
  split at hx
  · cases hx
  · rename_i htrailing
    split at hx
    · rename_i hleading
      obtain ⟨a', b', c', d', n, hquad', htrailing', hvalue, hs⟩ := secondHalf_eq_ok.mp hx
      rw [hvalue, hs]
      exact ⟨[a, b, c, d, byte '\\', byte 'u', a', b', c', d'], rfl, fun raw name hnames =>
        .pair hquad hleading hquad' htrailing' hnames⟩
    · rename_i hleading
      cases hx
      exact ⟨[a, b, c, d], rfl, fun raw name hnames => .numeric hquad hleading htrailing hnames⟩

theorem escape_sound (h : escape bs = .ok x r) :
    ∃ used, bs = used ++ r ∧ ∀ raw name, Names raw name →
      Names (byte '\\' :: (used ++ raw)) (x ++ name) := by
  cases bs with
  | nil => cases h
  | cons b s =>
    rw [escape] at h
    split at h
    · rename_i hu
      obtain ⟨used, rfl, hnames⟩ := numericEscape_sound h
      subst hu
      exact ⟨byte 'u' :: used, rfl, hnames⟩
    · split at h
      · rename_i y hy
        cases h
        exact ⟨[b], rfl, fun raw name hnames => .letter hy hnames⟩
      · cases h

theorem textFrom_sound (h : textFrom acc bs = .ok x rest) :
    ∃ raw name, Names raw name ∧ bs = raw ++ byte '"' :: rest ∧ x = acc.reverse ++ name := by
  fun_induction textFrom acc bs with
  | case1 => cases h
  | case2 acc r =>
    unfold closed at h
    split at h
    · cases h
      exact ⟨[], [], .nil, rfl, by simp⟩
    · cases h
  | case3 acc r y s hs _ ih =>
    obtain ⟨raw, name, hnames, rfl, rfl⟩ := ih h
    obtain ⟨used, rfl, hused⟩ := escape_sound hs
    exact ⟨_, _, hused raw name hnames, by simp, by simp⟩
  | case4 => cases h
  | case5 => cases h
  | case6 => cases h
  | case7 acc b r hquote hback hcontrol ih =>
    obtain ⟨raw, name, hnames, rfl, rfl⟩ := ih h
    have hplain : isPlain b := isPlain_iff.mpr ⟨hcontrol, hquote, hback⟩
    exact ⟨b :: raw, b :: name, .plain hplain hnames, rfl, by simp⟩

theorem textFrom_quote (acc rest : List UInt8) :
    textFrom acc (byte '"' :: rest) = closed acc.reverse rest := by
  rw [textFrom, if_pos rfl]

theorem textFrom_plain (ha : isPlain a) (acc rest : List UInt8) :
    textFrom acc (a :: rest) = textFrom (a :: acc) rest := by
  obtain ⟨hcontrol, hquote, hback⟩ := isPlain_iff.mp ha
  rw [textFrom, if_neg hquote, if_neg hback, if_neg hcontrol]

theorem textFrom_backslash (acc bs : List UInt8) :
    textFrom acc (byte '\\' :: bs) =
      (escape bs).bind fun x rest => textFrom (x.reverse ++ acc) rest := by
  have hquote : byte '\\' ≠ byte '"' := by decide
  rw [textFrom, if_neg hquote, if_pos rfl]
  split
  all_goals
    rename_i h
    rw [h, Outcome.bind]

theorem textFrom_complete (h : Names raw name) (acc rest : List UInt8) :
    textFrom acc (raw ++ byte '"' :: rest) = closed (acc.reverse ++ name) rest := by
  induction h generalizing acc with
  | nil => rw [List.nil_append, textFrom_quote, List.append_nil]
  | plain hb _ ih => rw [List.cons_append, textFrom_plain hb, ih, List.reverse_cons,
      List.append_assoc, List.singleton_append]
  | @letter b x raw name hb _ ih =>
    have hu : b ≠ byte 'u' := by
      rintro rfl
      cases hb
    have hescape : escape (b :: (raw ++ byte '"' :: rest)) = .ok [x] (raw ++ byte '"' :: rest) := by
      rw [escape, if_neg hu, hb]
    rw [List.cons_append, List.cons_append, textFrom_backslash, hescape, Outcome.bind, ih]
    simp
  | @numeric a b c d n raw name hquad hleading htrailing _ ih =>
    have hescape : escape (byte 'u' :: a :: b :: c :: d :: (raw ++ byte '"' :: rest)) =
        .ok (codePoint n) (raw ++ byte '"' :: rest) := by
      rw [escape, if_pos rfl, numericEscape, hexEscape, hquad]
      simp only [Outcome.bind, if_neg hleading, if_neg htrailing]
    simp only [List.cons_append]
    rw [textFrom_backslash, hescape, Outcome.bind, ih]
    simp
  | @pair a b c d a' b' c' d' m n raw name hquad hleading hquad' htrailing _ ih =>
    have hpair : secondHalf m (byte '\\' :: byte 'u' :: a' :: b' :: c' :: d' ::
        (raw ++ byte '"' :: rest)) = .ok (codePoint (pairValue m n)) (raw ++ byte '"' :: rest) :=
      secondHalf_eq_ok.mpr ⟨a', b', c', d', n, hquad', htrailing, rfl, rfl⟩
    have hescape : escape (byte 'u' :: a :: b :: c :: d :: byte '\\' :: byte 'u' ::
        a' :: b' :: c' :: d' :: (raw ++ byte '"' :: rest)) =
          .ok (codePoint (pairValue m n)) (raw ++ byte '"' :: rest) := by
      rw [escape, if_pos rfl, numericEscape, hexEscape, hquad]
      simp only [Outcome.bind, if_neg (not_trailing_of_leading hleading), hleading,
        if_true, hpair]
    simp only [List.cons_append]
    rw [textFrom_backslash, hescape, Outcome.bind, ih]
    simp

theorem hexValue?_lt {v : Nat} (h : hexValue? a = some v) : a < 0x80 := by
  rw [hexValue?] at h
  split at h
  · rename_i hd
    rw [isDigit, Bool.and_eq_true, decide_eq_true_eq, decide_eq_true_eq] at hd
    exact UInt8.lt_of_le_of_lt hd.2 (by decide)
  · split at h
    · rename_i hl
      rw [Bool.and_eq_true, decide_eq_true_eq, decide_eq_true_eq] at hl
      exact UInt8.lt_of_le_of_lt hl.2 (by decide)
    · split at h
      · rename_i hl
        rw [Bool.and_eq_true, decide_eq_true_eq, decide_eq_true_eq] at hl
        exact UInt8.lt_of_le_of_lt hl.2 (by decide)
      · cases h

theorem hexQuad?_lt (h : hexQuad? a b c d = some n) :
    a < 0x80 ∧ b < 0x80 ∧ c < 0x80 ∧ d < 0x80 := by
  simp only [hexQuad?, Option.bind_eq_bind, Option.bind_eq_some_iff] at h
  obtain ⟨va, ha, vb, hb, vc, hc, vd, hd, -⟩ := h
  exact ⟨hexValue?_lt ha, hexValue?_lt hb, hexValue?_lt hc, hexValue?_lt hd⟩

theorem letterEscape?_lt {y : UInt8} (h : letterEscape? a = some y) : a < 0x80 ∧ y < 0x80 := by
  revert h
  rw [letterEscape?]
  split
  · rename_i ha
    intro h
    cases h
    rw [Bool.or_eq_true, Bool.or_eq_true, decide_eq_true_eq, decide_eq_true_eq,
      decide_eq_true_eq] at ha
    rcases ha with (rfl | rfl) | rfl <;> decide
  · repeat' split
    all_goals
      intro h
      cases h
    all_goals
      subst_vars
      decide

theorem isText_codePoint (n : Nat) (name : List UInt8) :
    Utf8.isText (codePoint n ++ name) = Utf8.isText name :=
  Utf8.isText_append_sequence (Utf8.sequence_utf8EncodeChar _)

theorem isText_of_cons (ha : a < 0x80) (h : Utf8.isText (a :: bs)) : Utf8.isText bs :=
  (Utf8.isText_split ha (List.nil_append _ ▸ h : Utf8.isText ([] ++ a :: bs))).2

theorem isText_of_hexQuad? (hquad : hexQuad? a b c d = some n)
    (h : Utf8.isText (byte 'u' :: a :: b :: c :: d :: bs)) : Utf8.isText bs := by
  obtain ⟨ha, hb, hc, hd⟩ := hexQuad?_lt hquad
  exact isText_of_cons hd (isText_of_cons hc (isText_of_cons hb (isText_of_cons ha
    (isText_of_cons (by decide) h))))

/-- The escapes of a text of UTF-8 stand for UTF-8. Bytes that stand for themselves are collected in
`pre`, since they may be parts of one sequence. -/
theorem Names.isText_append (h : Names raw name) (hraw : Utf8.isText (pre ++ raw)) :
    Utf8.isText (pre ++ name) := by
  have hback : byte '\\' < 0x80 := by decide
  induction h generalizing pre with
  | nil => exact hraw
  | @plain b raw name _ _ ih =>
    rw [← List.singleton_append, ← List.append_assoc] at hraw ⊢
    exact ih hraw
  | letter hb _ ih =>
    obtain ⟨hpre, hraw⟩ := Utf8.isText_split hback hraw
    obtain ⟨hlt, hx⟩ := letterEscape?_lt hb
    have hname := @ih [] (isText_of_cons hlt hraw)
    apply Utf8.isText_append hpre
    rwa [← List.singleton_append, Utf8.isText_append_sequence (.one hx)]
  | numeric hquad _ _ _ ih =>
    obtain ⟨hpre, hraw⟩ := Utf8.isText_split hback hraw
    have hname := @ih [] (isText_of_hexQuad? hquad hraw)
    apply Utf8.isText_append hpre
    rwa [isText_codePoint]
  | pair hquad _ hquad' _ _ ih =>
    obtain ⟨hpre, hraw⟩ := Utf8.isText_split hback hraw
    have hraw' := isText_of_cons hback (isText_of_hexQuad? hquad hraw)
    have hname := @ih [] (isText_of_hexQuad? hquad' hraw')
    apply Utf8.isText_append hpre
    rwa [isText_codePoint]

/-- In a document of UTF-8 every text with paired surrogates is read. -/
theorem textFrom_of_names (h : Names raw name)
    (hend : Utf8.Ending (byte '"' :: (raw ++ byte '"' :: rest))) :
    textFrom [] (raw ++ byte '"' :: rest) = .ok name rest := by
  have hquote : byte '"' < 0x80 := by decide
  have hname : Utf8.isText name := by
    have hraw := (Utf8.isText_split hquote (hend.isText_of_cons hquote)).1
    exact @Names.isText_append _ _ [] h hraw
  rw [textFrom_complete h, List.reverse_nil, List.nil_append, closed,
    List.isEmpty_iff.mp hname]

theorem skipEscape_sound (h : skipEscape bs = .ok () r) :
    ∃ used, bs = used ++ r ∧ ∀ raw, Quotable raw → Quotable (byte '\\' :: (used ++ raw)) := by
  cases bs with
  | nil => cases h
  | cons b s =>
    rw [skipEscape] at h
    split at h
    · rename_i hu
      obtain ⟨n, hn, -⟩ := Outcome.map_eq_ok.mp h
      obtain ⟨a', b', c', d', hquad, rfl⟩ := hexEscape_eq_ok.mp hn
      subst hu
      exact ⟨[byte 'u', a', b', c', d'], rfl, fun raw hraw => .numeric hquad hraw⟩
    · split at h
      · rename_i y hy
        cases h
        exact ⟨[b], rfl, fun raw hraw => .letter hy hraw⟩
      · cases h

theorem skipText_sound (h : skipText bs = .ok () rest) :
    ∃ raw, Quotable raw ∧ bs = raw ++ byte '"' :: rest := by
  fun_induction skipText bs with
  | case1 => cases h
  | case2 r =>
    cases h
    exact ⟨[], .nil, rfl⟩
  | case3 r _ s hs _ ih =>
    obtain ⟨raw, hraw, rfl⟩ := ih h
    obtain ⟨used, rfl, hused⟩ := skipEscape_sound hs
    exact ⟨_, hused raw hraw, by simp⟩
  | case4 => cases h
  | case5 => cases h
  | case6 => cases h
  | case7 b r hquote hback hcontrol ih =>
    obtain ⟨raw, hraw, rfl⟩ := ih h
    exact ⟨b :: raw, .plain (isPlain_iff.mpr ⟨hcontrol, hquote, hback⟩) hraw, rfl⟩

theorem skipText_backslash (bs : List UInt8) :
    skipText (byte '\\' :: bs) = (skipEscape bs).bind fun _ rest => skipText rest := by
  have hquote : byte '\\' ≠ byte '"' := by decide
  rw [skipText, if_neg hquote, if_pos rfl]
  split
  all_goals
    rename_i h
    rw [h, Outcome.bind]

theorem skipText_complete (h : Quotable raw) (rest : List UInt8) :
    skipText (raw ++ byte '"' :: rest) = .ok () rest := by
  induction h with
  | nil => rw [List.nil_append, skipText, if_pos rfl]
  | plain hb _ ih =>
    obtain ⟨hcontrol, hquote, hback⟩ := isPlain_iff.mp hb
    rw [List.cons_append, skipText, if_neg hquote, if_neg hback, if_neg hcontrol, ih]
  | @letter b x raw hb _ ih =>
    have hu : b ≠ byte 'u' := by
      rintro rfl
      cases hb
    rw [List.cons_append, List.cons_append, skipText_backslash, skipEscape, if_neg hu, hb,
      Outcome.bind, ih]
  | numeric hquad _ ih =>
    simp only [List.cons_append]
    rw [skipText_backslash, skipEscape, if_pos rfl, hexEscape, hquad]
    simp only [Outcome.map, Outcome.bind, ih]

end Json
end GridPuzzles
