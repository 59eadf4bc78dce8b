import GridPuzzles.Proofs.Json.Text
import GridPuzzles.Proofs.Json.Tokens

/-! Values that are skipped. What is skipped is a value of any kind, and every value is skipped
whole, however deep it is nested. -/
namespace GridPuzzles
namespace Json

variable {bs rest r s t v w z lab : List UInt8} {b c : UInt8} {k : Bracket}
  {stack outer : List Bracket} {es : List (List UInt8 × List UInt8)}

theorem blank_append (hw : Blank w) (hr : Blank r) : Blank (w ++ r) := by
  intro b hb
  rcases List.mem_append.mp hb with hb | hb
  · exact hw b hb
  · exact hr b hb

theorem skipValue_eq (stack : List Bracket) (bs : List UInt8) :
    skipValue stack bs =
      match skipBlanks bs with
      | [] => .failed .endInValue []
      | b :: r =>
        match Bracket.opening? b with
        | none => (skipScalar (b :: r)).bind fun _ s => skipRest stack s
        | some k =>
          match skipBlanks r with
          | [] => .failed k.unfinished []
          | c :: s =>
            if c = k.closing then skipRest stack s
            else (skipLabel k (c :: s)).bind fun _ t => skipValue (k :: stack) t := by
  rw [skipValue]
  split
  · rename_i hbs
    rw [hbs]
  · rename_i b r hbs
    rw [hbs]
    split
    · rename_i hb
      simp only [hb]
      split
      · rename_i hs
        rw [hs, Outcome.bind]
      · rename_i hs
        cases ho : skipScalar (b :: r) with
        | ok u s => exact absurd ho (hs u s)
        | unplaced e s => rfl
        | failed e s => rfl
    · rename_i k hb
      simp only [hb]
      split
      · rename_i hr
        rw [hr]
      · rename_i c s hr
        rw [hr]
        simp only
        split
        · rfl
        · split
          · rename_i ht
            rw [ht, Outcome.bind]
          · rename_i ht
            cases ho : skipLabel k (c :: s) with
            | ok u t => exact absurd ho (ht u t)
            | unplaced e t => rfl
            | failed e t => rfl

theorem skipRest_cons (k : Bracket) (outer : List Bracket) (bs : List UInt8) :
    skipRest (k :: outer) bs =
      match skipBlanks bs with
      | [] => .failed k.unfinished []
      | c :: r =>
        if c = byte ',' then (skipLabel k r).bind fun _ s => skipValue (k :: outer) s
        else if c = k.closing then skipRest outer r
        else .failed k.unseparated r := by
  rw [skipRest]
  split
  · rename_i hbs
    rw [hbs]
  · rename_i c r hbs
    rw [hbs]
    simp only
    split
    · split
      · rename_i hs
        rw [hs, Outcome.bind]
      · rename_i hs
        cases ho : skipLabel k r with
        | ok u s => exact absurd ho (hs u s)
        | unplaced e s => rfl
        | failed e s => rfl
    · rfl

theorem skipRest_nil (bs : List UInt8) : skipRest [] bs = .ok () bs := by
  rw [skipRest]

theorem colon_eq_ok : colon bs = .ok () rest ↔ ∃ w, Blank w ∧ bs = w ++ byte ':' :: rest := by
  constructor
  · intro h
    rw [colon] at h
    split at h
    · cases h
    · rename_i c r hbs
      obtain ⟨w, hw, rfl⟩ := exists_blank_of_cons hbs
      split at h
      · rename_i hc
        cases h
        exact ⟨w, hw, by rw [hc]⟩
      · cases h
  · rintro ⟨w, hw, rfl⟩
    rw [colon, skipBlanks_blank_cons hw rfl]
    rfl

def Begins (v : List UInt8) : Prop :=
  ∃ b r, v = b :: r ∧ isBlank b = false ∧ ∀ k : Bracket, b ≠ k.closing

theorem begins_cons (hb : isBlank b = false) (hc : ∀ k : Bracket, b ≠ k.closing)
    (r : List UInt8) : Begins (b :: r) := ⟨b, r, rfl, hb, hc⟩

theorem begins_quoted (raw : List UInt8) : Begins (quoted raw) := by
  refine begins_cons rfl ?_ _
  intro k
  cases k <;> decide

theorem isBlank_of_isDigit (hb : isDigit b) : isBlank b = false := by
  rw [Bool.eq_false_iff]
  intro h
  simp only [isBlank, Bool.or_eq_true, decide_eq_true_eq] at h
  rcases h with ((rfl | rfl) | rfl) | rfl <;> cases hb

theorem begins_digit (hb : isDigit b) (r : List UInt8) : Begins (b :: r) := by
  refine begins_cons (isBlank_of_isDigit hb) ?_ r
  intro k
  cases k with
  | list => exact isDigit_ne hb rfl
  | object => exact isDigit_ne hb rfl

theorem begins_opening (k : Bracket) (r : List UInt8) : Begins (k.opening :: r) := by
  have hblank : isBlank k.opening = false := by cases k <;> rfl
  refine begins_cons hblank ?_ r
  intro k'
  cases k <;> cases k' <;> decide

theorem Integral.exists_cons (h : Integral v) : ∃ d s, v = d :: s ∧ isDigit d := by
  rcases h with rfl | ⟨h, -⟩
  · exact ⟨byte '0', [], rfl, rfl⟩
  · obtain ⟨d, s, rfl, hd, -⟩ := h.exists_cons
    exact ⟨d, s, rfl, hd⟩

theorem Numeral.begins (h : Numeral v) : Begins v := by
  obtain ⟨sign, ds, fraction, exponent, hsign, hds, -, -, rfl⟩ := h
  obtain ⟨d, s, rfl, hd⟩ := hds.exists_cons
  rcases hsign with rfl | rfl
  · exact begins_digit hd _
  · refine begins_cons rfl ?_ _
    intro k
    cases k <;> decide

theorem Value.begins (h : Value v) : Begins v := by
  cases h with
  | word hw =>
    rcases hw with rfl | rfl | rfl
    all_goals
      refine begins_cons rfl ?_ _
      intro k
      cases k <;> decide
  | number hn => exact hn.begins
  | text _ => exact begins_quoted _
  | @group k _ _ _ _ henclosed =>
    obtain ⟨z, -, rfl⟩ := henclosed
    exact begins_opening k z

theorem skipScalar_sound (h : skipScalar bs = .ok () rest) : ∃ v, Value v ∧ bs = v ++ rest := by
  cases bs with
  | nil => cases h
  | cons b r =>
    rw [skipScalar] at h
    split at h
    · rename_i hb
      rw [word_eq_ok] at h
      exact ⟨ascii "null", .word (.inl rfl), by rw [hb, h]; rfl⟩
    · split at h
      · rename_i hb
        rw [word_eq_ok] at h
        exact ⟨ascii "true", .word (.inr (.inl rfl)), by rw [hb, h]; rfl⟩
      · split at h
        · rename_i hb
          rw [word_eq_ok] at h
          exact ⟨ascii "false", .word (.inr (.inr rfl)), by rw [hb, h]; rfl⟩
        · split at h
          · rename_i hb
            obtain ⟨ds, fraction, exponent, hds, hf, he, rfl⟩ := skipUnsigned_sound h
            refine ⟨_, .number ⟨[byte '-'], ds, fraction, exponent, .inr rfl, hds, hf, he, rfl⟩, ?_⟩
            simp [hb]
          · split at h
            · obtain ⟨ds, fraction, exponent, hds, hf, he, hr⟩ := skipUnsigned_sound h
              refine ⟨_, .number ⟨[], ds, fraction, exponent, .inl rfl, hds, hf, he, rfl⟩, ?_⟩
              simp [hr]
            · split at h
              · rename_i hb
                obtain ⟨raw, hraw, rfl⟩ := skipText_sound h
                exact ⟨quoted raw, .text hraw, by simp [quoted, hb]⟩
              · cases h

theorem skipScalar_word {w : String} (h : w = "null" ∨ w = "true" ∨ w = "false") :
    skipScalar (ascii w ++ rest) = .ok () rest := by
  rcases h with rfl | rfl | rfl
  · exact word_eq_ok.mpr rfl
  · exact word_eq_ok.mpr rfl
  · exact word_eq_ok.mpr rfl

theorem skipScalar_number (h : Numeral v) (hr : Ends rest) :
    skipScalar (v ++ rest) = .ok () rest := by
  obtain ⟨sign, ds, fraction, exponent, hsign, hds, hf, he, rfl⟩ := h
  have hskip := skipUnsigned_complete hds hf he hr
  rcases hsign with rfl | rfl
  · obtain ⟨d, s, hds', hd⟩ := hds.exists_cons
    simp only [List.nil_append, List.append_assoc]
    rw [hds', List.cons_append] at hskip ⊢
    rw [skipScalar, if_neg (isDigit_ne hd rfl), if_neg (isDigit_ne hd rfl),
      if_neg (isDigit_ne hd rfl), if_neg (isDigit_ne hd rfl), if_pos hd, hskip]
  · simp only [List.cons_append, List.nil_append, List.append_assoc]
    exact hskip

theorem skipScalar_text {raw : List UInt8} (h : Quotable raw) :
    skipScalar (quoted raw ++ rest) = .ok () rest := by
  have hskip := skipText_complete h rest
  rw [quoted, List.cons_append, List.append_assoc, List.singleton_append]
  exact hskip

theorem skipLabel_sound (h : skipLabel k bs = .ok () rest) :
    ∃ before label, Blank before ∧ bs = before ++ (label ++ rest) ∧
      ∀ w, Blank w → Label k (label ++ w) := by
  cases k with
  | list =>
    cases h
    exact ⟨[], [], blank_nil, rfl, fun w hw => hw⟩
  | object =>
    rw [skipLabel, skipKey] at h
    split at h
    · cases h
    · rename_i b r hbs
      obtain ⟨before, hbefore, rfl⟩ := exists_blank_of_cons hbs
      split at h
      · rename_i hb
        obtain ⟨_, s, htext, hcolon⟩ := Outcome.bind_eq_ok.mp h
        obtain ⟨raw, hraw, rfl⟩ := skipText_sound htext
        obtain ⟨w₁, hw₁, rfl⟩ := colon_eq_ok.mp hcolon
        refine ⟨before, quoted raw ++ (w₁ ++ [byte ':']), hbefore, by simp [quoted, hb], ?_⟩
        intro w hw
        exact ⟨raw, w₁ ++ byte ':' :: w, hraw, ⟨w₁, w, hw₁, hw, rfl⟩, by simp⟩
      · cases h

theorem skipLabel_complete (hw : Blank w) (h : Label k lab) (r : List UInt8) :
    ∃ w', Blank w' ∧ skipLabel k (w ++ (lab ++ r)) = .ok () (w' ++ r) := by
  cases k with
  | list => exact ⟨w ++ lab, blank_append hw h, by rw [skipLabel, List.append_assoc]⟩
  | object =>
    obtain ⟨raw, c, hraw, ⟨w₁, w₂, hw₁, hw₂, rfl⟩, rfl⟩ := h
    refine ⟨w₂, hw₂, ?_⟩
    have hkey : skipBlanks (w ++ (quoted raw ++ (w₁ ++ byte ':' :: w₂) ++ r)) =
        byte '"' :: (raw ++ byte '"' :: (w₁ ++ byte ':' :: (w₂ ++ r))) := by
      rw [skipBlanks_append hw]
      simp only [quoted, List.cons_append, List.nil_append, List.append_assoc]
      exact skipBlanks_cons rfl _
    rw [skipLabel, skipKey, hkey]
    simp only [if_true, skipText_complete hraw, Outcome.bind]
    exact colon_eq_ok.mpr ⟨w₁, hw₁, rfl⟩

theorem skipLabel_first (hw : Blank w) (h : Label k lab) (hv : Begins v) (r : List UInt8) :
    ∃ c s w', skipBlanks (w ++ (lab ++ (v ++ r))) = c :: s ∧ c ≠ k.closing ∧ Blank w' ∧
      skipLabel k (c :: s) = .ok () (w' ++ (v ++ r)) := by
  cases k with
  | list =>
    obtain ⟨b, s, rfl, hb, hc⟩ := hv
    refine ⟨b, s ++ r, [], ?_, hc .list, blank_nil, rfl⟩
    rw [skipBlanks_append hw, skipBlanks_append h]
    exact skipBlanks_cons hb _
  | object =>
    obtain ⟨w', hw', hskip⟩ := skipLabel_complete blank_nil h (v ++ r)
    obtain ⟨raw, c, -, -, rfl⟩ := h
    refine ⟨byte '"', _, w', ?_, by decide, hw', hskip⟩
    rw [skipBlanks_append hw]
    exact skipBlanks_cons rfl _

theorem Inside.ends {es : List (List UInt8)} (h : Inside k.closing false es z)
    (rest : List UInt8) : Ends (z ++ rest) := by
  cases h with
  | close hw =>
    rw [List.append_assoc]
    apply ends_blank hw
    apply ends_cons
    cases k <;> rfl
  | cons hw _ =>
    obtain ⟨w₁, w₂, hw₁, -, rfl⟩ := hw
    simp only [List.append_assoc, List.cons_append]
    exact ends_blank hw₁ (ends_cons rfl _)

theorem skipRest_inside (hz : Inside k.closing false (es.map fun e => e.1 ++ e.2) z)
    (hlabel : ∀ e ∈ es, Label k e.1)
    (hvalue : ∀ e ∈ es, ∀ stack w rest, Blank w → Ends rest →
      skipValue stack (w ++ (e.2 ++ rest)) = skipRest stack rest)
    (stack : List Bracket) (rest : List UInt8) :
    skipRest (k :: stack) (z ++ rest) = skipRest stack rest := by
  induction es generalizing z with
  | nil =>
    cases hz with
    | close hw =>
      have hcomma : k.closing ≠ byte ',' := by cases k <;> decide
      have hblank : isBlank k.closing = false := by cases k <;> rfl
      rw [skipRest_cons, List.append_assoc, skipBlanks_append hw, List.singleton_append,
        skipBlanks_cons hblank]
      simp only [if_neg hcomma, if_true]
  | cons e es ih =>
    rw [List.map_cons] at hz
    cases hz with
    | @cons _ w _ z' _ hw hz' =>
      obtain ⟨w₁, w₂, hw₁, hw₂, rfl⟩ := hw
      obtain ⟨w', hw', hskip⟩ := skipLabel_complete hw₂ (hlabel e (by simp)) (e.2 ++ (z' ++ rest))
      have hrest := ih hz' (fun e' he' => hlabel e' (by simp [he']))
        fun e' he' => hvalue e' (by simp [he'])
      have hv := hvalue e (by simp) (k :: stack) w' (z' ++ rest) hw' (hz'.ends rest)
      have hbs : skipBlanks (w₁ ++ byte ',' :: w₂ ++ (e.1 ++ e.2 ++ z') ++ rest) =
          byte ',' :: (w₂ ++ (e.1 ++ (e.2 ++ (z' ++ rest)))) := by
        simp only [List.append_assoc, List.cons_append]
        exact skipBlanks_blank_cons hw₁ rfl _
      rw [skipRest_cons, hbs]
      simp only [if_true, hskip, Outcome.bind]
      rw [hv, hrest]

theorem opening?_of_skipScalar (h : skipScalar (b :: r) = .ok () s) :
    Bracket.opening? b = none := by
  rw [Bracket.opening?]
  split
  · rename_i hb
    subst hb
    cases h
  · split
    · rename_i hb
      subst hb
      cases h
    · rfl

theorem eq_opening_of_opening? (h : Bracket.opening? b = some k) : b = k.opening := by
  rw [Bracket.opening?] at h
  split at h
  · cases h
    assumption
  · split at h
    · cases h
      assumption
    · cases h

theorem skipValue_of_scalar (hw : Blank w) (hv : Begins v)
    (hs : skipScalar (v ++ rest) = .ok () rest) :
    skipValue stack (w ++ (v ++ rest)) = skipRest stack rest := by
  obtain ⟨b, r, rfl, hb, -⟩ := hv
  rw [List.cons_append] at hs ⊢
  rw [skipValue_eq, skipBlanks_blank_cons hw hb]
  simp only [opening?_of_skipScalar hs, hs, Outcome.bind]

/-- Every value is skipped whole, inside any brackets. -/
theorem skipValue_complete (h : Value v) (stack : List Bracket) (w rest : List UInt8)
    (hw : Blank w) (hr : Ends rest) : skipValue stack (w ++ (v ++ rest)) = skipRest stack rest := by
  have hbegins := h.begins
  induction h generalizing stack w rest with
  | word hword => exact skipValue_of_scalar hw hbegins (skipScalar_word hword)
  | number hn => exact skipValue_of_scalar hw hbegins (skipScalar_number hn hr)
  | text hraw => exact skipValue_of_scalar hw hbegins (skipScalar_text hraw)
  | @group k es bs hlabel hvalue henclosed ih =>
    obtain ⟨z, hz, rfl⟩ := henclosed
    have hopen : Bracket.opening? k.opening = some k := by cases k <;> rfl
    have hblank : isBlank k.opening = false := by cases k <;> rfl
    have hblank' : isBlank k.closing = false := by cases k <;> rfl
    rw [List.cons_append, skipValue_eq, skipBlanks_blank_cons hw hblank]
    simp only [hopen]
    cases es with
    | nil =>
      rw [List.map_nil] at hz
      cases hz with
      | close hw' =>
        rw [List.append_assoc, skipBlanks_append hw', List.singleton_append,
          skipBlanks_cons hblank']
        simp only [if_true]
    | cons e es =>
      rw [List.map_cons] at hz
      cases hz with
      | @cons _ w' _ z' _ hw' hz' =>
        obtain ⟨c, s, w'', hbs, hc, hw'', hskip⟩ := skipLabel_first hw' (hlabel e (by simp))
          (hvalue e (by simp)).begins (z' ++ rest)
        have hrest := skipRest_inside hz' (fun e' he' => hlabel e' (by simp [he']))
          (fun e' he' stack w rest hw hr =>
            ih e' (by simp [he']) stack w rest hw hr (hvalue e' (by simp [he'])).begins)
          stack rest
        have hv := ih e (by simp) (k :: stack) w'' (z' ++ rest) hw'' (hz'.ends rest)
          (hvalue e (by simp)).begins
        simp only [List.append_assoc] at hbs ⊢
        rw [hbs]
        simp only [if_neg hc, hskip, Outcome.bind]
        rw [hv, hrest]

/-- The bytes that close all open brackets: for each of them what comes after an element, up to the
bracket that closes it. -/
inductive Closes : List Bracket → List UInt8 → Prop where
  | nil : Closes [] []
  | cons {k : Bracket} {stack : List Bracket} {es : List (List UInt8 × List UInt8)}
      {z z' : List UInt8} : (∀ e ∈ es, Label k e.1) → (∀ e ∈ es, Value e.2) →
      Inside k.closing false (es.map fun e => e.1 ++ e.2) z → Closes stack z' →
      Closes (k :: stack) (z ++ z')

/-- What the machine takes from `bs`: a value and then the ends of all open groups, or after a value
only these. -/
def Skips (bs : List UInt8) : Prop :=
  ∀ stack rest,
    (skipValue stack bs = .ok () rest →
      ∃ w v z, Blank w ∧ Value v ∧ Closes stack z ∧ bs = w ++ (v ++ (z ++ rest))) ∧
    (skipRest stack bs = .ok () rest → ∃ z, Closes stack z ∧ bs = z ++ rest)

/-- An element with its label, and what is skipped after it up to the end of its group. -/
theorem skipElement_sound (ht : Skips t) (hskip : skipLabel k bs = .ok () t)
    (h : skipValue (k :: outer) t = .ok () rest) :
    ∃ (before inside z : List UInt8) (es : List (List UInt8 × List UInt8)),
      Blank before ∧ Closes outer z ∧ bs = before ++ (inside ++ (z ++ rest)) ∧
      (∀ e ∈ es, Label k e.1) ∧ (∀ e ∈ es, Value e.2) ∧
      ∀ first sep, Separator first sep →
        Inside k.closing first (es.map fun e => e.1 ++ e.2) (sep ++ inside) := by
  obtain ⟨before, label, hbefore, rfl, hlabel⟩ := skipLabel_sound hskip
  obtain ⟨w, v, _, hw, hv, hz, rfl⟩ := (ht _ _).1 h
  cases hz with
  | @cons _ _ es z₁ z₂ hlabels hvalues hz₁ hz₂ =>
    refine ⟨before, label ++ w ++ v ++ z₁, z₂, (label ++ w, v) :: es, hbefore, hz₂, by simp, ?_, ?_,
      ?_⟩
    · exact List.forall_mem_cons.mpr ⟨hlabel w hw, hlabels⟩
    · exact List.forall_mem_cons.mpr ⟨hv, hvalues⟩
    · exact fun first sep hsep => .cons hsep hz₁

theorem skipValue_sound (ih : ∀ s : List UInt8, s.length < bs.length → Skips s)
    (h : skipValue stack bs = .ok () rest) :
    ∃ w v z, Blank w ∧ Value v ∧ Closes stack z ∧ bs = w ++ (v ++ (z ++ rest)) := by
  rw [skipValue_eq] at h
  split at h
  · cases h
  · rename_i b r hbs
    obtain ⟨w, hw, rfl⟩ := exists_blank_of_cons hbs
    split at h
    · -- a value without brackets
      obtain ⟨_, s, hs, hrest⟩ := Outcome.bind_eq_ok.mp h
      obtain ⟨v, hv, hbr⟩ := skipScalar_sound hs
      have hlen : s.length < (w ++ b :: r).length := by
        have := skipScalar_below _ _ _ hs
        rw [List.length_append]
        omega
      obtain ⟨z, hz, rfl⟩ := (ih s hlen _ _).2 hrest
      exact ⟨w, v, z, hw, hv, hz, by rw [hbr]⟩
    · rename_i k hk
      obtain rfl := eq_opening_of_opening? hk
      split at h
      · cases h
      · rename_i c s hr
        obtain ⟨w', hw', rfl⟩ := exists_blank_of_cons hr
        split at h
        · -- a group without elements
          rename_i hc
          have hlen : s.length < (w ++ k.opening :: (w' ++ c :: s)).length := by
            simp
            omega
          obtain ⟨z, hz, rfl⟩ := (ih s hlen _ _).2 h
          have hgroup : Value (k.opening :: (w' ++ [k.closing])) :=
            @Value.group k [] _ (by simp) (by simp) ⟨_, .close hw', rfl⟩
          exact ⟨w, _, z, hw, hgroup, hz, by simp [hc]⟩
        · -- the first element of a group, and what comes after it
          obtain ⟨_, t, ht, hvalue⟩ := Outcome.bind_eq_ok.mp h
          have hlen : t.length < (w ++ k.opening :: (w' ++ c :: s)).length := by
            have := skipLabel_within _ _ _ _ ht
            simp at this ⊢
            omega
          obtain ⟨before, inside, z, es, hbefore, hz, hcs, hlabels, hvalues, hinside⟩ :=
            skipElement_sound (ih t hlen) ht hvalue
          have hgroup : Value (k.opening :: (w' ++ before ++ inside)) :=
            .group hlabels hvalues ⟨_, hinside true _ (blank_append hw' hbefore), rfl⟩
          exact ⟨w, _, z, hw, hgroup, hz, by simp [hcs]⟩

theorem skipRest_sound (ih : ∀ s : List UInt8, s.length < bs.length → Skips s)
    (h : skipRest stack bs = .ok () rest) : ∃ z, Closes stack z ∧ bs = z ++ rest := by
  cases stack with
  | nil =>
    rw [skipRest_nil] at h
    cases h
    exact ⟨[], .nil, rfl⟩
  | cons k outer =>
    rw [skipRest_cons] at h
    split at h
    · cases h
    · rename_i c r hbs
      obtain ⟨w, hw, rfl⟩ := exists_blank_of_cons hbs
      have hlen : r.length < (w ++ c :: r).length := by
        simp
        omega
      split at h
      · -- one more element
        rename_i hc
        obtain ⟨_, t, ht, hvalue⟩ := Outcome.bind_eq_ok.mp h
        have hlt := Nat.lt_of_le_of_lt (skipLabel_within _ _ _ _ ht) hlen
        obtain ⟨before, inside, z, es, hbefore, hz, rfl, hlabels, hvalues, hinside⟩ :=
          skipElement_sound (ih t hlt) ht hvalue
        have hsep : Separator false (w ++ c :: before) := ⟨w, before, hw, hbefore, by rw [hc]⟩
        exact ⟨_, .cons hlabels hvalues (hinside false _ hsep) hz, by simp⟩
      · split at h
        · rename_i hc
          obtain ⟨z, hz, rfl⟩ := (ih r hlen _ _).2 h
          exact ⟨_, @Closes.cons k outer [] _ _ (by simp) (by simp) (.close hw) hz, by simp [hc]⟩
        · cases h

theorem skips (bs : List UInt8) : Skips bs := by
  induction hn : bs.length using Nat.strongRecOn generalizing bs with
  | ind n ih =>
    have hshorter : ∀ s : List UInt8, s.length < bs.length → Skips s :=
      fun s hs => ih s.length (hn ▸ hs) s rfl
    exact fun stack rest => ⟨skipValue_sound hshorter, skipRest_sound hshorter⟩

theorem skip_run_sound (h : skip.run bs = .ok () rest) :
    ∃ w v, Blank w ∧ Value v ∧ bs = w ++ (v ++ rest) := by
  obtain ⟨w, v, z, hw, hv, hz, rfl⟩ := (skips bs [] rest).1 h
  cases hz
  exact ⟨w, v, hw, hv, rfl⟩

theorem skip_run_complete (h : Value v) (hw : Blank w) (hr : Ends rest) :
    skip.run (w ++ (v ++ rest)) = .ok () rest := by
  rw [skip]
  simp only
  rw [skipValue_complete h [] w rest hw hr, skipRest_nil]

end Json
end GridPuzzles
