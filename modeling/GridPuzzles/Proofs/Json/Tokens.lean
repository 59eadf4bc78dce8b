import GridPuzzles.Proofs.Json.Grammar
import Mathlib.Data.List.TakeWhile

/-! Blanks, words and numbers that are skipped: what is taken is what the grammar spells, and the
grammar's spelling is taken whole. -/
namespace GridPuzzles
namespace Json

variable {bs rest r w ds : List UInt8} {b : UInt8}

theorem skipBlanks_append (hw : Blank w) (r : List UInt8) :
    skipBlanks (w ++ r) = skipBlanks r :=
  List.dropWhile_append_of_pos hw

theorem skipBlanks_cons (hb : isBlank b = false) (r : List UInt8) :
    skipBlanks (b :: r) = b :: r := by
  simp [skipBlanks, hb]

theorem skipBlanks_blank_cons (hw : Blank w) (hb : isBlank b = false) (r : List UInt8) :
    skipBlanks (w ++ b :: r) = b :: r := by
  rw [skipBlanks_append hw, skipBlanks_cons hb]

theorem exists_blank (bs : List UInt8) : ∃ w, Blank w ∧ bs = w ++ skipBlanks bs := by
  refine ⟨bs.takeWhile isBlank, ?_, (List.takeWhile_append_dropWhile).symm⟩
  intro b hb
  exact List.mem_takeWhile_imp hb

theorem exists_blank_of_cons (h : skipBlanks bs = b :: r) :
    ∃ w, Blank w ∧ bs = w ++ b :: r := by
  obtain ⟨w, hw, hbs⟩ := exists_blank bs
  exact ⟨w, hw, h ▸ hbs⟩

theorem blank_nil : Blank [] := by
  intro b hb
  cases hb

theorem word_eq_ok {ws : List UInt8} : word ws bs = .ok () rest ↔ bs = ws ++ rest := by
  induction ws generalizing bs with
  | nil => simp [word]
  | cons a ws ih =>
    cases bs with
    | nil => simp [word]
    | cons b bs =>
      rw [word]
      by_cases hb : b = a
      · rw [if_pos hb, ih, hb, List.cons_append, List.cons.injEq, eq_self, true_and]
      · rw [if_neg hb]
        simp [hb]

def Stops (rest : List UInt8) : Prop := ∀ b ∈ rest.head?, isDigit b = false

def continues (b : UInt8) : Bool := isDigit b || b = byte '.' || isExponentMark b

/-- No number goes on here. -/
def Ends (rest : List UInt8) : Prop := ∀ b ∈ rest.head?, continues b = false

theorem ends_nil : Ends [] := by
  intro b hb
  cases hb

theorem ends_cons (hb : continues b = false) (r : List UInt8) : Ends (b :: r) := by
  intro c hc
  cases hc
  exact hb

theorem ends_blank (hw : Blank w) (hr : Ends r) : Ends (w ++ r) := by
  cases w with
  | nil => exact hr
  | cons b w =>
    have hb := hw b (by simp)
    rw [isBlank] at hb
    apply ends_cons
    simp only [Bool.or_eq_true, decide_eq_true_eq] at hb
    rcases hb with ((rfl | rfl) | rfl) | rfl <;> rfl

theorem Ends.stops (h : Ends rest) : Stops rest := by
  intro b hb
  have hc := h b hb
  rw [continues, Bool.or_eq_false_iff, Bool.or_eq_false_iff] at hc
  exact hc.1.1

theorem exists_digits (bs : List UInt8) :
    ∃ ds, (∀ d ∈ ds, isDigit d) ∧ bs = ds ++ bs.dropWhile isDigit := by
  refine ⟨bs.takeWhile isDigit, ?_, (List.takeWhile_append_dropWhile).symm⟩
  intro d hd
  exact List.mem_takeWhile_imp hd

theorem dropWhile_digits (hds : ∀ d ∈ ds, isDigit d) (h : Stops rest) :
    (ds ++ rest).dropWhile isDigit = rest := by
  rw [List.dropWhile_append_of_pos hds]
  cases rest with
  | nil => rfl
  | cons b r => simp [h b rfl]

theorem Digits.exists_cons (h : Digits ds) :
    ∃ d r, ds = d :: r ∧ isDigit d ∧ ∀ x ∈ r, isDigit x := by
  cases ds with
  | nil => exact absurd rfl h.1
  | cons d r => exact ⟨d, r, rfl, h.2 d (by simp), fun x hx => h.2 x (by simp [hx])⟩

theorem digits_cons {d : UInt8} (hd : isDigit d) (hr : ∀ x ∈ r, isDigit x) : Digits (d :: r) := by
  refine ⟨by simp, ?_⟩
  intro x hx
  rcases List.mem_cons.mp hx with rfl | hx
  · exact hd
  · exact hr x hx

theorem isDigit_ne {b c : UInt8} (hb : isDigit b) (hc : isDigit c = false) : b ≠ c := by
  rintro rfl
  rw [hb] at hc
  cases hc

theorem exponentSign_sound (bs : List UInt8) :
    ∃ sign, (sign = [] ∨ sign = [byte '+'] ∨ sign = [byte '-']) ∧
      bs = sign ++ (exponentSign bs).2 := by
  cases bs with
  | nil => exact ⟨[], .inl rfl, rfl⟩
  | cons b r =>
    rw [exponentSign]
    by_cases hplus : b = byte '+'
    · exact ⟨[b], .inr (.inl (by rw [hplus])), by rw [if_pos hplus]; rfl⟩
    · by_cases hminus : b = byte '-'
      · exact ⟨[b], .inr (.inr (by rw [hminus])), by rw [if_neg hplus, if_pos hminus]; rfl⟩
      · exact ⟨[], .inl rfl, by rw [if_neg hplus, if_neg hminus]; rfl⟩

theorem exponentSign_complete {sign : List UInt8} {d : UInt8}
    (hsign : sign = [] ∨ sign = [byte '+'] ∨ sign = [byte '-']) (hd : isDigit d) :
    (exponentSign (sign ++ d :: r)).2 = d :: r := by
  rcases hsign with rfl | rfl | rfl
  · rw [List.nil_append, exponentSign, if_neg (isDigit_ne hd rfl), if_neg (isDigit_ne hd rfl)]
  · rfl
  · rfl

theorem skipAfterDigits_sound (h : skipAfterDigits bs = .ok () rest) :
    ∃ exponent, Exponential exponent ∧ bs = exponent ++ rest := by
  cases bs with
  | nil =>
    cases h
    exact ⟨[], .inl rfl, rfl⟩
  | cons mark r =>
    rw [skipAfterDigits] at h
    split at h
    · rename_i hmark
      obtain ⟨sign, hsign, hr⟩ := exponentSign_sound r
      rw [skipExponent] at h
      split at h
      · cases h
      · rename_i d s hs
        split at h
        · rename_i hd
          cases h
          obtain ⟨ds, hds, hs'⟩ := exists_digits s
          rw [hs] at hr
          refine ⟨mark :: (sign ++ d :: ds),
            .inr ⟨mark, sign, d :: ds, hmark, hsign, digits_cons hd hds, rfl⟩, ?_⟩
          rw [hr, List.cons_append, List.append_assoc, List.cons_append, ← hs']
        · cases h
    · cases h
      exact ⟨[], .inl rfl, rfl⟩

theorem skipAfterDigits_complete {exponent : List UInt8} (h : Exponential exponent)
    (hr : Ends rest) : skipAfterDigits (exponent ++ rest) = .ok () rest := by
  rcases h with rfl | ⟨mark, sign, ds, hmark, hsign, hds, rfl⟩
  · cases rest with
    | nil => rfl
    | cons b r =>
      have hb := hr b rfl
      rw [continues, Bool.or_eq_false_iff] at hb
      simp [skipAfterDigits, hb.2]
  · obtain ⟨d, s, rfl, hd, hs⟩ := hds.exists_cons
    rw [List.cons_append, List.append_assoc, List.cons_append, skipAfterDigits, if_pos hmark,
      skipExponent, exponentSign_complete hsign hd]
    simp only [hd, if_true, dropWhile_digits hs hr.stops]

theorem stops_exponent {exponent : List UInt8} (h : Exponential exponent) (hr : Ends rest) :
    Stops (exponent ++ rest) := by
  rcases h with rfl | ⟨mark, sign, ds, hmark, -, -, rfl⟩
  · exact hr.stops
  · intro b hb
    cases hb
    rw [isExponentMark, Bool.or_eq_true, decide_eq_true_eq, decide_eq_true_eq] at hmark
    rcases hmark with rfl | rfl <;> rfl

theorem skipAfterInteger_sound (h : skipAfterInteger bs = .ok () rest) :
    ∃ fraction exponent, Fractional fraction ∧ Exponential exponent ∧
      bs = fraction ++ (exponent ++ rest) := by
  cases bs with
  | nil =>
    cases h
    exact ⟨[], [], .inl rfl, .inl rfl, rfl⟩
  | cons b r =>
    rw [skipAfterInteger] at h
    split at h
    · rename_i hpoint
      cases r with
      | nil => cases h
      | cons d s =>
        rw [skipFraction] at h
        split at h
        · rename_i hd
          obtain ⟨exponent, hexponent, hs⟩ := skipAfterDigits_sound h
          obtain ⟨ds, hds, hs'⟩ := exists_digits s
          rw [hs] at hs'
          refine ⟨b :: d :: ds, exponent, .inr ⟨d :: ds, digits_cons hd hds, by rw [hpoint]⟩,
            hexponent, ?_⟩
          rw [List.cons_append, List.cons_append, ← hs']
        · cases h
    · obtain ⟨exponent, hexponent, hbs⟩ := skipAfterDigits_sound h
      exact ⟨[], exponent, .inl rfl, hexponent, hbs⟩

theorem skipAfterInteger_complete {fraction exponent : List UInt8} (hf : Fractional fraction)
    (he : Exponential exponent) (hr : Ends rest) :
    skipAfterInteger (fraction ++ (exponent ++ rest)) = .ok () rest := by
  rcases hf with rfl | ⟨ds, hds, rfl⟩
  · have hskip := skipAfterDigits_complete he hr
    rw [List.nil_append]
    cases hbs : exponent ++ rest with
    | nil =>
      rw [hbs] at hskip
      exact hskip
    | cons b r =>
      rw [hbs] at hskip
      have hpoint : b ≠ byte '.' := by
        rcases he with rfl | ⟨mark, sign, ds, hmark, -, -, rfl⟩
        · rintro rfl
          rw [List.nil_append] at hbs
          have hb := hr (byte '.') (by rw [hbs]; rfl)
          cases hb
        · rintro rfl
          rw [List.cons_append, List.cons.injEq] at hbs
          rw [hbs.1] at hmark
          cases hmark
      rw [skipAfterInteger, if_neg hpoint, hskip]
  · obtain ⟨d, s, rfl, hd, hs⟩ := hds.exists_cons
    rw [List.cons_append, List.cons_append, skipAfterInteger, if_pos rfl, skipFraction, if_pos hd,
      dropWhile_digits hs (stops_exponent he hr)]
    exact skipAfterDigits_complete he hr

theorem stops_fraction {fraction exponent : List UInt8} (hf : Fractional fraction)
    (he : Exponential exponent) (hr : Ends rest) : Stops (fraction ++ (exponent ++ rest)) := by
  rcases hf with rfl | ⟨ds, -, rfl⟩
  · rw [List.nil_append]
    exact stops_exponent he hr
  · intro b hb
    cases hb
    rfl

theorem skipUnsigned_sound (h : skipUnsigned bs = .ok () rest) :
    ∃ ds fraction exponent, Integral ds ∧ Fractional fraction ∧ Exponential exponent ∧
      bs = ds ++ (fraction ++ (exponent ++ rest)) := by
  cases bs with
  | nil => cases h
  | cons d r =>
    simp only [skipUnsigned] at h
    split at h
    · rename_i hzero
      split at h
      · cases h
        exact ⟨[d], [], [], .inl (by rw [hzero]), .inl rfl, .inl rfl, rfl⟩
      · split at h
        · cases h
        · obtain ⟨fraction, exponent, hf, he, hr⟩ := skipAfterInteger_sound h
          exact ⟨[d], fraction, exponent, .inl (by rw [hzero]), hf, he, by rw [hr]; rfl⟩
    · rename_i hzero
      split at h
      · rename_i hd
        obtain ⟨fraction, exponent, hf, he, hr⟩ := skipAfterInteger_sound h
        obtain ⟨ds, hds, hr'⟩ := exists_digits r
        rw [hr] at hr'
        refine ⟨d :: ds, fraction, exponent, .inr ⟨digits_cons hd hds, by simpa using hzero⟩, hf,
          he, ?_⟩
        rw [hr', List.cons_append]
      · cases h

theorem skipUnsigned_complete {fraction exponent : List UInt8} (hds : Integral ds)
    (hf : Fractional fraction) (he : Exponential exponent) (hr : Ends rest) :
    skipUnsigned (ds ++ (fraction ++ (exponent ++ rest))) = .ok () rest := by
  have hskip := skipAfterInteger_complete hf he hr
  have hstops := stops_fraction hf he hr
  rcases hds with rfl | ⟨hds, hzero⟩
  · cases hbs : fraction ++ (exponent ++ rest) with
    | nil =>
      rw [hbs] at hskip
      exact hskip
    | cons b r =>
      rw [hbs] at hskip hstops
      simp only [List.singleton_append, skipUnsigned, if_true, hstops b rfl, Bool.false_eq_true,
        if_false]
      exact hskip
  · obtain ⟨d, s, rfl, hd, hs⟩ := hds.exists_cons
    have hne : d ≠ byte '0' := by simpa using hzero
    simp only [List.cons_append, skipUnsigned, if_neg hne, if_pos hd, dropWhile_digits hs hstops]
    exact hskip

end Json
end GridPuzzles
