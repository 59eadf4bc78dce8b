import GridPuzzles.Json.Value
import GridPuzzles.Proofs.Json.Skip

/-! Numbers that have to be small naturals. A literal with a sign, a fraction or an exponent, or one
that does not fit 64 bits, never gives a natural; so what is read as the natural `v` is `decimal v`
and nothing else. -/
namespace GridPuzzles
namespace Json

variable {bs rest r w ds : List UInt8} {d : UInt8} {v s k : Nat} {positive : Bool}

/-- Not a natural: every value is a double. -/
def Outcome.Floats (o : Outcome Number) : Prop := ∀ n rest, o = .ok n rest → ∃ x, n = .floating x

theorem scaled_floats (positive : Bool) (s : Nat) (e : Int) (bs : List UInt8) :
    (scaled positive s e bs).Floats := by
  intro n rest h
  rw [scaled] at h
  split at h
  · cases h
    exact ⟨_, rfl⟩
  · cases h

theorem exponentPart_floats (positive : Bool) (s : Nat) (e : Int) (bs : List UInt8) :
    (exponentPart positive s e bs).Floats := by
  intro n rest h
  simp only [exponentPart] at h
  split at h
  · cases h
  · split at h
    · split at h
      · exact scaled_floats _ _ _ _ n rest h
      · split at h
        · cases h
        · cases h
          exact ⟨_, rfl⟩
    · cases h

theorem afterDigits_floats (positive : Bool) (s : Nat) (e : Int) (bs : List UInt8) :
    (afterDigits positive s e bs).Floats := by
  intro n rest h
  cases bs with
  | nil => exact scaled_floats _ _ _ _ n rest h
  | cons b r =>
    rw [afterDigits] at h
    split at h
    · exact exponentPart_floats _ _ _ _ n rest h
    · exact scaled_floats _ _ _ _ n rest h

theorem fractionPart_floats (positive : Bool) (s : Nat) (e : Int) (bs : List UInt8) :
    (fractionPart positive s e bs).Floats := by
  intro n rest h
  cases bs with
  | nil => cases h
  | cons b r =>
    simp only [fractionPart] at h
    split at h
    · exact afterDigits_floats _ _ _ _ n rest h
    · cases h

theorem Outcome.Floats.ne_natural {o : Outcome Number} (h : o.Floats) :
    o ≠ .ok (.natural v) rest := by
  intro ho
  obtain ⟨x, hx⟩ := h _ _ ho
  cases hx

theorem integer_natural (h : afterInteger.integer positive s bs = .ok (.natural v) rest) :
    positive = true ∧ v = s ∧ rest = bs := by
  rw [afterInteger.integer] at h
  split at h
  · cases h
    exact ⟨by assumption, rfl, rfl⟩
  · split at h
    · cases h
    · cases h

theorem afterInteger_natural (h : afterInteger positive s k bs = .ok (.natural v) rest) :
    positive = true ∧ k = 0 ∧ v = s ∧ rest = bs := by
  rw [afterInteger.eq_def] at h
  split at h
  · split at h
    · exact absurd h (fractionPart_floats _ _ _ _).ne_natural
    · split at h
      · exact absurd h (afterDigits_floats _ _ _ _).ne_natural
      · rename_i hk
        obtain ⟨hpositive, hv, hrest⟩ := integer_natural h
        exact ⟨hpositive, by simpa using (not_or.mp (mt Bool.or_eq_true_iff.mpr hk)).2, hv, hrest⟩
  · split at h
    · exact absurd h (afterDigits_floats _ _ _ _).ne_natural
    · rename_i hk
      obtain ⟨hpositive, hv, hrest⟩ := integer_natural h
      exact ⟨hpositive, not_not.mp hk, hv, hrest⟩

theorem afterInteger_ends (h : Ends rest) :
    afterInteger true s 0 rest = .ok (.natural s) rest := by
  cases rest with
  | nil => rfl
  | cons b r =>
    have hb := h b rfl
    rw [continues, Bool.or_eq_false_iff, Bool.or_eq_false_iff, decide_eq_false_iff_not] at hb
    obtain ⟨⟨-, hpoint⟩, hmark⟩ := hb
    rw [afterInteger.eq_def]
    simp only [if_neg hpoint, hmark, Bool.false_or, ne_eq, not_true_eq_false, decide_false,
      Bool.false_eq_true, if_false, afterInteger.integer, if_true]

theorem digit_digitChar (h : v < 10) :
    isDigit (byte v.digitChar) ∧ digitValue (byte v.digitChar) = v := by
  revert h v
  decide

theorem byte_digitChar (h : isDigit d) :
    digitValue d < 10 ∧ byte (digitValue d).digitChar = d := by
  have hall : ∀ y < 10, digitValue (UInt8.ofNat (48 + y)) < 10 ∧
      byte (digitValue (UInt8.ofNat (48 + y))).digitChar = UInt8.ofNat (48 + y) := by decide
  rw [isDigit, Bool.and_eq_true, decide_eq_true_eq, decide_eq_true_eq, UInt8.le_iff_toNat_le,
    UInt8.le_iff_toNat_le] at h
  have hle : 48 ≤ d.toNat ∧ d.toNat ≤ 57 := h
  have hd : UInt8.ofNat (48 + (d.toNat - 48)) = d := by
    rw [Nat.add_sub_cancel' hle.1, UInt8.ofNat_toNat]
  have hdigit := hall (d.toNat - 48) (by omega)
  rwa [hd] at hdigit

theorem decimal_of_lt (h : v < 10) : decimal v = [byte v.digitChar] := by
  rw [decimal, Nat.toDigits_of_lt_base h, List.map_singleton]

theorem decimal_digitValue (h : isDigit d) : decimal (digitValue d) = [d] := by
  obtain ⟨hlt, hd⟩ := byte_digitChar h
  rw [decimal_of_lt hlt, hd]

theorem decimal_append (hs : 0 < s) (h : isDigit d) :
    decimal (s * 10 + digitValue d) = decimal s ++ [d] := by
  obtain ⟨hlt, hd⟩ := byte_digitChar h
  have hle : 10 ≤ s * 10 + digitValue d := by omega
  have hdiv : (s * 10 + digitValue d) / 10 = s := by omega
  have hmod : (s * 10 + digitValue d) % 10 = digitValue d := by omega
  rw [decimal, Nat.toDigits_of_base_le (by decide) hle, hdiv, hmod, List.map_append,
    List.map_singleton, hd, decimal]

theorem appendDigits_sound (hs : 0 < s) :
    ∃ ds, bs = ds ++ (appendDigits s k bs).2.2 ∧
      decimal (appendDigits s k bs).1 = decimal s ++ ds := by
  induction bs generalizing s k with
  | nil => exact ⟨[], rfl, by rw [appendDigits, List.append_nil]⟩
  | cons d r ih =>
    rw [appendDigits]
    split
    · rename_i hd
      rw [Bool.and_eq_true] at hd
      obtain ⟨ds, hr, hdecimal⟩ := @ih (s * 10 + digitValue d) (k + 1) (by omega)
      refine ⟨d :: ds, by rw [List.cons_append, ← hr], ?_⟩
      rw [hdecimal, decimal_append hs hd.1, List.append_assoc, List.singleton_append]
    · exact ⟨[], rfl, by rw [List.append_nil]⟩

theorem appendDigits_stops (h : Stops rest) : appendDigits s k rest = (s, k, rest) := by
  cases rest with
  | nil => rfl
  | cons b r => simp [appendDigits, h b rfl]

/-- A positive number begins with a digit other than zero, and appending the others to it gives the
number. -/
theorem exists_decimal_cons (hv : 0 < v) (hsize : v < UInt64.size) :
    ∃ d ds, decimal v = d :: ds ∧ isDigit d ∧ d ≠ byte '0' ∧
      ∀ rest, appendDigits (digitValue d) 0 (ds ++ rest) = appendDigits v ds.length rest := by
  induction v using Nat.strongRecOn with
  | ind v ih =>
    by_cases hlt : v < 10
    · obtain ⟨hd, hvalue⟩ := digit_digitChar hlt
      refine ⟨byte v.digitChar, [], decimal_of_lt hlt, hd, ?_, ?_⟩
      · intro hzero
        rw [hzero] at hvalue
        have : digitValue (byte '0') = 0 := rfl
        omega
      · intro rest
        rw [hvalue]
        rfl
    · obtain ⟨hlast, hvalue⟩ := @digit_digitChar (v % 10) (by omega)
      obtain ⟨d, ds, hdecimal, hd, hzero, happend⟩ :=
        ih (v / 10) (by omega) (by omega) (by omega)
      have hsum : v / 10 * 10 + digitValue (byte (v % 10).digitChar) = v := by omega
      have hsplit := @decimal_append _ (v / 10) (by omega) hlast
      rw [hsum, hdecimal] at hsplit
      refine ⟨d, ds ++ [byte (v % 10).digitChar], hsplit, hd, hzero, ?_⟩
      intro rest
      rw [List.append_assoc, happend, List.singleton_append, appendDigits, hsum, if_pos,
        List.length_append, List.length_singleton]
      rw [Bool.and_eq_true, decide_eq_true_eq]
      exact ⟨hlast, hsize⟩

theorem exists_decimal_digit (hsize : v < UInt64.size) :
    ∃ d ds, decimal v = d :: ds ∧ isDigit d := by
  by_cases hv : 0 < v
  · obtain ⟨d, ds, hdecimal, hd, -⟩ := exists_decimal_cons hv hsize
    exact ⟨d, ds, hdecimal, hd⟩
  · obtain rfl : v = 0 := by omega
    exact ⟨byte '0', [], rfl, rfl⟩

theorem unsignedNumber_sound (h : unsignedNumber positive bs = .ok (.natural v) rest) :
    positive = true ∧ bs = decimal v ++ rest := by
  cases bs with
  | nil => cases h
  | cons d r =>
    simp only [unsignedNumber] at h
    split at h
    · rename_i hzero
      have hafter : afterInteger positive 0 0 r = .ok (.natural v) rest := by
        split at h
        · exact h
        · split at h
          · cases h
          · exact h
      obtain ⟨hpositive, -, rfl, rfl⟩ := afterInteger_natural hafter
      exact ⟨hpositive, by rw [hzero]; rfl⟩
    · rename_i hzero
      split at h
      · rename_i hd
        obtain ⟨hpositive, hdropped, rfl, rfl⟩ := afterInteger_natural h
        have hpos : 0 < digitValue d := by
          by_contra hle
          obtain ⟨-, hbyte⟩ := byte_digitChar hd
          rw [Nat.eq_zero_of_not_pos hle] at hbyte
          exact hzero hbyte.symm
        obtain ⟨ds, hr, hdecimal⟩ := @appendDigits_sound r _ 0 hpos
        have hall :=
          @List.takeWhile_append_dropWhile _ isDigit (appendDigits (digitValue d) 0 r).2.2
        rw [List.eq_nil_of_length_eq_zero hdropped, List.nil_append] at hall
        refine ⟨hpositive, ?_⟩
        rw [hdecimal, decimal_digitValue hd, hall, List.singleton_append, List.cons_append, ← hr]
      · cases h

theorem unsignedNumber_complete (hsize : v < UInt64.size) (h : Ends rest) :
    unsignedNumber true (decimal v ++ rest) = .ok (.natural v) rest := by
  have hdrop : rest.dropWhile isDigit = rest := @dropWhile_digits rest [] (by simp) h.stops
  have htake : rest.takeWhile isDigit = [] := by
    cases rest with
    | nil => rfl
    | cons b r => simp [h.stops b rfl]
  by_cases hv : 0 < v
  · obtain ⟨d, ds, hdecimal, hd, hzero, happend⟩ := exists_decimal_cons hv hsize
    simp only [hdecimal, List.cons_append, unsignedNumber, if_neg hzero, if_pos hd, happend,
      appendDigits_stops h.stops, hdrop, htake, List.length_nil, afterInteger_ends h]
  · obtain rfl : v = 0 := by omega
    have hskip := @afterInteger_ends rest 0 h
    cases rest with
    | nil => rfl
    | cons b r =>
      show unsignedNumber true (byte '0' :: b :: r) = _
      simp only [unsignedNumber, if_true, h.stops b rfl, Bool.false_eq_true, if_false, hskip]

theorem number_sound (h : number bs = .ok (.natural v) rest) : bs = decimal v ++ rest := by
  cases bs with
  | nil => cases h
  | cons b r =>
    rw [number] at h
    split at h
    · cases (unsignedNumber_sound h).1
    · exact (unsignedNumber_sound h).2

theorem number_complete (hsize : v < UInt64.size) (h : Ends rest) :
    number (decimal v ++ rest) = .ok (.natural v) rest := by
  have hunsigned := unsignedNumber_complete hsize h
  obtain ⟨d, ds, hdecimal, hd⟩ := exists_decimal_digit hsize
  rw [hdecimal, List.cons_append] at hunsigned ⊢
  rw [number, if_neg (isDigit_ne hd rfl), hunsigned]

end Json
end GridPuzzles
