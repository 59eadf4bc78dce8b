import GridPuzzles.Proofs.CommandLine.Reading

/-! Numerals of cell sizes. The digits that are read make a number, and that it fits is seen at the
last digit as well as before it. -/
namespace GridPuzzles
namespace CommandLine

variable {bound n m : Nat} {e : NumeralError} {cs : List Char} {i : Int} {size : UInt32}
  {v : String}

theorem le_ofDigitChars (cs : List Char) (n : Nat) : n ≤ Nat.ofDigitChars 10 cs n := by
  induction cs generalizing n with
  | nil => exact Nat.le_refl n
  | cons c cs ih =>
    rw [Nat.ofDigitChars_cons]
    exact Nat.le_trans (by omega) (ih _)

theorem numeralDigits_eq_ok (hn : n ≤ bound) :
    numeralDigits bound e n cs = .ok m ↔
      (∀ c ∈ cs, c.isDigit) ∧ Nat.ofDigitChars 10 cs n = m ∧ m ≤ bound := by
  induction cs generalizing n with
  | nil =>
    rw [numeralDigits, Except.ok.injEq]
    constructor
    · rintro rfl
      exact ⟨by simp, rfl, hn⟩
    · exact fun h => h.2.1
  | cons c cs ih =>
    have hvalue : 10 * n + (c.toNat - '0'.toNat) = n * 10 + (c.toNat - 48) :=
      congrArg (· + (c.toNat - 48)) (Nat.mul_comm 10 n)
    rw [numeralDigits, Nat.ofDigitChars_cons, List.forall_mem_cons, hvalue]
    by_cases hc : c.isDigit
    · by_cases hfit : bound < n * 10 + (c.toNat - 48)
      · simp only [hc, Bool.not_true, Bool.false_eq_true, if_false, if_pos hfit, reduceCtorEq,
          false_iff]
        rintro ⟨-, rfl, hle⟩
        have hgrows := le_ofDigitChars cs (n * 10 + (c.toNat - 48))
        omega
      · simp only [hc, Bool.not_true, Bool.false_eq_true, if_false, if_neg hfit, true_and]
        exact ih (Nat.not_lt.mp hfit)
    · simp [hc]

theorem positiveNumeral_eq_ok :
    positiveNumeral cs = .ok i ↔ (∀ c ∈ cs, c.isDigit) ∧ (Nat.ofDigitChars 10 cs 0 : Int) = i ∧
      i ≤ (Nat.pow 2 63 - 1 : Nat) := by
  simp only [positiveNumeral, map_eq_ok, bind_eq_ok, numeralDigits_eq_ok (Nat.zero_le _)]
  constructor
  · rintro ⟨_, ⟨m, ⟨hds, rfl, hle⟩, ⟨⟩⟩, rfl⟩
    exact ⟨hds, rfl, Int.ofNat_le.mpr hle⟩
  · rintro ⟨hds, rfl, hle⟩
    exact ⟨_, ⟨_, ⟨hds, rfl, Int.ofNat_le.mp hle⟩, rfl⟩, rfl⟩

theorem negativeNumeral_eq_ok :
    negativeNumeral cs = .ok i ↔ (∀ c ∈ cs, c.isDigit) ∧ -(Nat.ofDigitChars 10 cs 0 : Int) = i ∧
      -(Nat.pow 2 63 : Nat) ≤ i := by
  simp only [negativeNumeral, map_eq_ok, bind_eq_ok, numeralDigits_eq_ok (Nat.zero_le _)]
  constructor
  · rintro ⟨_, ⟨m, ⟨hds, rfl, hle⟩, ⟨⟩⟩, rfl⟩
    exact ⟨hds, rfl, Int.neg_le_neg (Int.ofNat_le.mpr hle)⟩
  · rintro ⟨hds, rfl, hle⟩
    exact ⟨_, ⟨_, ⟨hds, rfl, Int.ofNat_le.mp (Int.le_of_neg_le_neg hle)⟩, rfl⟩, rfl⟩

/-- A numeral of a number: a sign or none, and then digits, at least one. There may be zeros in
front. -/
def Denotes (cs : List Char) (i : Int) : Prop :=
  ∃ sign digits, (sign = [] ∨ sign = ['+'] ∨ sign = ['-']) ∧ digits ≠ [] ∧
    (∀ c ∈ digits, c.isDigit) ∧ cs = sign ++ digits ∧
    i = if sign = ['-'] then -(Nat.ofDigitChars 10 digits 0 : Int)
      else Nat.ofDigitChars 10 digits 0

/-- The numerals that are read are those of signed 64-bit numbers. -/
theorem numeral_eq_ok :
    numeral cs = .ok i ↔
      Denotes cs i ∧ -(Nat.pow 2 63 : Nat) ≤ i ∧ i ≤ (Nat.pow 2 63 - 1 : Nat) := by
  constructor
  · intro h
    cases cs with
    | nil => cases h
    | cons c cs =>
      rw [numeral] at h
      split at h
      · split at h
        · cases h
        · rename_i hsign hcs
          split at h
          · rename_i hc
            obtain ⟨hdigits, hvalue, hle⟩ := positiveNumeral_eq_ok.mp h
            refine ⟨⟨['+'], cs, .inr (.inl rfl), hcs, hdigits, ?_, hvalue.symm⟩, ?_, hle⟩
            · rw [hc]
              rfl
            · omega
          · rename_i hc
            have hc : c = '-' := hsign.resolve_left hc
            obtain ⟨hdigits, hvalue, hle⟩ := negativeNumeral_eq_ok.mp h
            refine ⟨⟨['-'], cs, .inr (.inr rfl), hcs, hdigits, ?_, hvalue.symm⟩, hle, ?_⟩
            · rw [hc]
              rfl
            · omega
      · obtain ⟨hdigits, hvalue, hle⟩ := positiveNumeral_eq_ok.mp h
        refine ⟨⟨[], c :: cs, .inl rfl, by simp, hdigits, rfl, hvalue.symm⟩, ?_, hle⟩
        omega
  · rintro ⟨⟨sign, digits, rfl | rfl | rfl, hne, hdigits, rfl, hvalue⟩, hlow, hhigh⟩
    · obtain ⟨c, ds, rfl⟩ := List.exists_cons_of_ne_nil hne
      have hc : ¬ (c = '+' ∨ c = '-') := by
        have hdigit := (List.forall_mem_cons.mp hdigits).1
        rintro (rfl | rfl) <;> cases hdigit
      show numeral (c :: ds) = .ok i
      rw [numeral, if_neg hc]
      exact positiveNumeral_eq_ok.mpr ⟨hdigits, hvalue.symm, hhigh⟩
    · rw [List.singleton_append, numeral, if_pos (.inl rfl), if_neg hne, if_pos rfl]
      exact positiveNumeral_eq_ok.mpr ⟨hdigits, hvalue.symm, hhigh⟩
    · rw [List.singleton_append, numeral, if_pos (.inr rfl), if_neg hne, if_neg (by decide)]
      exact negativeNumeral_eq_ok.mpr ⟨hdigits, hvalue.symm, hlow⟩

/-- Spellings of a cell size that can be asked for. There may be zeros in front. -/
def SizeSpelled (size : UInt32) (v : String) : Prop :=
  Accepted size ∧ ∃ sign digits, (sign = [] ∨ sign = ['+']) ∧ digits ≠ [] ∧
    (∀ c ∈ digits, c.isDigit) ∧ v.toList = sign ++ digits ∧
    Nat.ofDigitChars 10 digits 0 = size.toNat

theorem sizeSpelled_iff : SizeSpelled size v ↔ Accepted size ∧ Denotes v.toList size.toNat := by
  refine and_congr_right fun haccepted => ?_
  have hpositive := haccepted.1
  constructor
  · rintro ⟨sign, digits, hsign, hne, hdigits, hv, hvalue⟩
    refine ⟨sign, digits, hsign.imp_right .inl, hne, hdigits, hv, ?_⟩
    rw [hvalue, if_neg]
    rintro rfl
    simp at hsign
  · rintro ⟨sign, digits, hsign, hne, hdigits, hv, hvalue⟩
    by_cases hminus : sign = ['-']
    · rw [if_pos hminus] at hvalue
      omega
    · rw [if_neg hminus, Int.natCast_inj] at hvalue
      refine ⟨sign, digits, ?_, hne, hdigits, hv, hvalue.symm⟩
      exact hsign.imp_right fun h => h.resolve_right hminus

theorem cellSizeValue_eq_ok {shown : String} :
    cellSizeValue shown v = .ok size ↔ SizeSpelled size v := by
  have hlargest : Preview.CellSize.largest.toNat = 256 := rfl
  rw [sizeSpelled_iff]
  constructor
  · intro h
    refine ⟨accepted_of_cellSizeValue h, ?_⟩
    rw [cellSizeValue] at h
    split at h
    · cases h
    · rename_i i hnumeral
      split at h
      · rename_i hrange
        cases h
        have hfit : i.toNat < UInt32.size := by
          rw [hlargest] at hrange
          simp only [UInt32.size]
          omega
        rw [UInt32.toNat_ofNat_of_lt' hfit, Int.toNat_of_nonneg (by omega)]
        exact (numeral_eq_ok.mp hnumeral).1
      · cases h
  · rintro ⟨⟨hlow, hhigh⟩, hdenotes⟩
    rw [hlargest] at hhigh
    have hbound : (256 : Int) ≤ (Nat.pow 2 63 - 1 : Nat) := by decide
    have hnumeral : numeral v.toList = .ok (size.toNat : Int) :=
      numeral_eq_ok.mpr ⟨hdenotes, by omega, by omega⟩
    have hrange : (1 : Int) ≤ size.toNat ∧ (size.toNat : Int) ≤ Preview.CellSize.largest.toNat := by
      rw [hlargest]
      omega
    rw [cellSizeValue, hnumeral]
    simp only [if_pos hrange, Int.toNat_natCast, UInt32.ofNat_toNat]

theorem cellSizeValue_eq_error {shown : String} (h : ∀ size, ¬ SizeSpelled size v) :
    ∃ reason, cellSizeValue shown v = .error (.badValue v shown reason) ∧
      ∀ i, numeral v.toList = .ok i → reason = toString i ++ " is not in 1..=256" := by
  cases hvalue : cellSizeValue shown v with
  | ok size => exact absurd (cellSizeValue_eq_ok.mp hvalue) (h size)
  | error r =>
    rw [cellSizeValue] at hvalue
    split at hvalue
    · rename_i e he
      cases hvalue
      refine ⟨_, rfl, ?_⟩
      intro i hi
      rw [he] at hi
      cases hi
    · rename_i i hi
      split at hvalue
      · cases hvalue
      · cases hvalue
        refine ⟨_, rfl, ?_⟩
        intro j hj
        rw [hi] at hj
        cases hj
        have hlargest : " is not in 1..=" ++ toString Preview.CellSize.largest =
            " is not in 1..=256" := by cbv
        rw [String.append_assoc, hlargest]

theorem sizeSpelled_toString (h : Accepted size) : SizeSpelled size (toString size.toNat) := by
  refine ⟨h, [], Nat.toDigits 10 size.toNat, .inl rfl, Nat.toDigits_ne_nil, ?_, ?_, ?_⟩
  · exact fun c hc => Nat.isDigit_of_mem_toDigits (by decide) (by decide) hc
  · rw [Nat.toString_eq_ofList_toDigits, String.toList_ofList]
    rfl
  · exact Nat.ofDigitChars_ten_toDigits

end CommandLine
end GridPuzzles
