import GridPuzzles.Json.Reader

/-! Number literals. Integers of 64 bits stay exact; every other literal becomes a double,
made from its first digits and its power of ten by one operation on doubles. -/
namespace GridPuzzles
namespace Json

inductive Number where
  | natural (n : Nat)
  | negative (n : Nat)
  | floating (bits : UInt64)
deriving DecidableEq, Repr

def Number.found : Number → Found
  | natural n => .integer n
  | negative n => .integer (-n)
  | floating bits => .floating bits

def tenTo (k : Nat) : Float := Float.ofScientific 1 false k

/-- `f * 10 ^ e`; none if that is too large for a double. Below -308 the division is done in
steps of 308. -/
def scaleByTen (f : Float) (e : Int) : Option Float :=
  if e.natAbs ≤ 308 then
    if 0 ≤ e then
      let p := f * tenTo e.natAbs
      if p.isInf then none else some p
    else some (f / tenTo e.natAbs)
  else if f == 0 then some f
  else if 0 ≤ e then none
  else scaleByTen (f / tenTo 308) (e + 308)
termination_by e.natAbs

/-- Digits appended to a significand as long as it stays below 2^64: the significand, how many
were appended, and the bytes after them. -/
def appendDigits (significand appended : Nat) : List UInt8 → Nat × Nat × List UInt8
  | [] => (significand, appended, [])
  | d :: r =>
    if isDigit d && significand * 10 + digitValue d < UInt64.size then
      appendDigits (significand * 10 + digitValue d) (appended + 1) r
    else (significand, appended, d :: r)

/-- The digits of an exponent: its value, none once it passes 2^31 - 1, and the bytes after the
last digit taken. -/
def exponentDigits (e : Nat) : List UInt8 → Option Nat × List UInt8
  | [] => (some e, [])
  | d :: r =>
    if isDigit d then
      if e * 10 + digitValue d < Nat.pow 2 31 then exponentDigits (e * 10 + digitValue d) r
      else (none, r)
    else (some e, d :: r)

def signed (positive : Bool) (f : Float) : Number := .floating (if positive then f else -f).toBits

def isExponentMark (b : UInt8) : Bool := b = byte 'e' || b = byte 'E'

def scaled (positive : Bool) (significand : Nat) (e : Int) (rest : List UInt8) : Outcome Number :=
  match scaleByTen (Float.ofNat significand) e with
  | some f => .ok (signed positive f) rest
  | none => .failed .numberTooLarge (rest.drop 1)

def exponentSign : List UInt8 → Bool × List UInt8
  | [] => (true, [])
  | b :: r =>
    if b = byte '+' then (true, r)
    else if b = byte '-' then (false, r)
    else (true, b :: r)

def exponentPart (positive : Bool) (significand : Nat) (e : Int) (bs : List UInt8) :
    Outcome Number :=
  let (upward, bs) := exponentSign bs
  match bs with
  | [] => .failed .endInValue []
  | d :: r =>
    if isDigit d then
      match exponentDigits (digitValue d) r with
      | (some x, rest) => scaled positive significand (if upward then e + x else e - x) rest
      | (none, rest) =>
        if significand ≠ 0 ∧ upward then .failed .numberTooLarge rest
        else .ok (signed positive 0) (rest.dropWhile isDigit)
    else .failed .badNumber r

def afterDigits (positive : Bool) (significand : Nat) (e : Int) : List UInt8 → Outcome Number
  | [] => scaled positive significand e []
  | b :: r =>
    if isExponentMark b then exponentPart positive significand e r
    else scaled positive significand e (b :: r)

def fractionPart (positive : Bool) (significand : Nat) (e : Int) : List UInt8 → Outcome Number
  | [] => .failed .endInValue []
  | d :: r =>
    if isDigit d then
      let (significand, appended, rest) := appendDigits significand 0 (d :: r)
      afterDigits positive significand (e - appended) (rest.dropWhile isDigit)
    else .failed .badNumber r

/-- The part of a literal after its integer digits, of which `dropped` did not fit 64 bits. -/
def afterInteger (positive : Bool) (significand dropped : Nat) (bs : List UInt8) :
    Outcome Number :=
  match bs with
  | b :: r =>
    if b = byte '.' then fractionPart positive significand dropped r
    else if isExponentMark b || dropped ≠ 0 then afterDigits positive significand dropped bs
    else integer bs
  | [] => if dropped ≠ 0 then afterDigits positive significand dropped [] else integer []
where
  integer (rest : List UInt8) : Outcome Number :=
    if positive then .ok (.natural significand) rest
    else if 1 ≤ significand ∧ significand ≤ Nat.pow 2 63 then .ok (.negative significand) rest
    else .ok (signed false (Float.ofNat significand)) rest

def unsignedNumber (positive : Bool) : List UInt8 → Outcome Number
  | [] => .failed .endInValue []
  | d :: r =>
    if d = byte '0' then
      match r with
      | [] => afterInteger positive 0 0 []
      | b :: rest => if isDigit b then .failed .badNumber rest else afterInteger positive 0 0 r
    else if isDigit d then
      let (significand, _, rest) := appendDigits (digitValue d) 0 r
      afterInteger positive significand (rest.takeWhile isDigit).length (rest.dropWhile isDigit)
    else .failed .badNumber r

def number : List UInt8 → Outcome Number
  | [] => .failed .endInValue []
  | b :: r => if b = byte '-' then unsignedNumber false r else unsignedNumber true (b :: r)

theorem length_dropWhile_le (p : UInt8 → Bool) (bs : List UInt8) :
    (bs.dropWhile p).length ≤ bs.length := (List.dropWhile_sublist _).length_le

theorem length_appendDigits_le (n k : Nat) (bs : List UInt8) :
    (appendDigits n k bs).2.2.length ≤ bs.length := by
  induction bs generalizing n k with
  | nil => simp [appendDigits]
  | cons d r ih =>
    simp only [appendDigits]
    split
    · exact Nat.le_succ_of_le (ih _ _)
    · exact Nat.le_refl _

theorem length_exponentDigits_le (e : Nat) (bs : List UInt8) :
    (exponentDigits e bs).2.length ≤ bs.length := by
  induction bs generalizing e with
  | nil => simp [exponentDigits]
  | cons d r ih =>
    simp only [exponentDigits]
    split
    · split
      · exact Nat.le_succ_of_le (ih _)
      · simp
    · exact Nat.le_refl _

theorem length_exponentSign_le (bs : List UInt8) : (exponentSign bs).2.length ≤ bs.length := by
  cases bs with
  | nil => simp [exponentSign]
  | cons b r => simp only [exponentSign]; split <;> (try split) <;> simp

theorem scaled_within (p : Bool) (n : Nat) (e : Int) (bs : List UInt8) :
    (scaled p n e bs).Within bs.length := by
  unfold scaled; split <;> simp

theorem exponentPart_within (p : Bool) (n : Nat) (e : Int) (bs : List UInt8) :
    (exponentPart p n e bs).Within bs.length := by
  have hs := length_exponentSign_le bs
  simp only [exponentPart]
  split
  · simp
  · rename_i d r h
    rw [h] at hs
    have hx := length_exponentDigits_le (digitValue d) r
    split
    · split
      · rename_i heq; rw [heq] at hx
        exact fun a s hr => Nat.le_trans (scaled_within _ _ _ _ a s hr)
          (Nat.le_trans hx (Nat.le_of_succ_le hs))
      · rename_i rest heq; rw [heq] at hx
        split
        · simp
        · simpa using Nat.le_trans (length_dropWhile_le isDigit rest)
            (Nat.le_trans hx (Nat.le_of_succ_le hs))
    · simp

theorem afterDigits_within (p : Bool) (n : Nat) (e : Int) (bs : List UInt8) :
    (afterDigits p n e bs).Within bs.length := by
  cases bs with
  | nil => exact scaled_within _ _ _ _
  | cons b r =>
    simp only [afterDigits]
    split
    · exact fun a s h => Nat.le_succ_of_le (exponentPart_within _ _ _ _ a s h)
    · exact scaled_within _ _ _ _

theorem fractionPart_within (p : Bool) (n : Nat) (e : Int) (bs : List UInt8) :
    (fractionPart p n e bs).Within bs.length := by
  cases bs with
  | nil => simp [fractionPart]
  | cons d r =>
    simp only [fractionPart]
    split
    · exact fun a s h => Nat.le_trans (afterDigits_within _ _ _ _ a s h)
        (Nat.le_trans (length_dropWhile_le _ _) (length_appendDigits_le _ _ _))
    · simp

theorem afterInteger_within (p : Bool) (n k : Nat) (bs : List UInt8) :
    (afterInteger p n k bs).Within bs.length := by
  have hi : ∀ bs, (afterInteger.integer p n bs).Within bs.length := by
    intro bs; unfold afterInteger.integer; repeat' split
    all_goals simp
  unfold afterInteger
  split
  · split
    · exact fun a s h => Nat.le_succ_of_le (fractionPart_within _ _ _ _ a s h)
    · split
      · exact afterDigits_within _ _ _ _
      · exact hi _
  · split
    · exact afterDigits_within _ _ _ _
    · exact hi _

theorem unsignedNumber_below (p : Bool) (bs : List UInt8) :
    (unsignedNumber p bs).Below bs.length := by
  cases bs with
  | nil => simp [unsignedNumber]
  | cons d r =>
    simp only [unsignedNumber]
    split
    · split
      · exact (afterInteger_within _ _ _ _).below (by simp)
      · split
        · simp
        · exact (afterInteger_within _ _ _ _).below (by simp)
    · split
      · refine (afterInteger_within _ _ _ _).below (Nat.lt_succ_of_le ?_)
        exact Nat.le_trans (length_dropWhile_le _ _) (length_appendDigits_le _ _ _)
      · simp

theorem number_below (bs : List UInt8) : (number bs).Below bs.length := by
  cases bs with
  | nil => simp [number]
  | cons b r =>
    simp only [number]
    split
    · exact (unsignedNumber_below _ _).mono (by simp)
    · exact unsignedNumber_below _ _

end Json
end GridPuzzles
