import GridPuzzles.Json.Reader

/-! Quoted texts. A text that is read stands for bytes of UTF-8, escapes replaced; a text that
is skipped is only followed to its closing quote. -/
namespace GridPuzzles
namespace Json

def hexValue? (b : UInt8) : Option Nat :=
  if isDigit b then some (digitValue b)
  else if byte 'a' ≤ b && b ≤ byte 'f' then some (b.toNat - 87)
  else if byte 'A' ≤ b && b ≤ byte 'F' then some (b.toNat - 55)
  else none

def hexQuad? (a b c d : UInt8) : Option Nat := do
  let a ← hexValue? a
  let b ← hexValue? b
  let c ← hexValue? c
  let d ← hexValue? d
  return ((a * 16 + b) * 16 + c) * 16 + d

def hexEscape : List UInt8 → Outcome Nat
  | a :: b :: c :: d :: r =>
    match hexQuad? a b c d with
    | some n => .ok n r
    | none => .failed .badEscape r
  | _ => .failed .endInText []

def isLeadingSurrogate (n : Nat) : Bool := 0xd800 ≤ n && n ≤ 0xdbff

def isTrailingSurrogate (n : Nat) : Bool := 0xdc00 ≤ n && n ≤ 0xdfff

def pairValue (leading trailing : Nat) : Nat :=
  (leading - 0xd800) * 0x400 + (trailing - 0xdc00) + 0x10000

def codePoint (n : Nat) : List UInt8 := String.utf8EncodeChar (Char.ofNat n)

def secondHalf (leading : Nat) : List UInt8 → Outcome (List UInt8)
  | [] => .failed .endInText []
  | a :: r =>
    if a = byte '\\' then
      match r with
      | [] => .failed .endInText []
      | b :: r =>
        if b = byte 'u' then
          (hexEscape r).bind fun n r =>
            if isTrailingSurrogate n then .ok (codePoint (pairValue leading n)) r
            else .failed .loneSurrogate r
        else .failed .halfSurrogatePair r
    else .failed .halfSurrogatePair r

def numericEscape (bs : List UInt8) : Outcome (List UInt8) :=
  (hexEscape bs).bind fun n r =>
    if isTrailingSurrogate n then .failed .loneSurrogate r
    else if isLeadingSurrogate n then secondHalf n r
    else .ok (codePoint n) r

def letterEscape? (b : UInt8) : Option UInt8 :=
  if b = byte '"' || b = byte '\\' || b = byte '/' then some b
  else if b = byte 'b' then some 0x08
  else if b = byte 'f' then some 0x0c
  else if b = byte 'n' then some 0x0a
  else if b = byte 'r' then some 0x0d
  else if b = byte 't' then some 0x09
  else none

def escape : List UInt8 → Outcome (List UInt8)
  | [] => .failed .endInText []
  | b :: r =>
    if b = byte 'u' then numericEscape r
    else
      match letterEscape? b with
      | some x => .ok [x] r
      | none => .failed .badEscape r

theorem hexEscape_below (bs : List UInt8) : (hexEscape bs).Below bs.length := by
  unfold hexEscape; split
  · split <;> simp; omega
  · simp

theorem secondHalf_below (n : Nat) (bs : List UInt8) : (secondHalf n bs).Below bs.length := by
  unfold secondHalf; split
  · simp
  · split
    · split
      · simp
      · split
        · refine Outcome.Below.mono (n := _) ((hexEscape_below _).bind fun a r h => ?_)
            (by simp; omega)
          split <;> simp [h]
        · simp
    · simp

theorem numericEscape_below (bs : List UInt8) : (numericEscape bs).Below bs.length := by
  refine (hexEscape_below bs).bind fun a r h => ?_
  split
  · simp
  · split
    · exact (secondHalf_below _ _).mono (Nat.le_of_lt h)
    · simpa using h

theorem escape_below (bs : List UInt8) : (escape bs).Below bs.length := by
  cases bs with
  | nil => simp [escape]
  | cons b r =>
    simp only [escape]
    split
    · exact (numericEscape_below r).mono (by simp)
    · split <;> simp

/-- The end of a text whose bytes are known: they have to be UTF-8. -/
def closed (bytes : List UInt8) (rest : List UInt8) : Outcome (List UInt8) :=
  match Utf8.malformed bytes with
  | [] => .ok bytes rest
  | excess => .failed (.notUtf8 excess.length) rest

/-- The rest of a text whose first bytes, last one first, are `acc`. -/
def textFrom (acc : List UInt8) : List UInt8 → Outcome (List UInt8)
  | [] => .failed .endInText []
  | b :: r =>
    if b = byte '"' then closed acc.reverse r
    else if b = byte '\\' then
      match _h : escape r with
      | .ok x rest => textFrom (x.reverse ++ acc) rest
      | .unplaced e rest => .unplaced e rest
      | .failed e u => .failed e u
    else if b < 0x20 then .failed .controlCharacter r
    else textFrom (b :: acc) r
termination_by bs => bs.length
decreasing_by
  · have := escape_below r _ _ _h; simp; omega
  · simp

theorem closed_within (bytes rest : List UInt8) : (closed bytes rest).Within rest.length := by
  unfold closed; split <;> simp

theorem textFrom_below (acc bs : List UInt8) : (textFrom acc bs).Below bs.length := by
  fun_induction textFrom acc bs with
  | case1 => simp
  | case2 => exact (closed_within _ _).below (by simp)
  | case3 acc r x rest h _ ih =>
    exact ih.mono (by have := escape_below r _ _ h; simp; omega)
  | case4 => simp
  | case5 => simp
  | case6 => simp
  | case7 acc b r _ _ _ ih => exact ih.mono (by simp)

/-- An escape that is skipped; surrogates need not be paired. -/
def skipEscape : List UInt8 → Outcome Unit
  | [] => .failed .endInText []
  | b :: r =>
    if b = byte 'u' then (hexEscape r).map fun _ => ()
    else
      match letterEscape? b with
      | some _ => .ok () r
      | none => .failed .badEscape r

theorem skipEscape_below (bs : List UInt8) : (skipEscape bs).Below bs.length := by
  cases bs with
  | nil => simp [skipEscape]
  | cons b r =>
    simp only [skipEscape]
    split
    · exact ((hexEscape_below r).map _).mono (by simp)
    · split <;> simp

def skipText : List UInt8 → Outcome Unit
  | [] => .failed .endInText []
  | b :: r =>
    if b = byte '"' then .ok () r
    else if b = byte '\\' then
      match _h : skipEscape r with
      | .ok _ rest => skipText rest
      | .unplaced e rest => .unplaced e rest
      | .failed e u => .failed e u
    else if b < 0x20 then .failed .controlCharacter r
    else skipText r
termination_by bs => bs.length
decreasing_by
  · have := skipEscape_below r _ _ _h; simp; omega
  · simp

theorem skipText_below (bs : List UInt8) : (skipText bs).Below bs.length := by
  fun_induction skipText bs with
  | case1 => simp
  | case2 => simp
  | case3 r _ rest h _ ih =>
    exact ih.mono (by have := skipEscape_below r _ _ h; simp; omega)
  | case4 => simp
  | case5 => simp
  | case6 => simp
  | case7 b r _ _ _ ih => exact ih.mono (by simp)

end Json
end GridPuzzles
