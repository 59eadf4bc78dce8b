import GridPuzzles.Json.Number
import GridPuzzles.Json.Text

/-! Values nobody asked for. They are followed to their end by a stack of open brackets, so
nesting has no limit, and checked for grammar only. -/
namespace GridPuzzles
namespace Json

def skipExponent (bs : List UInt8) : Outcome Unit :=
  match (exponentSign bs).2 with
  | [] => .failed .badNumber []
  | d :: r => if isDigit d then .ok () (r.dropWhile isDigit) else .failed .badNumber r

def skipAfterDigits : List UInt8 → Outcome Unit
  | [] => .ok () []
  | b :: r => if isExponentMark b then skipExponent r else .ok () (b :: r)

def skipFraction : List UInt8 → Outcome Unit
  | [] => .failed .badNumber []
  | d :: r => if isDigit d then skipAfterDigits (r.dropWhile isDigit) else .failed .badNumber r

def skipAfterInteger : List UInt8 → Outcome Unit
  | [] => .ok () []
  | b :: r => if b = byte '.' then skipFraction r else skipAfterDigits (b :: r)

def skipUnsigned : List UInt8 → Outcome Unit
  | [] => .failed .badNumber []
  | d :: r =>
    if d = byte '0' then
      match r with
      | [] => .ok () []
      | b :: rest => if isDigit b then .failed .badNumber rest else skipAfterInteger r
    else if isDigit d then skipAfterInteger (r.dropWhile isDigit)
    else .failed .badNumber r

def skipScalar : List UInt8 → Outcome Unit
  | [] => .failed .endInValue []
  | b :: r =>
    if b = byte 'n' then word (ascii "ull") r
    else if b = byte 't' then word (ascii "rue") r
    else if b = byte 'f' then word (ascii "alse") r
    else if b = byte '-' then skipUnsigned r
    else if isDigit b then skipUnsigned (b :: r)
    else if b = byte '"' then skipText r
    else .failed .expectedValue r

inductive Bracket where
  | list
  | object
deriving DecidableEq, Repr

namespace Bracket

def opening? (b : UInt8) : Option Bracket :=
  if b = byte '[' then some list else if b = byte '\x7b' then some object else none

def closing : Bracket → UInt8
  | list => byte ']'
  | object => byte '\x7d'

def unfinished : Bracket → Reason
  | list => .endInList
  | object => .endInObject

def unseparated : Bracket → Reason
  | list => .expectedListEnd
  | object => .expectedObjectEnd

end Bracket

def colon (bs : List UInt8) : Outcome Unit :=
  match skipBlanks bs with
  | [] => .failed .endInObject []
  | c :: r => if c = byte ':' then .ok () r else .failed .expectedColon r

def skipKey (bs : List UInt8) : Outcome Unit :=
  match skipBlanks bs with
  | [] => .failed .endInObject []
  | b :: r => if b = byte '"' then (skipText r).bind fun _ r => colon r else .failed .keyNotText r

def skipLabel : Bracket → List UInt8 → Outcome Unit
  | .list, bs => .ok () bs
  | .object, bs => skipKey bs

theorem colon_below (bs : List UInt8) : (colon bs).Below bs.length := by
  unfold colon; split
  · simp
  · split
    · simpa using length_lt_of_skipBlanks ‹_›
    · simp

theorem skipKey_below (bs : List UInt8) : (skipKey bs).Below bs.length := by
  unfold skipKey; split
  · simp
  · rename_i h
    split
    · refine Outcome.Below.mono ((skipText_below _).bind fun _ r hr => ?_)
        (Nat.le_of_lt (length_lt_of_skipBlanks h))
      exact (colon_below r).mono (Nat.le_of_lt hr)
    · simp

theorem skipLabel_within (k : Bracket) (bs : List UInt8) : (skipLabel k bs).Within bs.length := by
  cases k
  · simp [skipLabel]
  · exact (skipKey_below bs).within

theorem skipExponent_within (bs : List UInt8) : (skipExponent bs).Within bs.length := by
  have hs := length_exponentSign_le bs
  unfold skipExponent
  split
  · simp
  · rename_i d r h
    rw [h] at hs
    split
    · simpa using Nat.le_trans (length_dropWhile_le isDigit r) (Nat.le_of_succ_le hs)
    · simp

theorem skipAfterDigits_within (bs : List UInt8) : (skipAfterDigits bs).Within bs.length := by
  cases bs with
  | nil => simp [skipAfterDigits]
  | cons b r =>
    simp only [skipAfterDigits]
    split
    · exact fun a s h => Nat.le_succ_of_le (skipExponent_within r a s h)
    · simp

theorem skipFraction_within (bs : List UInt8) : (skipFraction bs).Within bs.length := by
  cases bs with
  | nil => simp [skipFraction]
  | cons d r =>
    simp only [skipFraction]
    split
    · exact fun a s h => Nat.le_succ_of_le
        (Nat.le_trans (skipAfterDigits_within _ a s h) (length_dropWhile_le _ _))
    · simp

theorem skipAfterInteger_within (bs : List UInt8) : (skipAfterInteger bs).Within bs.length := by
  cases bs with
  | nil => simp [skipAfterInteger]
  | cons b r =>
    simp only [skipAfterInteger]
    split
    · exact fun a s h => Nat.le_succ_of_le (skipFraction_within r a s h)
    · exact skipAfterDigits_within _

theorem skipUnsigned_below (bs : List UInt8) : (skipUnsigned bs).Below bs.length := by
  cases bs with
  | nil => simp [skipUnsigned]
  | cons d r =>
    simp only [skipUnsigned]
    split
    · split
      · simp
      · split
        · simp
        · exact (skipAfterInteger_within _).below (by simp)
    · split
      · exact (skipAfterInteger_within _).below (Nat.lt_succ_of_le (length_dropWhile_le _ _))
      · simp

theorem skipScalar_below (bs : List UInt8) : (skipScalar bs).Below bs.length := by
  cases bs with
  | nil => simp [skipScalar]
  | cons b r =>
    have hw : ∀ ws, (word ws r).Below (b :: r).length := fun ws =>
      (word_within ws r).below (by simp)
    simp only [skipScalar]
    split
    · exact hw _
    · split
      · exact hw _
      · split
        · exact hw _
        · split
          · exact (skipUnsigned_below r).mono (by simp)
          · split
            · exact skipUnsigned_below _
            · split
              · exact (skipText_below r).mono (by simp)
              · simp

mutual

/-- Skips one value inside the given brackets, and all that follows up to their end. -/
def skipValue (stack : List Bracket) (bs : List UInt8) : Outcome Unit :=
  match _h : skipBlanks bs with
  | [] => .failed .endInValue []
  | b :: r =>
    match Bracket.opening? b with
    | none =>
      match _hs : skipScalar (b :: r) with
      | .ok _ s => skipRest stack s
      | o => o
    | some k =>
      match _hr : skipBlanks r with
      | [] => .failed k.unfinished []
      | c :: s =>
        if c = k.closing then skipRest stack s
        else
          match _hl : skipLabel k (c :: s) with
          | .ok _ t => skipValue (k :: stack) t
          | o => o
termination_by bs.length
decreasing_by
  · have h₁ := skipScalar_below (b :: r) _ _ _hs
    have h₂ := length_skipBlanks_le bs
    rw [_h] at h₂; omega
  · have h₁ := length_lt_of_skipBlanks _h
    have h₂ := length_lt_of_skipBlanks _hr
    omega
  · have h₁ := length_lt_of_skipBlanks _h
    have h₂ := length_skipBlanks_le r
    have h₃ := skipLabel_within k (c :: s) _ _ _hl
    rw [_hr] at h₂; omega

/-- Skips what follows a value inside the given brackets, up to their end. -/
def skipRest (stack : List Bracket) (bs : List UInt8) : Outcome Unit :=
  match stack with
  | [] => .ok () bs
  | k :: outer =>
    match _h : skipBlanks bs with
    | [] => .failed k.unfinished []
    | c :: r =>
      if c = byte ',' then
        match _hl : skipLabel k r with
        | .ok _ s => skipValue (k :: outer) s
        | o => o
      else if c = k.closing then skipRest outer r
      else .failed k.unseparated r
termination_by bs.length
decreasing_by
  · have h₁ := length_lt_of_skipBlanks _h
    have h₂ := skipLabel_within k r _ _ _hl
    omega
  · exact length_lt_of_skipBlanks _h

end

theorem skip_takes (n : Nat) : ∀ (stack : List Bracket) (bs : List UInt8), bs.length ≤ n →
    (skipValue stack bs).Below bs.length ∧ (skipRest stack bs).Within bs.length := by
  induction n with
  | zero =>
    intro stack bs h
    have : bs = [] := List.eq_nil_of_length_eq_zero (Nat.le_zero.1 h)
    subst this
    constructor
    · unfold skipValue; simp [skipBlanks]
    · unfold skipRest; cases stack <;> simp [skipBlanks]
  | succ n ih =>
    intro stack bs h
    constructor
    · unfold skipValue
      split
      · simp
      · rename_i b r hb
        have hr := length_lt_of_skipBlanks hb
        have hb' := length_skipBlanks_le bs
        rw [hb] at hb'
        split
        · split
          · rename_i s hs
            have := skipScalar_below (b :: r) _ _ hs
            exact ((ih stack s (by omega)).2).below (by omega)
          · rename_i hn
            exact fun a s e => absurd e (hn a s)
        · rename_i k _
          split
          · simp
          · rename_i c s hc
            have hs := length_lt_of_skipBlanks hc
            have hc' := length_skipBlanks_le r
            rw [hc] at hc'
            split
            · exact ((ih stack s (by omega)).2).below (by omega)
            · split
              · rename_i t ht
                have := skipLabel_within k (c :: s) _ _ ht
                exact ((ih (k :: stack) t (by omega)).1).mono (by omega)
              · rename_i hn
                exact fun a s e => absurd e (hn a s)
    · unfold skipRest
      split
      · simp
      · rename_i k outer
        split
        · simp
        · rename_i c r hc
          have hr := length_lt_of_skipBlanks hc
          split
          · split
            · rename_i s hs
              have := skipLabel_within k r _ _ hs
              exact (((ih (k :: outer) s (by omega)).1).mono (by omega)).within
            · rename_i hn
              exact fun a s e => absurd e (hn a s)
          · split
            · exact (((ih outer r (by omega)).2).below hr).within
            · simp

def skip : Reader Unit where
  run := skipValue []
  takes bs := (skip_takes bs.length [] bs (Nat.le_refl _)).1

end Json
end GridPuzzles
