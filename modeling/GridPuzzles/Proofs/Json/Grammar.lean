import GridPuzzles.Json.Skip
import Mathlib.Data.List.Forall2

/-! The grammar of documents, apart from any reader. Blanks may stand around the marks of a list or
an object; a number is spelled without them. -/
namespace GridPuzzles
namespace Json

def Blank (w : List UInt8) : Prop := ∀ b ∈ w, isBlank b

def Digits (ds : List UInt8) : Prop := ds ≠ [] ∧ ∀ d ∈ ds, isDigit d

def Integral (ds : List UInt8) : Prop :=
  ds = [byte '0'] ∨ Digits ds ∧ ds.head? ≠ some (byte '0')

def Fractional (bs : List UInt8) : Prop := bs = [] ∨ ∃ ds, Digits ds ∧ bs = byte '.' :: ds

def Exponential (bs : List UInt8) : Prop :=
  bs = [] ∨ ∃ mark sign ds, isExponentMark mark ∧
    (sign = [] ∨ sign = [byte '+'] ∨ sign = [byte '-']) ∧ Digits ds ∧ bs = mark :: (sign ++ ds)

/-- A number: an integer with or without a sign, a fraction and an exponent. -/
def Numeral (bs : List UInt8) : Prop :=
  ∃ sign ds fraction exponent, (sign = [] ∨ sign = [byte '-']) ∧ Integral ds ∧
    Fractional fraction ∧ Exponential exponent ∧ bs = sign ++ (ds ++ (fraction ++ exponent))

def isPlain (b : UInt8) : Bool := !(b < 0x20) && b ≠ byte '"' && b ≠ byte '\\'

inductive Quotable : List UInt8 → Prop where
  | nil : Quotable []
  | plain {b : UInt8} {raw : List UInt8} : isPlain b → Quotable raw → Quotable (b :: raw)
  | letter {b x : UInt8} {raw : List UInt8} : letterEscape? b = some x → Quotable raw →
      Quotable (byte '\\' :: b :: raw)
  | numeric {a b c d : UInt8} {n : Nat} {raw : List UInt8} : hexQuad? a b c d = some n →
      Quotable raw → Quotable (byte '\\' :: byte 'u' :: a :: b :: c :: d :: raw)

/-- What stands between the quotes of a text, and the bytes that it stands for. -/
inductive Names : (raw name : List UInt8) → Prop where
  | nil : Names [] []
  | plain {b : UInt8} {raw name : List UInt8} : isPlain b → Names raw name →
      Names (b :: raw) (b :: name)
  | letter {b x : UInt8} {raw name : List UInt8} : letterEscape? b = some x → Names raw name →
      Names (byte '\\' :: b :: raw) (x :: name)
  | numeric {a b c d : UInt8} {n : Nat} {raw name : List UInt8} : hexQuad? a b c d = some n →
      ¬ isLeadingSurrogate n → ¬ isTrailingSurrogate n → Names raw name →
      Names (byte '\\' :: byte 'u' :: a :: b :: c :: d :: raw) (codePoint n ++ name)
  | pair {a b c d a' b' c' d' : UInt8} {m n : Nat} {raw name : List UInt8} :
      hexQuad? a b c d = some m → isLeadingSurrogate m →
      hexQuad? a' b' c' d' = some n → isTrailingSurrogate n → Names raw name →
      Names (byte '\\' :: byte 'u' :: a :: b :: c :: d ::
          byte '\\' :: byte 'u' :: a' :: b' :: c' :: d' :: raw)
        (codePoint (pairValue m n) ++ name)

def quoted (raw : List UInt8) : List UInt8 := byte '"' :: (raw ++ [byte '"'])

def Bracket.opening : Bracket → UInt8
  | list => byte '['
  | object => byte '\x7b'

def Mark (b : UInt8) (w : List UInt8) : Prop :=
  ∃ w₁ w₂, Blank w₁ ∧ Blank w₂ ∧ w = w₁ ++ b :: w₂

/-- What stands before an element: a comma, unless it is the first. -/
def Separator (first : Bool) (w : List UInt8) : Prop :=
  if first then Blank w else Mark (byte ',') w

/-- Elements up to the bracket that closes them, `first` if none stands before them. -/
inductive Inside (close : UInt8) : (first : Bool) → List (List UInt8) → List UInt8 → Prop where
  | close {first : Bool} {w : List UInt8} : Blank w → Inside close first [] (w ++ [close])
  | cons {first : Bool} {w e z : List UInt8} {es : List (List UInt8)} : Separator first w →
      Inside close false es z → Inside close first (e :: es) (w ++ (e ++ z))

def Enclosed (k : Bracket) (es : List (List UInt8)) (bs : List UInt8) : Prop :=
  ∃ z, Inside k.closing true es z ∧ bs = k.opening :: z

def Label : Bracket → List UInt8 → Prop
  | .list, w => Blank w
  | .object, w => ∃ raw c, Quotable raw ∧ Mark (byte ':') c ∧ w = quoted raw ++ c

inductive Value : List UInt8 → Prop where
  | word {w : String} : w = "null" ∨ w = "true" ∨ w = "false" → Value (ascii w)
  | number {bs : List UInt8} : Numeral bs → Value bs
  | text {raw : List UInt8} : Quotable raw → Value (quoted raw)
  | group {k : Bracket} {es : List (List UInt8 × List UInt8)} {bs : List UInt8} :
      (∀ e ∈ es, Label k e.1) → (∀ e ∈ es, Value e.2) →
      Enclosed k (es.map fun e => e.1 ++ e.2) bs → Value bs

def OrNull {α : Type} (P : α → List UInt8 → Prop) : Option α → List UInt8 → Prop
  | none, v => v = ascii "null"
  | some a, v => P a v

def ListOf {α : Type} (P : α → List UInt8 → Prop) (as : List α) (bs : List UInt8) : Prop :=
  ∃ es, List.Forall₂ P as es ∧ Enclosed .list es bs

def Member (m : List UInt8 × List UInt8) (e : List UInt8) : Prop :=
  ∃ raw c, Names raw m.1 ∧ Mark (byte ':') c ∧ e = quoted raw ++ (c ++ m.2)

/-- Exactly one member has the name, and its value is spelled `v`. -/
def Only (name v : List UInt8) (ms : List (List UInt8 × List UInt8)) : Prop :=
  ms.filter (fun m => m.1 = name) = [(name, v)]

/-- A pair of values: a list of the two, or an object that has exactly one member of each of two
names, among any others. -/
inductive PairOf {α β : Type} (first second : List UInt8) (P : α → List UInt8 → Prop)
    (Q : β → List UInt8 → Prop) (a : α) (b : β) (bs : List UInt8) : Prop where
  | list {v w : List UInt8} : P a v → Q b w → Enclosed .list [v, w] bs →
      PairOf first second P Q a b bs
  | object {ms : List (List UInt8 × List UInt8)} {es : List (List UInt8)} {v w : List UInt8} :
      Only first v ms → P a v → Only second w ms → Q b w →
      (∀ m ∈ ms, m.1 ≠ first → m.1 ≠ second → Value m.2) →
      List.Forall₂ Member ms es → Enclosed .object es bs → PairOf first second P Q a b bs

end Json
end GridPuzzles
