/-! Signed 64-bit numerals. A numeral is an optional sign and at least one ASCII digit; it is
read from left to right, and the first character that is no digit or does not fit ends it. -/
namespace GridPuzzles
namespace CommandLine

inductive NumeralError where
  | empty
  | noDigit
  | tooLarge
  | tooSmall
deriving DecidableEq, Repr

def NumeralError.message : NumeralError → String
  | empty => "cannot parse integer from empty string"
  | noDigit => "invalid digit found in string"
  | tooLarge => "number too large to fit in target type"
  | tooSmall => "number too small to fit in target type"

/-- Appends digits to the size `n` of a number that must not pass `bound`. -/
def numeralDigits (bound : Nat) (overflow : NumeralError) (n : Nat) :
    List Char → Except NumeralError Nat
  | [] => .ok n
  | c :: cs =>
    if !c.isDigit then .error .noDigit
    else if bound < n * 10 + (c.toNat - 48) then .error overflow
    else numeralDigits bound overflow (n * 10 + (c.toNat - 48)) cs

def positiveNumeral (cs : List Char) : Except NumeralError Int :=
  (numeralDigits (Nat.pow 2 63 - 1) .tooLarge 0 cs).map fun n => (n : Int)

def negativeNumeral (cs : List Char) : Except NumeralError Int :=
  (numeralDigits (Nat.pow 2 63) .tooSmall 0 cs).map fun n => -(n : Int)

def numeral : List Char → Except NumeralError Int
  | [] => .error .empty
  | c :: cs =>
    if c = '+' ∨ c = '-' then
      if cs = [] then .error .noDigit
      else if c = '+' then positiveNumeral cs
      else negativeNumeral cs
    else positiveNumeral (c :: cs)

end CommandLine
end GridPuzzles
