/-! Bytes named by the characters they stand for. -/
namespace GridPuzzles

abbrev byte (c : Char) : UInt8 := UInt8.ofNat c.toNat

def ascii (s : String) : List UInt8 := s.toList.map byte

def isDigit (b : UInt8) : Bool := byte '0' ≤ b && b ≤ byte '9'

def digitValue (b : UInt8) : Nat := b.toNat - 48

def decimal (n : Nat) : List UInt8 := (Nat.toDigits 10 n).map byte

end GridPuzzles
