import GridPuzzles.Text.Invisible

/-! Text between double quotes, with escapes for quotes, backslashes and characters that
cannot be seen. -/
namespace GridPuzzles
namespace Text

def hexDigits (n : Nat) : List Char := Nat.toDigits 16 n

def quotedChar (c : Char) : List Char :=
  if c = '"' then ['\\', '"']
  else if c = '\\' then ['\\', '\\']
  else if c = '\n' then ['\\', 'n']
  else if c = '\r' then ['\\', 'r']
  else if c = '\t' then ['\\', 't']
  else if c = '\x00' then ['\\', '0']
  else if isInvisible c then ['\\', 'u', '\x7b'] ++ hexDigits c.toNat ++ ['\x7d']
  else [c]

/-- The text between double quotes; a single quote needs no escape. -/
def quoted (cs : List Char) : String :=
  String.ofList ('"' :: cs.flatMap quotedChar ++ ['"'])

end Text
end GridPuzzles
