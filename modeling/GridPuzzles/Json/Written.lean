import GridPuzzles.Text.Ascii

/-! The compact written form of values, as bytes. -/
namespace GridPuzzles
namespace Json

def enclose (opening closing : Char) (items : List (List UInt8)) : List UInt8 :=
  byte opening :: List.intercalate [byte ','] items ++ [byte closing]

def writeList (items : List (List UInt8)) : List UInt8 := enclose '[' ']' items

def writeTextByte (b : UInt8) : List UInt8 :=
  if b = byte '"' then [byte '\\', byte '"']
  else if b = byte '\\' then [byte '\\', byte '\\']
  else if b = 0x08 then [byte '\\', byte 'b']
  else if b = 0x0c then [byte '\\', byte 'f']
  else if b = 0x0a then [byte '\\', byte 'n']
  else if b = 0x0d then [byte '\\', byte 'r']
  else if b = 0x09 then [byte '\\', byte 't']
  else if b < 0x20 then
    ascii "\\u00" ++ [byte (Nat.digitChar (b.toNat / 16)), byte (Nat.digitChar (b.toNat % 16))]
  else [b]

def writeText (bytes : List UInt8) : List UInt8 :=
  byte '"' :: bytes.flatMap writeTextByte ++ [byte '"']

/-- An object with the given members, in order; the names need no escape. -/
def writeObject (members : List (String × List UInt8)) : List UInt8 :=
  enclose '\x7b' '\x7d'
    (members.map fun (name, value) => writeText (ascii name) ++ byte ':' :: value)

def writeBoolean (b : Bool) : List UInt8 := ascii (if b then "true" else "false")

def writeOptional (write : α → List UInt8) : Option α → List UInt8
  | none => ascii "null"
  | some a => write a

end Json
end GridPuzzles
