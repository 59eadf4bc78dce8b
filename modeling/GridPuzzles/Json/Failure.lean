import GridPuzzles.Decimal.Shortest
import GridPuzzles.FileTree.DiskError
import GridPuzzles.Grid
import GridPuzzles.Text.Quoted
import GridPuzzles.Text.Utf8

/-! Why a document cannot be read, with the texts of all causes. -/
namespace GridPuzzles
namespace Json

inductive Wanted where
  | record (name : String)
  | sequence
  | byte
  | word
  | path
  | boolean
deriving DecidableEq, Repr

def Wanted.text : Wanted → String
  | .record name => "struct " ++ name
  | .sequence => "a sequence"
  | .byte => "u8"
  | .word => "u32"
  | .path => "path string"
  | .boolean => "a boolean"

/-- A value of the wrong type. Floating point numbers are held as the bits of a double, texts
as bytes of UTF-8. -/
inductive Found where
  | null
  | boolean (b : Bool)
  | integer (n : Int)
  | floating (bits : UInt64)
  | text (bytes : List UInt8)
  | sequence
  | map
deriving DecidableEq, Repr

def floatLayout : Decimal.Layout := ⟨-5, 15⟩

def Found.message : Found → String
  | .null => "null"
  | .boolean b => "boolean \x60" ++ toString b ++ "\x60"
  | .integer n => "integer \x60" ++ toString n ++ "\x60"
  | .floating bits => "floating point \x60" ++ String.ofList (floatLayout.ofBits bits) ++ "\x60"
  | .text bytes => "string " ++ Text.quoted (Utf8.decode bytes)
  | .sequence => "sequence"
  | .map => "map"

inductive Category where
  | syntactic
  | data
  | endOfInput
  | disk
deriving DecidableEq, Repr

inductive Reason where
  | endInValue
  | endInList
  | endInObject
  | endInText
  | expectedColon
  | expectedListEnd
  | expectedObjectEnd
  | expectedWord
  | expectedValue
  | keyNotText
  | trailingComma
  | trailingCharacters
  | badEscape
  | badNumber
  | numberTooLarge
  | controlCharacter
  | loneSurrogate
  | halfSurrogatePair
  /-- A text is not UTF-8; `excess` bytes of it follow its longest well-formed beginning. -/
  | notUtf8 (excess : Nat)
  | wrongType (found : Found) (wanted : Wanted)
  | outOfRange (value : Int) (wanted : Wanted)
  | tooFewFields (count : Nat) (name : String) (fields : Nat)
  | missingField (name : String)
  | repeatedField (name : String)
  | ragged (e : ShapeError)
  | unreadable (e : DiskError)
deriving DecidableEq, Repr

namespace Reason

def category : Reason → Category
  | endInValue | endInList | endInObject | endInText => .endOfInput
  | wrongType .. | outOfRange .. | tooFewFields .. | missingField .. | repeatedField ..
  | ragged .. => .data
  | unreadable .. => .disk
  | _ => .syntactic

def message : Reason → String
  | endInValue => "EOF while parsing a value"
  | endInList => "EOF while parsing a list"
  | endInObject => "EOF while parsing an object"
  | endInText => "EOF while parsing a string"
  | expectedColon => "expected \x60:\x60"
  | expectedListEnd => "expected \x60,\x60 or \x60]\x60"
  | expectedObjectEnd => "expected \x60,\x60 or \x60\x7d\x60"
  | expectedWord => "expected ident"
  | expectedValue => "expected value"
  | keyNotText => "key must be a string"
  | trailingComma => "trailing comma"
  | trailingCharacters => "trailing characters"
  | badEscape => "invalid escape"
  | badNumber => "invalid number"
  | numberTooLarge => "number out of range"
  | controlCharacter => "control character (\\u0000-\\u001F) found while parsing a string"
  | loneSurrogate => "lone leading surrogate in hex escape"
  | halfSurrogatePair => "unexpected end of hex escape"
  | notUtf8 _ => "invalid unicode code point"
  | wrongType found wanted => "invalid type: " ++ found.message ++ ", expected " ++ wanted.text
  | outOfRange value wanted =>
    "invalid value: " ++ (Found.integer value).message ++ ", expected " ++ wanted.text
  | tooFewFields count name fields =>
    "invalid length " ++ toString count ++ ", expected struct " ++ name ++ " with " ++
      toString fields ++ " elements"
  | missingField name => "missing field \x60" ++ name ++ "\x60"
  | repeatedField name => "duplicate field \x60" ++ name ++ "\x60"
  | ragged e => e.message
  | unreadable e => e.message

/-- Columns by which the reported place lies before the bytes taken. -/
def setback : Reason → Nat
  | notUtf8 excess => excess
  | _ => 0

end Reason

/-- A place in a document: lines count from 1, columns are the bytes taken on the line. -/
structure Position where
  line : Nat
  column : Nat
deriving DecidableEq, Repr

def Position.after (bytes : List UInt8) : Position :=
  ⟨1 + bytes.count 0x0a, (bytes.reverse.takeWhile (· != 0x0a)).length⟩

/-- A cause with its place; causes found outside every list and object have none. -/
structure Failure where
  reason : Reason
  position : Option Position
deriving DecidableEq, Repr

def Failure.category (f : Failure) : Category := f.reason.category

def Failure.message (f : Failure) : String :=
  match f.position with
  | none => f.reason.message
  | some p =>
    f.reason.message ++ " at line " ++ toString p.line ++ " column " ++
      toString (p.column - f.reason.setback)

end Json
end GridPuzzles
