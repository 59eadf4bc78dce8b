import GridPuzzles.Text.Quoted
import GridPuzzles.Text.Utf8

/-! Control characters in text for a terminal. A control sequence begins with an escape character
and is obeyed instead of shown. -/
namespace GridPuzzles
namespace Text

/-! ## Leaving control sequences out -/

inductive Sequence where
  | outside
  | escape
  | intermediate
  | function
  | command
  | stringStart
  | stringParameters
  | stringIntermediate
  | string
deriving DecidableEq, Repr

def isAsciiBlank (c : Char) : Bool :=
  c = ' ' || c = '\t' || c = '\n' || c = '\x0c' || c = '\r'

/-- The byte that terminates a control string; it counts inside a longer character too. -/
def stringTerminator : UInt8 := 0x9c

namespace Sequence

/-- Behind a character that begins or continues a sequence outside of strings. A blank control
character is shown and ends the sequence; other control characters, and those outside ASCII,
leave it as it is. -/
def afterControl (s : Sequence) (c : Char) : Sequence × Bool :=
  if isAsciiBlank c then (.outside, true) else (s, false)

def afterGraphic (s : Sequence) (c : Char) : Sequence :=
  match s with
  | outside | command | string => s
  | escape =>
    if c < '0' then intermediate
    else if c = '[' then function
    else if c = ']' then command
    else if c = 'P' then stringStart
    else if c = 'X' ∨ c = '^' ∨ c = '_' then string
    else outside
  | intermediate => if c < '0' then intermediate else outside
  | function => if c < '@' then function else outside
  | stringStart =>
    if c < '0' then stringIntermediate else if c < '@' then stringParameters else string
  | stringParameters =>
    if c < '0' then stringIntermediate else if c < '<' then stringParameters else string
  | stringIntermediate => if c < '0' then stringIntermediate else string

def next (s : Sequence) (c : Char) : Sequence × Bool :=
  if c = '\x1b' then (escape, false)
  else if c = '\x18' ∨ c = '\x1a' then (outside, false)
  else if c.toNat < 0x20 then
    match s with
    | outside | escape | intermediate | function => s.afterControl c
    | command => if c = '\x07' then (outside, false) else (command, false)
    | _ => (s, false)
  else if c.toNat < 0x7f then (s.afterGraphic c, s = outside)
  else if c = '\x7f' then (s, false)
  else
    match s with
    | outside => (outside, true)
    | string =>
      if stringTerminator ∈ String.utf8EncodeChar c then (outside, false) else (string, false)
    | _ => (s, false)

end Sequence

def plainFrom : Sequence → List Char → List Char
  | _, [] => []
  | s, c :: cs =>
    let (t, isShown) := s.next c
    if isShown then c :: plainFrom t cs else plainFrom t cs

def plain (s : String) : String := String.ofList (plainFrom .outside s.toList)

/-- Where a stream stands, and the sequence it goes back to if a blank has interrupted one. -/
structure Stream where
  now : Sequence
  interrupted : Option Sequence
deriving DecidableEq, Repr

/-- The state of a stream behind a character, and whether the character is let through. A blank
only interrupts a sequence: the next hidden control character goes on with it, unless a new
sequence or a character outside ASCII has come before. -/
def Stream.next (s : Stream) (c : Char) : Stream × Bool :=
  let (t, isShown) := s.now.next c
  if s.now = .outside then
    if 0x80 ≤ c.toNat ∨ t ≠ .outside ∨ c = '\x18' ∨ c = '\x1a' then (⟨t, none⟩, isShown)
    else if isShown then (s, true)
    else (⟨s.interrupted.getD .outside, none⟩, false)
  else if isShown then (⟨t, some s.now⟩, true)
  else (⟨t, none⟩, false)

def writtenFrom : Stream → List Char → List Char
  | _, [] => []
  | s, c :: cs =>
    let (t, isShown) := s.next c
    if isShown then c :: writtenFrom t cs else writtenFrom t cs

def written (s : String) : String :=
  String.ofList (writtenFrom ⟨.outside, none⟩ s.toList)

/-! ## Spelling control characters out -/

/-- The control characters that a terminal may take for part of a sequence: five of ASCII with
two digits, and those of the upper set. -/
def spelledChar (c : Char) : List Char :=
  if c = '\x07' ∨ c = '\x08' ∨ c = '\x0c' then ['\\', 'x', '0'] ++ hexDigits c.toNat
  else if c = '\x1b' ∨ c = '\x7f' then ['\\', 'x'] ++ hexDigits c.toNat
  else if 0x80 ≤ c.toNat ∧ c.toNat ≤ 0x9f then
    ['\\', 'u', '\x7b'] ++ hexDigits c.toNat ++ ['\x7d']
  else [c]

def spelled (s : String) : String := String.ofList (s.toList.flatMap spelledChar)

end Text
end GridPuzzles
