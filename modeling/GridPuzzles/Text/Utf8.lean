/-! Text as bytes. A well-formed sequence of UTF-8 encodes one scalar value in its
shortest form; `scan` reads one of them off the front. -/
namespace GridPuzzles
namespace Utf8

def encode (s : String) : List UInt8 := s.toUTF8.data.toList

def isTail (b : UInt8) : Bool := 0x80 ≤ b && b ≤ 0xbf

/-- Second bytes allowed after a first byte of a three-byte sequence: no overlong form and
no surrogate. -/
def isSecondOfThree (a b : UInt8) : Bool :=
  if a = 0xe0 then 0xa0 ≤ b && b ≤ 0xbf
  else if a = 0xed then 0x80 ≤ b && b ≤ 0x9f
  else isTail b

/-- Second bytes allowed after a first byte of a four-byte sequence: no overlong form and
nothing above the last code point. -/
def isSecondOfFour (a b : UInt8) : Bool :=
  if a = 0xf0 then 0x90 ≤ b && b ≤ 0xbf
  else if a = 0xf4 then 0x80 ≤ b && b ≤ 0x8f
  else isTail b

def low (b : UInt8) (modulus : Nat) : Nat := b.toNat % modulus

def scan : List UInt8 → Option (Char × List UInt8)
  | [] => none
  | a :: r =>
    if a < 0x80 then some (Char.ofNat a.toNat, r)
    else if 0xc2 ≤ a && a ≤ 0xdf then
      match r with
      | b :: r => if isTail b then some (Char.ofNat (low a 32 * 64 + low b 64), r) else none
      | [] => none
    else if 0xe0 ≤ a && a ≤ 0xef then
      match r with
      | b :: c :: r =>
        if isSecondOfThree a b && isTail c then
          some (Char.ofNat ((low a 16 * 64 + low b 64) * 64 + low c 64), r)
        else none
      | _ => none
    else if 0xf0 ≤ a && a ≤ 0xf4 then
      match r with
      | b :: c :: d :: r =>
        if isSecondOfFour a b && isTail c && isTail d then
          some (Char.ofNat (((low a 8 * 64 + low b 64) * 64 + low c 64) * 64 + low d 64), r)
        else none
      | _ => none
    else none

theorem length_lt_of_scan {bs r : List UInt8} {c : Char} (h : scan bs = some (c, r)) :
    r.length < bs.length := by
  fun_cases scan bs <;> simp_all [scan] <;> grind

/-- What is left after the longest well-formed beginning. -/
def malformed (bs : List UInt8) : List UInt8 :=
  match _h : scan bs with
  | none => bs
  | some (_, r) => malformed r
termination_by bs.length
decreasing_by exact length_lt_of_scan _h

def isText (bs : List UInt8) : Bool := (malformed bs).isEmpty

def opens (a b : UInt8) : Bool :=
  0xe0 ≤ a && a ≤ 0xef && isSecondOfThree a b || 0xf0 ≤ a && a ≤ 0xf4 && isSecondOfFour a b

/-- What comes after bytes that no sequence begins with: as much as a sequence could begin with is
left out, and at least one byte. -/
def afterBroken : List UInt8 → List UInt8
  | a :: b :: r =>
    if !opens a b then b :: r
    else if 0xf0 ≤ a && r.head?.any isTail then r.tail
    else r
  | _ => []

theorem length_afterBroken_lt {bs : List UInt8} (h : bs ≠ []) :
    (afterBroken bs).length < bs.length := by
  fun_cases afterBroken bs with
  | case1 => exact Nat.lt_succ_self _
  | case2 =>
    rw [List.length_tail, List.length_cons, List.length_cons]
    omega
  | case3 =>
    rw [List.length_cons, List.length_cons]
    omega
  | case4 => exact List.length_pos_iff.mpr h

/-- The characters of the bytes, with U+FFFD for each beginning of a sequence that is not completed
and for each other byte that belongs to no character; `acc` holds those already read, last one
first. -/
def decodeOnto (acc : List Char) (bs : List UInt8) : List Char :=
  match _h : scan bs with
  | some (c, r) => decodeOnto (c :: acc) r
  | none =>
    if _hbs : bs = [] then acc.reverse else decodeOnto ('\ufffd' :: acc) (afterBroken bs)
termination_by bs.length
decreasing_by
  · exact length_lt_of_scan _h
  · exact length_afterBroken_lt _hbs

def decode (bs : List UInt8) : List Char := decodeOnto [] bs

end Utf8
end GridPuzzles
