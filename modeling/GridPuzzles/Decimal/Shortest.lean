/-! The shortest decimal that reads back as a given binary number. A finite number is
`m * 2 ^ q`; every real strictly nearer to it than to its neighbours reads back as it, the
midpoints too when `m` is even. The coarsest decimal grid with a point in that interval wins,
and on it the point nearest to the number. -/
namespace GridPuzzles
namespace Decimal

/-- A positive binary number `m * 2 ^ q`; `tight` if the gap below it is half the gap above. -/
structure Binary where
  m : Nat
  q : Int
  tight : Bool
deriving DecidableEq, Repr

structure Scientific where
  digits : Nat
  exponent : Int
deriving DecidableEq, Repr

def Binary.ofBits (bits : UInt64) : Binary :=
  let fraction : Nat := bits.toNat % Nat.pow 2 52
  let exponent : Nat := bits.toNat / Nat.pow 2 52 % Nat.pow 2 11
  if exponent = 0 then ⟨fraction, -1074, false⟩
  else ⟨Nat.pow 2 52 + fraction, (exponent : Int) - 1075, fraction = 0 && 1 < exponent⟩

/-- `b * 10 ^ k` and the quarter unit of a number as integers of one scale: the pair `(a, b)`
with `a / b = 2 ^ (q - 2) / 10 ^ k`. -/
def Binary.scale (v : Binary) (k : Int) : Nat × Nat :=
  (Nat.pow 2 (v.q - 2).toNat * Nat.pow 10 (-k).toNat,
    Nat.pow 2 (2 - v.q).toNat * Nat.pow 10 k.toNat)

def Binary.readsBack (v : Binary) (k : Int) (d : Nat) : Bool :=
  let (a, b) := v.scale k
  let low := (4 * v.m - if v.tight then 1 else 2) * a
  let high := (4 * v.m + 2) * a
  if v.m % 2 = 0 then low ≤ d * b && d * b ≤ high else low < d * b && d * b < high

/-- The point of the grid `10 ^ k` that reads back; of two the nearer, of two equally near
the even one. -/
def Binary.onGrid? (v : Binary) (k : Int) : Option Nat :=
  let (a, b) := v.scale k
  let d := 4 * v.m * a / b
  match v.readsBack k d, v.readsBack k (d + 1) with
  | false, false => none
  | true, false => some d
  | false, true => some (d + 1)
  | true, true =>
    let below := 4 * v.m * a - d * b
    let above := (d + 1) * b - 4 * v.m * a
    some (if below < above || (below = above && d % 2 = 0) then d else d + 1)

def Binary.reaches (v : Binary) (k : Int) : Bool :=
  let (a, b) := v.scale k
  b ≤ 4 * v.m * a

def Binary.magnitude (v : Binary) : Int :=
  let e : Int := (v.m.log2 + v.q) * 30103 / 100000
  if v.reaches (e + 1) then e + 1 else if v.reaches e then e else e - 1

def Binary.search (v : Binary) (k : Int) : (tries : Nat) → Scientific
  | 0 => ⟨4 * v.m * (v.scale k).1 / (v.scale k).2, k⟩
  | n + 1 =>
    match v.onGrid? k with
    | some d => ⟨d, k⟩
    | none => v.search (k - 1) n

def Scientific.trim (digits : Nat) (exponent : Int) : (tries : Nat) → Scientific
  | 0 => ⟨digits, exponent⟩
  | n + 1 =>
    if digits ≠ 0 ∧ digits % 10 = 0 then trim (digits / 10) (exponent + 1) n
    else ⟨digits, exponent⟩

/-- Shortest decimal of a positive number; no double needs more than 17 digits. -/
def Binary.shortest (v : Binary) : Scientific :=
  let s := v.search v.magnitude 17
  Scientific.trim s.digits s.exponent 17

/-- How a decimal is written: `plainFrom` and `plainTo` bound the power of ten of the first
digit of those written without an exponent. -/
structure Layout where
  plainFrom : Int
  plainTo : Int

private def zeros (n : Nat) : List Char := List.replicate n '0'

def Layout.write (l : Layout) (s : Scientific) : List Char :=
  let ds := Nat.toDigits 10 s.digits
  let x := s.exponent + (ds.length - 1 : Int)
  if l.plainFrom ≤ x ∧ x ≤ l.plainTo then
    if 0 ≤ s.exponent then ds ++ zeros s.exponent.toNat ++ ['.', '0']
    else if 0 ≤ x then ds.take (x.toNat + 1) ++ '.' :: ds.drop (x.toNat + 1)
    else '0' :: '.' :: zeros (-x - 1).toNat ++ ds
  else
    ds.take 1 ++ (if ds.length = 1 then [] else '.' :: ds.drop 1) ++
      'e' :: (if x < 0 then '-' else '+') :: Nat.toDigits 10 x.natAbs

def Layout.ofBits (l : Layout) (bits : UInt64) : List Char :=
  let v := Binary.ofBits bits
  let sign := if bits.toNat / Nat.pow 2 63 = 1 then ['-'] else []
  sign ++ if v.m = 0 then ['0', '.', '0'] else l.write v.shortest

end Decimal
end GridPuzzles
