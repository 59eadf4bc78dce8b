import GridPuzzles.Palette

/-! Sizes of a preview. Panels stand side by side, separated by one cell size of background; a panel
has one grid line before, between and after its cells. -/
namespace GridPuzzles
namespace Preview

structure CellSize where
  pixels : UInt32
  positive : pixels ≠ 0
deriving DecidableEq

namespace CellSize

/-- A cell size of zero is raised to 1, so that every cell stays visible. -/
def ofRequest (n : UInt32) : CellSize :=
  if h : n = 0 then ⟨1, by decide⟩ else ⟨n, h⟩

def default : UInt32 := 24

def largest : UInt32 := 256

end CellSize

/-- Bound on width times height of a preview. -/
def pixelLimit : UInt64 := (1 : UInt64) <<< 26

def word? (n : Nat) : Option UInt64 :=
  if n < UInt64.size then some (UInt64.ofNat n) else none

def checkedAdd (a b : UInt64) : Option UInt64 :=
  if a.toNat + b.toNat < UInt64.size then some (a + b) else none

def checkedMul (a b : UInt64) : Option UInt64 :=
  if a.toNat * b.toNat < UInt64.size then some (a * b) else none

def narrow? (a : UInt64) : Option UInt32 :=
  if a.toNat < UInt32.size then some a.toUInt32 else none

structure Shape where
  rows : Nat
  cols : Nat
deriving DecidableEq, Repr

structure Extent (Word : Type) where
  width : Word
  height : Word
deriving DecidableEq, Repr

def span? (size : CellSize) (n : Nat) : Option UInt64 := do
  let n ← word? n
  let p ← checkedMul n (size.pixels.toUInt64 + 1)
  checkedAdd p 1

def panelExtent? (size : CellSize) (s : Shape) : Option (Extent UInt64) := do
  let width ← span? size s.cols
  let height ← span? size s.rows
  return ⟨width, height⟩

def narrowExtent? (e : Extent UInt64) : Option (Extent UInt32) := do
  let width ← narrow? e.width
  let height ← narrow? e.height
  return ⟨width, height⟩

/-- Height of the tallest panel; 1 without panels. -/
def tallest : List (Extent UInt64) → UInt64
  | [] => 1
  | [e] => e.height
  | e :: es => max e.height (tallest es)

structure Layout where
  panels : List (Extent UInt32)
  image : Extent UInt32
deriving DecidableEq, Repr

/-- The layout of panels of the given shapes; none if the image passes the pixel limit. -/
def layout? (size : CellSize) (shapes : List Shape) : Option Layout := do
  let panels ← shapes.mapM (panelExtent? size)
  let gaps := size.pixels.toUInt64 * UInt64.ofNat (shapes.length - 1)
  let width ← panels.foldlM (fun acc e => checkedAdd acc e.width) gaps
  let height := tallest panels
  let area ← checkedMul width height
  if area ≤ pixelLimit then
    let panels ← panels.mapM narrowExtent?
    let image ← narrowExtent? ⟨width, height⟩
    return ⟨panels, image⟩
  else none

end Preview
end GridPuzzles
