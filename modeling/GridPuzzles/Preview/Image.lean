import GridPuzzles.Palette

/-! Pixel images and the rectangles painted on them. -/
namespace GridPuzzles
namespace Preview

/-- A rectangle of one color; `right` and `bottom` lie just outside it. -/
structure Stroke where
  left : UInt32
  right : UInt32
  top : UInt32
  bottom : UInt32
  color : Color
deriving DecidableEq, Repr

def Stroke.covers (s : Stroke) (x y : Nat) : Bool :=
  s.left.toNat ≤ x && x < s.right.toNat && (s.top.toNat ≤ y && y < s.bottom.toNat)

structure Image where
  width : UInt32
  height : UInt32
  pixels : Array Color
  size_eq : pixels.size = width.toNat * height.toNat

namespace Image

def blank (width height : UInt32) (c : Color) : Image :=
  ⟨width, height, Array.replicate (width.toNat * height.toNat) c, Array.size_replicate⟩

def pixel? (img : Image) (x y : Nat) : Option Color :=
  if x < img.width.toNat then img.pixels[y * img.width.toNat + x]? else none

def row (img : Image) (y : Nat) : Array Color :=
  img.pixels.extract (y * img.width.toNat) ((y + 1) * img.width.toNat)

def fillRun (c : Color) (start : Nat) : (count : Nat) → Array Color → Array Color
  | 0, pixels => pixels
  | n + 1, pixels => fillRun c (start + 1) n (pixels.setIfInBounds start c)

def fillRows (c : Color) (width left count top : Nat) : (rows : Nat) → Array Color → Array Color
  | 0, pixels => pixels
  | n + 1, pixels =>
    fillRows c width left count (top + 1) n (fillRun c (top * width + left) count pixels)

@[simp] theorem size_fillRun (c : Color) (start count : Nat) (pixels : Array Color) :
    (fillRun c start count pixels).size = pixels.size := by
  induction count generalizing start pixels with
  | zero => rfl
  | succ n ih => simp [fillRun, ih]

@[simp] theorem size_fillRows (c : Color) (width left count top rows : Nat)
    (pixels : Array Color) :
    (fillRows c width left count top rows pixels).size = pixels.size := by
  induction rows generalizing top pixels with
  | zero => rfl
  | succ n ih => simp [fillRows, ih]

/-- Paints the part of a stroke that lies inside the image. -/
def paint : Image → Stroke → Image
  | ⟨width, height, pixels, h⟩, s =>
    let right := min s.right.toNat width.toNat
    let bottom := min s.bottom.toNat height.toNat
    ⟨width, height,
      fillRows s.color width.toNat s.left.toNat (right - s.left.toNat)
        s.top.toNat (bottom - s.top.toNat) pixels,
      by simpa using h⟩

def paintAll (img : Image) (strokes : List Stroke) : Image := strokes.foldl paint img

end Image
end Preview
end GridPuzzles
