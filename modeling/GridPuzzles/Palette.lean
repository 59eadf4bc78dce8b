/-! The ten cell colors of a preview, its grid lines and its background. -/
namespace GridPuzzles

structure Color where
  red : UInt8
  green : UInt8
  blue : UInt8
deriving DecidableEq, Inhabited, Repr

namespace Color

private def hexPair (b : UInt8) : List Char :=
  [Nat.digitChar (b.toNat / 16), Nat.digitChar (b.toNat % 16)]

def hex (c : Color) : String :=
  String.ofList (hexPair c.red ++ hexPair c.green ++ hexPair c.blue)

def gridLine : Color := ⟨0x55, 0x55, 0x55⟩

def background : Color := ⟨0xff, 0xff, 0xff⟩

def palette : List Color :=
  [ ⟨0x00, 0x00, 0x00⟩,  -- black
    ⟨0x00, 0x74, 0xd9⟩,  -- blue
    ⟨0xff, 0x41, 0x36⟩,  -- red
    ⟨0x2e, 0xcc, 0x40⟩,  -- green
    ⟨0xff, 0xdc, 0x00⟩,  -- yellow
    ⟨0xaa, 0xaa, 0xaa⟩,  -- grey
    ⟨0xf0, 0x12, 0xbe⟩,  -- magenta
    ⟨0xff, 0x85, 0x1b⟩,  -- orange
    ⟨0x7f, 0xdb, 0xff⟩,  -- sky
    ⟨0x87, 0x0c, 0x25⟩ ] -- maroon

/-- The color of a cell value; none above 9. -/
def ofCell? (value : UInt8) : Option Color := palette[value.toNat]?

end Color
end GridPuzzles
