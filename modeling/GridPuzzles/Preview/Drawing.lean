import GridPuzzles.Puzzle
import GridPuzzles.Preview.Image
import GridPuzzles.Preview.Layout

/-! The preview of a task: its first training and first test example as four panels,
train input, train output, test input and test output from left to right. -/
namespace GridPuzzles
namespace Preview

inductive DrawError where
  | noExample (split : Split)
  | tooLarge (cellSize : UInt32)
  | noColor (value : UInt8)
deriving DecidableEq, Repr

def DrawError.message : DrawError → String
  | .noExample split => "Task has no " ++ split.name ++ " example to render"
  | .tooLarge cellSize =>
    "Preview at cell size " ++ toString cellSize ++ " exceeds the " ++ toString pixelLimit ++
      " pixel limit"
  | .noColor value => "Cell value " ++ toString value ++ " has no palette color (expected 0-9)"

def shape (g : Grid) : Shape := ⟨g.height, g.width⟩

/-- The grid lines of a panel, painted under all of its cells. -/
def frame (x : UInt32) (e : Extent UInt32) : Stroke :=
  ⟨x, x + e.width, 0, e.height, Color.gridLine⟩

def square (size : CellSize) (x : UInt32) (c : Cell) (color : Color) : Stroke :=
  let stride := size.pixels + 1
  let left := x + UInt32.ofNat c.col * stride + 1
  let top := UInt32.ofNat c.row * stride + 1
  ⟨left, left + size.pixels, top, top + size.pixels, color⟩

def squareOf (size : CellSize) (x : UInt32) (c : Cell) : Except DrawError Stroke :=
  match Color.ofCell? c.value with
  | some color => .ok (square size x c color)
  | none => .error (.noColor c.value)

def strokes (size : CellSize) : (x : UInt32) → List (Grid × Extent UInt32) →
    Except DrawError (List Stroke)
  | _, [] => .ok []
  | x, (g, e) :: rest => do
    let squares ← g.cells.mapM (squareOf size x)
    let others ← strokes size (x + (e.width + size.pixels)) rest
    return frame x e :: squares ++ others

def panels (train test : Example) : List Grid :=
  [train.input, train.output, test.input, test.output]

def drawPanels (size : CellSize) (grids : List Grid) : Except DrawError Image :=
  match layout? size (grids.map shape) with
  | none => .error (.tooLarge size.pixels)
  | some l => do
    let painted ← strokes size 0 (grids.zip l.panels)
    return (Image.blank l.image.width l.image.height Color.background).paintAll painted

def draw (size : CellSize) (p : Puzzle) : Except DrawError Image :=
  match p.train, p.test with
  | [], _ => .error (.noExample .train)
  | _ :: _, [] => .error (.noExample .test)
  | train :: _, test :: _ => drawPanels size (panels train test)

end Preview
end GridPuzzles
