import GridPuzzles.Json.Record
import GridPuzzles.Json.Written
import GridPuzzles.Path
import GridPuzzles.Preview.Layout

/-! What to draw a preview of, and where to put it. -/
namespace GridPuzzles
namespace View

structure Config where
  task : Path
  output : Option Path
  cellSize : UInt32
deriving DecidableEq, Repr

namespace Config

def default : Config := ⟨⟨[]⟩, none, Preview.CellSize.default⟩

/-- Where the picture goes: by default the task path with the extension of a picture. -/
def outputPath (c : Config) : Path := c.output.getD (c.task.withExtension (ascii "png"))

structure Draft where
  task : Option Path
  output : Option (Option Path)
  cellSize : Option UInt32

def path : Json.Reader Path := (Json.Reader.text .path).map Path.mk

def fields : Json.Record Draft Config where
  name := "ViewConfig"
  fields :=
    [ ⟨"task", fun d => d.task.isSome, fun d => path.map fun p => { d with task := some p }⟩,
      ⟨"output", fun d => d.output.isSome,
        fun d => path.optional.map fun p => { d with output := some p }⟩,
      ⟨"cell_size", fun d => d.cellSize.isSome,
        fun d => Json.Reader.cellSize.map fun n => { d with cellSize := some n }⟩ ]
  blank := ⟨none, none, none⟩
  finish
    | ⟨none, _, _⟩ => .error (.missingField "task")
    | ⟨_, _, none⟩ => .error (.missingField "cell_size")
    | ⟨some task, output, some cellSize⟩ => .ok ⟨task, output.getD none, cellSize⟩

def reader : Json.Reader Config := fields.reader

def written (c : Config) : List UInt8 :=
  Json.writeObject
    [ ("task", Json.writeText c.task.bytes),
      ("output", Json.writeOptional (fun p => Json.writeText p.bytes) c.output),
      ("cell_size", decimal c.cellSize.toNat) ]

end Config
end View
end GridPuzzles
