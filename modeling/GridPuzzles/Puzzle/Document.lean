import GridPuzzles.Json.Record
import GridPuzzles.Json.Written
import GridPuzzles.Puzzle

/-! Task files: how grids, examples and tasks are read from and written to documents. -/
namespace GridPuzzles
open Json (Reader pairRecord)

namespace Grid

def reader : Reader Grid :=
  (Reader.sequence (Reader.sequence Reader.cell)).refine fun rows =>
    match ofRows rows with
    | .ok g => .ok g
    | .error e => .error (.ragged e)

def written (g : Grid) : List UInt8 :=
  Json.writeList (g.rows.map fun r => Json.writeList (r.map fun v => decimal v.toNat))

end Grid

namespace Example

def record : Json.Record (Option Grid × Option Grid) (Grid × Grid) :=
  pairRecord "Example" ("input", Grid.reader) ("output", Grid.reader)

def reader : Reader Example := record.reader.map fun (input, output) => ⟨input, output⟩

def written (e : Example) : List UInt8 :=
  Json.writeObject [("input", e.input.written), ("output", e.output.written)]

end Example

namespace Puzzle

def record : Json.Record (Option (List Example) × Option (List Example))
    (List Example × List Example) :=
  pairRecord "Task" ("train", Reader.sequence Example.reader)
    ("test", Reader.sequence Example.reader)

def reader : Reader Puzzle := record.reader.map fun (train, test) => ⟨train, test⟩

def written (p : Puzzle) : List UInt8 :=
  Json.writeObject [("train", Json.writeList (p.train.map Example.written)),
    ("test", Json.writeList (p.test.map Example.written))]

end Puzzle
end GridPuzzles
