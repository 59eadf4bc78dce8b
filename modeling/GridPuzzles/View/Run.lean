import GridPuzzles.TaskSource
import GridPuzzles.View.Config

/-! Drawing the preview of a task file. -/
namespace GridPuzzles
namespace View

open Preview (CellSize draw)

def save (t : FileTree) (size : CellSize) (task : Puzzle) (out : Path) : Run Fault Unit :=
  match draw size task with
  | .error e => ⟨t, [], .error (.undrawable e)⟩
  | .ok img =>
    match t.writeFile out (.picture img) with
    | .error e => ⟨t, [], .error (.unwritable out e)⟩
    | .ok u => ⟨u, [.wrote img.width img.height out], .ok ()⟩

/-- Draws the preview of a task file and gives its path. Nothing is done if the preview would
take the place of the task. -/
def run (t : FileTree) (c : Config) : Run Failure Path :=
  let out := c.outputPath
  if t.samePlace c.task out then ⟨t, [], .error ⟨.choosingOutput, .selfOverwrite out⟩⟩
  else
    let loaded := TaskSource.documents.load 0 t c.task
    match loaded.result with
    | .error fault => ⟨loaded.tree, loaded.events, .error ⟨.loading c.task, fault⟩⟩
    | .ok task =>
      let saved := save loaded.tree (.ofRequest c.cellSize) task out
      let events := loaded.events ++ saved.events
      match saved.result with
      | .error fault => ⟨saved.tree, events, .error ⟨.previewing c.task, fault⟩⟩
      | .ok () => ⟨saved.tree, events ++ [.rendered c.task out], .ok out⟩

end View
end GridPuzzles
