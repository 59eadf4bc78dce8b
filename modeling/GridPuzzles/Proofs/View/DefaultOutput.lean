import GridPuzzles.Proofs.Path.Parent
import GridPuzzles.Proofs.View.Refusal

/-! Where the default output path leads. It is a file beside the task, called by the stem of the
task's name and the suffix of pictures, however many slashes and dots stand behind that name; the
only other outcome is the directory above, of a stem that is a dot. -/
namespace GridPuzzles
namespace View

/-- The default output path of a task with a name leads to a sibling of the task, called by the stem
of its name and the suffix of pictures, or, for a stem that is a dot with nothing behind the name,
to the directory above. A path without a name is its own. -/
theorem outputPath_sibling (task : Path) (cellSize : UInt32) :
    let c : Config := ⟨task, none, cellSize⟩
    (∀ n, task.fileName? = some n → ∃ parent stem,
      task.parent? = some parent ∧ task.stem? = some stem ∧ Path.IsStem n stem ∧
      c.outputPath.components = Path.components (parent.join
        (if stem = Path.here ∧ n <:+ task.bytes then Path.up else stem ++ ascii ".png"))) ∧
    (task.fileName? = none → c.outputPath = task) := by
  intro c
  have houtput : c.outputPath = task.withExtension pictureExtension := Option.getD_none
  rw [houtput]
  constructor
  case right => exact Path.withExtension_of_none
  intro n hname
  have hparent := Path.parent?_of_fileName? hname
  have hstem : task.stem? = some (Path.splitName n).1 := by rw [Path.stem?, hname]; rfl
  refine ⟨_, (Path.splitName n).1, hparent, hstem, Path.isStem_splitName n, ?_⟩
  have hpart : task.withStem n pictureExtension =
      if (Path.splitName n).1 = Path.here ∧ n <:+ task.bytes then Path.up
      else (Path.splitName n).1 ++ ascii ".png" := by
    simp only [Path.withStem, Path.suffix_bytes_iff hname]
    rfl
  have hfree := (Path.withStem_part pictureExtension hname (by decide) (by decide)).1
  obtain ⟨d, hd, hcomponents⟩ := Path.components_withExtension pictureExtension hname
    (by decide) (by decide)
  rw [hpart] at hfree hd
  rw [Path.components_join_part _ hfree hd, Path.components_trimEnd, List.reverse_reverse,
    hcomponents]

theorem outputPath_sibling_spelled :
    (⟨⟨ascii "data//a.b.json/./"⟩, none, 1⟩ : Config).outputPath.components =
        Path.components ⟨ascii "data/a.b.png"⟩ ∧
      (⟨⟨ascii "data/..json/"⟩, none, 1⟩ : Config).outputPath.components =
        Path.components ⟨ascii "data/..png"⟩ ∧
      (⟨⟨ascii "data/..json"⟩, none, 1⟩ : Config).outputPath.components =
        Path.components ⟨ascii "data/.."⟩ := by
  have hsibling (task parent : Path) (n stem : Name) (hname : task.fileName? = some n)
      (hparent : task.parent? = some parent) (hstem : task.stem? = some stem) :
      (⟨task, none, 1⟩ : Config).outputPath.components = Path.components (parent.join
        (if stem = Path.here ∧ n <:+ task.bytes then Path.up else stem ++ ascii ".png")) := by
    obtain ⟨q, s, hq, hs, -, hcomponents⟩ := (outputPath_sibling task 1).1 n hname
    rw [hparent, Option.some.injEq] at hq
    rw [hstem, Option.some.injEq] at hs
    rw [hq, hs]
    exact hcomponents
  refine ⟨?_, ?_, ?_⟩
  · exact hsibling _ ⟨ascii "data"⟩ (ascii "a.b.json") (ascii "a.b") (by decide) (by decide)
      (by decide)
  · exact hsibling _ ⟨ascii "data"⟩ (ascii "..json") Path.here (by decide) (by decide) (by decide)
  · exact hsibling _ ⟨ascii "data"⟩ (ascii "..json") Path.here (by decide) (by decide) (by decide)

end View
end GridPuzzles
