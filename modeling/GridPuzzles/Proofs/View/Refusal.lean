import GridPuzzles.Proofs.FileTree.Destination
import GridPuzzles.Proofs.Puzzle.Loading
import GridPuzzles.Proofs.View.Effect

/-! When a preview is refused because it would take the place of its task. With the default output
path this is told by the path of the task alone: the two paths differ in their last component at
most, so they lead to one place only if they have the same components. -/
namespace GridPuzzles
namespace View

open FileTree (advance_injective destination_concat samePlace_eq_sameAs)

variable {t : FileTree} {task : Path} {cellSize : UInt32}

abbrev pictureExtension : Name := ascii "png"

/-- A path and the same path with the extension of a picture are found to be one place exactly if
they have the same components, whatever is there. -/
theorem samePlace_withExtension (t : FileTree) (task : Path) :
    t.samePlace task (task.withExtension pictureExtension) =
      task.sameAs (task.withExtension pictureExtension) := by
  apply samePlace_eq_sameAs
  intro hplace
  cases hname : task.fileName? with
  | none => rw [Path.withExtension_of_none hname]
  | some n =>
    have hnamed := Path.named_of_fileName? hname
    have hn := Path.component?_eq_name hnamed.ne_nil hnamed.ne_here hnamed.ne_up
    obtain ⟨c, hc, hout⟩ := Path.components_withExtension pictureExtension hname
      (by decide) (by decide)
    rw [Path.components_of_fileName? hname, hout, destination_concat, destination_concat] at hplace
    rw [Path.components_of_fileName? hname, hout, advance_injective hn hc hplace]

theorem loadDocument_ne_selfOverwrite {p out : Path} :
    TaskSource.loadDocument t p ≠ .error (.selfOverwrite out) := by
  intro h
  rcases TaskSource.fault_of_loadDocument h with ⟨e, he⟩ | ⟨failure, hfailure⟩
  · cases he
  · cases hfailure

theorem save_ne_selfOverwrite {size : Preview.CellSize} {puzzle : Puzzle} {p out : Path} :
    (save t size puzzle p).result ≠ .error (.selfOverwrite out) := by
  rw [save]
  split
  · simp
  · split <;> simp

theorem run_eq_selfOverwrite {c : Config} {activity : Activity} {out : Path}
    (h : (run t c).result = .error ⟨activity, .selfOverwrite out⟩) :
    t.samePlace c.task c.outputPath := by
  by_contra hsame
  rw [run, if_neg hsame] at h
  simp only [TaskSource.documents] at h
  split at h
  · rename_i fault hload
    simp only [Except.error.injEq, Failure.mk.injEq] at h
    exact loadDocument_ne_selfOverwrite (h.2 ▸ hload)
  · split at h
    · rename_i fault hsave
      simp only [Except.error.injEq, Failure.mk.injEq] at h
      exact save_ne_selfOverwrite (h.2 ▸ hsave)
    · cases h

/-- Without an output path, a run is refused for taking the place of its task if and only if the
default output path has the components of the task path; the tree does not matter. A run that is
refused so loads nothing, logs nothing and changes nothing. -/
theorem run_refused_iff (t : FileTree) (task : Path) (cellSize : UInt32) :
    let c : Config := ⟨task, none, cellSize⟩
    ((∃ activity out, (run t c).result = .error ⟨activity, .selfOverwrite out⟩) ↔
      c.outputPath.components = task.components) ∧
    (c.outputPath.components = task.components →
      run t c = ⟨t, [], .error ⟨.choosingOutput, .selfOverwrite c.outputPath⟩⟩) := by
  intro c
  have hsame : t.samePlace c.task c.outputPath ↔ c.outputPath.components = task.components := by
    have h := samePlace_withExtension t task
    change t.samePlace task (task.withExtension pictureExtension) ↔
      (task.withExtension pictureExtension).components = task.components
    rw [h, Path.sameAs, decide_eq_true_iff, eq_comm]
  have hrefused : c.outputPath.components = task.components →
      run t c = ⟨t, [], .error ⟨.choosingOutput, .selfOverwrite c.outputPath⟩⟩ := by
    intro h
    rw [run, if_pos (hsame.mpr h)]
  refine ⟨⟨?_, ?_⟩, hrefused⟩
  · rintro ⟨activity, out, h⟩
    exact hsame.mp (run_eq_selfOverwrite h)
  · intro h
    exact ⟨_, _, congrArg Run.result (hrefused h)⟩

theorem run_refused_iff_tiny :
    run tinyTree ⟨⟨ascii "./t.png/."⟩, none, 1⟩ =
        ⟨tinyTree, [], .error ⟨.choosingOutput, .selfOverwrite ⟨ascii "./t.png"⟩⟩⟩ ∧
      ¬ ∃ activity out, (run tinyTree tinyConfig).result = .error ⟨activity, .selfOverwrite out⟩ := by
  refine ⟨?_, ?_⟩
  · exact (run_refused_iff tinyTree ⟨ascii "./t.png/."⟩ 1).2 (by decide +kernel)
  · have hiff := (run_refused_iff tinyTree ⟨ascii "t.json"⟩ 1).1
    exact fun h => absurd (hiff.mp h) (by decide +kernel)

end View
end GridPuzzles
