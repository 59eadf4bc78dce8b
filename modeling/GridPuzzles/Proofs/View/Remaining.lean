import GridPuzzles.Proofs.CommandLine.Reading
import GridPuzzles.Proofs.Preview.Drawable
import GridPuzzles.Proofs.Prune.Remainder
import GridPuzzles.Proofs.View.Effect

/-! Previews of what a pass leaves in its directory. A pass leaves no large task there, and the
panels of any other task stay within the pixel limit at every cell size that the command line
takes. -/
namespace GridPuzzles
namespace View

open CommandLine (Accepted)
open Preview (CellSize DrawError draw panels)
open Prune (documentNames largeNames pass taskAt?)

variable {t : FileTree} {c : Config} {p : Path} {l : Location} {task : Puzzle}
  {activity : Activity} {error : DrawError}

theorem taskAt?_of_load (hl : t.locate p = .ok l) (h : TaskSource.loadDocument t p = .ok task) :
    taskAt? t l = some task := by
  obtain ⟨k, content, hk, he⟩ := exists_file_of_load h
  rw [hl] at hk
  cases hk
  rw [TaskSource.loadDocument, FileTree.inspect_eq_ok.mpr ⟨l, hl, he⟩] at h
  simp only [TaskSource.parse_opening] at h
  rw [taskAt?, he]
  simp only
  split at h
  · rename_i hparse
    cases h
    rw [hparse]
    rfl
  · cases h

theorem load_ne_undrawable (t : FileTree) (p : Path) (error : DrawError) :
    TaskSource.loadDocument t p ≠ .error (.undrawable error) := by
  intro h
  rw [TaskSource.loadDocument] at h
  split at h
  · cases h
  · cases h
  · split at h <;> cases h

theorem exists_task_of_undrawable
    (h : (run t c).result = .error ⟨activity, .undrawable error⟩) :
    ∃ task, TaskSource.loadDocument t c.task = .ok task ∧
      draw (.ofRequest c.cellSize) task = .error error := by
  rw [run] at h
  split at h
  · cases h
  · simp only [TaskSource.documents] at h
    cases hload : TaskSource.loadDocument t c.task with
    | error fault =>
      rw [hload] at h
      cases h
      exact absurd hload (load_ne_undrawable t c.task error)
    | ok task =>
      refine ⟨task, rfl, ?_⟩
      simp only [hload, save] at h
      cases hdraw : draw (.ofRequest c.cellSize) task with
      | error e =>
        rw [hdraw] at h
        cases h
        rfl
      | ok img =>
        simp only [hdraw] at h
        cases hwrite : t.writeFile c.outputPath (.picture img) with
        | error e =>
          rw [hwrite] at h
          cases h
        | ok u =>
          rw [hwrite] at h
          cases h

theorem toNat_ofRequest_le {cellSize : UInt32} (h : Accepted cellSize) :
    (CellSize.ofRequest cellSize).pixels.toNat ≤ CellSize.largest.toNat := by
  rw [Preview.CellSize.toNat_ofRequest]
  exact Nat.max_le.mpr ⟨h.2, by decide⟩

theorem not_isLarge_of_load {n : Name} (hnone : largeNames t l = [])
    (hn : n ∈ documentNames t l) (hl : t.locate p = .ok (l ++ [n]))
    (h : TaskSource.loadDocument t p = .ok task) : ¬ task.isLarge := by
  intro hlarge
  have hmem : n ∈ largeNames t l := by
    rw [Prune.mem_largeNames_iff, taskAt?_of_load hl h]
    exact ⟨hn, hlarge⟩
  rw [hnone] at hmem
  cases hmem

/-- A task that is not large has a preview at every cell size that the command line takes, if both
splits have an example and all values shown have a color. So no task file that a successful pass
leaves is too large for its preview. -/
theorem kept_drawable :
    (∀ args c, CommandLine.parse args = .ok (.view c) → Accepted c.cellSize) ∧
    (∀ (cellSize : UInt32) (p : Puzzle) (train test : Example), Accepted cellSize →
      ¬ p.isLarge → p.train.head? = some train → p.test.head? = some test →
      (∀ g ∈ panels train test, ∀ cell ∈ g.cells, cell.value ≤ 9) →
      ∃ img, draw (.ofRequest cellSize) p = .ok img) ∧
    ∀ (order : Order) (skip : Bool) (t : FileTree) (dir : Path) (report : Prune.Report),
      t.WellNamed → (pass order .documents skip t dir).result = .ok report →
      ∃ l, (pass order .documents skip t dir).tree.NamesDirectory dir l ∧
        ∀ n ∈ documentNames (pass order .documents skip t dir).tree l, ∀ c : Config,
          (pass order .documents skip t dir).tree.locate c.task = .ok (l ++ [n]) →
          Accepted c.cellSize → ∀ activity cellSize,
            (run (pass order .documents skip t dir).tree c).result ≠
              .error ⟨activity, .undrawable (.tooLarge cellSize)⟩ := by
  refine ⟨fun _ _ h => CommandLine.accepted_of_parse h, ?_, ?_⟩
  · intro cellSize p train test hcellSize hp htrain htest hvalues
    exact Preview.exists_draw (toNat_ofRequest_le hcellSize) hp htrain htest hvalues
  · intro order skip t dir report hw h
    obtain ⟨l, hd, -, -, htree, -⟩ := Prune.ready_of_pass_ok hw h
    refine ⟨l, htree.namesDirectory hd, ?_⟩
    intro n hn c hl hcellSize activity cellSize hrun
    obtain ⟨task, hload, hdraw⟩ := exists_task_of_undrawable hrun
    have hp := not_isLarge_of_load htree.filesLeft.largeNames_eq_nil hn hl hload
    exact Preview.draw_ne_tooLarge (toNat_ofRequest_le hcellSize) hp cellSize hdraw

/-- A task with four grids that are as big as grids that are not large can be. -/
def fullPuzzle : Puzzle :=
  let grid := Grid.filled Grid.sizeLimit Grid.sizeLimit 9
  ⟨[⟨grid, grid⟩], [⟨grid, grid⟩]⟩

def largestConfig : Config := { tinyConfig with cellSize := CellSize.largest }

theorem kept_drawable_largest :
    CommandLine.parse ["view", "t.json", "--cell-size", "256"] = .ok (.view largestConfig) ∧
      Accepted CellSize.largest ∧ ¬ fullPuzzle.isLarge ∧
      (∃ img, draw (.ofRequest CellSize.largest) fullPuzzle = .ok img) ∧
      tinyTree.WellNamed ∧
      (pass .kept .documents false tinyTree ⟨ascii "."⟩).result =
        .ok ⟨⟨ascii "."⟩, 1, 0, [], []⟩ ∧
      ∀ activity cellSize,
        (run (pass .kept .documents false tinyTree ⟨ascii "."⟩).tree largestConfig).result ≠
          .error ⟨activity, .undrawable (.tooLarge cellSize)⟩ := by
  have hparse : CommandLine.parse ["view", "t.json", "--cell-size", "256"] =
      .ok (.view largestConfig) := by
    decide +kernel
  have hw : tinyTree.WellNamed := FileTree.wellNamed_of_allProper (by decide +kernel)
  have hpass : (pass .kept .documents false tinyTree ⟨ascii "."⟩).result =
      .ok ⟨⟨ascii "."⟩, 1, 0, [], []⟩ := by
    decide +kernel
  have hfull : ¬ fullPuzzle.isLarge := by decide
  obtain ⟨haccepted, hdraw, hkept⟩ := kept_drawable
  have hlargest : Accepted CellSize.largest := haccepted _ _ hparse
  obtain ⟨l, hd, hview⟩ := hkept .kept false tinyTree ⟨ascii "."⟩ _ hw hpass
  have hl : (pass .kept .documents false tinyTree ⟨ascii "."⟩).tree.locate ⟨ascii "."⟩ =
      .ok [] := by
    decide +kernel
  rw [hd.locate] at hl
  cases hl
  refine ⟨hparse, hlargest, hfull, ?_, hw, hpass, ?_⟩
  · exact hdraw CellSize.largest fullPuzzle _ _ hlargest hfull rfl rfl (by decide +kernel)
  · exact hview (ascii "t.json") (by decide +kernel) largestConfig (by decide +kernel) hlargest

end View
end GridPuzzles
