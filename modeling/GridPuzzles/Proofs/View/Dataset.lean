import GridPuzzles.Proofs.Path.Extension
import GridPuzzles.Proofs.Prune.Dataset
import GridPuzzles.Proofs.View.Effect

/-! Drawing a preview beside its task leaves the task files alone, all of them and wherever they
are. -/
namespace GridPuzzles
namespace View

open FileTree (isDirectoryAt_iff)
open Prune (SameDataset SameOrder SameOutcome ensureDirectory largeDirectory largeName pass)

variable {t : FileTree} {task : Path} {cellSize : UInt32} {l k : Location} {n : Name}

def pictureSuffix : List UInt8 := Path.dot :: ascii "png"

theorem not_picture_of_document (h : TaskSource.suffix <:+ n) : ¬ pictureSuffix <:+ n := by
  intro hpicture
  have hends : pictureSuffix <:+ TaskSource.suffix :=
    List.suffix_of_suffix_length_le hpicture h (by decide)
  revert hends
  decide

theorem not_picture_largeName : ¬ pictureSuffix <:+ largeName := by decide

theorem picture_of_locateParent
    (h : t.locateParent (task.withExtension (ascii "png")) = .ok (k, .name n))
    (hslash : (task.withExtension (ascii "png")).endsInSlash = false)
    (hlen : n.length ≤ FileTree.nameLimit) : n.Proper ∧ pictureSuffix <:+ n := by
  obtain ⟨hcheck, -, -, hlast⟩ := FileTree.locateParent_eq_ok.mp h
  obtain ⟨-, hhere, hup⟩ := Path.last_step_of_lastOf hlast
  obtain ⟨q, hq, hfree, hne⟩ := Path.exists_join_of_lastOf hlast hslash
  have hzero : 0 ∉ n := by
    intro h0
    apply (FileTree.checkPath_eq_ok.mp hcheck).1
    rw [hq, Path.bytes_join]
    exact List.mem_append_right _ h0
  have hproper : n.Proper := ⟨hne, hfree, hzero, hhere, hup, hlen⟩
  exact ⟨hproper, Path.suffix_of_withExtension hproper (by decide) hq⟩

/-- A run without an output path changes nothing, or it writes a file with the name of a
picture. -/
theorem run_beside (t : FileTree) (task : Path) (cellSize : UInt32) :
    (run t ⟨task, none, cellSize⟩).tree = t ∨
      ∃ (k : Location) (n : Name) (content : Content), n.Proper ∧ pictureSuffix <:+ n ∧
        t.isDirectoryAt k ∧ ¬ t.isDirectoryAt (k ++ [n]) ∧
        (run t ⟨task, none, cellSize⟩).tree = t.put (k ++ [n]) (.file content) := by
  rcases run_cases t ⟨task, none, cellSize⟩ with ⟨htree, -⟩ | ⟨-, -, -, img, -, -, hwrite⟩
  · exact .inl htree
  · obtain ⟨k, n, hparent, hslash, hlen, hvacant, htree⟩ := FileTree.writeFile_eq_ok hwrite
    obtain ⟨hproper, hpicture⟩ := picture_of_locateParent hparent hslash hlen
    exact .inr ⟨k, n, _, hproper, hpicture, FileTree.isDirectoryAt_of_locateParent hparent,
      hvacant, htree⟩

theorem entry?_run (h : ¬ pictureSuffix <:+ n) :
    (run t ⟨task, none, cellSize⟩).tree.entry? (l ++ [n]) = t.entry? (l ++ [n]) := by
  rcases run_beside t task cellSize with htree | ⟨k, m, content, -, hpicture, hk, hvacant, htree⟩
  · rw [htree]
  · rw [htree, FileTree.entry?_put_file hk hvacant, if_neg]
    intro he
    have hnm : n = m := by simpa using (List.append_inj' he rfl).2
    exact h (hnm ▸ hpicture)

theorem isDirectoryAt_run :
    (run t ⟨task, none, cellSize⟩).tree.isDirectoryAt l = t.isDirectoryAt l := by
  rcases run_beside t task cellSize with htree | ⟨k, n, content, -, -, hk, hvacant, htree⟩
  · rw [htree]
  · rw [htree, Bool.eq_iff_iff]
    refine ⟨?_, (FileTree.extends_put_file hk hvacant).directory l⟩
    rw [isDirectoryAt_iff, isDirectoryAt_iff, FileTree.entry?_put_file hk hvacant]
    by_cases hl : l = k ++ [n]
    · simp [hl]
    · rw [if_neg hl]
      exact id

theorem workingDirectory_run :
    (run t ⟨task, none, cellSize⟩).tree.workingDirectory = t.workingDirectory := by
  rcases run_beside t task cellSize with htree | ⟨k, n, content, -, -, -, -, htree⟩
  · rw [htree]
  · rw [htree]
    rfl

theorem wellNamed_run (hw : t.WellNamed) : (run t ⟨task, none, cellSize⟩).tree.WellNamed := by
  rcases run_beside t task cellSize with htree | ⟨k, m, content, hm, -, hk, hvacant, htree⟩
  · rwa [htree]
  · intro l n hn
    rw [htree, FileTree.mem_namesAt, FileTree.entry?_put_file hk hvacant] at hn
    by_cases he : l ++ [n] = k ++ [m]
    · have hnm : n = m := by simpa using (List.append_inj' he rfl).2
      rwa [hnm]
    · rw [if_neg he] at hn
      exact hw l n (FileTree.mem_namesAt.mpr hn)

theorem sameDataset_run (t : FileTree) (task : Path) (cellSize : UInt32) :
    SameDataset t (run t ⟨task, none, cellSize⟩).tree where
  document _ _ hn := entry?_run (not_picture_of_document (TaskSource.isTaskName_iff.mp hn).2)
  large _ := entry?_run not_picture_largeName
  directory _ := isDirectoryAt_run
  workingDirectory := workingDirectory_run

/-- Drawing a preview without an output path, whether it succeeds or not, leaves every entry alone
whose name ends as that of a task file does. A pass that lists the task files in the same order then
does what it would have done without the preview. -/
theorem run_keeps_dataset (t : FileTree) (task : Path) (cellSize : UInt32) :
    let u := (run t ⟨task, none, cellSize⟩).tree
    (∀ l n, TaskSource.suffix <:+ n → u.entry? (l ++ [n]) = t.entry? (l ++ [n])) ∧
    (t.WellNamed → ∀ (order other : Order) (skip : Bool) (dir : Path),
      SameOrder order other dir (ensureDirectory t (largeDirectory dir)).tree
        (ensureDirectory u (largeDirectory dir)).tree →
      SameOutcome t u (pass order .documents skip t dir) (pass other .documents skip u dir)) := by
  refine ⟨fun l n hn => entry?_run (not_picture_of_document hn), ?_⟩
  intro hw order other skip dir horder
  exact Prune.pass_of_sameDataset (sameDataset_run t task cellSize) hw (wellNamed_run hw) skip
    horder

/-- A document of a large task that can be drawn: its first grid has eleven rows. -/
def tallDocument : Content :=
  .bytes (ascii "[[[[[],[],[],[],[],[],[],[],[],[],[]],[]]],[[[],[]]]]")

def tallTree : FileTree where
  root := [(ascii "a.json", .file tallDocument), (ascii "b.json", .file (.bytes (ascii "[")))]
  workingDirectory := []

theorem run_keeps_dataset_tall :
    let u := (run tallTree ⟨⟨ascii "a.json"⟩, none, 1⟩).tree
    let after := pass .kept .documents true u ⟨ascii "."⟩
    (run tallTree ⟨⟨ascii "a.json"⟩, none, 1⟩).result = .ok ⟨ascii "a.png"⟩ ∧
      u.entry? [ascii "a.json"] = some (.file tallDocument) ∧ tallTree.WellNamed ∧
      SameOutcome tallTree u (pass .kept .documents true tallTree ⟨ascii "."⟩) after ∧
      after.result =
        .ok ⟨⟨ascii "."⟩, 2, 1, [⟨ascii "./large/a.json"⟩], [⟨ascii "./b.json"⟩]⟩ := by
  intro u after
  have hresult : (run tallTree ⟨⟨ascii "a.json"⟩, none, 1⟩).result = .ok ⟨ascii "a.png"⟩ := by
    decide +kernel
  have hw : tallTree.WellNamed := FileTree.wellNamed_of_allProper (by decide +kernel)
  have hbefore : (pass .kept .documents true tallTree ⟨ascii "."⟩).result =
      .ok ⟨⟨ascii "."⟩, 2, 1, [⟨ascii "./large/a.json"⟩], [⟨ascii "./b.json"⟩]⟩ := by
    decide +kernel
  obtain ⟨hkept, hpass⟩ := run_keeps_dataset tallTree ⟨ascii "a.json"⟩ 1
  have horder : SameOrder .kept .kept ⟨ascii "."⟩
      (ensureDirectory tallTree (largeDirectory ⟨ascii "."⟩)).tree
      (ensureDirectory u (largeDirectory ⟨ascii "."⟩)).tree := by
    have hfiles : taskFiles .kept .documents
        (ensureDirectory tallTree (largeDirectory ⟨ascii "."⟩)).tree ⟨ascii "."⟩ =
        .ok [⟨ascii "./a.json"⟩, ⟨ascii "./b.json"⟩] := by
      decide +kernel
    have hfiles' : taskFiles .kept .documents
        (ensureDirectory u (largeDirectory ⟨ascii "."⟩)).tree ⟨ascii "."⟩ =
        .ok [⟨ascii "./a.json"⟩, ⟨ascii "./b.json"⟩] := by
      decide +kernel
    intro files files' h h' _
    rw [hfiles] at h
    rw [hfiles'] at h'
    cases h
    cases h'
    rfl
  have hsame := hpass hw .kept .kept true ⟨ascii "."⟩ horder
  have hentry := hkept [] (ascii "a.json") ⟨ascii "a", rfl⟩
  exact ⟨hresult, hentry, hw, hsame, hsame.result.trans hbefore⟩

end View
end GridPuzzles
