import GridPuzzles.Proofs.View.Dataset
import GridPuzzles.Proofs.View.Refusal

/-! The default previews of the documents of one directory. Their names differ, as those of the
documents do, with one exception: a document that is called by the suffix alone has no extension,
so its preview is that of the document with the suffix twice. -/
namespace GridPuzzles
namespace View

open FileTree (advance_injective destination_concat)
open TaskSource (suffix)

variable {t : FileTree} {dir : Path} {n m : Name} {cellSize : UInt32}

def beside (dir : Path) (cellSize : UInt32) (n : Name) : Config := ⟨dir.join n, none, cellSize⟩

/-- The names of the two documents that have one preview. -/
def Twins (n m : Name) : Prop :=
  n = suffix ∧ m = suffix ++ suffix ∨ n = suffix ++ suffix ∧ m = suffix

instance (n m : Name) : Decidable (Twins n m) := inferInstanceAs (Decidable (_ ∨ _))

theorem splitName_document (h : suffix <:+ n) :
    n = suffix ∧ (Path.splitName n).1 = suffix ∨ n = (Path.splitName n).1 ++ suffix := by
  obtain ⟨stem, rfl⟩ := h
  by_cases hstem : stem = []
  · subst hstem
    exact .inl ⟨rfl, by decide⟩
  · have hsplit := Path.splitName_append (e := ascii "json") hstem (by decide)
    right
    change _ = (Path.splitName (stem ++ Path.dot :: ascii "json")).1 ++ suffix
    rw [hsplit]

/-- Documents with the same stem have the same name, but for the twins. -/
theorem splitName_eq_iff (hn : suffix <:+ n) (hm : suffix <:+ m) :
    (Path.splitName n).1 = (Path.splitName m).1 ↔ n = m ∨ Twins n m := by
  constructor
  · intro h
    rcases splitName_document hn with ⟨hn, hsn⟩ | hn <;>
      rcases splitName_document hm with ⟨hm, hsm⟩ | hm
    · exact .inl (hn.trans hm.symm)
    · rw [← h, hsn] at hm
      exact .inr (.inl ⟨hn, hm⟩)
    · rw [h, hsm] at hn
      exact .inr (.inr ⟨hn, hm⟩)
    · rw [h, ← hm] at hn
      exact .inl hn
  · rintro (rfl | ⟨rfl, rfl⟩ | ⟨rfl, rfl⟩)
    · rfl
    · decide
    · decide

theorem suffix_of_accepts (hn : n.Proper) (h : TaskSource.documents.accepts t (dir.join n)) :
    suffix <:+ n := by
  have haccepts : TaskSource.acceptsDocument t (dir.join n) := h
  rw [TaskSource.acceptsDocument, Path.fileName?_join dir hn, Option.any_some,
    Bool.and_eq_true] at haccepts
  exact (TaskSource.isTaskName_iff.mp haccepts.1).2

def lastPart (dir : Path) (n : Name) : Name := (dir.join n).withStem n pictureExtension

theorem lastPart_eq_iff (dir : Path) (hn : n.Proper) (hm : m.Proper) :
    lastPart dir n = lastPart dir m ↔ (Path.splitName n).1 = (Path.splitName m).1 := by
  have hpart : ∀ {k : Name}, k.Proper → lastPart dir k =
      if (Path.splitName k).1 = Path.here then Path.up
      else (Path.splitName k).1 ++ pictureSuffix := by
    intro k hk
    have hbytes : (dir.join k).bytes = (dir.join k).beforeName ++ k := by
      rw [Path.beforeName_join dir hk, Path.bytes_join]
    rw [lastPart, Path.withStem]
    simp only [hbytes, and_true]
    rfl
  have hup : ∀ stem : Name, Path.up ≠ stem ++ pictureSuffix := by
    intro stem h
    have hlength := congrArg List.length h
    have hfour : pictureSuffix.length = 4 := by decide
    rw [List.length_append, hfour] at hlength
    have htwo : Path.up.length = 2 := rfl
    omega
  rw [hpart hn, hpart hm]
  split
  · rename_i hsn
    split
    · rename_i hsm
      simp [hsn, hsm]
    · rename_i hsm
      simp [hsn, hup, Ne.symm hsm]
  · rename_i hsn
    split
    · rename_i hsm
      simp [hsm, hsn, Ne.symm (hup _)]
    · exact List.append_left_inj pictureSuffix

theorem components_beside (dir : Path) (cellSize : UInt32) (hn : n.Proper) :
    ∃ c, Path.component? (lastPart dir n) = some c ∧
      (beside dir cellSize n).outputPath.components = Path.components ⟨dir.lead⟩ ++ [c] := by
  have h := Path.components_withExtension pictureExtension (Path.fileName?_join dir hn)
    (by decide) (by decide)
  rwa [Path.beforeName_join dir hn] at h

theorem components_beside_eq_iff (dir : Path) (cellSize : UInt32) (hn : n.Proper) (hm : m.Proper)
    (hns : suffix <:+ n) (hms : suffix <:+ m) :
    (beside dir cellSize n).outputPath.components = (beside dir cellSize m).outputPath.components ↔
      n = m ∨ Twins n m := by
  obtain ⟨c, hc, hcn⟩ := components_beside dir cellSize hn
  obtain ⟨d, hd, hdm⟩ := components_beside dir cellSize hm
  rw [hcn, hdm, ← splitName_eq_iff hns hms, ← lastPart_eq_iff dir hn hm]
  constructor
  · intro h
    have hcd : c = d := by simpa using h
    exact Path.component?_injective hc (hcd ▸ hd)
  · intro h
    rw [h, hd, Option.some.injEq] at hc
    rw [hc]

theorem inspect_run_beside {e : Entry} (hn : n.Proper) (hm : m.Proper)
    (hne : (beside dir cellSize n).outputPath.components ≠
      (beside dir cellSize m).outputPath.components)
    (he : t.inspect (beside dir cellSize m).outputPath = .ok e) :
    (run t (beside dir cellSize n)).tree.inspect (beside dir cellSize m).outputPath = .ok e := by
  rcases run_cases t (beside dir cellSize n) with ⟨htree, -⟩ | ⟨-, -, -, img, -, -, hwrite⟩
  · rwa [htree]
  · obtain ⟨k, hw⟩ := FileTree.writes_of_writeFile hwrite
    obtain ⟨l, hl, hentry⟩ := FileTree.inspect_eq_ok.mp he
    have hlk : l ≠ k := by
      intro hlk
      obtain ⟨c, hc, hcn⟩ := components_beside dir cellSize hn
      obtain ⟨d, hd, hdm⟩ := components_beside dir cellSize hm
      have hk := FileTree.locate_eq_ok hw.locate
      rw [hw.extends_before.workingDirectory, hcn, destination_concat] at hk
      have hplace := FileTree.locate_eq_ok hl
      rw [hdm, destination_concat] at hplace
      rw [hcn, hdm, advance_injective hc hd (hk.symm.trans (hlk.symm.trans hplace))] at hne
      exact hne rfl
    exact FileTree.inspect_eq_ok.mpr
      ⟨l, hw.extends_before.locate hl, (hw.kept l hlk).trans hentry⟩

/-- The default output paths for two documents of a directory differ in their components, unless
the documents are the same or one is called by the suffix and the other by the suffix twice. So
the preview of one document stands as it is when that of another is drawn, but for these two. -/
theorem outputPath_beside (t : FileTree) (dir : Path) (cellSize : UInt32) (n m : Name)
    (hn : n.Proper) (hm : m.Proper) (hna : TaskSource.documents.accepts t (dir.join n))
    (hma : TaskSource.documents.accepts t (dir.join m)) :
    ((beside dir cellSize n).outputPath.sameAs (beside dir cellSize m).outputPath ↔
      n = m ∨ Twins n m) ∧
    (n ≠ m → ¬ Twins n m → ∀ e, t.inspect (beside dir cellSize m).outputPath = .ok e →
      (run t (beside dir cellSize n)).tree.inspect (beside dir cellSize m).outputPath = .ok e) := by
  have hiff := components_beside_eq_iff dir cellSize hn hm (suffix_of_accepts hn hna)
    (suffix_of_accepts hm hma)
  refine ⟨?_, ?_⟩
  · rw [Path.sameAs, decide_eq_true_iff, hiff]
  · intro hne htwins e he
    exact inspect_run_beside hn hm (fun h => (hiff.mp h).elim hne htwins) he

def siblingTree : FileTree where
  root := [(ascii "a.json", .file tinyDocument), (ascii "b.json", .file tinyDocument),
    (ascii "b.png", .file (.bytes []))]
  workingDirectory := []

theorem outputPath_beside_siblings :
    (run siblingTree (beside ⟨[]⟩ 1 (ascii "a.json"))).result = .ok ⟨ascii "a.png"⟩ ∧
      (run siblingTree (beside ⟨[]⟩ 1 (ascii "a.json"))).tree.inspect ⟨ascii "b.png"⟩ =
        .ok (.file (.bytes [])) := by
  refine ⟨by decide +kernel, ?_⟩
  exact (outputPath_beside siblingTree ⟨[]⟩ 1 (ascii "a.json") (ascii "b.json") (by decide)
    (by decide) (by decide +kernel) (by decide +kernel)).2 (by decide) (by decide) _ rfl

def twinTree : FileTree where
  root := [(suffix, .file tinyDocument), (suffix ++ suffix, .file tinyDocument)]
  workingDirectory := []

/-- Different documents of a directory can have the same default output path, and both are drawn
there. -/
theorem outputPath_twins :
    let first := beside ⟨[]⟩ 1 suffix
    let second := beside ⟨[]⟩ 1 (suffix ++ suffix)
    suffix ≠ suffix ++ suffix ∧ TaskSource.documents.accepts twinTree first.task ∧
      TaskSource.documents.accepts twinTree second.task ∧
      first.outputPath = second.outputPath ∧
      (run twinTree first).result = .ok ⟨ascii ".json.png"⟩ ∧
      (run (run twinTree first).tree second).result = .ok ⟨ascii ".json.png"⟩ := by
  decide +kernel

end View
end GridPuzzles
