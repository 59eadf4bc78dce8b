import GridPuzzles.Proofs.Prune.Effect

/-! When a pass succeeds. The tree before the pass decides it, and the order in which the task
files are handled has no part in it: no file that is moved gets another one stuck or unstuck. -/
namespace GridPuzzles
namespace Prune

open FileTree (TooLong)

variable {skip : Bool} {t u : FileTree} {dir : Path} {l : Location} {n : Name}
  {order : Order} {report : Report}

def Pass.Succeeds (p : Pass) : Prop := ∃ report, p.result = .ok report

/-- No request of a pass is refused for the length of its path. -/
structure Fits (t : FileTree) (dir : Path) (l : Location) : Prop where
  large : ¬ TooLong (largeDirectory dir)
  listed : ∀ n ∈ t.namesAt l, TaskSource.isTaskName n → ¬ TooLong (dir.join n)
  moved : ∀ n ∈ largeNames t l, ¬ TooLong ((largeDirectory dir).join n)

/-- The tree has all that a pass over the directory at a place needs: no file stands where large
tasks go, all task files hold tasks or may be skipped, and no directory has the name of a large
task where it goes. -/
structure Ready (skip : Bool) (t : FileTree) (l : Location) : Prop where
  vacant : ∀ c, t.entry? (l ++ [largeName]) ≠ some (.file c)
  parsed : skip = true ∨ ∀ n ∈ documentNames t l, (taskAt? t (l ++ [n])).isSome
  free : ∀ n ∈ largeNames t l, ¬ t.isDirectoryAt (l ++ [largeName, n])

theorem mem_documentNames :
    n ∈ documentNames t l ↔
      TaskSource.isTaskName n ∧ ∃ c, t.entry? (l ++ [n]) = some (.file c) := by
  rw [documentNames, List.mem_filter, FileTree.mem_namesAt, Bool.and_eq_true,
    FileTree.isDirectoryAt]
  cases t.entry? (l ++ [n]) with
  | none => simp
  | some e => cases e <;> simp

theorem mem_largeNames_iff :
    n ∈ largeNames t l ↔
      n ∈ documentNames t l ∧ (taskAt? t (l ++ [n])).any Puzzle.isLarge := by
  rw [largeNames, List.mem_filter]

theorem largeFault?_eq_none :
    largeFault? t dir l = none ↔
      ¬ TooLong (largeDirectory dir) ∧ ∀ c, t.entry? (l ++ [largeName]) ≠ some (.file c) := by
  rw [largeFault?]
  by_cases hlong : TooLong (largeDirectory dir)
  · simp [hlong]
  · cases t.entry? (l ++ [largeName]) with
    | none => simp [hlong]
    | some e => cases e <;> simp [hlong]

theorem moveFault?_eq_none :
    moveFault? t dir l n = none ↔
      ¬ TooLong ((largeDirectory dir).join n) ∧ ¬ t.isDirectoryAt (l ++ [largeName, n]) := by
  rw [moveFault?]
  by_cases hlong : TooLong ((largeDirectory dir).join n)
  · simp [hlong]
  · by_cases hdir : t.isDirectoryAt (l ++ [largeName, n]) <;> simp [hlong, hdir]

/-- A file ends the pass if it holds no task and may not be skipped, or if it holds a large task
that cannot be moved. -/
theorem fault?_eq_none_iff {c : Content} (skip : Bool) (hd : t.NamesDirectory dir l)
    (hn : n.Proper) (hshort : ¬ TooLong (dir.join n)) (hc : t.entry? (l ++ [n]) = some (.file c)) :
    (fate skip t dir l n).fault? = none ↔
      (skip = true ∨ (taskAt? t (l ++ [n])).isSome) ∧
        ((taskAt? t (l ++ [n])).any Puzzle.isLarge → moveFault? t dir l n = none) := by
  rw [fate_of_file skip hd hn hshort hc, taskAt?, hc]
  simp only
  cases Puzzle.reader.parse c.stored.data.toList with
  | error failure => cases skip <;> simp [Fate.fault?, Except.toOption]
  | ok task =>
    by_cases hlarge : task.isLarge
    · cases moveFault? t dir l n <;> simp [hlarge, Fate.fault?, Except.toOption]
    · simp [hlarge, Fate.fault?, Except.toOption]

theorem not_tooLong_of_fault? (hd : t.NamesDirectory dir l) (hn : n.Proper)
    (hmem : n ∈ t.namesAt l) (hs : TaskSource.isTaskName n)
    (hf : ∀ m ∈ taskFileNames t dir l, (fate skip t dir l m).fault? = none) :
    ¬ TooLong (dir.join n) := by
  intro hlong
  have htask : isTaskFile t dir n := by
    rw [isTaskFile, hd.isDirectory_join hn, hs]
    simp [hlong]
  exact (exists_file_of_fault? hd hn htask (hf n (List.mem_filter.mpr ⟨hmem, htask⟩))).1 hlong

theorem fits_ready_of_fault? (hw : t.WellNamed) (hd : t.NamesDirectory dir l)
    (hl : largeFault? t dir l = none)
    (hf : ∀ n ∈ taskFileNames t dir l, (fate skip t dir l n).fault? = none) :
    Fits t dir l ∧ Ready skip t l := by
  obtain ⟨hlarge, hvacant⟩ := largeFault?_eq_none.mp hl
  have hdocument : ∀ n ∈ documentNames t l,
      (skip = true ∨ (taskAt? t (l ++ [n])).isSome) ∧
        ((taskAt? t (l ++ [n])).any Puzzle.isLarge → moveFault? t dir l n = none) := by
    intro n hn
    have hnames := (List.mem_filter.mp hn).1
    obtain ⟨hs, c, hc⟩ := mem_documentNames.mp hn
    have hproper := hw l n hnames
    rw [← taskFileNames_eq hw hd hf] at hn
    exact (fault?_eq_none_iff skip hd hproper
      (not_tooLong_of_fault? hd hproper hnames hs hf) hc).mp (hf n hn)
  have hmove : ∀ n ∈ largeNames t l, moveFault? t dir l n = none := by
    intro n hn
    obtain ⟨hmem, htask⟩ := mem_largeNames_iff.mp hn
    exact (hdocument n hmem).2 htask
  constructor
  · constructor
    case large => exact hlarge
    case listed => exact fun n hn hs => not_tooLong_of_fault? hd (hw l n hn) hn hs hf
    case moved => exact fun n hn => (moveFault?_eq_none.mp (hmove n hn)).1
  · constructor
    case vacant => exact hvacant
    case free => exact fun n hn => (moveFault?_eq_none.mp (hmove n hn)).2
    case parsed =>
      cases skip with
      | true => exact Or.inl rfl
      | false => exact Or.inr fun n hn => (hdocument n hn).1.resolve_left Bool.false_ne_true

theorem Fits.exists_file (hfits : Fits t dir l) (hw : t.WellNamed) (hd : t.NamesDirectory dir l)
    (hn : n ∈ taskFileNames t dir l) :
    ¬ TooLong (dir.join n) ∧ ∃ c, t.entry? (l ++ [n]) = some (.file c) := by
  obtain ⟨hnames, htask⟩ := List.mem_filter.mp hn
  have hproper := hw l n hnames
  rw [isTaskFile, Bool.and_eq_true] at htask
  have hshort := hfits.listed n hnames htask.1
  refine ⟨hshort, ?_⟩
  have hdir := htask.2
  rw [hd.isDirectory_join hproper, FileTree.isDirectoryAt] at hdir
  rw [FileTree.mem_namesAt] at hnames
  cases he : t.entry? (l ++ [n]) with
  | none => simp [he] at hnames
  | some e =>
    cases e with
    | file c => exact ⟨c, rfl⟩
    | directory => simp [he, hshort] at hdir

theorem fault?_of_fits_ready (hw : t.WellNamed) (hd : t.NamesDirectory dir l)
    (hfits : Fits t dir l) (hready : Ready skip t l) (hn : n ∈ taskFileNames t dir l) :
    (fate skip t dir l n).fault? = none := by
  obtain ⟨hshort, c, hc⟩ := hfits.exists_file hw hd hn
  obtain ⟨hnames, htask⟩ := List.mem_filter.mp hn
  have hdocument : n ∈ documentNames t l :=
    mem_documentNames.mpr ⟨isTaskName_of_isTaskFile htask, c, hc⟩
  rw [fault?_eq_none_iff skip hd (hw l n hnames) hshort hc]
  constructor
  · exact hready.parsed.imp_right fun h => h n hdocument
  · intro hlarge
    have hmem := mem_largeNames_iff.mpr ⟨hdocument, hlarge⟩
    exact moveFault?_eq_none.mpr ⟨hfits.moved n hmem, hready.free n hmem⟩

theorem pass_of_ready (order : Order) (hw : t.WellNamed) (hd : t.NamesDirectory dir l)
    (hfits : Fits t dir l) (hready : Ready skip t l) :
    Partitioned t l (largeNames t l) (pass order .documents skip t dir).tree ∧
      ∃ report, (pass order .documents skip t dir).result = .ok report ∧
        report.Agrees skip t dir l :=
  pass_of_fault?_eq_none order hw hd (largeFault?_eq_none.mpr ⟨hfits.large, hready.vacant⟩)
    fun _ hn => fault?_of_fits_ready hw hd hfits hready hn

theorem ready_of_pass_ok (hw : t.WellNamed)
    (h : (pass order .documents skip t dir).result = .ok report) :
    ∃ l, t.NamesDirectory dir l ∧ Fits t dir l ∧ Ready skip t l ∧
      Partitioned t l (largeNames t l) (pass order .documents skip t dir).tree ∧
      report.Agrees skip t dir l := by
  obtain ⟨l, hd, hl, hf⟩ := exists_of_pass_ok hw h
  obtain ⟨hfits, hready⟩ := fits_ready_of_fault? hw hd hl hf
  obtain ⟨htree, report', hresult, hagrees⟩ := pass_of_ready order hw hd hfits hready
  rw [h] at hresult
  cases hresult
  exact ⟨l, hd, hfits, hready, htree, hagrees⟩

/-- A pass that has succeeded: the directory was ready, its large tasks have been moved and
reported, and nothing else has changed. -/
structure Done (skip : Bool) (t : FileTree) (dir : Path) (l : Location) (report : Report)
    (u : FileTree) : Prop where
  names : t.NamesDirectory dir l
  fits : Fits t dir l
  ready : Ready skip t l
  tree : Partitioned t l (largeNames t l) u
  agrees : report.Agrees skip t dir l

theorem done_of_pass_ok (hw : t.WellNamed) (hd : t.NamesDirectory dir l)
    (h : (pass order .documents skip t dir).result = .ok report) :
    Done skip t dir l report (pass order .documents skip t dir).tree := by
  obtain ⟨k, hk, hfits, hready, htree, hagrees⟩ := ready_of_pass_ok hw h
  have hkl : k = l := Except.ok.inj (hk.locate.symm.trans hd.locate)
  subst hkl
  exact ⟨hd, hfits, hready, htree, hagrees⟩

theorem exists_done_of_ready (order : Order) (hw : t.WellNamed) (hd : t.NamesDirectory dir l)
    (hfits : Fits t dir l) (hready : Ready skip t l) :
    ∃ report, (pass order .documents skip t dir).result = .ok report ∧
      Done skip t dir l report (pass order .documents skip t dir).tree := by
  obtain ⟨htree, report, hresult, hagrees⟩ := pass_of_ready order hw hd hfits hready
  exact ⟨report, hresult, hd, hfits, hready, htree, hagrees⟩

/-- A pass succeeds exactly if its path names a directory that is ready for it and no path is too
long. So it succeeds in every order or in none. -/
theorem pass_succeeds_iff (order : Order) (skip : Bool) (dir : Path) (hw : t.WellNamed) :
    ((pass order .documents skip t dir).Succeeds ↔
      ∃ l, t.NamesDirectory dir l ∧ Fits t dir l ∧ Ready skip t l) ∧
    ∀ other : Order, (pass other .documents skip t dir).Succeeds ↔
      (pass order .documents skip t dir).Succeeds := by
  have hiff (o : Order) : (pass o .documents skip t dir).Succeeds ↔
      ∃ l, t.NamesDirectory dir l ∧ Fits t dir l ∧ Ready skip t l := by
    constructor
    · rintro ⟨report, h⟩
      obtain ⟨l, hd, hfits, hready, -⟩ := ready_of_pass_ok hw h
      exact ⟨l, hd, hfits, hready⟩
    · rintro ⟨l, hd, hfits, hready⟩
      obtain ⟨-, report, hresult, -⟩ := pass_of_ready o hw hd hfits hready
      exact ⟨report, hresult⟩
  exact ⟨hiff order, fun other => (hiff other).trans (hiff order).symm⟩

theorem pass_succeeds_iff_mixed :
    mixedTree.WellNamed ∧
      (∃ l, mixedTree.NamesDirectory mixedDirectory l ∧ Fits mixedTree mixedDirectory l ∧
        Ready true mixedTree l) ∧
      ¬ (pass .kept .documents false mixedTree mixedDirectory).Succeeds := by
  have hw : mixedTree.WellNamed := FileTree.wellNamed_of_allProper (by decide +kernel)
  refine ⟨hw, ?_, ?_⟩
  · have h : (pass .kept .documents true mixedTree mixedDirectory).result = .ok mixedReport := by
      decide +kernel
    exact (pass_succeeds_iff .kept true mixedDirectory hw).1.mp ⟨mixedReport, h⟩
  · intro h
    obtain ⟨l, hd, -, hready⟩ := (pass_succeeds_iff .kept false mixedDirectory hw).1.mp h
    have hl : mixedTree.locate mixedDirectory = .ok [ascii "d"] := by decide +kernel
    rw [hd.locate] at hl
    cases hl
    have hmem : ascii "c.json" ∈ documentNames mixedTree [ascii "d"] := by decide +kernel
    have hnone : (taskAt? mixedTree [ascii "d", ascii "c.json"]).isSome = false := by
      decide +kernel
    have hsome := hready.parsed.resolve_left Bool.false_ne_true _ hmem
    exact Bool.false_ne_true (hnone.symm.trans hsome)

end Prune
end GridPuzzles
