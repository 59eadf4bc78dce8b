import GridPuzzles.Proofs.FileTree.Destination
import GridPuzzles.Proofs.Prune.Listing

/-! Which entries of a directory are listed as task files. The listing looks at the path of each
entry, which is the directory and the name of the entry however the directory is spelled; so it
finds each file of a task name once, and a directory only if its path is too long to be asked
about. -/
namespace GridPuzzles
namespace Prune

open FileTree (TooLong)

variable {t : FileTree} {dir : Path} {l : Location} {n : Name}

theorem isTaskFile_iff (hd : t.NamesDirectory dir l) (hn : n.Proper) :
    isTaskFile t dir n ↔
      TaskSource.isTaskName n ∧ (¬ t.isDirectoryAt (l ++ [n]) ∨ TooLong (dir.join n)) := by
  rw [isTaskFile, hd.isDirectory_join hn, Bool.and_eq_true, Bool.not_eq_true',
    Bool.and_eq_false_iff, Bool.not_eq_false', decide_eq_true_iff, Bool.not_eq_true, or_comm]

/-- The names of the entries of a directory that are listed as task files, each once. -/
structure Discovers (t : FileTree) (dir : Path) (l : Location) (names : List Name) : Prop where
  nodup : (names.map dir.join).Nodup
  /-- Files of a task name, and directories of such a name with a path that is too long. -/
  mem_iff : ∀ n, n ∈ names ↔ (t.entry? (l ++ [n])).isSome ∧ TaskSource.isTaskName n ∧
    (¬ t.isDirectoryAt (l ++ [n]) ∨ TooLong (dir.join n))
  fileName : ∀ n ∈ names, (dir.join n).fileName? = some n
  leads : ∀ n ∈ names, t.LeadsTo (dir.join n) (l ++ [n])
  located : ∀ n ∈ names, ¬ TooLong (dir.join n) → t.locate (dir.join n) = .ok (l ++ [n])

theorem discovers_filter (order : Order) (hw : t.WellNamed) (hd : t.NamesDirectory dir l) :
    Discovers t dir l ((order.arrange (t.namesAt l)).filter (isTaskFile t dir)) := by
  have hmem (n : Name) : n ∈ (order.arrange (t.namesAt l)).filter (isTaskFile t dir) ↔
      n ∈ t.namesAt l ∧ isTaskFile t dir n := by
    rw [List.mem_filter, (order.arrange_perm _).mem_iff]
  have hproper {n : Name} (hn : n ∈ (order.arrange (t.namesAt l)).filter (isTaskFile t dir)) :
      n.Proper :=
    hw l n ((hmem n).mp hn).1
  have hsome {n : Name} (hn : n ∈ (order.arrange (t.namesAt l)).filter (isTaskFile t dir)) :
      (t.entry? (l ++ [n])).isSome :=
    FileTree.mem_namesAt.mp ((hmem n).mp hn).1
  constructor
  case nodup =>
    apply Path.nodup_map_join dir fun _ => hproper
    exact ((order.arrange_perm _).nodup_iff.mpr (t.nodup_namesAt l)).filter _
  case mem_iff =>
    intro n
    rw [hmem, ← FileTree.mem_namesAt, and_congr_right_iff]
    exact fun hn => isTaskFile_iff hd (hw l n hn)
  case fileName => exact fun n hn => Path.fileName?_join dir (hproper hn)
  case leads => exact fun n hn => hd.leadsTo_join (hproper hn) (hsome hn)
  case located =>
    intro n hn hshort
    apply (hd.leadsTo_join (hproper hn) (hsome hn)).locate
    rw [FileTree.checkPath_join hd.zero_notMem (hproper hn), if_neg hshort]

/-- Listing the task files of a directory, however it is spelled, finds each file whose name is text
and ends in the suffix exactly once, and nothing else but directories with such a name and a path
that is too long. It fails if and only if the path is not that of a directory. -/
theorem taskFiles_discovers (hw : t.WellNamed) (order : Order) (dir : Path) :
    (taskFiles order .documents t dir = .error (.directoryNotFound dir) ↔ ¬ t.isDirectory dir) ∧
    (∀ fault, taskFiles order .documents t dir = .error fault →
      fault = .directoryNotFound dir) ∧
    ∀ l, t.NamesDirectory dir l → ∃ names,
      taskFiles order .documents t dir = .ok (names.map dir.join) ∧ Discovers t dir l names := by
  have hlisted (l : Location) (hd : t.NamesDirectory dir l) : ∃ names,
      taskFiles order .documents t dir = .ok (names.map dir.join) ∧ Discovers t dir l names :=
    ⟨_, taskFiles_eq order hw hd, discovers_filter order hw hd⟩
  by_cases hdir : t.isDirectory dir
  · obtain ⟨l, hd⟩ := FileTree.namesDirectory_of_isDirectory hdir
    obtain ⟨names, hnames, -⟩ := hlisted l hd
    refine ⟨?_, ?_, hlisted⟩
    · simp [hnames, hdir]
    · simp [hnames]
  · have hmissing : taskFiles order .documents t dir = .error (.directoryNotFound dir) :=
      if_pos (by simpa using hdir)
    refine ⟨?_, ?_, hlisted⟩
    · simp [hmissing, hdir]
    · intro fault hfault
      rw [hmissing, Except.error.injEq] at hfault
      exact hfault.symm

/-- A directory with files and a directory of task names, and two other files, of which one has the
suffix behind a byte that is no text. -/
def namesakeTree : FileTree where
  root :=
    [(ascii "d", .directory
      [(ascii "a.json", .file (.bytes [])), (ascii ".json", .file (.bytes [])),
        (ascii "b.json.bak", .file (.bytes [])), (ascii "x.json", .directory []),
        (0xff :: ascii ".json", .file (.bytes []))])]
  workingDirectory := []

theorem wellNamed_namesakeTree : namesakeTree.WellNamed :=
  FileTree.wellNamed_of_allProper (by decide +kernel)

theorem taskFiles_discovers_spelled :
    let dir : Path := ⟨ascii "d//../d/."⟩
    namesakeTree.WellNamed ∧ namesakeTree.NamesDirectory dir [ascii "d"] ∧
      (∃ names : List Name, taskFiles .kept .documents namesakeTree dir = .ok (names.map dir.join) ∧
        ascii ".json" ∈ names ∧ ascii "b.json.bak" ∉ names ∧ ascii "x.json" ∉ names ∧
        0xff :: ascii ".json" ∉ names) ∧
      namesakeTree.locate (dir.join (ascii "a.json")) = .ok [ascii "d", ascii "a.json"] := by
  intro dir
  have hw := wellNamed_namesakeTree
  have hd : namesakeTree.NamesDirectory dir [ascii "d"] := ⟨by decide +kernel, by decide +kernel⟩
  obtain ⟨names, hlisted, hnames⟩ := (taskFiles_discovers hw .kept dir).2.2 _ hd
  have ha : ascii "a.json" ∈ names := (hnames.mem_iff _).mpr (by decide +kernel)
  refine ⟨hw, hd, ⟨names, hlisted, ?_, ?_, ?_, ?_⟩, hnames.located _ ha (by decide)⟩
  · exact (hnames.mem_iff _).mpr (by decide +kernel)
  · exact fun h => absurd ((hnames.mem_iff _).mp h) (by decide +kernel)
  · exact fun h => absurd ((hnames.mem_iff _).mp h) (by decide +kernel)
  · exact fun h => absurd ((hnames.mem_iff _).mp h) (by decide +kernel)

def slashed (i : Nat) : Path := ⟨ascii "d" ++ List.replicate i Path.slash⟩

theorem length_slashed (i : Nat) : (slashed i).bytes.length = 1 + i := by
  rw [slashed, List.length_append, List.length_replicate]
  rfl

theorem namesDirectory_slashed {i : Nat} (hi : i < FileTree.pathLimit) :
    namesakeTree.NamesDirectory (slashed i) [ascii "d"] := by
  have hplain : namesakeTree.NamesDirectory ⟨ascii "d"⟩ [ascii "d"] := ⟨by decide, by decide⟩
  have hshort : ¬ TooLong (slashed i) := by
    rw [TooLong, length_slashed]
    omega
  exact hplain.append_slashes i hshort

theorem tooLong_slashed_join {i : Nat} (hi : FileTree.pathLimit < i + 1 + n.length) :
    TooLong ((slashed i).join n) := by
  have hlength := Path.length_add_le_length_join (slashed i) n
  rw [length_slashed] at hlength
  rw [TooLong]
  omega

/-- A directory is listed as a task file if its path is too long. -/
theorem taskFiles_lists_directory :
    ¬ ∀ (order : Order) (t : FileTree) (dir : Path) (l : Location) (files : List Path),
      t.WellNamed → t.NamesDirectory dir l → taskFiles order .documents t dir = .ok files →
      ∀ n, dir.join n ∈ files → ¬ t.isDirectoryAt (l ++ [n]) := by
  intro hclaim
  have hw := wellNamed_namesakeTree
  have hd : namesakeTree.NamesDirectory (slashed 4090) [ascii "d"] :=
    namesDirectory_slashed (by decide)
  have hlong : TooLong ((slashed 4090).join (ascii "x.json")) := tooLong_slashed_join (by decide)
  have htask : isTaskFile namesakeTree (slashed 4090) (ascii "x.json") :=
    (isTaskFile_iff hd (by decide)).mpr ⟨by decide +kernel, .inr hlong⟩
  have hlisted : ascii "x.json" ∈
      (Order.kept.arrange (namesakeTree.namesAt [ascii "d"])).filter
        (isTaskFile namesakeTree (slashed 4090)) :=
    List.mem_filter.mpr ⟨by decide +kernel, htask⟩
  exact hclaim .kept _ _ _ _ hw hd (taskFiles_eq .kept hw hd) _
    (List.mem_map_of_mem hlisted) (by decide +kernel)

end Prune
end GridPuzzles
