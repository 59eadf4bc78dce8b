import GridPuzzles.Proofs.FileTree.Writing
import GridPuzzles.View.Run

/-! What drawing a preview does to the tree: nothing if it fails, and otherwise the picture stands
where the output path leads. -/
namespace GridPuzzles
namespace View

open FileTree (TooDeep)
open Preview (CellSize Image draw)

variable {t u : FileTree} {c : Config} {out : Path} {task : Puzzle} {img : Image}
  {l k : Location} {content : Content}

theorem exists_file_of_load {p : Path} (h : TaskSource.loadDocument t p = .ok task) :
    ∃ l content, t.locate p = .ok l ∧ t.entry? l = some (.file content) := by
  rw [TaskSource.loadDocument] at h
  split at h
  · cases h
  · cases h
  · rename_i content hinspect
    obtain ⟨l, hl, he⟩ := FileTree.inspect_eq_ok.mp hinspect
    exact ⟨l, content, hl, he⟩

/-- A run fails without a change, or it loads and draws the task and writes the picture. -/
theorem run_cases (t : FileTree) (c : Config) :
    ((run t c).tree = t ∧ ∃ failure, (run t c).result = .error failure) ∨
      ((run t c).result = .ok c.outputPath ∧ ¬ t.samePlace c.task c.outputPath ∧
        ∃ task img, TaskSource.loadDocument t c.task = .ok task ∧
          draw (.ofRequest c.cellSize) task = .ok img ∧
          t.writeFile c.outputPath (.picture img) = .ok (run t c).tree) := by
  by_cases hsame : t.samePlace c.task c.outputPath
  · left
    simp [run, hsame]
  · rw [run, if_neg hsame]
    simp only [TaskSource.documents]
    cases hload : TaskSource.loadDocument t c.task with
    | error fault => exact .inl ⟨rfl, _, rfl⟩
    | ok task =>
      simp only [save]
      cases hdraw : draw (.ofRequest c.cellSize) task with
      | error e => exact .inl ⟨rfl, _, rfl⟩
      | ok img =>
        simp only
        cases hwrite : t.writeFile c.outputPath (.picture img) with
        | error e => exact .inl ⟨rfl, _, rfl⟩
        | ok u => exact .inr ⟨rfl, hsame, task, img, rfl, hdraw, hwrite⟩

theorem inspect_of_run (h : (run t c).result = .ok out) :
    ∃ task img, TaskSource.loadDocument t c.task = .ok task ∧
      draw (.ofRequest c.cellSize) task = .ok img ∧
      (run t c).tree.inspect out = .ok (.file (.picture img)) := by
  rcases run_cases t c with ⟨-, failure, hresult⟩ |
    ⟨hresult, -, task, img, hload, hdraw, hwrite⟩
  · rw [hresult] at h
    cases h
  · rw [hresult] at h
    cases h
    obtain ⟨k, hw⟩ := FileTree.writes_of_writeFile hwrite
    exact ⟨task, img, hload, hdraw, FileTree.inspect_eq_ok.mpr ⟨k, hw.locate, hw.entry⟩⟩

/-- The preview of the task at the place `l` has been written to the place `k`, and nothing else
has changed. -/
structure Renders (t : FileTree) (c : Config) (l k : Location) (content : Content) (task : Puzzle)
    (img : Image) (u : FileTree) : Prop where
  task_locate : t.locate c.task = .ok l
  task_entry : t.entry? l = some (.file content)
  task_loaded : TaskSource.loadDocument t c.task = .ok task
  drawn : draw (.ofRequest c.cellSize) task = .ok img
  vacant : ¬ t.isDirectoryAt k
  output_locate : u.locate c.outputPath = .ok k
  output_entry : u.entry? k = some (.file (.picture img))
  kept : ∀ j, j ≠ k → u.entry? j = t.entry? j
  workingDirectory : u.workingDirectory = t.workingDirectory
  task_found : u.locate c.task = .ok l

theorem ne_of_writes (hsame : ¬ t.samePlace c.task c.outputPath) (hl : t.locate c.task = .ok l)
    (he : t.entry? l = some (.file content))
    (hw : t.Writes c.outputPath (.picture img) u k) (htask : ¬ t.TooDeep c.task)
    (hout : ¬ t.TooDeep c.outputPath) : l ≠ k := by
  rintro rfl
  have hk := hw.locate_before (by simp [he])
  exact hsame (FileTree.samePlace_of_locate hl hk htask hout)

/-- A run that fails changes nothing. A run that succeeds gives its output path, has drawn the task
there, and has changed no other entry; the task is still there with its content, unless its path
or the output path leads to a place that is too deep. -/
theorem run_effect (t : FileTree) (c : Config) :
    (∀ failure, (run t c).result = .error failure → (run t c).tree = t) ∧
    ∀ out, (run t c).result = .ok out →
      out = c.outputPath ∧ ∃ l k content task img,
        Renders t c l k content task img (run t c).tree ∧
        (¬ t.TooDeep c.task → ¬ t.TooDeep out →
          l ≠ k ∧ (run t c).tree.inspect c.task = .ok (.file content)) := by
  rcases run_cases t c with ⟨htree, failure, hresult⟩ |
    ⟨hresult, hsame, task, img, hload, hdraw, hwrite⟩
  · refine ⟨fun _ _ => htree, ?_⟩
    intro out hout
    rw [hresult] at hout
    cases hout
  · refine ⟨?_, ?_⟩
    · intro failure hfailure
      rw [hresult] at hfailure
      cases hfailure
    · intro out hout
      rw [hresult] at hout
      cases hout
      obtain ⟨l, content, hl, he⟩ := exists_file_of_load hload
      obtain ⟨k, hw⟩ := FileTree.writes_of_writeFile hwrite
      have hfound := hw.extends_before.locate hl
      refine ⟨rfl, l, k, content, task, img, ?_, ?_⟩
      · exact ⟨hl, he, hload, hdraw, hw.vacant, hw.locate, hw.entry, hw.kept,
          hw.extends_before.workingDirectory, hfound⟩
      · intro htask hout
        have hne := ne_of_writes hsame hl he hw htask hout
        exact ⟨hne, FileTree.inspect_eq_ok.mpr ⟨l, hfound, (hw.kept l hne).trans he⟩⟩

def tinyDocument : Content := .bytes (ascii "[[[[[0]],[[0]]]],[[[[0]],[[0]]]]]")

def tinyTree : FileTree where
  root := [(ascii "t.json", .file tinyDocument), (ascii "t.png", .file (.bytes []))]
  workingDirectory := []

def tinyConfig : Config := ⟨⟨ascii "t.json"⟩, none, 1⟩

theorem run_effect_tiny :
    (run tinyTree tinyConfig).result = .ok ⟨ascii "t.png"⟩ ∧
      (run tinyTree tinyConfig).tree.inspect ⟨ascii "t.json"⟩ = .ok (.file tinyDocument) := by
  have hresult : (run tinyTree tinyConfig).result = .ok ⟨ascii "t.png"⟩ := by decide +kernel
  obtain ⟨-, l, k, content, task, img, hrenders, hkept⟩ :=
    (run_effect tinyTree tinyConfig).2 _ hresult
  obtain ⟨-, hinspect⟩ := hkept (by decide +kernel) (by decide +kernel)
  have hl : tinyTree.locate tinyConfig.task = .ok [ascii "t.json"] := by decide +kernel
  rw [hrenders.task_locate] at hl
  cases hl
  have hcontent : tinyTree.entry? [ascii "t.json"] = some (.file tinyDocument) := rfl
  rw [hrenders.task_entry] at hcontent
  cases hcontent
  exact ⟨hresult, hinspect⟩

def longName : Name := List.replicate FileTree.nameLimit (byte 'x')

def chain : (depth : Nat) → Directory → Directory
  | 0, d => d
  | depth + 1, d => [(longName, .directory (chain depth d))]

theorem find?_chain (depth : Nat) (d : Directory) (l : Location) :
    Directory.find? (chain depth d) (List.replicate depth longName ++ l) = d.find? l := by
  induction depth with
  | zero => rfl
  | succ depth ih =>
    rw [chain, List.replicate_succ, List.cons_append, Directory.find?_cons,
      Directory.lookup_cons_eq, if_pos rfl, Option.bind_some, Node.find?_directory, ih]

/-- A task in a working directory whose path from the root is too long. -/
def deepTree : FileTree where
  root := chain 16 [(ascii "t.json", .file tinyDocument)]
  workingDirectory := List.replicate 16 longName

def respelledConfig : Config := ⟨⟨ascii "t.json"⟩, some ⟨ascii "./t.json"⟩, 1⟩

def isPicture : Entry → Bool
  | .file (.picture _) => true
  | _ => false

/-- In a place that is too deep, a task is replaced by its own preview. -/
theorem run_replaces_task :
    ¬ ∀ (t : FileTree) (c : Config) (out : Path) (content : Content),
      (run t c).result = .ok out → t.inspect c.task = .ok (.file content) →
      (run t c).tree.inspect c.task = .ok (.file content) := by
  intro hclaim
  have hresult : (run deepTree respelledConfig).result = .ok ⟨ascii "./t.json"⟩ := by
    decide +kernel
  have hlocate : deepTree.locate respelledConfig.task =
      .ok (List.replicate 16 longName ++ [ascii "t.json"]) := by
    decide +kernel
  have hentry : deepTree.entry? (List.replicate 16 longName ++ [ascii "t.json"]) =
      some (.file tinyDocument) := by
    rw [FileTree.entry?, deepTree, find?_chain]
    rfl
  have hpicture : ((run deepTree respelledConfig).tree.inspect respelledConfig.task).toOption.any
      isPicture := by
    decide +kernel
  rw [hclaim _ _ _ _ hresult (FileTree.inspect_eq_ok.mpr ⟨_, hlocate, hentry⟩)] at hpicture
  cases hpicture

end View
end GridPuzzles
