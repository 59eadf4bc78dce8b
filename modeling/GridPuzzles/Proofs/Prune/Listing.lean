import GridPuzzles.Proofs.Prune.Files

/-! A whole pass: the directory for large tasks is made first, then the task files are listed, in
any order, and handled one after the other. -/
namespace GridPuzzles
namespace Prune

open FileTree (TooLong isDirectoryAt_iff)

variable {skip : Bool} {t u : FileTree} {dir : Path} {l : Location} {n : Name} {order : Order}
  {source : TaskSource} {files : List Path} {fault : Fault}

theorem listTaskFiles_of_ok (h : taskFiles order source t dir = .ok files) :
    listTaskFiles order source t dir = ⟨t, [.found files.length dir], .ok files⟩ := by
  rw [listTaskFiles, h]

theorem listTaskFiles_of_error (h : taskFiles order source t dir = .error fault) :
    listTaskFiles order source t dir = ⟨t, [], .error fault⟩ := by
  rw [listTaskFiles, h]

/-- A pass has listed files before the first load, in the tree `u` that it has found or made. -/
structure Lists (order : Order) (source : TaskSource) (t : FileTree) (dir : Path) (u : FileTree)
    (files : List Path) : Prop where
  isDirectory : t.isDirectory dir
  made : (ensureDirectory t (largeDirectory dir)).result = .ok ()
  tree_eq : (ensureDirectory t (largeDirectory dir)).tree = u
  taskFiles_eq : taskFiles order source u dir = .ok files

theorem pass_of_lists (h : Lists order source t dir u files) :
    pass order source skip t dir =
      (passFiles source skip dir 0 u files).framed [.found files.length dir] := by
  have hdir : (!t.isDirectory dir) = false := by simp [h.isDirectory]
  rw [pass, hdir]
  simp only [h.made, h.tree_eq, listTaskFiles_of_ok h.taskFiles_eq]
  rfl

theorem pass_of_not_isDirectory (h : ¬ t.isDirectory dir) :
    pass order source skip t dir = .stop t [] [] (.directoryNotFound dir) :=
  if_pos (by simpa using h)

theorem pass_of_ensureDirectory_error (hd : t.isDirectory dir)
    (h : (ensureDirectory t (largeDirectory dir)).result = .error fault) :
    pass order source skip t dir =
      .stop (ensureDirectory t (largeDirectory dir)).tree [] [] fault := by
  rw [pass, hd]
  simp only [h]
  rfl

/-- A pass that has not listed any files ends with nothing logged and nothing loaded. -/
theorem pass_of_not_lists (skip : Bool)
    (h : ¬ ∃ u files, Lists order source t dir u files) :
    ∃ u fault, pass order source skip t dir = .stop u [] [] fault ∧
      (u = t ∨ u = (ensureDirectory t (largeDirectory dir)).tree) := by
  by_cases hdir : t.isDirectory dir
  · cases hmade : (ensureDirectory t (largeDirectory dir)).result with
    | error fault => exact ⟨_, fault, pass_of_ensureDirectory_error hdir hmade, .inr rfl⟩
    | ok _ =>
      cases hfiles : taskFiles order source (ensureDirectory t (largeDirectory dir)).tree dir with
      | error fault =>
        refine ⟨_, fault, ?_, .inr rfl⟩
        rw [pass, hdir]
        simp only [hmade, listTaskFiles_of_error hfiles]
        rfl
      | ok files => exact absurd ⟨_, files, hdir, hmade, rfl, hfiles⟩ h
  · exact ⟨t, _, pass_of_not_isDirectory hdir, .inl rfl⟩

def isTaskFile (t : FileTree) (dir : Path) (n : Name) : Bool :=
  TaskSource.isTaskName n && !t.isDirectory (dir.join n)

theorem isTaskName_of_isTaskFile (h : isTaskFile t dir n) : TaskSource.isTaskName n :=
  (Bool.and_eq_true_iff.mp h).1

def taskFileNames (t : FileTree) (dir : Path) (l : Location) : List Name :=
  (t.namesAt l).filter (isTaskFile t dir)

/-- Why the directory for large tasks cannot be had. -/
def largeFault? (t : FileTree) (dir : Path) (l : Location) : Option Fault :=
  if TooLong (largeDirectory dir) then some (.disk (largeDirectory dir) .nameTooLong)
  else
    match t.entry? (l ++ [largeName]) with
    | some (.file _) => some (.disk (largeDirectory dir) .alreadyExists)
    | _ => none

/-- The task files of a directory in the order in which a pass handles them. -/
def listed (order : Order) (t : FileTree) (dir : Path) (l : Location) : List Name :=
  (order.arrange ((ensureDirectory t (largeDirectory dir)).tree.namesAt l)).filter
    (isTaskFile t dir)

theorem ne_largeName (h : TaskSource.isTaskName n) : n ≠ largeName := by
  rintro rfl
  have hsuffix := (TaskSource.isTaskName_iff.mp h).2
  revert hsuffix
  decide

theorem acceptsDocument_join (hn : n.Proper) :
    TaskSource.acceptsDocument t (dir.join n) = isTaskFile t dir n := by
  rw [TaskSource.acceptsDocument, Path.fileName?_join dir hn, Option.any_some, isTaskFile]

/-- The listing looks at paths, and finds the names in them again. -/
theorem taskFiles_eq (order : Order) (hw : t.WellNamed) (hd : t.NamesDirectory dir l) :
    taskFiles order .documents t dir =
      .ok (((order.arrange (t.namesAt l)).filter (isTaskFile t dir)).map dir.join) := by
  have hfilter : (order.arrange (t.namesAt l)).filter (TaskSource.acceptsDocument t ∘ dir.join) =
      (order.arrange (t.namesAt l)).filter (isTaskFile t dir) := by
    apply List.filter_congr
    intro n hn
    exact acceptsDocument_join (hw l n ((order.arrange_perm _).mem_iff.mp hn))
  rw [taskFiles, hd.isDirectory_eq, hd.readDirectory_eq, ← hfilter, ← List.filter_map]
  rfl

theorem Partitioned.of_directory (h : t.entry? (l ++ [largeName]) = some .directory) :
    Partitioned t l [] t := by
  constructor <;> simp [h]

theorem Partitioned.of_put (hl : t.isDirectoryAt l) (h : t.entry? (l ++ [largeName]) = none) :
    Partitioned t l [] (t.put (l ++ [largeName]) (.directory [])) := by
  have hvacant : ¬ t.isDirectoryAt (l ++ [largeName]) := by
    rw [isDirectoryAt_iff, h]
    simp
  have hput (k : Location) : FileTree.entry? (t.put (l ++ [largeName]) (.directory [])) k =
      if k = l ++ [largeName] then some .directory else t.entry? k :=
    FileTree.entry?_put_leaf (fun _ _ => rfl) hl hvacant k
  constructor
  case file => simp
  case free => simp
  case vacant => simp [h]
  case gone => simp
  case arrived => simp
  case workingDirectory => exact fun _ => rfl
  case large =>
    rw [hput, if_pos rfl]
  case kept =>
    intro k hk _
    rw [hput, if_neg hk]

theorem ensureDirectory_of_largeFault? (hd : t.NamesDirectory dir l)
    (h : largeFault? t dir l = some fault) :
    ensureDirectory t (largeDirectory dir) = ⟨t, [], .error fault⟩ := by
  rw [largeFault?, largeDirectory] at h
  rw [ensureDirectory, largeDirectory, FileTree.makeDirectories_join hd largeName_proper]
  by_cases hlong : TooLong (dir.join largeName)
  · rw [if_pos hlong] at h
    cases h
    rw [if_pos hlong]
  · rw [if_neg hlong] at h
    rw [if_neg hlong]
    cases he : t.entry? (l ++ [largeName]) with
    | none => simp [he] at h
    | some e =>
      cases e with
      | directory => simp [he] at h
      | file c =>
        rw [he] at h
        cases h
        rfl

theorem ensureDirectory_large (hd : t.NamesDirectory dir l) (h : largeFault? t dir l = none) :
    ¬ TooLong (largeDirectory dir) ∧
      ∃ u, ensureDirectory t (largeDirectory dir) = ⟨u, [], .ok ()⟩ ∧ Partitioned t l [] u := by
  rw [largeFault?, largeDirectory] at h
  rw [ensureDirectory, largeDirectory, FileTree.makeDirectories_join hd largeName_proper]
  by_cases hlong : TooLong (dir.join largeName)
  · rw [if_pos hlong] at h
    cases h
  · rw [if_neg hlong] at h
    rw [if_neg hlong]
    refine ⟨hlong, ?_⟩
    cases he : t.entry? (l ++ [largeName]) with
    | none => exact ⟨_, rfl, Partitioned.of_put hd.directory he⟩
    | some e =>
      cases e with
      | directory => exact ⟨t, rfl, Partitioned.of_directory he⟩
      | file c =>
        rw [he] at h
        cases h

theorem isTaskFile_eq (h : Partitioned t l [] u) (hd : t.NamesDirectory dir l) (hn : n.Proper) :
    isTaskFile u dir n = isTaskFile t dir n := by
  unfold isTaskFile
  cases hs : TaskSource.isTaskName n with
  | false => rfl
  | true =>
    rw [(h.namesDirectory hd).isDirectory_join hn, hd.isDirectory_join hn, FileTree.isDirectoryAt,
      h.entry?_stays List.not_mem_nil (ne_largeName hs), FileTree.isDirectoryAt]

theorem mem_namesAt_iff (h : Partitioned t l [] u) (hl : n ≠ largeName) :
    n ∈ u.namesAt l ↔ n ∈ t.namesAt l := by
  rw [FileTree.mem_namesAt, FileTree.mem_namesAt, h.entry?_stays List.not_mem_nil hl]

theorem listed_perm (order : Order) (hd : t.NamesDirectory dir l) (h : largeFault? t dir l = none) :
    (listed order t dir l).Perm (taskFileNames t dir l) := by
  obtain ⟨-, u, hmade, hu⟩ := ensureDirectory_large hd h
  have hperm := (order.arrange_perm (u.namesAt l)).filter (isTaskFile t dir)
  rw [listed, hmade]
  apply hperm.trans
  rw [taskFileNames, List.perm_ext_iff_of_nodup ((u.nodup_namesAt l).filter _)
    ((t.nodup_namesAt l).filter _)]
  intro n
  rw [List.mem_filter, List.mem_filter, and_congr_left_iff]
  intro ht
  exact mem_namesAt_iff hu (ne_largeName (isTaskName_of_isTaskFile ht))

theorem mem_taskFileNames (order : Order) (hd : t.NamesDirectory dir l)
    (h : largeFault? t dir l = none) (hn : n ∈ listed order t dir l) : n ∈ taskFileNames t dir l :=
  (listed_perm order hd h).mem_iff.mp hn

theorem nodup_listed (order : Order) (hd : t.NamesDirectory dir l)
    (h : largeFault? t dir l = none) : (listed order t dir l).Nodup :=
  (listed_perm order hd h).nodup_iff.mpr ((t.nodup_namesAt l).filter _)

theorem proper_of_mem_taskFileNames (hw : t.WellNamed) (hn : n ∈ taskFileNames t dir l) :
    n.Proper ∧ n ≠ largeName := by
  obtain ⟨hnames, htask⟩ := List.mem_filter.mp hn
  exact ⟨hw l n hnames, ne_largeName (isTaskName_of_isTaskFile htask)⟩

theorem taskFiles_documents (hw : t.WellNamed) (hd : t.NamesDirectory dir l)
    (hu : Partitioned t l [] u)
    (hmade : (ensureDirectory t (largeDirectory dir)).tree = u) :
    taskFiles order .documents u dir = .ok ((listed order t dir l).map dir.join) := by
  have hwu := hu.wellNamed hw
  have hlisted : (order.arrange (u.namesAt l)).filter (isTaskFile u dir) =
      listed order t dir l := by
    rw [listed, hmade]
    apply List.filter_congr
    intro n hn
    exact isTaskFile_eq hu hd (hwu l n ((order.arrange_perm _).mem_iff.mp hn))
  rw [taskFiles_eq order hwu (hu.namesDirectory hd), hlisted]

theorem pass_of_largeFault? (hd : t.NamesDirectory dir l)
    (h : largeFault? t dir l = some fault) :
    pass order source skip t dir = .stop t [] [] fault := by
  have hmade := ensureDirectory_of_largeFault? hd h
  rw [pass_of_ensureDirectory_error hd.isDirectory_eq (by rw [hmade]), hmade]

theorem lists_documents (order : Order) (hw : t.WellNamed) (hd : t.NamesDirectory dir l)
    (h : largeFault? t dir l = none) :
    ∃ u, Lists order .documents t dir u ((listed order t dir l).map dir.join) ∧
      Partitioned t l [] u := by
  obtain ⟨-, u, hmade, hu⟩ := ensureDirectory_large hd h
  have htree : (ensureDirectory t (largeDirectory dir)).tree = u := by rw [hmade]
  exact ⟨u, ⟨hd.isDirectory_eq, by rw [hmade], htree, taskFiles_documents hw hd hu htree⟩, hu⟩

/-- A pass that gets the directory for large tasks does to the task files of its directory what
the tree before it tells. -/
theorem pass_documents (order : Order) (skip : Bool) (hw : t.WellNamed)
    (hd : t.NamesDirectory dir l)
    (h : largeFault? t dir l = none) :
    (pass order .documents skip t dir).Tells skip t dir l [] (listed order t dir l) := by
  obtain ⟨u, hlists, hu⟩ := lists_documents order hw hd h
  have hlarge : ¬ TooLong (largeDirectory dir) := (ensureDirectory_large hd h).1
  have hlisted : ∀ n ∈ listed order t dir l, n.Proper ∧ n ∉ [] ∧ n ≠ largeName := by
    intro n hn
    obtain ⟨hproper, hl⟩ := proper_of_mem_taskFileNames hw (mem_taskFileNames order hd h hn)
    exact ⟨hproper, List.not_mem_nil, hl⟩
  have htells := passFiles_documents skip 0 hu hd hlarge (nodup_listed order hd h) hlisted
  rw [pass_of_lists hlists]
  exact ⟨htells.tree, htells.result⟩

end Prune
end GridPuzzles
