import GridPuzzles.Proofs.Prune.Effect

/-! What a pass leaves that ends with an error: either it has not begun, or it has come to a file
that it cannot load or move, has handled the files before that one, and has touched nothing
else. -/
namespace GridPuzzles
namespace Prune

open FileTree (TooLong)

variable {skip : Bool} {t u : FileTree} {dir : Path} {l : Location} {n : Name} {order : Order}
  {fault : Fault} {ns moved before after : List Name}

/-- A file of a directory ends a pass: it cannot be loaded and may not be skipped, or it holds a
large task and cannot be moved. -/
def Stops (skip : Bool) (u : FileTree) (dir : Path) (n : Name) (fault : Fault) : Prop :=
  TaskSource.loadDocument u (dir.join n) = .error fault ∧ ¬ (skip = true ∧ fault.isUnparsable) ∨
    ∃ task, TaskSource.loadDocument u (dir.join n) = .ok task ∧ task.isLarge ∧
      (relocate u (dir.join n) (largeDirectory dir)).result = .error fault

/-- The pass over the directory at a place has handled the files `before`, has ended at the file
`n`, and leaves the tree `u`. -/
structure EndsAt (skip : Bool) (t : FileTree) (dir : Path) (l : Location) (before : List Name)
    (n : Name) (after : List Name) (fault : Fault) (u : FileTree) : Prop where
  stops : Stops skip u dir n fault
  goesOn : ∀ m ∈ before, ∀ other,
    ¬ Stops skip (ensureDirectory t (largeDirectory dir)).tree dir m other
  tree : Partitioned t l (before.filter fun m => (taskAt? t (l ++ [m])).any Puzzle.isLarge) u
  untouched : ∀ m ∈ n :: after, u.entry? (l ++ [m]) = t.entry? (l ++ [m])

theorem Partitioned.stops_iff (h : Partitioned t l moved u) (hd : t.NamesDirectory dir l)
    (hlarge : ¬ TooLong (largeDirectory dir)) (hn : n.Proper) (hm : n ∉ moved)
    (hl : n ≠ largeName) :
    Stops skip u dir n fault ↔ (fate skip t dir l n).fault? = some fault := by
  have hload := h.loadDocument_eq hd hn hm hl
  rw [Stops, hload, fate]
  cases hresult : TaskSource.loadDocument t (dir.join n) with
  | error cause =>
    simp only [Except.error.injEq, reduceCtorEq, false_and, exists_false, or_false]
    cases hs : skip && cause.isUnparsable with
    | true =>
      have hskipped : skip = true ∧ cause.isUnparsable := by simpa using hs
      constructor
      · rintro ⟨rfl, hnot⟩
        exact absurd hskipped hnot
      · intro he
        cases he
    | false =>
      have hstops : ¬ (skip = true ∧ cause.isUnparsable) := by simpa using hs
      constructor
      · rintro ⟨rfl, -⟩
        rfl
      · intro he
        cases he
        exact ⟨rfl, hstops⟩
  | ok task =>
    obtain ⟨hshort, c, hc, -⟩ := exists_file_of_load hd hn hresult
    have hmove := h.relocate_eq hd hlarge hn hm hl hshort hc
    rw [hmove]
    by_cases ht : task.isLarge
    · cases moveFault? t dir l n <;> simp [ht, Fate.fault?]
    · simp [ht, Fate.fault?]

theorem movedNames_eq_filter (hw : t.WellNamed) (hd : t.NamesDirectory dir l)
    (hns : ∀ n ∈ ns, n ∈ taskFileNames t dir l)
    (hf : ∀ n ∈ ns, (fate skip t dir l n).fault? = none) :
    movedNames skip t dir l ns =
      ns.filter fun n => (taskAt? t (l ++ [n])).any Puzzle.isLarge := by
  rw [movedNames]
  apply List.filter_congr
  intro n hn
  obtain ⟨hnames, htask⟩ := List.mem_filter.mp (hns n hn)
  rw [fate_eq hd (hw l n hnames) htask (hf n hn)]
  simp only [Fate.ofTask_eq_moves, Bool.decide_eq_true]

theorem disk_of_largeFault? (h : largeFault? t dir l = some fault) :
    ∃ e, fault = .disk (largeDirectory dir) e := by
  rw [largeFault?] at h
  split at h
  · cases h
    exact ⟨_, rfl⟩
  · split at h
    · cases h
      exact ⟨_, rfl⟩
    · cases h

/-- A pass that has got the directory for large tasks fails at the first file that ends it. -/
theorem exists_of_pass_error (hw : t.WellNamed) (hd : t.NamesDirectory dir l)
    (hl : largeFault? t dir l = none)
    (h : (pass order .documents skip t dir).result = .error fault) :
    ∃ before n after, listed order t dir l = before ++ n :: after ∧
      (fate skip t dir l n).fault? = some fault ∧
      (∀ m ∈ before, (fate skip t dir l m).fault? = none) ∧
      Partitioned t l (movedNames skip t dir l before) (pass order .documents skip t dir).tree := by
  have htells := pass_documents order skip hw hd hl
  have hfirst : firstFault? skip t dir l (listed order t dir l) = some fault := by
    have hresult := htells.result
    rw [h, resultOf] at hresult
    split at hresult
    · rename_i cause hcause
      rw [hcause, Except.error.inj hresult]
    · cases hresult
  obtain ⟨before, n, after, hlisted, hn, hbefore⟩ := List.findSome?_eq_some_iff.mp hfirst
  have hhandled : handled skip t dir l (listed order t dir l) = before := by
    rw [handled, hlisted, List.takeWhile_append_of_pos fun m hm => by rw [hbefore m hm]; rfl]
    simp [hn]
  have htree := htells.tree
  rw [hhandled, List.nil_append] at htree
  exact ⟨before, n, after, hlisted, hn, hbefore, htree⟩

theorem endsAt_of_pass (hw : t.WellNamed) (hd : t.NamesDirectory dir l)
    (hl : largeFault? t dir l = none)
    (hlisted : listed order t dir l = before ++ n :: after)
    (hn : (fate skip t dir l n).fault? = some fault)
    (hbefore : ∀ m ∈ before, (fate skip t dir l m).fault? = none)
    (htree : Partitioned t l (movedNames skip t dir l before) u) :
    EndsAt skip t dir l before n after fault u := by
  obtain ⟨hlarge, v, hmade, hv⟩ := ensureDirectory_large hd hl
  have hnodup : (before ++ n :: after).Nodup := hlisted ▸ nodup_listed order hd hl
  have hmem : ∀ m ∈ before ++ n :: after, m ∈ taskFileNames t dir l := by
    rw [← hlisted]
    exact fun m hm => mem_taskFileNames order hd hl hm
  have hname : ∀ m ∈ before ++ n :: after, m.Proper ∧ m ≠ largeName := fun m hm =>
    proper_of_mem_taskFileNames hw (hmem m hm)
  have hstays : ∀ m ∈ n :: after, m ∉ movedNames skip t dir l before := by
    intro m hm hmoved
    exact (List.nodup_append.mp hnodup).2.2 m (List.mem_filter.mp hmoved).1 m hm rfl
  constructor
  case stops =>
    obtain ⟨hproper, hne⟩ := hname n (by simp)
    exact (htree.stops_iff hd hlarge hproper (hstays n (by simp)) hne).mpr hn
  case goesOn =>
    intro m hm other hstop
    obtain ⟨hproper, hne⟩ := hname m (by simp [hm])
    rw [hmade, hv.stops_iff hd hlarge hproper List.not_mem_nil hne, hbefore m hm] at hstop
    cases hstop
  case tree =>
    rwa [movedNames_eq_filter hw hd (fun m hm => hmem m (by simp [hm])) hbefore] at htree
  case untouched =>
    intro m hm
    exact htree.entry?_stays (hstays m hm) (hname m (List.mem_append_right _ hm)).2

/-- A pass that ends with an error has either changed nothing, since there is no directory or none
for large tasks, or it has come to a file that ends it: the large tasks before that file have
been moved, and everything else is as it was. -/
theorem pass_aborted (hw : t.WellNamed)
    (h : (pass order .documents skip t dir).result = .error fault) :
    ((pass order .documents skip t dir).tree = t ∧
      (fault = .directoryNotFound dir ∨ ∃ e, fault = .disk (largeDirectory dir) e)) ∨
    ∃ l before n after, t.NamesDirectory dir l ∧
      taskFiles order .documents (ensureDirectory t (largeDirectory dir)).tree dir =
        .ok ((before ++ n :: after).map dir.join) ∧
      EndsAt skip t dir l before n after fault (pass order .documents skip t dir).tree := by
  by_cases hdir : t.isDirectory dir
  · obtain ⟨l, hd⟩ := FileTree.namesDirectory_of_isDirectory hdir
    cases hl : largeFault? t dir l with
    | some cause =>
      have hcause : cause = fault := by
        rw [pass_of_largeFault? hd hl] at h
        exact Except.error.inj h
      rw [pass_of_largeFault? hd hl]
      exact Or.inl ⟨rfl, Or.inr (disk_of_largeFault? (hcause ▸ hl))⟩
    | none =>
      right
      obtain ⟨before, n, after, hlisted, hn, hbefore, htree⟩ := exists_of_pass_error hw hd hl h
      obtain ⟨u, hlists, -⟩ := lists_documents order hw hd hl
      refine ⟨l, before, n, after, hd, ?_, endsAt_of_pass hw hd hl hlisted hn hbefore htree⟩
      rw [← hlisted, hlists.tree_eq, hlists.taskFiles_eq]
  · rw [pass_of_not_isDirectory hdir] at h ⊢
    cases h
    exact Or.inl ⟨rfl, Or.inl rfl⟩

def mixedFault : Fault := .unparsable ⟨ascii "d/c.json"⟩ ⟨.endInList, some ⟨1, 1⟩⟩

theorem pass_aborted_mixed :
    mixedTree.WellNamed ∧
      (pass .kept .documents false mixedTree mixedDirectory).result = .error mixedFault ∧
      ∃ l before n after, mixedTree.NamesDirectory mixedDirectory l ∧
        taskFiles .kept .documents
            (ensureDirectory mixedTree (largeDirectory mixedDirectory)).tree mixedDirectory =
          .ok ((before ++ n :: after).map mixedDirectory.join) ∧
        EndsAt false mixedTree mixedDirectory l before n after mixedFault
          (pass .kept .documents false mixedTree mixedDirectory).tree := by
  have hw : mixedTree.WellNamed := FileTree.wellNamed_of_allProper (by decide +kernel)
  have h : (pass .kept .documents false mixedTree mixedDirectory).result = .error mixedFault := by
    decide +kernel
  refine ⟨hw, h, (pass_aborted hw h).resolve_left ?_⟩
  rintro ⟨-, hfault | ⟨e, hfault⟩⟩ <;> cases hfault

end Prune
end GridPuzzles
