import GridPuzzles.Proofs.Prune.Listing

/-! What a pass depends on: the task files and the directories of a tree, and the order in which the
task files are listed. -/
namespace GridPuzzles
namespace Prune

open FileTree (TooLong)

variable {skip : Bool} {t s u v : FileTree} {dir file : Path} {l : Location} {n : Name}
  {ns moved : List Name} {order other : Order} {p q : Pass}

/-- The tree `s` has the task files and the directories of `t`, and the same at every place for
the directory of large tasks. -/
structure SameDataset (t s : FileTree) : Prop where
  document : ∀ l n, TaskSource.isTaskName n → s.entry? (l ++ [n]) = t.entry? (l ++ [n])
  large : ∀ l, s.entry? (l ++ [largeName]) = t.entry? (l ++ [largeName])
  directory : ∀ l, s.isDirectoryAt l = t.isDirectoryAt l
  workingDirectory : s.workingDirectory = t.workingDirectory

/-- Two listings of a directory give its task files in one order, if they give the same ones. -/
def SameOrder (order other : Order) (dir : Path) (t s : FileTree) : Prop :=
  ∀ files files', taskFiles order .documents t dir = .ok files →
    taskFiles other .documents s dir = .ok files' → files'.Perm files → files' = files

/-- Two passes over the trees `t` and `s` did the same: they log, load and report the same, and
wherever the trees agreed before, they agree after. -/
structure SameOutcome (t s : FileTree) (p q : Pass) : Prop where
  result : q.result = p.result
  events : q.events = p.events
  loads : q.loads = p.loads
  entry : ∀ k, s.entry? k = t.entry? k → q.tree.entry? k = p.tree.entry? k

theorem SameOutcome.after {events : List Event} {update : Report → Report}
    (h : SameOutcome t s p q) :
    SameOutcome t s (p.after file events update) (q.after file events update) where
  result := by simp only [Pass.after, h.result]
  events := by simp only [Pass.after, h.events]
  loads := by simp only [Pass.after, h.loads]
  entry := h.entry

theorem SameOutcome.framed {listing : List Event} (h : SameOutcome t s p q) :
    SameOutcome t s (p.framed listing) (q.framed listing) where
  result := h.result
  events := by simp only [Pass.framed, h.events, h.result]
  loads := h.loads
  entry := h.entry

theorem SameOutcome.stop {events : List Event} {loads : List Path} {fault : Fault}
    (h : ∀ k, s.entry? k = t.entry? k → v.entry? k = u.entry? k) :
    SameOutcome t s (.stop u events loads fault) (.stop v events loads fault) :=
  ⟨rfl, rfl, rfl, h⟩

namespace SameDataset

theorem symm (h : SameDataset t s) : SameDataset s t where
  document l n hn := (h.document l n hn).symm
  large l := (h.large l).symm
  directory l := (h.directory l).symm
  workingDirectory := h.workingDirectory.symm

theorem namesDirectory (h : SameDataset t s) (hd : t.NamesDirectory dir l) :
    s.NamesDirectory dir l :=
  hd.mono (fun k hk => by rwa [h.directory k]) fun _ => h.workingDirectory

theorem isDirectory_of_isDirectory (h : SameDataset t s) (hd : t.isDirectory dir) :
    s.isDirectory dir := by
  obtain ⟨l, hl⟩ := FileTree.namesDirectory_of_isDirectory hd
  exact (h.namesDirectory hl).isDirectory_eq

theorem loadDocument_eq (h : SameDataset t s) (hd : t.NamesDirectory dir l) (hn : n.Proper)
    (hs : TaskSource.isTaskName n) :
    TaskSource.loadDocument s (dir.join n) = TaskSource.loadDocument t (dir.join n) := by
  rw [loadDocument_join (h.namesDirectory hd) hn, loadDocument_join hd hn, h.document l n hs]

theorem moveFault?_eq (h : SameDataset t s) (dir : Path) (l : Location) (n : Name) :
    moveFault? s dir l n = moveFault? t dir l n := by
  rw [moveFault?, moveFault?, h.directory]

theorem largeFault?_eq (h : SameDataset t s) (dir : Path) (l : Location) :
    largeFault? s dir l = largeFault? t dir l := by
  rw [largeFault?, largeFault?, h.large]

theorem isTaskFile_eq (h : SameDataset t s) (hd : t.NamesDirectory dir l) (hn : n.Proper) :
    isTaskFile s dir n = isTaskFile t dir n := by
  rw [isTaskFile, isTaskFile, (h.namesDirectory hd).isDirectory_join hn, hd.isDirectory_join hn,
    h.directory]

theorem mem_taskFileNames (h : SameDataset t s) (hw : t.WellNamed) (hd : t.NamesDirectory dir l)
    (hn : n ∈ taskFileNames t dir l) : n ∈ taskFileNames s dir l := by
  obtain ⟨hname, htask⟩ := List.mem_filter.mp hn
  have hs := isTaskName_of_isTaskFile htask
  refine List.mem_filter.mpr ⟨?_, ?_⟩
  · rwa [FileTree.mem_namesAt, h.document l n hs, ← FileTree.mem_namesAt]
  · rwa [h.isTaskFile_eq hd (hw l n hname)]

theorem taskFileNames_perm (h : SameDataset t s) (hwt : t.WellNamed) (hws : s.WellNamed)
    (hd : t.NamesDirectory dir l) : (taskFileNames s dir l).Perm (taskFileNames t dir l) := by
  rw [taskFileNames, taskFileNames, List.perm_ext_iff_of_nodup ((s.nodup_namesAt l).filter _)
    ((t.nodup_namesAt l).filter _)]
  exact fun n => ⟨h.symm.mem_taskFileNames hws (h.namesDirectory hd),
    h.mem_taskFileNames hwt hd⟩

theorem entry?_partitioned (h : SameDataset t s) (hu : Partitioned t l moved u)
    (hv : Partitioned s l moved v) (hm : ∀ n ∈ moved, TaskSource.isTaskName n)
    (k : Location) (hk : s.entry? k = t.entry? k) : v.entry? k = u.entry? k :=
  hu.entry?_congr hv (fun n hn => h.document l n (hm n hn)) hk

theorem passFiles_documents (h : SameDataset t s) (hd : t.NamesDirectory dir l)
    (hlarge : ¬ TooLong (largeDirectory dir)) (skip : Bool) (call : Nat)
    (hu : Partitioned t l moved u) (hv : Partitioned s l moved v)
    (hm : ∀ n ∈ moved, TaskSource.isTaskName n) (hnodup : ns.Nodup)
    (hns : ∀ n ∈ ns, n.Proper ∧ TaskSource.isTaskName n ∧ n ∉ moved) :
    SameOutcome t s (passFiles .documents skip dir call u (ns.map dir.join))
      (passFiles .documents skip dir call v (ns.map dir.join)) := by
  have hds := h.namesDirectory hd
  induction ns generalizing u v moved call with
  | nil => exact ⟨rfl, rfl, rfl, h.entry?_partitioned hu hv hm⟩
  | cons n ns ih =>
    obtain ⟨⟨hn, hs, hnm⟩, hrest⟩ := List.forall_mem_cons.mp hns
    obtain ⟨hnotin, hnodup⟩ := List.nodup_cons.mp hnodup
    have hname := ne_largeName hs
    have hloadu := hu.loadDocument_eq hd hn hnm hname
    have hloadv := (hv.loadDocument_eq hds hn hnm hname).trans (h.loadDocument_eq hd hn hs)
    have hstop := h.entry?_partitioned hu hv hm
    rw [List.map_cons, passFiles, passFiles]
    simp only [TaskSource.documents, hloadu, hloadv]
    cases hload : TaskSource.loadDocument t (dir.join n) with
    | error fault =>
      simp only
      split
      · exact (ih (call + 1) hu hv hm hnodup hrest).after
      · exact .stop hstop
    | ok task =>
      simp only
      split
      · obtain ⟨hshort, c, hc, -⟩ := exists_file_of_load hd hn hload
        have hcs : s.entry? (l ++ [n]) = some (.file c) := (h.document l n hs).trans hc
        have hmoveu := hu.relocate_eq hd hlarge hn hnm hname hshort hc
        have hmovev := hv.relocate_eq hds hlarge hn hnm hname hshort hcs
        rw [h.moveFault?_eq] at hmovev
        simp only [hmoveu, hmovev]
        cases hfault : moveFault? t dir l n with
        | some fault => exact .stop hstop
        | none =>
          have hfree := not_isDirectoryAt_of_moveFault? hfault
          have hfrees : ¬ s.isDirectoryAt (l ++ [largeName, n]) := by rwa [h.directory]
          refine SameOutcome.after (ih (call + 1) (hu.move hnm hname hc hfree)
            (hv.move hnm hname hcs hfrees) ?_ hnodup ?_)
          · exact List.forall_mem_append.mpr ⟨hm, by simpa using hs⟩
          · intro m hmem
            obtain ⟨hmn, hms, hmm⟩ := hrest m hmem
            refine ⟨hmn, hms, fun hin => ?_⟩
            rcases List.mem_append.mp hin with hin | hin
            · exact hmm hin
            · exact hnotin (List.mem_singleton.mp hin ▸ hmem)
      · exact (ih (call + 1) hu hv hm hnodup hrest).after

end SameDataset

/-- Passes over trees with the same task files and directories do the same, if the task files are
listed in one order. -/
theorem pass_of_sameDataset (h : SameDataset t s) (hwt : t.WellNamed) (hws : s.WellNamed)
    (skip : Bool)
    (horder : SameOrder order other dir (ensureDirectory t (largeDirectory dir)).tree
      (ensureDirectory s (largeDirectory dir)).tree) :
    SameOutcome t s (pass order .documents skip t dir) (pass other .documents skip s dir) := by
  by_cases hdir : t.isDirectory dir
  · obtain ⟨l, hd⟩ := FileTree.namesDirectory_of_isDirectory hdir
    have hds := h.namesDirectory hd
    cases hl : largeFault? t dir l with
    | some fault =>
      have hls := (h.largeFault?_eq dir l).trans hl
      rw [pass_of_largeFault? hd hl, pass_of_largeFault? hds hls]
      exact .stop fun _ hk => hk
    | none =>
      have hls := (h.largeFault?_eq dir l).trans hl
      have hlarge : ¬ TooLong (largeDirectory dir) := (ensureDirectory_large hd hl).1
      obtain ⟨u, hlistsu, hu⟩ := lists_documents order hwt hd hl
      obtain ⟨v, hlistsv, hv⟩ := lists_documents other hws hds hls
      have hperm :
          ((listed other s dir l).map dir.join).Perm ((listed order t dir l).map dir.join) :=
        (((listed_perm other hds hls).trans (h.taskFileNames_perm hwt hws hd)).trans
          (listed_perm order hd hl).symm).map _
      have hsame : (listed other s dir l).map dir.join = (listed order t dir l).map dir.join := by
        apply horder _ _ _ _ hperm
        · rw [hlistsu.tree_eq, hlistsu.taskFiles_eq]
        · rw [hlistsv.tree_eq, hlistsv.taskFiles_eq]
      rw [hsame] at hlistsv
      rw [pass_of_lists hlistsu, pass_of_lists hlistsv]
      refine SameOutcome.framed (h.passFiles_documents hd hlarge skip 0 hu hv (by simp)
        (nodup_listed order hd hl) ?_)
      intro n hn
      have hmem := mem_taskFileNames order hd hl hn
      have hs := isTaskName_of_isTaskFile (List.mem_filter.mp hmem).2
      exact ⟨(proper_of_mem_taskFileNames hwt hmem).1, hs, List.not_mem_nil⟩
  · have hdirs : ¬ s.isDirectory dir := fun hs => hdir (h.symm.isDirectory_of_isDirectory hs)
    rw [pass_of_not_isDirectory hdir, pass_of_not_isDirectory hdirs]
    exact .stop fun _ hk => hk

end Prune
end GridPuzzles
