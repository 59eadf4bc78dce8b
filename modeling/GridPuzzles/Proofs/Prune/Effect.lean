import GridPuzzles.Proofs.Prune.Listing
import Mathlib.Data.List.TakeWhile

/-! What a successful pass does to the whole tree and what its report says, told by the tree before
the pass alone. -/
namespace GridPuzzles
namespace Prune

open FileTree (TooLong)

variable {skip : Bool} {t : FileTree} {dir : Path} {l : Location} {n : Name}
  {order : Order} {report : Report} {ns : List Name}

/-- The task in the regular file at a place. -/
def taskAt? (t : FileTree) (k : Location) : Option Puzzle :=
  match t.entry? k with
  | some (.file c) => (Puzzle.reader.parse c.stored.data.toList).toOption
  | _ => none

/-- The names in a directory that end as those of task files do, except for directories. -/
def documentNames (t : FileTree) (l : Location) : List Name :=
  (t.namesAt l).filter fun n => TaskSource.isTaskName n && !t.isDirectoryAt (l ++ [n])

def largeNames (t : FileTree) (l : Location) : List Name :=
  (documentNames t l).filter fun n => (taskAt? t (l ++ [n])).any Puzzle.isLarge

def unparsableNames (t : FileTree) (l : Location) : List Name :=
  (documentNames t l).filter fun n => (taskAt? t (l ++ [n])).isNone

/-- The report that the tree before a pass tells, up to the order of its lists. -/
structure Report.Agrees (r : Report) (skip : Bool) (t : FileTree) (dir : Path) (l : Location) :
    Prop where
  dir_eq : r.dir = dir
  total_eq : r.total = (documentNames t l).length
  relocated_perm : r.relocated.Perm ((largeNames t l).map (largeDirectory dir).join)
  relocated_nodup : r.relocated.Nodup
  skipped_perm : r.skipped.Perm ((unparsableNames t l).map dir.join)
  skipped_nodup : r.skipped.Nodup
  skipped_eq_nil : skip = false → r.skipped = []
  hit_eq : r.hit = r.relocated.length
  hit_add_skipped_le : r.hit + r.skipped.length ≤ r.total

structure Report.Rearranges (r s : Report) : Prop where
  dir_eq : r.dir = s.dir
  total_eq : r.total = s.total
  hit_eq : r.hit = s.hit
  relocated_perm : r.relocated.Perm s.relocated
  skipped_perm : r.skipped.Perm s.skipped

theorem Report.Agrees.rearranges {r s : Report} (hr : r.Agrees skip t dir l)
    (hs : s.Agrees skip t dir l) : r.Rearranges s := by
  have hmoved := hr.relocated_perm.trans hs.relocated_perm.symm
  constructor
  case dir_eq => rw [hr.dir_eq, hs.dir_eq]
  case total_eq => rw [hr.total_eq, hs.total_eq]
  case hit_eq => rw [hr.hit_eq, hs.hit_eq, hmoved.length_eq]
  case relocated_perm => exact hmoved
  case skipped_perm => exact hr.skipped_perm.trans hs.skipped_perm.symm

theorem fate_of_file {c : Content} (skip : Bool) (hd : t.NamesDirectory dir l) (hn : n.Proper)
    (hshort : ¬ TooLong (dir.join n)) (hc : t.entry? (l ++ [n]) = some (.file c)) :
    fate skip t dir l n =
      match Puzzle.reader.parse c.stored.data.toList with
      | .error failure => if skip then .skipped else .stops (.unparsable (dir.join n) failure)
      | .ok task =>
        if task.isLarge then
          match moveFault? t dir l n with
          | some fault => .stops fault
          | none => .moves
        else .stays := by
  rw [fate, loadDocument_join hd hn, if_neg hshort, hc]
  simp only
  cases Puzzle.reader.parse c.stored.data.toList with
  | error failure => cases skip <;> rfl
  | ok task => rfl

theorem exists_file_of_fault? (hd : t.NamesDirectory dir l) (hn : n.Proper)
    (ht : isTaskFile t dir n) (hf : (fate skip t dir l n).fault? = none) :
    ¬ TooLong (dir.join n) ∧ ∃ c, t.entry? (l ++ [n]) = some (.file c) := by
  rw [fate, loadDocument_join hd hn] at hf
  by_cases hlong : TooLong (dir.join n)
  · simp [hlong, Fault.isUnparsable, Fate.fault?] at hf
  · refine ⟨hlong, ?_⟩
    cases he : t.entry? (l ++ [n]) with
    | none => simp [hlong, he, Fault.isUnparsable, Fate.fault?] at hf
    | some e =>
      cases e with
      | file c => exact ⟨c, rfl⟩
      | directory =>
        have hdir : t.isDirectory (dir.join n) := by
          rw [hd.isDirectory_join hn]
          simp [hlong, FileTree.isDirectoryAt, he]
        simp [isTaskFile, hdir] at ht

def Fate.ofTask : Option Puzzle → Fate
  | none => .skipped
  | some task => if task.isLarge then .moves else .stays

theorem Fate.ofTask_eq_moves (o : Option Puzzle) :
    Fate.ofTask o = .moves ↔ o.any Puzzle.isLarge := by
  cases o with
  | none => simp [Fate.ofTask]
  | some task => by_cases hlarge : task.isLarge <;> simp [Fate.ofTask, hlarge]

theorem Fate.ofTask_eq_skipped (o : Option Puzzle) : Fate.ofTask o = .skipped ↔ o.isNone := by
  cases o with
  | none => simp [Fate.ofTask]
  | some task => by_cases hlarge : task.isLarge <;> simp [Fate.ofTask, hlarge]

theorem fate_eq (hd : t.NamesDirectory dir l) (hn : n.Proper) (ht : isTaskFile t dir n)
    (hf : (fate skip t dir l n).fault? = none) :
    fate skip t dir l n = Fate.ofTask (taskAt? t (l ++ [n])) := by
  obtain ⟨hshort, c, hc⟩ := exists_file_of_fault? hd hn ht hf
  rw [fate_of_file skip hd hn hshort hc] at hf ⊢
  rw [taskAt?, hc]
  simp only
  cases hp : Puzzle.reader.parse c.stored.data.toList with
  | error failure =>
    cases skip with
    | true => rfl
    | false => simp [hp, Fate.fault?] at hf
  | ok task =>
    by_cases hlarge : task.isLarge
    · cases hm : moveFault? t dir l n with
      | none => simp [hlarge, Except.toOption, Fate.ofTask]
      | some fault => simp [hp, hlarge, hm, Fate.fault?] at hf
    · simp [hlarge, Except.toOption, Fate.ofTask]

theorem mem_largeNames (hd : t.NamesDirectory dir l) (hn : n.Proper)
    (hmem : n ∈ taskFileNames t dir l) (hf : fate skip t dir l n = .moves) :
    n ∈ largeNames t l := by
  obtain ⟨hnames, ht⟩ := List.mem_filter.mp hmem
  obtain ⟨task, hload, hlarge, -⟩ := fate_eq_moves.mp hf
  obtain ⟨-, c, hc, hparse⟩ := exists_file_of_load hd hn hload
  have hs := isTaskName_of_isTaskFile ht
  rw [largeNames, documentNames, List.mem_filter, List.mem_filter]
  refine ⟨⟨hnames, by simp [hs, FileTree.isDirectoryAt, hc]⟩, ?_⟩
  simp [taskAt?, hc, hparse, Except.toOption, hlarge]

theorem movedNames_subset (hw : t.WellNamed) (hd : t.NamesDirectory dir l)
    (hns : ∀ n ∈ ns, n ∈ taskFileNames t dir l) :
    ∀ n ∈ movedNames skip t dir l ns, n ∈ largeNames t l := by
  intro n hn
  obtain ⟨hmem, hf⟩ := List.mem_filter.mp hn
  exact mem_largeNames hd (proper_of_mem_taskFileNames hw (hns n hmem)).1 (hns n hmem)
    (of_decide_eq_true hf)

theorem fate_ne_skipped (n : Name) : fate false t dir l n ≠ .skipped := by
  rw [fate]
  cases TaskSource.loadDocument t (dir.join n) with
  | error fault => simp
  | ok task =>
    by_cases hlarge : task.isLarge
    · cases hm : moveFault? t dir l n <;> simp [hlarge]
    · simp [hlarge]

theorem moved_add_skipped_le (skip : Bool) (t : FileTree) (dir : Path) (l : Location)
    (ns : List Name) :
    (movedNames skip t dir l ns).length + (skippedNames skip t dir l ns).length ≤ ns.length := by
  rw [movedNames, skippedNames]
  induction ns with
  | nil => exact Nat.le_refl _
  | cons n ns ih =>
    cases hf : fate skip t dir l n <;> simp [hf] <;> omega

section

variable (hw : t.WellNamed) (hd : t.NamesDirectory dir l)
  (hf : ∀ n ∈ taskFileNames t dir l, (fate skip t dir l n).fault? = none)

include hw hd hf

theorem taskFileNames_eq : taskFileNames t dir l = documentNames t l := by
  rw [taskFileNames, documentNames]
  apply List.filter_congr
  intro n hn
  have hproper := hw l n hn
  cases ht : isTaskFile t dir n with
  | true =>
    obtain ⟨-, c, hc⟩ := exists_file_of_fault? hd hproper ht
      (hf n (List.mem_filter.mpr ⟨hn, ht⟩))
    have hs := isTaskName_of_isTaskFile ht
    simp [hs, FileTree.isDirectoryAt, hc]
  | false =>
    rw [isTaskFile, hd.isDirectory_join hproper] at ht
    revert ht
    cases TaskSource.isTaskName n with
    | false => exact fun _ => rfl
    | true => cases t.isDirectoryAt (l ++ [n]) <;> simp

theorem filter_fate (f : Fate) :
    (taskFileNames t dir l).filter (fun n => fate skip t dir l n = f) =
      (documentNames t l).filter fun n => Fate.ofTask (taskAt? t (l ++ [n])) = f := by
  rw [← taskFileNames_eq hw hd hf]
  apply List.filter_congr
  intro n hn
  obtain ⟨hmem, ht⟩ := List.mem_filter.mp hn
  rw [fate_eq hd (hw l n hmem) ht (hf n hn)]

theorem movedNames_eq : movedNames skip t dir l (taskFileNames t dir l) = largeNames t l := by
  rw [movedNames, filter_fate hw hd hf, largeNames]
  simp only [Fate.ofTask_eq_moves, Bool.decide_eq_true]

theorem skippedNames_eq :
    skippedNames skip t dir l (taskFileNames t dir l) = unparsableNames t l := by
  rw [skippedNames, filter_fate hw hd hf, unparsableNames]
  simp only [Fate.ofTask_eq_skipped, Bool.decide_eq_true]

theorem reportOf_agrees (hperm : ns.Perm (taskFileNames t dir l)) :
    (reportOf skip t dir l ns).Agrees skip t dir l := by
  have hmoved : (movedNames skip t dir l ns).Perm (largeNames t l) := by
    rw [← movedNames_eq hw hd hf]
    exact hperm.filter _
  have hskipped : (skippedNames skip t dir l ns).Perm (unparsableNames t l) := by
    rw [← skippedNames_eq hw hd hf]
    exact hperm.filter _
  have hnodup : ns.Nodup := hperm.nodup_iff.mpr ((t.nodup_namesAt l).filter _)
  have hproper : ∀ n ∈ ns, n.Proper := fun n hn =>
    hw l n (List.mem_filter.mp (hperm.mem_iff.mp hn)).1
  constructor
  case dir_eq => rfl
  case total_eq => rw [reportOf, hperm.length_eq, taskFileNames_eq hw hd hf]
  case relocated_perm => exact hmoved.map _
  case skipped_perm => exact hskipped.map _
  case hit_eq => simp [reportOf]
  case relocated_nodup =>
    exact Path.nodup_map_join _ (fun n hn => hproper n (List.mem_filter.mp hn).1)
      (hnodup.filter _)
  case skipped_nodup =>
    exact Path.nodup_map_join _ (fun n hn => hproper n (List.mem_filter.mp hn).1)
      (hnodup.filter _)
  case skipped_eq_nil =>
    rintro rfl
    simp [reportOf, skippedNames, fate_ne_skipped]
  case hit_add_skipped_le =>
    simpa [reportOf] using moved_add_skipped_le skip t dir l ns

end

/-- A pass that succeeds has met no file that ends it, in whatever order it handled them. -/
theorem exists_of_pass_ok (hw : t.WellNamed)
    (h : (pass order .documents skip t dir).result = .ok report) :
    ∃ l, t.NamesDirectory dir l ∧ largeFault? t dir l = none ∧
      (∀ n ∈ taskFileNames t dir l, (fate skip t dir l n).fault? = none) := by
  by_cases hdir : t.isDirectory dir
  · obtain ⟨l, hd⟩ := FileTree.namesDirectory_of_isDirectory hdir
    cases hl : largeFault? t dir l with
    | some fault =>
      rw [pass_of_largeFault? hd hl] at h
      cases h
    | none =>
      refine ⟨l, hd, hl, ?_⟩
      have htells := (pass_documents order skip hw hd hl).result
      rw [htells, resultOf] at h
      split at h
      · cases h
      · rename_i hfirst
        intro n hn
        have hmem := (listed_perm order hd hl).mem_iff.mpr hn
        exact List.findSome?_eq_none_iff.mp hfirst n hmem
  · rw [pass_of_not_isDirectory hdir] at h
    cases h

theorem pass_of_fault?_eq_none (order : Order) (hw : t.WellNamed) (hd : t.NamesDirectory dir l)
    (hl : largeFault? t dir l = none)
    (hf : ∀ n ∈ taskFileNames t dir l, (fate skip t dir l n).fault? = none) :
    Partitioned t l (largeNames t l) (pass order .documents skip t dir).tree ∧
      ∃ report, (pass order .documents skip t dir).result = .ok report ∧
        report.Agrees skip t dir l := by
  have hperm := listed_perm order hd hl
  have htells := pass_documents order skip hw hd hl
  have hlisted : ∀ n ∈ listed order t dir l, (fate skip t dir l n).fault? = none :=
    fun n hn => hf n (hperm.mem_iff.mp hn)
  have hhandled : handled skip t dir l (listed order t dir l) = listed order t dir l := by
    rw [handled, List.takeWhile_eq_self_iff]
    intro n hn
    rw [hlisted n hn]
    rfl
  have hfirst : firstFault? skip t dir l (listed order t dir l) = none :=
    List.findSome?_eq_none_iff.mpr hlisted
  constructor
  · have htree := htells.tree
    rw [hhandled, List.nil_append] at htree
    apply htree.congr
    intro n
    rw [← movedNames_eq hw hd hf]
    exact ((hperm.filter _).mem_iff).symm
  · refine ⟨_, ?_, reportOf_agrees hw hd hf hperm⟩
    rw [htells.result, resultOf, hfirst]

/-- A successful pass moves exactly the large tasks of its directory, each under its own name and
with its bytes, changes nothing else, and reports what it did. In another order it does the
same. -/
theorem pass_effect (hw : t.WellNamed)
    (h : (pass order .documents skip t dir).result = .ok report) :
    ∃ l, t.NamesDirectory dir l ∧
      Partitioned t l (largeNames t l) (pass order .documents skip t dir).tree ∧
      report.Agrees skip t dir l ∧
      ∀ other : Order, ∃ report',
        (pass other .documents skip t dir).result = .ok report' ∧ report'.Rearranges report ∧
        ∀ k, FileTree.entry? (pass other .documents skip t dir).tree k =
          FileTree.entry? (pass order .documents skip t dir).tree k := by
  obtain ⟨l, hd, hl, hf⟩ := exists_of_pass_ok hw h
  obtain ⟨htree, report₀, hresult, hagrees⟩ := pass_of_fault?_eq_none order hw hd hl hf
  rw [h] at hresult
  cases hresult
  refine ⟨l, hd, htree, hagrees, ?_⟩
  intro other
  obtain ⟨htree', report', hresult', hagrees'⟩ := pass_of_fault?_eq_none other hw hd hl hf
  exact ⟨report', hresult', hagrees'.rearranges hagrees, htree'.entry?_eq htree⟩

def largeDocument : Content :=
  .bytes (ascii "[[[[[],[],[],[],[],[],[],[],[],[],[]],[]]],[]]")

/-- A directory with a large task, a small task, a file without a task and a directory that is
named like a task; a file of an earlier pass has the name of the large task. -/
def mixedTree : FileTree where
  root :=
    [(ascii "d", .directory
      [(ascii "a.json", .file largeDocument),
        (ascii "b.json", .file (.bytes (ascii "[[],[]]"))),
        (ascii "c.json", .file (.bytes (ascii "["))),
        (ascii "e.json", .directory []),
        (largeName, .directory [(ascii "a.json", .file (.bytes []))])]),
      (ascii "f.json", .file largeDocument)]
  workingDirectory := []

def mixedDirectory : Path := ⟨ascii "d"⟩

def mixedReport : Report where
  dir := mixedDirectory
  total := 3
  hit := 1
  relocated := [⟨ascii "d/large/a.json"⟩]
  skipped := [⟨ascii "d/c.json"⟩]

theorem pass_effect_mixed :
    mixedTree.WellNamed ∧
      (pass .kept .documents true mixedTree mixedDirectory).result = .ok mixedReport ∧
      ∃ l, mixedTree.NamesDirectory mixedDirectory l ∧
        Partitioned mixedTree l (largeNames mixedTree l)
          (pass .kept .documents true mixedTree mixedDirectory).tree ∧
        mixedReport.Agrees true mixedTree mixedDirectory l := by
  have hw : mixedTree.WellNamed := FileTree.wellNamed_of_allProper (by decide +kernel)
  have h : (pass .kept .documents true mixedTree mixedDirectory).result = .ok mixedReport := by
    decide +kernel
  obtain ⟨l, hd, htree, hagrees, -⟩ := pass_effect hw h
  exact ⟨hw, h, l, hd, htree, hagrees⟩

end Prune
end GridPuzzles
