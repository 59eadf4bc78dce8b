import GridPuzzles.Proofs.Prune.Partition

/-! What a pass does with the files of a directory, one after the other. The tree before the pass
decides it for each file: moving one file changes nothing that another file depends on. -/
namespace GridPuzzles
namespace Prune

open FileTree (TooLong)

variable {skip : Bool} {t u : FileTree} {dir : Path} {l : Location} {n : Name}
  {ns moved : List Name}

def moveFault? (t : FileTree) (dir : Path) (l : Location) (n : Name) : Option Fault :=
  if TooLong ((largeDirectory dir).join n) then some (.disk (dir.join n) .nameTooLong)
  else if t.isDirectoryAt (l ++ [largeName, n]) then some (.disk (dir.join n) .isDirectory)
  else none

inductive Fate where
  | stays
  | skipped
  | moves
  | stops (fault : Fault)
deriving DecidableEq

/-- What a pass over the directory at a place does with one of its files. -/
def fate (skip : Bool) (t : FileTree) (dir : Path) (l : Location) (n : Name) : Fate :=
  match TaskSource.loadDocument t (dir.join n) with
  | .error fault => if skip && fault.isUnparsable then .skipped else .stops fault
  | .ok task =>
    if task.isLarge then
      match moveFault? t dir l n with
      | some fault => .stops fault
      | none => .moves
    else .stays

def Fate.tree (u : FileTree) (l : Location) (n : Name) : Fate → FileTree
  | moves => u.move (l ++ [n]) (l ++ [largeName, n])
  | _ => u

def Fate.report (dir : Path) (n : Name) : Fate → Report → Report
  | stays => Report.keeping
  | skipped => Report.skipping (dir.join n)
  | moves => Report.moving ((largeDirectory dir).join n)
  | stops _ => id

def Fate.fault? : Fate → Option Fault
  | stops fault => some fault
  | _ => none

def firstFault? (skip : Bool) (t : FileTree) (dir : Path) (l : Location) (ns : List Name) :
    Option Fault :=
  ns.findSome? fun n => (fate skip t dir l n).fault?

def handled (skip : Bool) (t : FileTree) (dir : Path) (l : Location) (ns : List Name) :
    List Name :=
  ns.takeWhile fun n => (fate skip t dir l n).fault?.isNone

def movedNames (skip : Bool) (t : FileTree) (dir : Path) (l : Location) (ns : List Name) :
    List Name :=
  ns.filter fun n => fate skip t dir l n = .moves

def skippedNames (skip : Bool) (t : FileTree) (dir : Path) (l : Location) (ns : List Name) :
    List Name :=
  ns.filter fun n => fate skip t dir l n = .skipped

def reportOf (skip : Bool) (t : FileTree) (dir : Path) (l : Location) (ns : List Name) :
    Report where
  dir := dir
  total := ns.length
  hit := (movedNames skip t dir l ns).length
  relocated := (movedNames skip t dir l ns).map (largeDirectory dir).join
  skipped := (skippedNames skip t dir l ns).map dir.join

def resultOf (skip : Bool) (t : FileTree) (dir : Path) (l : Location) (ns : List Name) :
    Except Fault Report :=
  match firstFault? skip t dir l ns with
  | some fault => .error fault
  | none => .ok (reportOf skip t dir l ns)

/-- The pass did to the named files what the tree `t` tells, after others had been moved. -/
structure Pass.Tells (skip : Bool) (t : FileTree) (dir : Path) (l : Location)
    (moved ns : List Name) (p : Pass) : Prop where
  tree : Partitioned t l (moved ++ movedNames skip t dir l (handled skip t dir l ns)) p.tree
  result : p.result = resultOf skip t dir l ns

theorem loadDocument_join (hd : t.NamesDirectory dir l) (hn : n.Proper) :
    TaskSource.loadDocument t (dir.join n) =
      if TooLong (dir.join n) then .error (.disk (dir.join n) .nameTooLong)
      else match t.entry? (l ++ [n]) with
        | none => .error (.disk (dir.join n) .notFound)
        | some .directory => .error (.unparsable (dir.join n) ⟨.unreadable .isDirectory, none⟩)
        | some (.file c) =>
          (Puzzle.reader.parse c.stored.data.toList).mapError (.unparsable (dir.join n)) := by
  rw [TaskSource.loadDocument, hd.inspect_join hn]
  by_cases hl : TooLong (dir.join n)
  · rw [if_pos hl, if_pos hl]
  · rw [if_neg hl, if_neg hl]
    cases t.entry? (l ++ [n]) with
    | none => rfl
    | some e =>
      cases e with
      | directory => rfl
      | file c =>
        simp only [TaskSource.parse_opening]
        cases Puzzle.reader.parse c.stored.data.toList <;> rfl

theorem exists_file_of_load {task : Puzzle} (hd : t.NamesDirectory dir l) (hn : n.Proper)
    (h : TaskSource.loadDocument t (dir.join n) = .ok task) :
    ¬ TooLong (dir.join n) ∧ ∃ c, t.entry? (l ++ [n]) = some (.file c) ∧
      Puzzle.reader.parse c.stored.data.toList = .ok task := by
  rw [loadDocument_join hd hn] at h
  by_cases hl : TooLong (dir.join n)
  · rw [if_pos hl] at h
    cases h
  · rw [if_neg hl] at h
    refine ⟨hl, ?_⟩
    cases he : t.entry? (l ++ [n]) with
    | none =>
      rw [he] at h
      cases h
    | some e =>
      rw [he] at h
      cases e with
      | directory => cases h
      | file c =>
        refine ⟨c, rfl, ?_⟩
        simp only at h
        cases hp : Puzzle.reader.parse c.stored.data.toList with
        | error failure =>
          rw [hp] at h
          cases h
        | ok task' =>
          rw [hp] at h
          cases h
          rfl

theorem fate_eq_moves :
    fate skip t dir l n = .moves ↔
      ∃ task, TaskSource.loadDocument t (dir.join n) = .ok task ∧ task.isLarge ∧
        moveFault? t dir l n = none := by
  rw [fate]
  cases hload : TaskSource.loadDocument t (dir.join n) with
  | error fault => by_cases hs : skip && fault.isUnparsable <;> simp [hs]
  | ok task =>
    by_cases ht : task.isLarge
    · cases hf : moveFault? t dir l n <;> simp [ht]
    · simp [ht]

theorem Fate.tree_of_ne_moves {f : Fate} (h : f ≠ .moves) : f.tree u l n = u := by
  cases f with
  | moves => exact absurd rfl h
  | stays => rfl
  | skipped => rfl
  | stops fault => rfl

theorem not_isDirectoryAt_of_moveFault? (h : moveFault? t dir l n = none) :
    ¬ t.isDirectoryAt (l ++ [largeName, n]) := by
  intro hd
  rw [moveFault?, if_pos hd] at h
  split at h <;> cases h

namespace Partitioned

theorem loadDocument_eq (h : Partitioned t l moved u) (hd : t.NamesDirectory dir l)
    (hn : n.Proper) (hm : n ∉ moved) (hl : n ≠ largeName) :
    TaskSource.loadDocument u (dir.join n) = TaskSource.loadDocument t (dir.join n) := by
  rw [loadDocument_join (h.namesDirectory hd) hn, loadDocument_join hd hn,
    h.entry?_stays hm hl]

/-- Moving one more file succeeds unless the tree before the pass tells a reason. -/
theorem relocate_eq {c : Content} (h : Partitioned t l moved u) (hd : t.NamesDirectory dir l)
    (hlarge : ¬ TooLong (largeDirectory dir)) (hn : n.Proper) (hm : n ∉ moved)
    (hl : n ≠ largeName) (hshort : ¬ TooLong (dir.join n))
    (hc : t.entry? (l ++ [n]) = some (.file c)) :
    relocate u (dir.join n) (largeDirectory dir) =
      match moveFault? t dir l n with
      | some fault => ⟨u, [], .error fault⟩
      | none => ⟨u.move (l ++ [n]) (l ++ [largeName, n]),
          [.moved (dir.join n) ((largeDirectory dir).join n)],
          .ok ((largeDirectory dir).join n)⟩ := by
  have hu := h.namesDirectory hd
  have hq : u.NamesDirectory (largeDirectory dir) (l ++ [largeName]) :=
    hu.join largeName_proper hlarge h.large
  have hcu : u.entry? (l ++ [n]) = some (.file c) := by rw [h.entry?_stays hm hl, hc]
  have htarget : u.isDirectoryAt (l ++ [largeName, n]) = t.isDirectoryAt (l ++ [largeName, n]) := by
    rw [FileTree.isDirectoryAt, h.entry?_target hm, FileTree.isDirectoryAt]
  rw [relocate, Path.fileName?_join dir hn]
  simp only [FileTree.rename_join hu hq hn hcu, htarget, hshort, false_or]
  rw [moveFault?]
  by_cases hlong : TooLong ((largeDirectory dir).join n)
  · rw [if_pos hlong, if_pos hlong]
    rfl
  · rw [if_neg hlong, if_neg hlong]
    by_cases hdir : t.isDirectoryAt (l ++ [largeName, n])
    · rw [if_pos hdir, if_pos hdir]
      rfl
    · rw [if_neg hdir, if_neg hdir]

theorem tree_fate (skip : Bool) (h : Partitioned t l moved u) (hd : t.NamesDirectory dir l)
    (hn : n.Proper)
    (hm : n ∉ moved) (hl : n ≠ largeName) :
    Partitioned t l (moved ++ movedNames skip t dir l [n])
      ((fate skip t dir l n).tree u l n) := by
  by_cases hf : fate skip t dir l n = .moves
  · have hmoved : movedNames skip t dir l [n] = [n] := by simp [movedNames, hf]
    obtain ⟨task, hload, hfree⟩ := fate_eq_moves.mp hf
    obtain ⟨-, c, hc, -⟩ := exists_file_of_load hd hn hload
    rw [hmoved, hf]
    exact h.move hm hl hc (not_isDirectoryAt_of_moveFault? hfree.2)
  · have hmoved : movedNames skip t dir l [n] = [] := by simp [movedNames, hf]
    rw [hmoved, Fate.tree_of_ne_moves hf, List.append_nil]
    exact h

end Partitioned

theorem passFiles_cons (skip : Bool) (call : Nat) (files : List Path)
    (h : Partitioned t l moved u) (hd : t.NamesDirectory dir l)
    (hlarge : ¬ TooLong (largeDirectory dir)) (hn : n.Proper) (hm : n ∉ moved)
    (hl : n ≠ largeName) :
    let p := passFiles .documents skip dir call u (dir.join n :: files)
    let f := fate skip t dir l n
    let rest := passFiles .documents skip dir (call + 1) (f.tree u l n) files
    match f.fault? with
    | some fault => p.tree = u ∧ p.result = .error fault
    | none => p.tree = rest.tree ∧ p.result = rest.result.map (f.report dir n) := by
  have hload := h.loadDocument_eq hd hn hm hl
  rw [passFiles, fate]
  simp only [TaskSource.documents, hload]
  cases hresult : TaskSource.loadDocument t (dir.join n) with
  | error fault =>
    by_cases hs : skip && fault.isUnparsable
    · simp [hs, Fate.fault?, Fate.tree, Fate.report, Pass.after]
    · simp [hs, Fate.fault?, Pass.stop]
  | ok task =>
    by_cases ht : task.isLarge
    · obtain ⟨hshort, c, hc, -⟩ := exists_file_of_load hd hn hresult
      have hmove := h.relocate_eq hd hlarge hn hm hl hshort hc
      cases hfault : moveFault? t dir l n with
      | some fault =>
        rw [hfault] at hmove
        simp [ht, hmove, Fate.fault?, Pass.stop]
      | none =>
        rw [hfault] at hmove
        simp [ht, hmove, Fate.fault?, Fate.tree, Fate.report, Pass.after]
    · simp [ht, Fate.fault?, Fate.tree, Fate.report, Pass.after]

theorem report_reportOf (hf : (fate skip t dir l n).fault? = none) :
    (fate skip t dir l n).report dir n (reportOf skip t dir l ns) =
      reportOf skip t dir l (n :: ns) := by
  cases he : fate skip t dir l n with
  | stops fault =>
    rw [he] at hf
    cases hf
  | stays => simp [Fate.report, Report.keeping, reportOf, movedNames, skippedNames, he]
  | skipped => simp [Fate.report, Report.skipping, reportOf, movedNames, skippedNames, he]
  | moves => simp [Fate.report, Report.moving, reportOf, movedNames, skippedNames, he]

theorem movedNames_cons (skip : Bool) (t : FileTree) (dir : Path) (l : Location) (n : Name)
    (ns : List Name) : movedNames skip t dir l (n :: ns) =
      movedNames skip t dir l [n] ++ movedNames skip t dir l ns := by
  rw [movedNames, movedNames, movedNames, ← List.filter_append, List.singleton_append]

theorem handled_cons (hf : (fate skip t dir l n).fault? = none) :
    handled skip t dir l (n :: ns) = n :: handled skip t dir l ns := by
  simp [handled, hf]

theorem handled_cons_of_fault {fault : Fault} (hf : (fate skip t dir l n).fault? = some fault) :
    handled skip t dir l (n :: ns) = [] := by
  simp [handled, hf]

theorem resultOf_cons (hf : (fate skip t dir l n).fault? = none) :
    resultOf skip t dir l (n :: ns) =
      (resultOf skip t dir l ns).map ((fate skip t dir l n).report dir n) := by
  have hfirst : firstFault? skip t dir l (n :: ns) = firstFault? skip t dir l ns := by
    simp [firstFault?, hf]
  rw [resultOf, resultOf, hfirst]
  cases firstFault? skip t dir l ns with
  | some fault => rfl
  | none => exact congrArg Except.ok (report_reportOf hf).symm

theorem resultOf_cons_of_fault {fault : Fault} (hf : (fate skip t dir l n).fault? = some fault) :
    resultOf skip t dir l (n :: ns) = .error fault := by
  simp [resultOf, firstFault?, hf]

/-- A pass over named files of the directory does to each what the tree before it tells, up to the
first file that ends it. -/
theorem passFiles_documents (skip : Bool) (call : Nat) (h : Partitioned t l moved u)
    (hd : t.NamesDirectory dir l)
    (hlarge : ¬ TooLong (largeDirectory dir)) (hnodup : ns.Nodup)
    (hns : ∀ n ∈ ns, n.Proper ∧ n ∉ moved ∧ n ≠ largeName) :
    (passFiles .documents skip dir call u (ns.map dir.join)).Tells skip t dir l moved ns := by
  induction ns generalizing u moved call with
  | nil => exact ⟨by simpa [handled, movedNames, passFiles] using h, rfl⟩
  | cons n ns ih =>
    obtain ⟨hn, hm, hl⟩ := hns n (by simp)
    obtain ⟨hnotin, hnodup⟩ := List.nodup_cons.mp hnodup
    have hstep := passFiles_cons skip call (ns.map dir.join) h hd hlarge hn hm hl
    rw [List.map_cons]
    cases hf : (fate skip t dir l n).fault? with
    | some fault =>
      simp only [hf] at hstep
      obtain ⟨htree, hresult⟩ := hstep
      constructor
      · rw [handled_cons_of_fault hf, htree]
        simpa [movedNames] using h
      · rw [resultOf_cons_of_fault hf]
        exact hresult
    | none =>
      have hrest : ∀ m ∈ ns, m.Proper ∧ m ∉ moved ++ movedNames skip t dir l [n] ∧
          m ≠ largeName := by
        intro m hm'
        obtain ⟨h₁, h₂, h₃⟩ := hns m (by simp [hm'])
        refine ⟨h₁, ?_, h₃⟩
        rw [List.mem_append, not_or]
        refine ⟨h₂, fun hmem => hnotin ?_⟩
        rw [← List.mem_singleton.mp (List.mem_filter.mp hmem).1]
        exact hm'
      have htells := ih (call + 1) (h.tree_fate skip hd hn hm hl) hnodup hrest
      simp only [hf] at hstep
      obtain ⟨htree, hresult⟩ := hstep
      constructor
      · rw [handled_cons hf, movedNames_cons, htree, ← List.append_assoc]
        exact htells.tree
      · rw [hresult, htells.result, resultOf_cons hf]

end Prune
end GridPuzzles
