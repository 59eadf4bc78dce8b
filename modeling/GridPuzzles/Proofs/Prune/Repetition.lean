import GridPuzzles.Proofs.Prune.Remainder
import GridPuzzles.Proofs.Prune.Sequence

/-! Running over the same directories again. What a run leaves in each directory is small or holds
no task, and no later directory brings it anything new, so a second run finds nothing to move and
leaves the tree as it is. -/
namespace GridPuzzles
namespace Prune

open FileTree (TooLong)
open scoped List

variable {skip : Bool} {t u v : FileTree} {dir : Path} {dirs : List Path} {l k : Location}
  {n : Name} {ns moved : List Name} {order : Order} {orders : Nat → Order} {report : Report}
  {reports : List Report}

/-- None of the directories is the one for the large tasks of another. -/
def Apart (t : FileTree) (dirs : List Path) : Prop :=
  ∀ d ∈ dirs, ∀ e ∈ dirs, ∀ l, t.NamesDirectory d l → ¬ t.NamesDirectory e (l ++ [largeName])

/-- The report of a pass that finds nothing more to move. -/
structure Report.Repeats (again report : Report) : Prop where
  dir_eq : again.dir = report.dir
  hit_eq : again.hit = 0
  relocated_eq : again.relocated = []
  total_eq : again.total + report.hit = report.total
  skipped_perm : again.skipped.Perm report.skipped

structure KeepsDirectories (t u : FileTree) : Prop where
  directory : ∀ k, t.isDirectoryAt k → u.isDirectoryAt k
  workingDirectory : t.isDirectoryAt t.workingDirectory →
    u.workingDirectory = t.workingDirectory

namespace KeepsDirectories

theorem refl (t : FileTree) : KeepsDirectories t t := ⟨fun _ h => h, fun _ => rfl⟩

theorem trans (h : KeepsDirectories t u) (h' : KeepsDirectories u v) : KeepsDirectories t v where
  directory k hk := h'.directory k (h.directory k hk)
  workingDirectory hd := by
    have hu := h.workingDirectory hd
    rw [h'.workingDirectory (by rw [hu]; exact h.directory _ hd), hu]

theorem namesDirectory (h : KeepsDirectories t u) (hd : t.NamesDirectory dir l) :
    u.NamesDirectory dir l :=
  hd.mono h.directory h.workingDirectory

end KeepsDirectories

theorem Partitioned.keepsDirectories (h : Partitioned t l moved u) : KeepsDirectories t u :=
  ⟨fun _ => h.isDirectoryAt, h.workingDirectory⟩

/-! A pass with nothing to move. -/

theorem ensureDirectory_of_directory (hd : t.NamesDirectory dir l)
    (hlong : ¬ TooLong (largeDirectory dir))
    (hlarge : t.entry? (l ++ [largeName]) = some .directory) :
    ensureDirectory t (largeDirectory dir) = ⟨t, [], .ok ()⟩ := by
  rw [largeDirectory] at hlong
  rw [ensureDirectory, largeDirectory, FileTree.makeDirectories_join hd largeName_proper,
    if_neg hlong, hlarge]

theorem tree_passFiles_eq (call : Nat) (hd : t.NamesDirectory dir l)
    (hlong : ¬ TooLong (largeDirectory dir))
    (hlarge : t.entry? (l ++ [largeName]) = some .directory)
    (hns : ∀ n ∈ ns, n.Proper ∧ n ≠ largeName ∧ fate skip t dir l n ≠ .moves) :
    (passFiles .documents skip dir call t (ns.map dir.join)).tree = t := by
  induction ns generalizing call with
  | nil => rfl
  | cons n ns ih =>
    obtain ⟨hn, hl, hmoves⟩ := hns n (by simp)
    have hrest := ih (call + 1) fun m hm => hns m (by simp [hm])
    have hstep := passFiles_cons skip call (ns.map dir.join) (Partitioned.of_directory hlarge) hd
      hlong hn List.not_mem_nil hl
    rw [List.map_cons]
    cases hf : (fate skip t dir l n).fault? with
    | some fault =>
      simp only [hf] at hstep
      exact hstep.1
    | none =>
      simp only [hf, Fate.tree_of_ne_moves hmoves] at hstep
      exact hstep.1.trans hrest

theorem tree_pass_eq (order : Order) (skip : Bool) (hw : t.WellNamed) (hd : t.NamesDirectory dir l)
    (hlong : ¬ TooLong (largeDirectory dir))
    (hlarge : t.entry? (l ++ [largeName]) = some .directory) (hnone : largeNames t l = []) :
    (pass order .documents skip t dir).tree = t := by
  have hmade := ensureDirectory_of_directory hd hlong hlarge
  have hfault : largeFault? t dir l = none :=
    largeFault?_eq_none.mpr ⟨hlong, fun c hc => by rw [hlarge] at hc; cases hc⟩
  have hlisted : ∀ n ∈ listed order t dir l,
      n.Proper ∧ n ≠ largeName ∧ fate skip t dir l n ≠ .moves := by
    intro n hn
    have hmem := mem_taskFileNames order hd hfault hn
    obtain ⟨hproper, hl⟩ := proper_of_mem_taskFileNames hw hmem
    refine ⟨hproper, hl, fun hmoves => ?_⟩
    have hbig := mem_largeNames hd hproper hmem hmoves
    rw [hnone] at hbig
    cases hbig
  obtain ⟨u, hlists, -⟩ := lists_documents order hw hd hfault
  obtain rfl : t = u := by rw [← hlists.tree_eq, hmade]
  rw [pass_of_lists hlists]
  exact tree_passFiles_eq 0 hd hlong hlarge hlisted

theorem pass_repeated (other : Order) (hw : u.WellNamed) (hd : u.NamesDirectory dir l)
    (hfits : Fits t dir l) (hready : Ready skip t l) (hreport : report.Agrees skip t dir l)
    (h : FilesLeft t l (largeNames t l) u)
    (hlarge : u.entry? (l ++ [largeName]) = some .directory) :
    (pass other .documents skip u dir).tree = u ∧
      ∃ again, (pass other .documents skip u dir).result = .ok again ∧ again.Repeats report := by
  have hnodup := nodup_largeNames t l
  have hnone := h.largeNames_eq_nil
  have hready' : Ready skip u l := h.ready hready hlarge (by simp [hnone])
  obtain ⟨-, again, hresult, hagain⟩ := pass_of_ready other hw hd (h.fits hfits) hready'
  refine ⟨tree_pass_eq other skip hw hd hfits.large hlarge hnone, again, hresult, ?_⟩
  have hrelocated : again.relocated = [] := by
    have hperm := hagain.relocated_perm
    rw [hnone] at hperm
    exact hperm.eq_nil
  constructor
  case dir_eq => rw [hagain.dir_eq, hreport.dir_eq]
  case hit_eq => rw [hagain.hit_eq, hrelocated, List.length_nil]
  case relocated_eq => exact hrelocated
  case total_eq =>
    have hdocument : ∀ n ∈ largeNames t l, n ∈ documentNames t l := fun n hn =>
      (mem_largeNames_iff.mp hn).1
    have htotal := (h.documentNames_append_perm hnodup hdocument).length_eq
    rw [List.length_append] at htotal
    rw [hagain.total_eq, hreport.hit_eq, hreport.relocated_perm.length_eq, List.length_map,
      hreport.total_eq, htotal]
  case skipped_perm =>
    calc again.skipped
      _ ~ (unparsableNames u l).map dir.join := hagain.skipped_perm
      _ ~ (unparsableNames t l).map dir.join :=
        (h.unparsableNames_perm hnodup fun _ hn => hn).map _
      _ ~ report.skipped := hreport.skipped_perm.symm

/-! A whole run. -/

theorem run_keeps (hw : t.WellNamed) (h : (run orders skip t dirs).result = .ok reports) :
    (run orders skip t dirs).tree.WellNamed ∧
      KeepsDirectories t (run orders skip t dirs).tree := by
  induction dirs generalizing t orders reports with
  | nil => exact ⟨hw, .refl t⟩
  | cons dir dirs ih =>
    obtain ⟨report, rest, -, hpass, hrest, htree⟩ := exists_of_run_cons_ok h
    obtain ⟨l, -, -, -, hmoved, -⟩ := ready_of_pass_ok hw hpass
    obtain ⟨hw', hkeeps⟩ := ih (hmoved.wellNamed hw) hrest
    rw [htree]
    exact ⟨hw', hmoved.keepsDirectories.trans hkeeps⟩

theorem Partitioned.filesLeft_of_ne (h : Partitioned t k (largeNames t k) u)
    (hl : l ≠ k ++ [largeName]) (hnone : largeNames t l = []) : FilesLeft t l [] u := by
  by_cases hk : l = k
  · subst hk
    rw [hnone] at h
    exact h.filesLeft
  · refine ⟨by simp, ?_⟩
    intro n _ _
    apply h.kept
    · intro he
      exact hk (List.append_inj' he rfl).1
    · intro m _
      constructor
      · intro he
        exact hk (List.append_inj' he rfl).1
      · intro he
        rw [← FileTree.append_pair] at he
        exact hl (List.append_inj' he rfl).1

theorem run_filesLeft (hw : t.WellNamed) (h : (run orders skip t dirs).result = .ok reports)
    (hnone : largeNames t l = [])
    (hapart : ∀ e ∈ dirs, ∀ k, (run orders skip t dirs).tree.NamesDirectory e k →
      l ≠ k ++ [largeName]) :
    FilesLeft t l [] (run orders skip t dirs).tree := by
  induction dirs generalizing t orders reports with
  | nil => exact .refl t l
  | cons dir dirs ih =>
    obtain ⟨report, rest, -, hpass, hrest, htree⟩ := exists_of_run_cons_ok h
    obtain ⟨k, hd, -, -, hmoved, -⟩ := ready_of_pass_ok hw hpass
    obtain ⟨-, hkeeps⟩ := run_keeps hw h
    rw [htree] at hapart hkeeps ⊢
    have hleft := hmoved.filesLeft_of_ne
      (hapart dir (by simp) k (hkeeps.namesDirectory hd)) hnone
    have hnone' := FilesLeft.largeNames_eq_nil (hnone ▸ hleft)
    exact hleft.trans (ih (hmoved.wellNamed hw) hrest hnone'
      fun e he => hapart e (by simp [he])) (by simp)

/-- The induction behind the second run: each of its passes sees the tree that the first run has
left, and finds in its directory what the pass of the first run left there. -/
theorem run_again (others : Nat → Order) (hw : t.WellNamed) (hwu : u.WellNamed)
    (h : (run orders skip t dirs).result = .ok reports) (hu : (run orders skip t dirs).tree = u)
    (hapart : Apart u dirs) :
    (run others skip u dirs).tree = u ∧
      ∃ again, (run others skip u dirs).result = .ok again ∧
        List.Forall₂ Report.Repeats again reports := by
  induction dirs generalizing t orders reports others with
  | nil =>
    cases h
    exact ⟨rfl, [], rfl, .nil⟩
  | cons dir dirs ih =>
    obtain ⟨report, rest, rfl, hpass, hrest, htree⟩ := exists_of_run_cons_ok h
    obtain ⟨l, hd, hfits, hready, hmoved, hreport⟩ := ready_of_pass_ok hw hpass
    have hw' := hmoved.wellNamed hw
    have hkeeps := (run_keeps hw' hrest).2
    rw [htree] at hu
    rw [hu] at hkeeps
    have hdu : u.NamesDirectory dir l := hkeeps.namesDirectory (hmoved.namesDirectory hd)
    have hnone := hmoved.filesLeft.largeNames_eq_nil
    have hothers : ∀ e ∈ dirs, ∀ k, u.NamesDirectory e k → l ≠ k ++ [largeName] := by
      rintro e he k hk rfl
      exact hapart e (by simp [he]) dir (by simp) k hk hdu
    have hsuffix : ∀ n ∈ largeNames t l, TaskSource.isTaskName n := fun n hn =>
      (mem_documentNames.mp (mem_largeNames_iff.mp hn).1).1
    have hrestLeft := run_filesLeft hw' hrest hnone (by rwa [hu])
    rw [hu] at hrestLeft
    have hleft := hmoved.filesLeft.trans hrestLeft hsuffix
    have hlarge : u.entry? (l ++ [largeName]) = some .directory :=
      FileTree.isDirectoryAt_iff.mp
        (hkeeps.directory _ (FileTree.isDirectoryAt_iff.mpr hmoved.large))
    obtain ⟨hagainTree, again, hagain, hrepeats⟩ :=
      pass_repeated (others 0) hwu hdu hfits hready hreport hleft hlarge
    have hrestApart : Apart u dirs := fun d hd e he => hapart d (by simp [hd]) e (by simp [he])
    obtain ⟨hrestTree, againRest, hagainRest, hall⟩ :=
      ih (fun i => others (i + 1)) hw' hrest hu hrestApart
    have hrun := run_cons_of_ok dirs hagain
    simp only [hagainTree] at hrun
    rw [hrun.1, hrun.2, hagainRest]
    exact ⟨hrestTree, again :: againRest, rfl, .cons hrepeats hall⟩

/-- A run that has succeeded, over directories none of which is the one for the large tasks of
another, succeeds again in whatever order, leaves the tree as it is and reports that there was
nothing more to move. -/
theorem run_repeated (others : Nat → Order) (hw : t.WellNamed)
    (h : (run orders skip t dirs).result = .ok reports)
    (hapart : Apart (run orders skip t dirs).tree dirs) :
    (run others skip (run orders skip t dirs).tree dirs).tree = (run orders skip t dirs).tree ∧
      ∃ again, (run others skip (run orders skip t dirs).tree dirs).result = .ok again ∧
        List.Forall₂ Report.Repeats again reports :=
  run_again others hw (run_keeps hw h).1 h rfl hapart

def mixedDirectories : List Path := [mixedDirectory, ⟨ascii "."⟩, mixedDirectory]

def mixedRun : Outcome := run (fun _ => .kept) true mixedTree mixedDirectories

def mixedReports : List Report :=
  [mixedReport, ⟨⟨ascii "."⟩, 1, 1, [⟨ascii "./large/f.json"⟩], []⟩,
    ⟨mixedDirectory, 2, 0, [], [⟨ascii "d/c.json"⟩]⟩]

theorem apart_mixedDirectories : Apart mixedRun.tree mixedDirectories := by
  have hplace : ∀ d ∈ mixedDirectories, ∀ l, mixedRun.tree.NamesDirectory d l →
      l = [ascii "d"] ∨ l = [] := by
    have hmixed : mixedRun.tree.locate mixedDirectory = .ok [ascii "d"] := by decide +kernel
    have habove : mixedRun.tree.locate ⟨ascii "."⟩ = .ok [] := by decide +kernel
    intro d hd l hl
    have hlocate := hl.locate
    simp only [mixedDirectories, List.mem_cons, List.not_mem_nil, or_false] at hd
    rcases hd with rfl | rfl | rfl
    · exact Or.inl (Except.ok.inj (hlocate.symm.trans hmixed))
    · exact Or.inr (Except.ok.inj (hlocate.symm.trans habove))
    · exact Or.inl (Except.ok.inj (hlocate.symm.trans hmixed))
  intro d hd e he l hl hlarge
  have hne : ascii "d" ≠ largeName := by decide
  rcases hplace d hd l hl with rfl | rfl <;> rcases hplace e he _ hlarge with h | h
  · simp at h
  · simp at h
  · simp [hne.symm] at h
  · simp at h

theorem run_repeated_mixed :
    mixedTree.WellNamed ∧ mixedRun.result = .ok mixedReports ∧
      Apart mixedRun.tree mixedDirectories ∧
      (run (fun _ => .kept) true mixedRun.tree mixedDirectories).tree = mixedRun.tree ∧
      ∃ again, (run (fun _ => .kept) true mixedRun.tree mixedDirectories).result = .ok again ∧
        List.Forall₂ Report.Repeats again mixedReports := by
  have hw : mixedTree.WellNamed := FileTree.wellNamed_of_allProper (by decide +kernel)
  have h : mixedRun.result = .ok mixedReports := by decide +kernel
  exact ⟨hw, h, apart_mixedDirectories,
    run_repeated (fun _ => .kept) hw h apart_mixedDirectories⟩

end Prune
end GridPuzzles
