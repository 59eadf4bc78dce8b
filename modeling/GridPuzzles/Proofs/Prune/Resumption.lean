import GridPuzzles.Proofs.Prune.Abort
import GridPuzzles.Proofs.Prune.Remainder

/-! Taking up an aborted pass. A pass that skips files without tasks ends in one and the same tree
whether or not a pass that does not skip them has been there before and has been aborted. -/
namespace GridPuzzles
namespace Prune

open scoped List

variable {skip : Bool} {t u : FileTree} {dir file : Path} {l : Location} {n : Name}
  {moved : List Name} {first direct : Order} {report : Report} {failure : Json.Failure}

/-- The report of a pass that takes up an aborted one, and that of a pass in one go: the same files
are skipped, and each file that is moved in one go is moved either before or after the abort. -/
structure Report.Resumes (resumed : Report) (dir : Path) (moved : List Name) (report : Report) :
    Prop where
  skipped_perm : resumed.skipped.Perm report.skipped
  relocated_perm :
    (resumed.relocated ++ moved.map (largeDirectory dir).join).Perm report.relocated
  relocated_disjoint : resumed.relocated.Disjoint (moved.map (largeDirectory dir).join)

theorem exists_of_unparsable (hw : t.WellNamed) (hd : t.NamesDirectory dir l)
    (hfits : Fits t dir l) (hn : n ∈ taskFileNames t dir l)
    (hf : (fate skip t dir l n).fault? = some (.unparsable file failure)) :
    file = dir.join n ∧ n ∈ unparsableNames t l := by
  obtain ⟨hnames, htask⟩ := List.mem_filter.mp hn
  obtain ⟨hshort, c, hc⟩ := hfits.exists_file hw hd hn
  rw [fate_of_file skip hd (hw l n hnames) hshort hc] at hf
  cases hparse : Puzzle.reader.parse c.stored.data.toList with
  | error cause =>
    have hnone : taskAt? t (l ++ [n]) = none := by simp [taskAt?, hc, hparse, Except.toOption]
    have hdocument : n ∈ documentNames t l :=
      mem_documentNames.mpr ⟨isTaskName_of_isTaskFile htask, c, hc⟩
    refine ⟨?_, List.mem_filter.mpr ⟨hdocument, by simp [hnone]⟩⟩
    cases skip with
    | true => simp [hparse, Fate.fault?] at hf
    | false =>
      simp only [hparse, Fate.fault?, Bool.false_eq_true, if_false, Option.some.injEq,
        Fault.unparsable.injEq] at hf
      exact hf.1.symm
  | ok task =>
    rw [hparse, moveFault?] at hf
    by_cases hlarge : task.isLarge
    · by_cases hlong : FileTree.TooLong ((largeDirectory dir).join n)
      · simp [hlarge, hlong, Fate.fault?] at hf
      · by_cases hdir : t.isDirectoryAt (l ++ [largeName, n]) <;>
          simp [hlarge, hlong, hdir, Fate.fault?] at hf
    · simp [hlarge, Fate.fault?] at hf

theorem Partitioned.ready (h : Partitioned t l moved u) (hready : Ready skip t l) :
    Ready skip u l := by
  apply h.filesLeft.ready hready h.large
  intro n hn
  obtain ⟨hmem, hnot⟩ := (h.filesLeft.mem_filter_iff _).mp hn
  rw [FileTree.isDirectoryAt, h.entry?_target hnot]
  exact hready.free n hmem

theorem pass_of_partitioned (later : Order) (hw : t.WellNamed) (hd : t.NamesDirectory dir l)
    (hfits : Fits t dir l) (hready : Ready skip t l) (h : Partitioned t l moved u)
    (hnodup : moved.Nodup) (hmoved : ∀ n ∈ moved, n ∈ largeNames t l) :
    Partitioned t l (largeNames t l) (pass later .documents skip u dir).tree ∧
      ∃ resumed, (pass later .documents skip u dir).result = .ok resumed ∧
        resumed.Agrees skip u dir l := by
  have hperm := h.filesLeft.largeNames_append_perm hnodup hmoved
  obtain ⟨htree, hresult⟩ := pass_of_ready later (h.wellNamed hw) (h.namesDirectory hd)
    (h.filesLeft.fits hfits) (h.ready hready)
  refine ⟨(h.trans htree).congr ?_, hresult⟩
  intro n
  exact (List.perm_append_comm.trans hperm).mem_iff.symm

theorem Report.Agrees.resumes {resumed : Report} (hresumed : resumed.Agrees skip u dir l)
    (hreport : report.Agrees skip t dir l) (h : Partitioned t l moved u) (hnodup : moved.Nodup)
    (hmoved : ∀ n ∈ moved, n ∈ largeNames t l) : resumed.Resumes dir moved report := by
  have hlarge := h.filesLeft.largeNames_append_perm hnodup hmoved
  have hunparsable := h.filesLeft.unparsableNames_perm hnodup hmoved
  have hrelocated : (resumed.relocated ++ moved.map (largeDirectory dir).join).Perm
      report.relocated := by
    calc resumed.relocated ++ moved.map (largeDirectory dir).join
      _ ~ (largeNames u l).map (largeDirectory dir).join ++
          moved.map (largeDirectory dir).join := hresumed.relocated_perm.append_right _
      _ = (largeNames u l ++ moved).map (largeDirectory dir).join := List.map_append.symm
      _ ~ (largeNames t l).map (largeDirectory dir).join := hlarge.map _
      _ ~ report.relocated := hreport.relocated_perm.symm
  constructor
  case skipped_perm =>
    calc resumed.skipped
      _ ~ (unparsableNames u l).map dir.join := hresumed.skipped_perm
      _ ~ (unparsableNames t l).map dir.join := hunparsable.map _
      _ ~ report.skipped := hreport.skipped_perm.symm
  case relocated_perm => exact hrelocated
  case relocated_disjoint =>
    exact List.disjoint_of_nodup_append (hrelocated.nodup_iff.mpr hreport.relocated_nodup)

/-- A pass that was aborted on a file without a task can be taken up with skipping: it succeeds if a
pass with skipping would have in the first place, ends in the same tree, and the two have moved what
the one would have moved. -/
theorem pass_resumed (later : Order) (hw : t.WellNamed)
    (haborted : (pass first .documents false t dir).result = .error (.unparsable file failure))
    (hdirect : (pass direct .documents true t dir).result = .ok report) :
    ∃ l moved resumed, t.NamesDirectory dir l ∧
      Partitioned t l moved (pass first .documents false t dir).tree ∧
      (pass later .documents true (pass first .documents false t dir).tree dir).result =
        .ok resumed ∧
      (∀ k, FileTree.entry?
          (pass later .documents true (pass first .documents false t dir).tree dir).tree k =
        FileTree.entry? (pass direct .documents true t dir).tree k) ∧
      file ∈ resumed.skipped ∧ resumed.Resumes dir moved report := by
  obtain ⟨l, hd, hfits, hready, htree, hagrees⟩ := ready_of_pass_ok hw hdirect
  have hl := largeFault?_eq_none.mpr ⟨hfits.large, hready.vacant⟩
  obtain ⟨before, n, after, hlisted, hn, -, hu⟩ := exists_of_pass_error hw hd hl haborted
  have hall : (before ++ n :: after).Nodup := hlisted ▸ nodup_listed first hd hl
  have hnodup : (movedNames false t dir l before).Nodup := (List.nodup_append.mp hall).1.filter _
  have hmem : ∀ m ∈ before ++ n :: after, m ∈ taskFileNames t dir l := by
    rw [← hlisted]
    exact fun m hm => mem_taskFileNames first hd hl hm
  have hmoved : ∀ m ∈ movedNames false t dir l before, m ∈ largeNames t l :=
    movedNames_subset hw hd fun m hm => hmem m (List.mem_append_left _ hm)
  obtain ⟨htree', resumed, hresult, hagrees'⟩ :=
    pass_of_partitioned later hw hd hfits hready hu hnodup hmoved
  obtain ⟨rfl, hunparsable⟩ := exists_of_unparsable hw hd hfits (hmem n (by simp)) hn
  refine ⟨l, _, resumed, hd, hu, hresult, htree'.entry?_eq htree, ?_,
    hagrees'.resumes hagrees hu hnodup hmoved⟩
  have hleft := (hu.filesLeft.unparsableNames_perm hnodup hmoved).mem_iff.mpr hunparsable
  exact hagrees'.skipped_perm.mem_iff.mpr (List.mem_map_of_mem hleft)

theorem pass_resumed_mixed :
    mixedTree.WellNamed ∧
      (pass .kept .documents false mixedTree mixedDirectory).result = .error mixedFault ∧
      (pass .kept .documents true mixedTree mixedDirectory).result = .ok mixedReport ∧
      ∃ l moved resumed, mixedTree.NamesDirectory mixedDirectory l ∧
        Partitioned mixedTree l moved (pass .kept .documents false mixedTree mixedDirectory).tree ∧
        (pass .kept .documents true (pass .kept .documents false mixedTree mixedDirectory).tree
          mixedDirectory).result = .ok resumed ∧
        resumed.Resumes mixedDirectory moved mixedReport := by
  have hw : mixedTree.WellNamed := FileTree.wellNamed_of_allProper (by decide +kernel)
  have haborted : (pass .kept .documents false mixedTree mixedDirectory).result =
      .error mixedFault := by
    decide +kernel
  have hdirect : (pass .kept .documents true mixedTree mixedDirectory).result =
      .ok mixedReport := by
    decide +kernel
  obtain ⟨l, moved, resumed, hd, htree, hresult, -, -, hresumes⟩ :=
    pass_resumed .kept hw haborted hdirect
  exact ⟨hw, haborted, hdirect, l, moved, resumed, hd, htree, hresult, hresumes⟩

end Prune
end GridPuzzles
