import GridPuzzles.Proofs.Prune.Remainder

/-! Skipping files that hold no task. A pass that gets through without skipping does the same with
it, and a pass with skipping does what one without it does where the files to skip are not there:
no other file is treated differently. -/
namespace GridPuzzles
namespace Prune

open FileTree (TooLong isDirectoryAt_iff)

variable {t u v w : FileTree} {dir file : Path} {l k : Location} {n : Name} {ns : List Name}
  {order other : Order} {report report' : Report}

/-! A pass that meets no file to skip. -/

theorem Pass.exists_of_after_ok {events : List Event} {update : Report → Report} {rest : Pass}
    (h : (rest.after file events update).result = .ok report) :
    ∃ report', rest.result = .ok report' := by
  obtain ⟨report', hrest, -⟩ := map_eq_ok.mp h
  exact ⟨report', hrest⟩

theorem passFiles_skipping {source : TaskSource} {call : Nat} {files : List Path}
    (h : (passFiles source false dir call t files).result = .ok report) :
    passFiles source true dir call t files = passFiles source false dir call t files := by
  induction files generalizing t call report with
  | nil => rfl
  | cons file files ih =>
    rw [passFiles] at h ⊢
    rw [passFiles]
    cases hload : (source.load call t file).result with
    | error fault => simp [hload, Pass.stop] at h
    | ok task =>
      simp only [hload] at h ⊢
      by_cases hlarge : task.isLarge
      · simp only [hlarge, if_true] at h ⊢
        cases hmove : (relocate (source.load call t file).tree file (largeDirectory dir)).result with
        | error fault => rfl
        | ok target =>
          simp only [hmove] at h ⊢
          obtain ⟨rest, hrest⟩ := Pass.exists_of_after_ok h
          rw [ih hrest]
      · simp only [hlarge, Bool.false_eq_true, if_false] at h ⊢
        obtain ⟨rest, hrest⟩ := Pass.exists_of_after_ok h
        rw [ih hrest]

theorem pass_eq_of_succeeds {source : TaskSource}
    (h : (pass order source false t dir).Succeeds) :
    pass order source true t dir = pass order source false t dir := by
  obtain ⟨report, h⟩ := h
  by_cases hlists : ∃ u files, Lists order source t dir u files
  · obtain ⟨u, files, hlists⟩ := hlists
    rw [pass_of_lists hlists] at h ⊢
    rw [pass_of_lists hlists, passFiles_skipping h]
  · obtain ⟨u, fault, hstop, -⟩ := pass_of_not_lists false hlists
    rw [hstop] at h
    cases h

/-! The files to skip, and a tree without them. -/

def isRejected (t : FileTree) (dir : Path) (n : Name) : Bool :=
  match TaskSource.loadDocument t (dir.join n) with
  | .error fault => fault.isUnparsable
  | .ok _ => false

def rejectedNames (t : FileTree) (dir : Path) (l : Location) : List Name :=
  (taskFileNames t dir l).filter (isRejected t dir)

theorem nodup_rejectedNames (t : FileTree) (dir : Path) (l : Location) :
    (rejectedNames t dir l).Nodup :=
  ((t.nodup_namesAt l).filter _).filter _

theorem isRejected_of_file {c : Content} (hd : t.NamesDirectory dir l) (hn : n.Proper)
    (hc : t.entry? (l ++ [n]) = some (.file c)) :
    isRejected t dir n ↔ (taskAt? t (l ++ [n])).isNone ∧ ¬ TooLong (dir.join n) := by
  rw [isRejected, loadDocument_join hd hn, taskAt?, hc]
  by_cases hlong : TooLong (dir.join n)
  · simp [hlong, Fault.isUnparsable]
  · simp only [if_neg hlong]
    cases Puzzle.reader.parse c.stored.data.toList <;>
      simp [hlong, Fault.isUnparsable, Except.mapError, Except.toOption]

theorem exists_file_of_isRejected (hd : t.NamesDirectory dir l) (hn : n.Proper)
    (ht : isTaskFile t dir n) (h : isRejected t dir n) :
    ∃ c, t.entry? (l ++ [n]) = some (.file c) := by
  rw [isRejected, loadDocument_join hd hn] at h
  rw [isTaskFile, hd.isDirectory_join hn] at ht
  by_cases hlong : TooLong (dir.join n)
  · simp [hlong, Fault.isUnparsable] at h
  · cases he : t.entry? (l ++ [n]) with
    | none => simp [hlong, he, Fault.isUnparsable] at h
    | some e =>
      cases e with
      | file c => exact ⟨c, rfl⟩
      | directory => simp [hlong, FileTree.isDirectoryAt, he] at ht

theorem mem_rejectedNames (hw : t.WellNamed) (hd : t.NamesDirectory dir l) :
    n ∈ rejectedNames t dir l ↔ n ∈ unparsableNames t l ∧ ¬ TooLong (dir.join n) := by
  rw [rejectedNames, taskFileNames, unparsableNames, List.mem_filter, List.mem_filter,
    List.mem_filter, mem_documentNames]
  constructor
  · rintro ⟨⟨hnames, ht⟩, hrejected⟩
    have hn : n.Proper := hw l n hnames
    obtain ⟨c, hc⟩ := exists_file_of_isRejected hd hn ht hrejected
    obtain ⟨hnone, hshort⟩ := (isRejected_of_file hd hn hc).mp hrejected
    exact ⟨⟨⟨isTaskName_of_isTaskFile ht, c, hc⟩, hnone⟩, hshort⟩
  · rintro ⟨⟨⟨hs, c, hc⟩, hnone⟩, hshort⟩
    have hnames : n ∈ t.namesAt l := by simp [FileTree.mem_namesAt, hc]
    have hn : n.Proper := hw l n hnames
    refine ⟨⟨hnames, ?_⟩, (isRejected_of_file hd hn hc).mpr ⟨hnone, hshort⟩⟩
    rw [isTaskFile, hs, hd.isDirectory_join hn, FileTree.isDirectoryAt, hc]
    simp

/-- The tree `u` is `t` without the named entries of the directory at a place. -/
structure Lacks (t : FileTree) (l : Location) (ns : List Name) (u : FileTree) : Prop where
  gone : ∀ n ∈ ns, u.entry? (l ++ [n]) = none
  kept : ∀ k, (∀ n ∈ ns, k ≠ l ++ [n]) → u.entry? k = t.entry? k

def withoutFiles (t : FileTree) (l : Location) (ns : List Name) : FileTree :=
  ns.foldr (fun n u => u.erase (l ++ [n])) t

theorem workingDirectory_withoutFiles (t : FileTree) (l : Location) (ns : List Name) :
    (withoutFiles t l ns).workingDirectory = t.workingDirectory := by
  induction ns with
  | nil => rfl
  | cons n ns ih => exact ih

theorem entry?_withoutFiles (t : FileTree) (l : Location) (ns : List Name) (k : Location) :
    FileTree.entry? (withoutFiles t l ns) k =
      if ∃ n ∈ ns, l ++ [n] <+: k then none else t.entry? k := by
  induction ns with
  | nil => simp [withoutFiles]
  | cons n ns ih =>
    have herase : FileTree.entry? (withoutFiles t l (n :: ns)) k =
        if l ++ [n] <+: k then none else FileTree.entry? (withoutFiles t l ns) k :=
      Directory.entry?_erase (by simp) k
    rw [herase, ih]
    by_cases hn : l ++ [n] <+: k <;> simp [hn]

theorem lacks_withoutFiles (hfile : ∀ n ∈ ns, ∃ c, t.entry? (l ++ [n]) = some (.file c)) :
    Lacks t l ns (withoutFiles t l ns) where
  gone n hn := by rw [entry?_withoutFiles, if_pos ⟨n, hn, List.prefix_refl _⟩]
  kept k hk := by
    rw [entry?_withoutFiles]
    by_cases hbelow : ∃ n ∈ ns, l ++ [n] <+: k
    · obtain ⟨n, hn, j, rfl⟩ := hbelow
      obtain ⟨c, hc⟩ := hfile n hn
      have hj : j ≠ [] := fun h => hk n hn (by simp [h])
      rw [if_pos ⟨n, hn, List.prefix_append _ _⟩,
        FileTree.entry?_below (FileTree.not_isDirectoryAt_of_file hc) hj]
    · rw [if_neg hbelow]

namespace Lacks

variable (h : Lacks t l ns u)

include h

theorem entry?_of_notMem (hn : n ∉ ns) : u.entry? (l ++ [n]) = t.entry? (l ++ [n]) := by
  apply h.kept
  intro m hm he
  have hnm : n = m := by simpa using he
  exact hn (hnm ▸ hm)

theorem entry?_target (n : Name) :
    u.entry? (l ++ [largeName, n]) = t.entry? (l ++ [largeName, n]) := by
  apply h.kept
  simp

theorem filesLeft : FilesLeft t l ns u :=
  ⟨h.gone, fun _ hn _ => h.entry?_of_notMem hn⟩

theorem wellNamed (hw : t.WellNamed) : u.WellNamed := by
  intro k n hn
  rw [FileTree.mem_namesAt] at hn
  apply hw k n
  rw [FileTree.mem_namesAt]
  by_cases hk : ∀ m ∈ ns, k ++ [n] ≠ l ++ [m]
  · rwa [h.kept _ hk] at hn
  · push Not at hk
    obtain ⟨m, hm, hk⟩ := hk
    rw [hk, h.gone m hm] at hn
    cases hn

theorem namesDirectory (hfile : ∀ n ∈ ns, ∃ c, t.entry? (l ++ [n]) = some (.file c))
    (hwd : u.workingDirectory = t.workingDirectory) (hd : t.NamesDirectory dir k) :
    u.NamesDirectory dir k := by
  refine hd.mono (fun j hj => ?_) fun _ => hwd
  rw [isDirectoryAt_iff] at hj ⊢
  rw [h.kept, hj]
  rintro n hn rfl
  obtain ⟨c, hc⟩ := hfile n hn
  rw [hc] at hj
  cases hj

end Lacks

section

variable (hw : t.WellNamed) (hd : t.NamesDirectory dir l)
  (h : Lacks t l (rejectedNames t dir l) u)

include hw hd

theorem exists_file_of_mem_rejectedNames (hn : n ∈ rejectedNames t dir l) :
    ∃ c, t.entry? (l ++ [n]) = some (.file c) :=
  (mem_documentNames.mp (List.mem_filter.mp ((mem_rejectedNames hw hd).mp hn).1).1).2

theorem notMem_rejectedNames (hn : n ∈ largeNames t l) : n ∉ rejectedNames t dir l := by
  intro hrejected
  have hnone := (List.mem_filter.mp ((mem_rejectedNames hw hd).mp hrejected).1).2
  have hlarge := (mem_largeNames_iff.mp hn).2
  rw [Option.isNone_iff_eq_none.mp hnone] at hlarge
  cases hlarge

theorem largeName_notMem_rejectedNames : largeName ∉ rejectedNames t dir l := by
  intro hn
  have hmem := (List.mem_filter.mp ((mem_rejectedNames hw hd).mp hn).1).1
  exact ne_largeName (mem_documentNames.mp hmem).1 rfl

theorem rejectedNames_perm (hfits : Fits t dir l) :
    (rejectedNames t dir l).Perm (unparsableNames t l) := by
  have hnodup : (unparsableNames t l).Nodup := (nodup_documentNames t l).filter _
  apply (List.perm_ext_iff_of_nodup (nodup_rejectedNames t dir l) hnodup).mpr
  intro n
  rw [mem_rejectedNames hw hd, and_iff_left_iff_imp]
  intro hn
  have hmem := (List.mem_filter.mp hn).1
  exact hfits.listed n (List.mem_filter.mp hmem).1 (mem_documentNames.mp hmem).1

include h

theorem Lacks.largeNames_perm : (largeNames u l).Perm (largeNames t l) :=
  h.filesLeft.largeNames_perm fun _ hn => notMem_rejectedNames hw hd hn

theorem Lacks.mem_largeNames : n ∈ largeNames u l ↔ n ∈ largeNames t l :=
  (h.largeNames_perm hw hd).mem_iff

theorem Lacks.vacant_iff :
    (∀ c, u.entry? (l ++ [largeName]) ≠ some (.file c)) ↔
      ∀ c, t.entry? (l ++ [largeName]) ≠ some (.file c) := by
  rw [h.entry?_of_notMem (largeName_notMem_rejectedNames hw hd)]

theorem Lacks.free_iff :
    (∀ n ∈ largeNames u l, ¬ u.isDirectoryAt (l ++ [largeName, n])) ↔
      ∀ n ∈ largeNames t l, ¬ t.isDirectoryAt (l ++ [largeName, n]) := by
  refine forall_congr' fun n => ?_
  rw [h.mem_largeNames hw hd, FileTree.isDirectoryAt, h.entry?_target, FileTree.isDirectoryAt]

/-- A directory is ready for a pass that skips files exactly if it is ready for one that does not
where these files are not there. -/
theorem Lacks.ready_iff :
    Fits t dir l ∧ Ready true t l ↔ Fits u dir l ∧ Ready false u l := by
  have hleft := h.filesLeft
  constructor
  · rintro ⟨hfits, hready⟩
    refine ⟨hleft.fits hfits, ?_⟩
    constructor
    case vacant => exact (h.vacant_iff hw hd).mpr hready.vacant
    case free => exact (h.free_iff hw hd).mpr hready.free
    case parsed =>
      refine Or.inr fun n hn => ?_
      obtain ⟨hmem, hnot⟩ := hleft.mem_documentNames_iff.mp hn
      rw [hleft.taskAt?_eq hnot (mem_documentNames.mp hmem).1, Option.isSome_iff_ne_none]
      intro hnone
      have hunparsable : n ∈ unparsableNames t l :=
        List.mem_filter.mpr ⟨hmem, Option.isNone_iff_eq_none.mpr hnone⟩
      exact hnot ((rejectedNames_perm hw hd hfits).mem_iff.mpr hunparsable)
  · rintro ⟨hfits, hready⟩
    constructor
    · constructor
      case large => exact hfits.large
      case moved => exact fun n hn => hfits.moved n ((h.mem_largeNames hw hd).mpr hn)
      case listed =>
        intro n hn hs
        by_cases hrejected : n ∈ rejectedNames t dir l
        · exact ((mem_rejectedNames hw hd).mp hrejected).2
        · rw [FileTree.mem_namesAt, ← h.entry?_of_notMem hrejected] at hn
          exact hfits.listed n (FileTree.mem_namesAt.mpr hn) hs
    · constructor
      case vacant => exact (h.vacant_iff hw hd).mp hready.vacant
      case free => exact (h.free_iff hw hd).mp hready.free
      case parsed => exact Or.inl rfl

end

/-- The first report is the second one with the named files skipped besides. -/
structure Report.Skips (ns : List Name) (r s : Report) : Prop where
  dir_eq : r.dir = s.dir
  total_eq : r.total = s.total + r.skipped.length
  hit_eq : r.hit = s.hit
  relocated_perm : r.relocated.Perm s.relocated
  skipped_perm : r.skipped.Perm (ns.map r.dir.join)
  skipped_eq_nil : s.skipped = []

theorem Done.skips (hw : t.WellNamed) (hlacks : Lacks t l (rejectedNames t dir l) u)
    (h : Done true t dir l report v) (h' : Done false u dir l report' w) :
    report.Skips (rejectedNames t dir l) report' := by
  have hrejected := rejectedNames_perm hw h.names h.fits
  have hskipped := h.agrees.skipped_perm.trans (hrejected.symm.map _)
  have hrelocated := h.agrees.relocated_perm.trans <|
    ((hlacks.largeNames_perm hw h.names).symm.map _).trans h'.agrees.relocated_perm.symm
  constructor
  case dir_eq => rw [h.agrees.dir_eq, h'.agrees.dir_eq]
  case total_eq =>
    have hdocument : ∀ n ∈ rejectedNames t dir l, n ∈ documentNames t l := fun n hn =>
      (List.mem_filter.mp (hrejected.mem_iff.mp hn)).1
    have htotal := (hlacks.filesLeft.documentNames_append_perm
      (nodup_rejectedNames t dir l) hdocument).length_eq
    rw [List.length_append] at htotal
    rw [h.agrees.total_eq, h'.agrees.total_eq, hskipped.length_eq, List.length_map, htotal]
  case hit_eq => rw [h.agrees.hit_eq, h'.agrees.hit_eq, hrelocated.length_eq]
  case relocated_perm => exact hrelocated
  case skipped_perm => rwa [h.agrees.dir_eq]
  case skipped_eq_nil => exact h'.agrees.skipped_eq_nil rfl

/-- The tree `v` is `w` with the named entries of a directory as they are in `t`. -/
structure Restores (t : FileTree) (l : Location) (ns : List Name) (w v : FileTree) : Prop where
  back : ∀ n ∈ ns, v.entry? (l ++ [n]) = t.entry? (l ++ [n])
  others : Lacks v l ns w

/-- The trees that the two passes leave differ by the rejected files, and these are as before. -/
theorem Done.restores (hw : t.WellNamed) (hlacks : Lacks t l (rejectedNames t dir l) u)
    (h : Done true t dir l report v) (h' : Done false u dir l report' w) :
    Restores t l (rejectedNames t dir l) w v := by
  have hlarge := fun n => hlacks.mem_largeNames (n := n) hw h.names
  have hnot : ∀ n ∈ rejectedNames t dir l, n ∉ largeNames t l := fun n hn hm =>
    notMem_rejectedNames hw h.names hm hn
  have hname : ∀ n ∈ rejectedNames t dir l, n ≠ largeName := by
    rintro n hn rfl
    exact largeName_notMem_rejectedNames hw h.names hn
  constructor
  case back => exact fun n hn => h.tree.entry?_stays (hnot n hn) (hname n hn)
  case others =>
    constructor
    case gone =>
      intro n hn
      rw [h'.tree.entry?_stays (fun hm => hnot n hn ((hlarge n).mp hm)) (hname n hn),
        hlacks.gone n hn]
    case kept =>
      intro k hk
      have hmoved := h'.tree.congr fun n => (hlarge n).symm
      exact h.tree.entry?_congr hmoved
        (fun n hn => hlacks.entry?_of_notMem (notMem_rejectedNames hw h.names hn))
        (hlacks.kept k hk)

/-- A pass that succeeds without skipping does the same with it. A pass with skipping succeeds
exactly if one without it does where the files to skip are not there; it moves the same files, and
leaves the skipped ones at their places. -/
theorem pass_skipping (order : Order) (t : FileTree) (dir : Path) :
    (∀ source : TaskSource, (pass order source false t dir).Succeeds →
      pass order source true t dir = pass order source false t dir) ∧
    ∀ (other : Order) (l : Location) (u : FileTree), t.WellNamed → t.NamesDirectory dir l →
      Lacks t l (rejectedNames t dir l) u → u.workingDirectory = t.workingDirectory →
      ((pass order .documents true t dir).Succeeds ↔
        (pass other .documents false u dir).Succeeds) ∧
      ∀ report report', (pass order .documents true t dir).result = .ok report →
        (pass other .documents false u dir).result = .ok report' →
        report.Skips (rejectedNames t dir l) report' ∧
          Restores t l (rejectedNames t dir l) (pass other .documents false u dir).tree
            (pass order .documents true t dir).tree := by
  refine ⟨fun source h => pass_eq_of_succeeds h, ?_⟩
  intro other l u hw hd hlacks hwd
  have hwu := hlacks.wellNamed hw
  have hdu := hlacks.namesDirectory (fun n hn => exists_file_of_mem_rejectedNames hw hd hn) hwd hd
  refine ⟨⟨?_, ?_⟩, ?_⟩
  · rintro ⟨report, h⟩
    have hdone := done_of_pass_ok hw hd h
    obtain ⟨hfits, hready⟩ := (hlacks.ready_iff hw hd).mp ⟨hdone.fits, hdone.ready⟩
    obtain ⟨report', h', -⟩ := exists_done_of_ready other hwu hdu hfits hready
    exact ⟨report', h'⟩
  · rintro ⟨report', h'⟩
    have hdone := done_of_pass_ok hwu hdu h'
    obtain ⟨hfits, hready⟩ := (hlacks.ready_iff hw hd).mpr ⟨hdone.fits, hdone.ready⟩
    obtain ⟨report, h, -⟩ := exists_done_of_ready order hw hd hfits hready
    exact ⟨report, h⟩
  · intro report report' h h'
    have hdone := done_of_pass_ok hw hd h
    have hdone' := done_of_pass_ok hwu hdu h'
    exact ⟨hdone.skips hw hlacks hdone', hdone.restores hw hlacks hdone'⟩

def clearedTree : FileTree := withoutFiles mixedTree [ascii "d"] [ascii "c.json"]

def clearedReport : Report := { mixedReport with total := 2, skipped := [] }

theorem pass_skipping_mixed :
    mixedTree.WellNamed ∧ mixedTree.NamesDirectory mixedDirectory [ascii "d"] ∧
      Lacks mixedTree [ascii "d"] (rejectedNames mixedTree mixedDirectory [ascii "d"])
        clearedTree ∧
      clearedTree.workingDirectory = mixedTree.workingDirectory ∧
      (pass .kept .documents true mixedTree mixedDirectory).result = .ok mixedReport ∧
      (pass .kept .documents false clearedTree mixedDirectory).result = .ok clearedReport ∧
      mixedReport.Skips [ascii "c.json"] clearedReport ∧
      Restores mixedTree [ascii "d"] [ascii "c.json"]
        (pass .kept .documents false clearedTree mixedDirectory).tree
        (pass .kept .documents true mixedTree mixedDirectory).tree ∧
      pass .kept .documents true clearedTree mixedDirectory =
        pass .kept .documents false clearedTree mixedDirectory := by
  have hw : mixedTree.WellNamed := FileTree.wellNamed_of_allProper (by decide +kernel)
  have hd : mixedTree.NamesDirectory mixedDirectory [ascii "d"] :=
    ⟨by decide +kernel, by decide +kernel⟩
  have hnames : rejectedNames mixedTree mixedDirectory [ascii "d"] = [ascii "c.json"] := by
    decide +kernel
  have hlacks : Lacks mixedTree [ascii "d"] (rejectedNames mixedTree mixedDirectory [ascii "d"])
      clearedTree := by
    have hfile := fun n => exists_file_of_mem_rejectedNames (n := n) hw hd
    rw [hnames] at hfile ⊢
    exact lacks_withoutFiles hfile
  have hwd : clearedTree.workingDirectory = mixedTree.workingDirectory :=
    workingDirectory_withoutFiles mixedTree [ascii "d"] [ascii "c.json"]
  have h : (pass .kept .documents true mixedTree mixedDirectory).result = .ok mixedReport := by
    decide +kernel
  obtain ⟨-, hskipping⟩ := pass_skipping .kept mixedTree mixedDirectory
  obtain ⟨hiff, hreports⟩ := hskipping .kept [ascii "d"] clearedTree hw hd hlacks hwd
  have hcleared := hiff.mp ⟨mixedReport, h⟩
  have h' : (pass .kept .documents false clearedTree mixedDirectory).result =
      .ok clearedReport := by
    decide +kernel
  obtain ⟨hskips, hrestores⟩ := hreports mixedReport clearedReport h h'
  rw [hnames] at hskips hrestores
  exact ⟨hw, hd, hlacks, hwd, h, h', hskips, hrestores,
    (pass_skipping .kept clearedTree mixedDirectory).1 .documents hcleared⟩

end Prune
end GridPuzzles
