import GridPuzzles.Proofs.Prune.Snapshot

/-! The log of a pass. Between what the loads log there is one line for each rename that the pass
performs on disk and one for each file that it skips, in order, whether the pass succeeds or not;
only a pass that succeeds ends with a line of totals, and they are the numbers of these lines. -/
namespace GridPuzzles

def Event.entry (e : Event) : Level × String := (e.level, e.text)

namespace Prune

variable {source : TaskSource} {skip : Bool} {dir : Path} {v : Visit} {visits : List Visit}
  {report : Report}

inductive Deed where
  | nothing
  | renamed (file target : Path)
  | skipped (file : Path) (fault : Fault)

namespace Deed

def lines : Deed → List (Level × String)
  | nothing => []
  | renamed file target =>
    [(.debug, "Moved " ++ Event.quoted file ++ " -> " ++ Event.quoted target)]
  | skipped _ fault => [(.warn, "Skipping: " ++ fault.message)]

def target? : Deed → Option Path
  | renamed _ target => some target
  | _ => none

def skippedFile? : Deed → Option Path
  | skipped file _ => some file
  | _ => none

end Deed

def Visit.destination? (dir : Path) (v : Visit) : Option Path :=
  v.file.fileName?.map (largeDirectory dir).join

/-- What a pass does about a file, told by the load and by the disk: it renames a file with a large
task into the directory for large tasks under its own name, skips a file without a task if it may,
and otherwise leaves the tree as the load has left it. -/
inductive Visit.Does (skip : Bool) (dir : Path) (v : Visit) : Deed → Prop where
  | renamed {target : Path} : v.isLarge → v.destination? dir = some target →
      v.loaded.tree.rename v.file target = .ok (v.tree dir) →
      v.Does skip dir (.renamed v.file target)
  | skipped {fault : Fault} : skip = true → v.loaded.result = .error fault → fault.isUnparsable →
      v.tree dir = v.loaded.tree → v.Does skip dir (.skipped v.file fault)
  | nothing : ¬ (skip = true ∧ v.isUnparsable) →
      (v.isLarge → ∀ target u, v.destination? dir = some target →
        v.loaded.tree.rename v.file target ≠ .ok u) →
      v.tree dir = v.loaded.tree → v.Does skip dir .nothing

def totals (dir : Path) (listed : Nat) (deeds : List Deed) :
    Except Fault Report → List (Level × String)
  | .ok _ =>
    [(.info, Event.quoted dir ++ ": " ++ toString (deeds.filterMap Deed.target?).length ++
      " of " ++ toString listed ++ " tasks relocated, " ++
      toString (deeds.filterMap Deed.skippedFile?).length ++ " skipped")]
  | .error _ => []

/-- A file that is moved is renamed on disk and that is logged; one that is not stays where it is,
and nothing is logged. -/
theorem Visit.move_cases (dir : Path) (v : Visit) :
    (∃ target, v.destination? dir = some target ∧
      v.loaded.tree.rename v.file target = .ok (v.move dir).tree ∧
      (v.move dir).result = .ok target ∧ (v.move dir).events = [.moved v.file target]) ∨
    ((∀ target u, v.destination? dir = some target →
        v.loaded.tree.rename v.file target ≠ .ok u) ∧
      (v.move dir).tree = v.loaded.tree ∧ (∃ fault, (v.move dir).result = .error fault) ∧
      (v.move dir).events = []) := by
  rw [move, destination?]
  rcases relocate_cases v.loaded.tree v.file (largeDirectory dir) with
    ⟨hname, hrun⟩ | ⟨name, hname, ⟨u, hrename, hrun⟩ | ⟨e, hrename, hrun⟩⟩
  · rw [hname, hrun]
    exact .inr ⟨by simp, rfl, ⟨_, rfl⟩, rfl⟩
  · rw [hname, hrun]
    exact .inl ⟨_, rfl, hrename, rfl, rfl⟩
  · rw [hname, hrun]
    refine .inr ⟨?_, rfl, ⟨_, rfl⟩, rfl⟩
    intro target u htarget
    cases htarget
    rw [hrename]
    exact fun h => by cases h

theorem Visit.exists_does (skip : Bool) (dir : Path) (v : Visit) :
    ∃ deed, v.Does skip dir deed ∧ (v.logged skip dir).map Event.entry = deed.lines := by
  cases hresult : v.loaded.result with
  | error fault =>
    have hlarge : v.isLarge = false := by simp [isLarge, hresult]
    have htree : v.tree dir = v.loaded.tree := by simp [tree, hlarge]
    by_cases hs : skip = true ∧ fault.isUnparsable
    · refine ⟨_, .skipped hs.1 hresult hs.2 htree, ?_⟩
      simp only [logged, hresult, hs.1, hs.2, Bool.and_self, if_true]
      rfl
    · have hnot : ¬ (skip = true ∧ v.isUnparsable) := by simpa [isUnparsable, hresult] using hs
      refine ⟨_, .nothing hnot (by simp [hlarge]) htree, ?_⟩
      simp only [logged, hresult, Bool.and_eq_true, if_neg hs]
      rfl
  | ok task =>
    have hnot : ¬ (skip = true ∧ v.isUnparsable) := by simp [isUnparsable, hresult]
    by_cases ht : task.isLarge
    · have hlarge : v.isLarge := by simp [isLarge, hresult, ht]
      have htree : v.tree dir = (v.move dir).tree := by simp [tree, hlarge]
      have hlogged : v.logged skip dir = (v.move dir).events := by
        simp only [logged, hresult, if_pos ht]
      rw [hlogged]
      rcases v.move_cases dir with ⟨target, htarget, hrename, -, hevents⟩ |
        ⟨hrefused, hsame, -, hevents⟩
      · exact ⟨_, .renamed hlarge htarget (htree ▸ hrename), by rw [hevents]; rfl⟩
      · exact ⟨_, .nothing hnot (fun _ => hrefused) (htree.trans hsame), by rw [hevents]; rfl⟩
    · have hlarge : v.isLarge = false := by simpa [isLarge, hresult] using ht
      refine ⟨_, .nothing hnot (by simp [hlarge]) (by simp [tree, hlarge]), ?_⟩
      simp only [logged, hresult, if_neg ht]
      rfl

def visitLines (visits : List Visit) (deeds : List Deed) : List (Level × String) :=
  (List.zipWith (fun v deed => v.loaded.events.map Event.entry ++ deed.lines) visits deeds).flatten

theorem exists_deeds (skip : Bool) (dir : Path) (visits : List Visit) :
    ∃ deeds, List.Forall₂ (Visit.Does skip dir) visits deeds ∧
      (visits.flatMap (Visit.events skip dir)).map Event.entry = visitLines visits deeds := by
  induction visits with
  | nil => exact ⟨[], .nil, rfl⟩
  | cons v visits ih =>
    obtain ⟨deed, hdeed, hlogged⟩ := v.exists_does skip dir
    obtain ⟨deeds, hdeeds, hlines⟩ := ih
    refine ⟨deed :: deeds, .cons hdeed hdeeds, ?_⟩
    rw [List.flatMap_cons, List.map_append, hlines, Visit.events, List.map_append, hlogged]
    rfl

theorem Visit.Does.skippedFile?_eq {deed : Deed} (h : v.Does skip dir deed)
    (hv : v.Passes skip dir) :
    deed.skippedFile? = if v.isUnparsable then some v.file else none := by
  cases h with
  | renamed hlarge _ _ =>
    obtain ⟨task, hresult, -⟩ := v.exists_of_isLarge hlarge
    simp [Deed.skippedFile?, Visit.isUnparsable, hresult]
  | skipped _ hresult hunparsable _ =>
    simp [Deed.skippedFile?, Visit.isUnparsable, hresult, hunparsable]
  | nothing hnot _ _ =>
    have hparsed : v.isUnparsable = false := by
      cases hv with
      | skipped hskip hunparsable => exact absurd ⟨hskip, hunparsable⟩ hnot
      | small hresult _ => simp [Visit.isUnparsable, hresult]
      | moved hlarge _ =>
        obtain ⟨task, hresult, -⟩ := v.exists_of_isLarge hlarge
        simp [Visit.isUnparsable, hresult]
    simp [Deed.skippedFile?, hparsed]

theorem Visit.Does.target?_eq {deed : Deed} (h : v.Does skip dir deed) (hv : v.Passes skip dir) :
    deed.target? = if v.isLarge then v.destination? dir else none := by
  cases h with
  | renamed hlarge htarget _ => simp [Deed.target?, hlarge, htarget]
  | skipped _ hresult _ _ => simp [Deed.target?, Visit.isLarge, hresult]
  | nothing _ hrefused _ =>
    have hsmall : v.isLarge = false := by
      by_contra hlarge
      rw [Bool.not_eq_false] at hlarge
      cases hv with
      | skipped _ hunparsable =>
        obtain ⟨fault, hfault⟩ := v.exists_of_isUnparsable hunparsable
        obtain ⟨task, hresult, -⟩ := v.exists_of_isLarge hlarge
        rw [hresult] at hfault
        cases hfault
      | small hresult ht => exact ht (by simpa [Visit.isLarge, hresult] using hlarge)
      | moved _ hmove =>
        rcases v.move_cases dir with ⟨target, htarget, hrename, -, -⟩ | ⟨-, -, ⟨fault, hfault⟩, -⟩
        · exact hrefused hlarge target _ htarget hrename
        · rw [hmove] at hfault
          cases hfault
    simp [Deed.target?, hsmall]

/-- The report of a pass lists what the log tells. -/
structure Report.Tells (r : Report) (dir : Path) (deeds : List Deed) : Prop where
  dir_eq : r.dir = dir
  relocated_eq : r.relocated = deeds.filterMap Deed.target?
  skipped_eq : r.skipped = deeds.filterMap Deed.skippedFile?
  hit_eq : r.hit = (deeds.filterMap Deed.target?).length

theorem targets_eq_filterMap {deeds : List Deed} {targets : List Path}
    (hdeeds : List.Forall₂ (Visit.Does skip dir) visits deeds)
    (hpasses : ∀ v ∈ visits, v.Passes skip dir)
    (h : List.Forall₂ (Visit.GoesTo dir) (visits.filter Visit.isLarge) targets) :
    targets = deeds.filterMap Deed.target? := by
  induction hdeeds generalizing targets with
  | nil =>
    cases h
    rfl
  | @cons v deed visits deeds hdeed _ ih =>
    obtain ⟨hv, hpasses⟩ := List.forall_mem_cons.mp hpasses
    have htarget := hdeed.target?_eq hv
    by_cases hlarge : v.isLarge
    · rw [List.filter_cons_of_pos hlarge] at h
      cases h with
      | cons hgoes hrest =>
        obtain ⟨name, hname, rfl⟩ := hgoes
        rw [if_pos hlarge, Visit.destination?, hname, Option.map_some] at htarget
        rw [List.filterMap_cons_some htarget, ← ih hpasses hrest]
    · rw [List.filter_cons_of_neg hlarge] at h
      rw [if_neg hlarge] at htarget
      rw [List.filterMap_cons_none htarget]
      exact ih hpasses h

theorem skippedFiles_eq_filterMap {deeds : List Deed}
    (hdeeds : List.Forall₂ (Visit.Does skip dir) visits deeds)
    (hpasses : ∀ v ∈ visits, v.Passes skip dir) :
    (visits.filter Visit.isUnparsable).map Visit.file = deeds.filterMap Deed.skippedFile? := by
  induction hdeeds with
  | nil => rfl
  | @cons v deed visits deeds hdeed _ ih =>
    obtain ⟨hv, hpasses⟩ := List.forall_mem_cons.mp hpasses
    have hfile := hdeed.skippedFile?_eq hv
    by_cases hunparsable : v.isUnparsable
    · rw [if_pos hunparsable] at hfile
      rw [List.filter_cons_of_pos hunparsable, List.map_cons, List.filterMap_cons_some hfile,
        ih hpasses]
    · rw [if_neg hunparsable] at hfile
      rw [List.filter_cons_of_neg hunparsable, List.filterMap_cons_none hfile, ih hpasses]

theorem Report.Accounts.tells {deeds : List Deed} (h : report.Accounts skip dir visits)
    (hdeeds : List.Forall₂ (Visit.Does skip dir) visits deeds)
    (hpasses : ∀ v ∈ visits, v.Passes skip dir) : report.Tells dir deeds := by
  have hrelocated := targets_eq_filterMap hdeeds hpasses h.relocated
  constructor
  case dir_eq => exact h.dir_eq
  case relocated_eq => exact hrelocated
  case skipped_eq => rw [h.skipped_eq, skippedFiles_eq_filterMap hdeeds hpasses]
  case hit_eq => rw [h.hit_eq, hrelocated]

/-- The log of a pass is a complete record of what it has done: after the number of files listed,
for each visit the lines of the load and one for a rename on disk or for a file skipped, and at the
end of a pass that succeeds a line of totals. -/
theorem pass_log (order : Order) (source : TaskSource) (skip : Bool) (t : FileTree) (dir : Path) :
    let p := pass order source skip t dir
    (∀ u files, Lists order source t dir u files →
      ∃ visits deeds, Visits source dir 0 u visits p.tree ∧
        Settles skip dir files visits p.result ∧
        List.Forall₂ (Visit.Does skip dir) visits deeds ∧
        p.events.map Event.entry =
          (.debug, "Found " ++ toString files.length ++ " task files in " ++ Event.quoted dir) ::
            visitLines visits deeds ++ totals dir files.length deeds p.result ∧
        ∀ r, p.result = .ok r → r.Tells dir deeds ∧ r.total = files.length) ∧
    ((¬ ∃ u files, Lists order source t dir u files) →
      p.events = [] ∧ (p.tree = t ∨ p.tree = (ensureDirectory t (largeDirectory dir)).tree) ∧
        ∃ fault, p.result = .error fault) := by
  refine ⟨?_, ?_⟩
  · intro u files h
    simp only [pass_of_lists h]
    obtain ⟨visits, hvisits, -, hsettles, hevents⟩ := passFiles_logs source skip dir 0 u files
    obtain ⟨deeds, hdeeds, hlines⟩ := exists_deeds skip dir visits
    rw [← hevents] at hlines
    have htells (r : Report) (hr : (passFiles source skip dir 0 u files).result = .ok r) :
        r.Tells dir deeds ∧ r.total = files.length := by
      rw [hr] at hsettles
      obtain ⟨hfiles, hpasses, haccounts⟩ := hsettles
      refine ⟨haccounts.tells hdeeds hpasses, ?_⟩
      rw [haccounts.total_eq, ← hfiles, List.length_map]
    refine ⟨visits, deeds, hvisits, hsettles, hdeeds, ?_, htells⟩
    simp only [Pass.framed, List.map_cons, List.map_append, hlines]
    cases hresult : (passFiles source skip dir 0 u files).result with
    | error fault => rfl
    | ok r =>
      obtain ⟨hr, htotal⟩ := htells r hresult
      simp only [totals, ← hr.hit_eq, ← hr.skipped_eq, ← htotal, ← hr.dir_eq]
      rfl
  · intro h
    obtain ⟨u, fault, hstop, hu⟩ := pass_of_not_lists skip h
    rw [hstop]
    exact ⟨rfl, hu, fault, rfl⟩

theorem pass_log_mixed :
    let files := ["d/a.json", "d/b.json", "d/c.json"].map Path.ofString
    let found := (Level.debug, "Found 3 task files in 'd'")
    let p := pass .kept .documents false mixedTree mixedDirectory
    p.events.map Event.entry =
        [found, (.trace, "Parsed 'd/a.json': 1 train, 0 test"),
          (.debug, "Moved 'd/a.json' -> 'd/large/a.json'"),
          (.trace, "Parsed 'd/b.json': 0 train, 0 test")] ∧
      (∃ u visits deeds, Lists .kept .documents mixedTree mixedDirectory u files ∧
        Visits .documents mixedDirectory 0 u visits p.tree ∧
        List.Forall₂ (Visit.Does false mixedDirectory) visits deeds ∧
        p.events.map Event.entry = found :: visitLines visits deeds) ∧
      (pass .kept .documents false mixedTree ⟨ascii "x"⟩).events = [] := by
  intro files found p
  have hlists : Lists .kept .documents mixedTree mixedDirectory _ files :=
    ⟨by decide +kernel, by decide +kernel, rfl, by decide +kernel⟩
  have hfailed : ∃ fault, p.result = .error fault :=
    ⟨.unparsable ⟨ascii "d/c.json"⟩ ⟨.endInList, some ⟨1, 1⟩⟩, by decide +kernel⟩
  have hmissing : ¬ ∃ u files, Lists .kept .documents mixedTree ⟨ascii "x"⟩ u files := by
    rintro ⟨u, files, h⟩
    exact absurd h.isDirectory (by decide +kernel)
  refine ⟨by decide +kernel, ?_, ?_⟩
  · obtain ⟨visits, deeds, hvisits, -, hdeeds, hevents, -⟩ :=
      (pass_log .kept .documents false mixedTree mixedDirectory).1 _ files hlists
    obtain ⟨fault, hfault⟩ := hfailed
    refine ⟨_, visits, deeds, hlists, hvisits, hdeeds, ?_⟩
    have hfound : found = (Level.debug,
        "Found " ++ toString files.length ++ " task files in " ++ Event.quoted mixedDirectory) := by
      decide +kernel
    rw [hevents, hfound]
    simp only [p] at hfault
    rw [hfault, totals, List.append_nil]
  · exact ((pass_log .kept .documents false mixedTree ⟨ascii "x"⟩).2 hmissing).1

end Prune
end GridPuzzles
