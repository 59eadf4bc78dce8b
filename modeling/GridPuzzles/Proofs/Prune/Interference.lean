import GridPuzzles.Proofs.Prune.Snapshot
import GridPuzzles.Proofs.Puzzle.Loading

/-! What a pass skips, and what ends it, in a tree that anybody may change before each load. -/
namespace GridPuzzles

namespace Prune

open TaskSource (holdsNoTask loadDocument)

variable {source : TaskSource} {change : ℕ → FileTree → FileTree} {skip : Bool} {dir : Path}
  {t u : FileTree} {call : ℕ} {files : List Path} {v : Visit} {visits : List Visit}
  {fault fault' : Fault} {order : Order} {result : Except Fault Report}

/-- Task files on disk, in a tree that is changed before every load. -/
def interfered (change : ℕ → FileTree → FileTree) : TaskSource where
  accepts := TaskSource.acceptsDocument
  load call t p := TaskSource.documents.load call (change call t) p

theorem Visits.loaded (h : Visits (interfered change) dir call t visits u) (hv : v ∈ visits) :
    v.loaded.result = loadDocument v.loaded.tree v.file := by
  induction h with
  | nil => cases hv
  | cons hload _ ih =>
    rcases List.mem_cons.mp hv with rfl | hv
    · rw [hload]
      rfl
    · exact ih hv

theorem isUnparsable_eq (h : v.loaded.result = loadDocument v.loaded.tree v.file) :
    v.isUnparsable = holdsNoTask v.loaded.tree v.file := by
  rw [Visit.isUnparsable, h, holdsNoTask]
  cases hinspect : v.loaded.tree.inspect v.file with
  | error e => rw [TaskSource.loadDocument_of_error hinspect]; rfl
  | ok entry =>
    cases entry with
    | directory => rw [TaskSource.loadDocument_of_directory hinspect]; rfl
    | file c =>
      rw [TaskSource.loadDocument_of_file hinspect]
      cases hparse : Puzzle.reader.parse c.stored.data.toList <;>
        simp [Except.mapError, hparse, Fault.isUnparsable, Except.isOk, Except.toBool]

namespace Visit

theorem not_isLarge_of_error (h : v.loaded.result = .error fault) : ¬ v.isLarge := by
  simp [isLarge, h]

theorem Ends.not_passes (h : v.Ends skip dir fault) : ¬ v.Passes skip dir := by
  intro hpasses
  cases h with
  | load hresult hskip =>
    cases hpasses with
    | skipped hs hv => exact hskip ⟨hs, by simpa [isUnparsable, hresult] using hv⟩
    | small hok _ => rw [hresult] at hok; cases hok
    | moved hv _ => exact not_isLarge_of_error hresult hv
  | move hv hmove =>
    obtain ⟨task, hok, hlarge⟩ := v.exists_of_isLarge hv
    cases hpasses with
    | skipped _ hu => simp [isUnparsable, hok] at hu
    | small hok' hsmall => rw [hok] at hok'; cases hok'; exact hsmall hlarge
    | moved _ hmoved => rw [hmove] at hmoved; cases hmoved

theorem Ends.unique (h : v.Ends skip dir fault) (h' : v.Ends skip dir fault') :
    fault = fault' := by
  cases h with
  | load hresult _ =>
    cases h' with
    | load hresult' _ => rw [hresult] at hresult'; cases hresult'; rfl
    | move hv _ => exact absurd hv (not_isLarge_of_error hresult)
  | move hv hmove =>
    cases h' with
    | load hresult _ => exact absurd hv (not_isLarge_of_error hresult)
    | move _ hmove' => rw [hmove] at hmove'; cases hmove'; rfl

end Visit

theorem Settles.of_ends (h : Settles skip dir files visits result) (hv : v ∈ visits)
    (hends : v.Ends skip dir fault) : result = .error fault := by
  cases result with
  | ok report => exact absurd (h.2.1 v hv) hends.not_passes
  | error fault' =>
    obtain ⟨-, before, last, rfl, hpasses, hlast⟩ := h
    rcases List.mem_append.mp hv with hv | hv
    · exact absurd (hpasses v hv) hends.not_passes
    · rw [List.mem_singleton.mp hv] at hends
      rw [hends.unique hlast]

/-- A pass with skipping skips exactly the files that can be opened and hold no task, as they are
when they are loaded, whatever is done to the tree before each load; a file that cannot be opened,
or moved, ends it. -/
theorem pass_interfered (order : Order) (change : ℕ → FileTree → FileTree) (t : FileTree)
    (dir : Path) :
    (∀ (u : FileTree) (p : Path) (call : ℕ),
      let loaded := TaskSource.documents.load call u p
      (∀ q failure, loaded.result = .error (.unparsable q failure) ↔
        q = p ∧ ((∃ c, u.inspect p = .ok (.file c) ∧
            Puzzle.reader.parse c.stored.data.toList = .error failure) ∨
          u.inspect p = .ok .directory ∧ failure = ⟨.unreadable .isDirectory, none⟩)) ∧
      ∀ q e, loaded.result = .error (.disk q e) ↔ q = p ∧ u.inspect p = .error e) ∧
    ∀ u files, Lists order (interfered change) t dir u files →
      let p := pass order (interfered change) true t dir
      ∃ visits, Visits (interfered change) dir 0 u visits p.tree ∧
        p.loads = visits.map Visit.file ∧
        (∀ report, p.result = .ok report → report.skipped =
          (visits.filter fun v => holdsNoTask v.loaded.tree v.file).map Visit.file) ∧
        (∀ v ∈ visits, ∀ e, v.loaded.tree.inspect v.file = .error e →
          p.result = .error (.disk v.file e)) ∧
        ∀ v ∈ visits, ∀ fault, v.isLarge → (v.move dir).result = .error fault →
          p.result = .error fault := by
  refine ⟨fun u p call => ⟨fun _ _ => TaskSource.loadDocument_eq_unparsable,
    fun _ _ => TaskSource.loadDocument_eq_disk⟩, ?_⟩
  intro u files hlists p
  obtain ⟨visits, hvisits, hloads, hsettles⟩ :=
    passFiles_visits (interfered change) true dir 0 u files
  have hp : p =
      (passFiles (interfered change) true dir 0 u files).framed [.found files.length dir] :=
    pass_of_lists hlists
  have hresult : p.result = (passFiles (interfered change) true dir 0 u files).result := by
    rw [hp]
    rfl
  rw [← hresult] at hsettles
  refine ⟨visits, by rwa [hp], by rwa [hp], ?_, ?_, ?_⟩
  · intro report hreport
    rw [hreport] at hsettles
    rw [hsettles.2.2.skipped_eq]
    congr 1
    exact List.filter_congr fun v hv => isUnparsable_eq (hvisits.loaded hv)
  · intro v hv e he
    have hload := (hvisits.loaded hv).trans (TaskSource.loadDocument_of_error he)
    exact hsettles.of_ends hv (.load hload (by simp [Fault.isUnparsable]))
  · intro v hv fault hlarge hmove
    exact hsettles.of_ends hv (.move hlarge hmove)

/-- Before the second load, a directory takes the place of the file to load; before the third, the
file to load may go away. -/
def meddle (remove : Bool) (call : ℕ) (t : FileTree) : FileTree :=
  if call = 1 then t.put [ascii "d", ascii "b.json"] (.directory [])
  else if call = 2 ∧ remove then t.erase [ascii "d", ascii "c.json"]
  else t

/-- The directory is skipped as if it were a file without a task; the file that went away ends the
pass. -/
theorem pass_interfered_mixed :
    let kept := pass .kept (interfered (meddle false)) true mixedTree mixedDirectory
    let removed := pass .kept (interfered (meddle true)) true mixedTree mixedDirectory
    kept.result =
        .ok { mixedReport with skipped := [⟨ascii "d/b.json"⟩, ⟨ascii "d/c.json"⟩] } ∧
      (∃ u files, Lists .kept (interfered (meddle false)) mixedTree mixedDirectory u files ∧
        ∃ visits, Visits (interfered (meddle false)) mixedDirectory 0 u visits kept.tree ∧
          (visits.filter fun v => holdsNoTask v.loaded.tree v.file).map Visit.file =
            [⟨ascii "d/b.json"⟩, ⟨ascii "d/c.json"⟩]) ∧
      removed.result = .error (.disk ⟨ascii "d/c.json"⟩ .notFound) := by
  intro kept removed
  have hkept : kept.result =
      .ok { mixedReport with skipped := [⟨ascii "d/b.json"⟩, ⟨ascii "d/c.json"⟩] } := by
    decide +kernel
  have hlists : Lists .kept (interfered (meddle false)) mixedTree mixedDirectory _
      [⟨ascii "d/a.json"⟩, ⟨ascii "d/b.json"⟩, ⟨ascii "d/c.json"⟩] :=
    ⟨by decide +kernel, by decide +kernel, rfl, by decide +kernel⟩
  obtain ⟨visits, hvisits, -, hskipped, -⟩ :=
    (pass_interfered .kept (meddle false) mixedTree mixedDirectory).2 _ _ hlists
  exact ⟨hkept, ⟨_, _, hlists, visits, hvisits, (hskipped _ hkept).symm⟩, by decide +kernel⟩

/-- A load of a directory says that a file holds no task, although there is no file to read. -/
theorem load_directory_unparsable :
    let t : FileTree := ⟨[(ascii "d.json", .directory [])], []⟩
    (∀ c, t.inspect ⟨ascii "d.json"⟩ ≠ .ok (.file c)) ∧
      (TaskSource.documents.load 0 t ⟨ascii "d.json"⟩).result =
        .error (.unparsable ⟨ascii "d.json"⟩ ⟨.unreadable .isDirectory, none⟩) := by
  refine ⟨?_, by decide +kernel⟩
  intro c h
  cases h

end Prune
end GridPuzzles
