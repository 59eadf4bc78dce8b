import GridPuzzles.Proofs.Prune.Effect
import GridPuzzles.Proofs.Prune.Relocation

/-! A pass in a tree that anybody may change while a file is loaded. The files are those listed
before the first load. -/
namespace GridPuzzles
namespace Prune

variable {source : TaskSource} {skip : Bool} {dir : Path} {t : FileTree} {call : Nat} {file : Path}
  {files : List Path} {order : Order} {fault : Fault} {report : Report}

/-- One load of a pass: its file, what it returned and the tree that it left. -/
structure Visit where
  file : Path
  loaded : Run Fault Puzzle

namespace Visit

def isUnparsable (v : Visit) : Bool :=
  match v.loaded.result with
  | .error fault => fault.isUnparsable
  | .ok _ => false

def isLarge (v : Visit) : Bool :=
  match v.loaded.result with
  | .error _ => false
  | .ok task => task.isLarge

theorem exists_of_isLarge (v : Visit) (h : v.isLarge) :
    ∃ task, v.loaded.result = .ok task ∧ task.isLarge := by
  unfold isLarge at h
  split at h
  · cases h
  · exact ⟨_, ‹_›, h⟩

theorem exists_of_isUnparsable (v : Visit) (h : v.isUnparsable) :
    ∃ fault, v.loaded.result = .error fault := by
  unfold isUnparsable at h
  split at h
  · exact ⟨_, ‹_›⟩
  · cases h

def move (dir : Path) (v : Visit) : Run Fault Path :=
  relocate v.loaded.tree v.file (largeDirectory dir)

def tree (dir : Path) (v : Visit) : FileTree :=
  if v.isLarge then (v.move dir).tree else v.loaded.tree

def logged (skip : Bool) (dir : Path) (v : Visit) : List Event :=
  match v.loaded.result with
  | .error fault => if skip && fault.isUnparsable then [.skipping fault] else []
  | .ok task => if task.isLarge then (v.move dir).events else []

def events (skip : Bool) (dir : Path) (v : Visit) : List Event :=
  v.loaded.events ++ v.logged skip dir

def counted (dir : Path) (v : Visit) : Report → Report :=
  match v.loaded.result with
  | .error _ => Report.skipping v.file
  | .ok task =>
    if task.isLarge then
      match (v.move dir).result with
      | .error _ => id
      | .ok target => Report.moving target
    else Report.keeping

/-- The path of a large task that has been moved: the directory for large tasks and its own
name. -/
def GoesTo (dir : Path) (v : Visit) (target : Path) : Prop :=
  ∃ name, v.file.fileName? = some name ∧ target = (largeDirectory dir).join name

inductive Passes (skip : Bool) (dir : Path) (v : Visit) : Prop where
  | skipped : skip = true → v.isUnparsable → v.Passes skip dir
  | small {task : Puzzle} : v.loaded.result = .ok task → ¬ task.isLarge → v.Passes skip dir
  | moved {target : Path} : v.isLarge → (v.move dir).result = .ok target → v.Passes skip dir

inductive Ends (skip : Bool) (dir : Path) (v : Visit) (fault : Fault) : Prop where
  | load : v.loaded.result = .error fault → ¬ (skip = true ∧ fault.isUnparsable) →
      v.Ends skip dir fault
  | move : v.isLarge → (v.move dir).result = .error fault → v.Ends skip dir fault

end Visit

/-- The visits from load number `call` on: each load is the one that the source makes in the tree
left by the visit before. -/
inductive Visits (source : TaskSource) (dir : Path) :
    (call : Nat) → FileTree → List Visit → FileTree → Prop where
  | nil {call : Nat} {t : FileTree} : Visits source dir call t [] t
  | cons {call : Nat} {t u : FileTree} {v : Visit} {vs : List Visit} :
      v.loaded = source.load call t v.file → Visits source dir (call + 1) (v.tree dir) vs u →
      Visits source dir call t (v :: vs) u

/-- The report counts the visits: what was skipped and what was moved, each in order. -/
structure Report.Accounts (r : Report) (skip : Bool) (dir : Path) (visits : List Visit) :
    Prop where
  dir_eq : r.dir = dir
  total_eq : r.total = visits.length
  skipped_eq : r.skipped = (visits.filter Visit.isUnparsable).map Visit.file
  skipped_eq_nil : skip = false → r.skipped = []
  relocated : List.Forall₂ (Visit.GoesTo dir) (visits.filter Visit.isLarge) r.relocated
  hit_eq : r.hit = r.relocated.length

def Settles (skip : Bool) (dir : Path) (files : List Path) (visits : List Visit) :
    Except Fault Report → Prop
  | .ok r => visits.map Visit.file = files ∧ (∀ v ∈ visits, v.Passes skip dir) ∧
      r.Accounts skip dir visits
  | .error fault => visits.map Visit.file <+: files ∧ ∃ before last, visits = before ++ [last] ∧
      (∀ v ∈ before, v.Passes skip dir) ∧ last.Ends skip dir fault

theorem goesTo_of_move {v : Visit} {target : Path} (h : (v.move dir).result = .ok target) :
    v.GoesTo dir target := by
  rw [Visit.move] at h
  rcases relocate_cases v.loaded.tree v.file (largeDirectory dir) with
    ⟨-, hrun⟩ | ⟨name, hname, ⟨u, -, hrun⟩ | ⟨e, -, hrun⟩⟩
  · rw [hrun] at h
    cases h
  · rw [hrun] at h
    cases h
    exact ⟨name, hname, rfl⟩
  · rw [hrun] at h
    cases h

theorem accounts_empty (skip : Bool) (dir : Path) : (Report.empty dir).Accounts skip dir [] := by
  constructor <;> simp [Report.empty]

namespace Report.Accounts

variable {v : Visit} {visits : List Visit} {target : Path}

theorem skipping (h : report.Accounts skip dir visits) (hskip : skip = true)
    (hv : v.isUnparsable) : (report.skipping v.file).Accounts skip dir (v :: visits) := by
  obtain ⟨cause, hresult⟩ := v.exists_of_isUnparsable hv
  have hlarge : v.isLarge = false := by simp [Visit.isLarge, hresult]
  constructor
  case dir_eq => exact h.dir_eq
  case total_eq => simp [Report.skipping, h.total_eq]
  case skipped_eq => simp [Report.skipping, h.skipped_eq, hv]
  case skipped_eq_nil => simp [hskip]
  case relocated => simpa [Report.skipping, hlarge] using h.relocated
  case hit_eq => exact h.hit_eq

theorem keeping {task : Puzzle} (h : report.Accounts skip dir visits)
    (hv : v.loaded.result = .ok task) (hsmall : ¬ task.isLarge) :
    report.keeping.Accounts skip dir (v :: visits) := by
  have hparsed : v.isUnparsable = false := by simp [Visit.isUnparsable, hv]
  have hlarge : v.isLarge = false := by simpa [Visit.isLarge, hv] using hsmall
  constructor
  case dir_eq => exact h.dir_eq
  case total_eq => simp [Report.keeping, h.total_eq]
  case skipped_eq => simp [Report.keeping, h.skipped_eq, hparsed]
  case skipped_eq_nil => exact h.skipped_eq_nil
  case relocated => simpa [Report.keeping, hlarge] using h.relocated
  case hit_eq => exact h.hit_eq

theorem moving (h : report.Accounts skip dir visits) (hv : v.isLarge)
    (hmove : (v.move dir).result = .ok target) :
    (report.moving target).Accounts skip dir (v :: visits) := by
  obtain ⟨task, hresult, -⟩ := v.exists_of_isLarge hv
  have hparsed : v.isUnparsable = false := by simp [Visit.isUnparsable, hresult]
  constructor
  case dir_eq => exact h.dir_eq
  case total_eq => simp [Report.moving, h.total_eq]
  case skipped_eq => simp [Report.moving, h.skipped_eq, hparsed]
  case skipped_eq_nil => exact h.skipped_eq_nil
  case relocated =>
    rw [List.filter_cons_of_pos hv]
    exact .cons (goesTo_of_move hmove) h.relocated
  case hit_eq => simp [Report.moving, h.hit_eq]

theorem counted (h : report.Accounts skip dir visits) (hv : v.Passes skip dir) :
    (v.counted dir report).Accounts skip dir (v :: visits) := by
  rw [Visit.counted]
  cases hv with
  | skipped hskip hv =>
    obtain ⟨fault, hresult⟩ := v.exists_of_isUnparsable hv
    rw [hresult]
    exact h.skipping hskip hv
  | small hresult ht =>
    simp only [hresult, if_neg ht]
    exact h.keeping hresult ht
  | moved hv hmove =>
    obtain ⟨task, hresult, ht⟩ := v.exists_of_isLarge hv
    simp only [hresult, if_pos ht, hmove]
    exact h.moving hv hmove

end Report.Accounts

/-- What a pass makes of one file, whatever files come after it: it goes on in the tree of the
visit and counts the file, or it ends there. -/
theorem passFiles_visit (skip : Bool) (v : Visit)
    (hload : source.load call t v.file = v.loaded) :
    (v.Passes skip dir ∧ ∀ files, passFiles source skip dir call t (v.file :: files) =
      (passFiles source skip dir (call + 1) (v.tree dir) files).after v.file (v.events skip dir)
        (v.counted dir)) ∨
    ∃ fault, v.Ends skip dir fault ∧ ∀ files,
      passFiles source skip dir call t (v.file :: files) =
        .stop (v.tree dir) (v.events skip dir) [v.file] fault := by
  simp only [passFiles, hload, Visit.tree, Visit.counted, Visit.events, Visit.logged]
  cases hresult : v.loaded.result with
  | error fault =>
    have hlarge : v.isLarge = false := by simp [Visit.isLarge, hresult]
    by_cases hs : skip = true ∧ fault.isUnparsable
    · have hv : v.isUnparsable := by simp [Visit.isUnparsable, hresult, hs.2]
      simp only [hlarge, hs.1, hs.2, Bool.and_self, if_true]
      exact .inl ⟨.skipped rfl hv, fun _ => rfl⟩
    · simp only [hlarge, Bool.and_eq_true, if_neg hs, List.append_nil]
      exact .inr ⟨fault, .load hresult hs, fun _ => rfl⟩
  | ok task =>
    by_cases ht : task.isLarge
    · have hv : v.isLarge := by simp [Visit.isLarge, hresult, ht]
      simp only [hv, ht, if_true]
      rw [← Visit.move]
      cases hmove : (v.move dir).result with
      | error fault => exact .inr ⟨fault, .move hv hmove, fun _ => rfl⟩
      | ok target => exact .inl ⟨.moved hv hmove, fun _ => rfl⟩
    · have hv : v.isLarge = false := by simpa [Visit.isLarge, hresult] using ht
      simp only [hv, if_neg ht, List.append_nil]
      exact .inl ⟨.small hresult ht, fun _ => rfl⟩

theorem Settles.cons {v : Visit} {visits : List Visit} {result : Except Fault Report}
    (h : Settles skip dir files visits result) (hv : v.Passes skip dir) :
    Settles skip dir (v.file :: files) (v :: visits) (result.map (v.counted dir)) := by
  cases result with
  | ok r =>
    obtain ⟨hfiles, hpasses, haccounts⟩ := h
    exact ⟨congrArg (v.file :: ·) hfiles, List.forall_mem_cons.mpr ⟨hv, hpasses⟩,
      haccounts.counted hv⟩
  | error fault =>
    obtain ⟨hfiles, before, last, rfl, hpasses, hlast⟩ := h
    exact ⟨(List.prefix_cons_inj v.file).mpr hfiles, v :: before, last, rfl,
      List.forall_mem_cons.mpr ⟨hv, hpasses⟩, hlast⟩

/-- Whatever happens to the tree, the files of a pass are visited in order until one ends it, and
what is logged is what is logged during the visits. -/
theorem passFiles_logs (source : TaskSource) (skip : Bool) (dir : Path) (call : Nat)
    (t : FileTree) (files : List Path) :
    let p := passFiles source skip dir call t files
    ∃ visits, Visits source dir call t visits p.tree ∧ p.loads = visits.map Visit.file ∧
      Settles skip dir files visits p.result ∧
      p.events = visits.flatMap (Visit.events skip dir) := by
  induction files generalizing call t with
  | nil => exact ⟨[], .nil, rfl, ⟨rfl, by simp, accounts_empty skip dir⟩, rfl⟩
  | cons file files ih =>
    let v : Visit := ⟨file, source.load call t file⟩
    have hload : source.load call t v.file = v.loaded := rfl
    rcases passFiles_visit skip v hload with ⟨hv, hrest⟩ | ⟨fault, hv, hstop⟩
    · obtain ⟨visits, hvisits, hloads, hsettles, hevents⟩ := ih (call + 1) (v.tree dir)
      rw [hrest]
      exact ⟨v :: visits, .cons rfl hvisits, congrArg (file :: ·) hloads, hsettles.cons hv,
        congrArg (v.events skip dir ++ ·) hevents⟩
    · rw [hstop]
      exact ⟨[v], .cons rfl .nil, rfl, ⟨⟨files, rfl⟩, [], v, rfl, by simp, hv⟩,
        (List.append_nil _).symm⟩

theorem passFiles_visits (source : TaskSource) (skip : Bool) (dir : Path) (call : Nat)
    (t : FileTree) (files : List Path) :
    let p := passFiles source skip dir call t files
    ∃ visits, Visits source dir call t visits p.tree ∧ p.loads = visits.map Visit.file ∧
      Settles skip dir files visits p.result := by
  obtain ⟨visits, hvisits, hloads, hsettles, -⟩ := passFiles_logs source skip dir call t files
  exact ⟨visits, hvisits, hloads, hsettles⟩

/-- A pass loads the files that it has listed before the first load, each once and in order, up to
the first that ends it, whatever each load returns and does to the tree; report and error tell what
the loads have returned. -/
theorem pass_snapshot (order : Order) (source : TaskSource) (skip : Bool) (t : FileTree)
    (dir : Path) :
    let p := pass order source skip t dir
    (∀ u files, Lists order source t dir u files →
      ∃ visits, Visits source dir 0 u visits p.tree ∧ p.loads = visits.map Visit.file ∧
        Settles skip dir files visits p.result) ∧
    ((¬ ∃ u files, Lists order source t dir u files) →
      p.loads = [] ∧ ∃ fault, p.result = .error fault) := by
  refine ⟨?_, ?_⟩
  · intro u files h
    rw [pass_of_lists h]
    exact passFiles_visits source skip dir 0 u files
  · intro h
    obtain ⟨u, fault, hstop, -⟩ := pass_of_not_lists skip h
    rw [hstop]
    exact ⟨rfl, fault, rfl⟩

/-- Task files on disk, in a tree that changes just before load number `k`, counted from zero. -/
def disturbed (k : Nat) (change : FileTree → FileTree) : TaskSource where
  accepts := TaskSource.acceptsDocument
  load call t p := TaskSource.documents.load call (if call = k then change t else t) p

def intrude (t : FileTree) : FileTree :=
  t.put [ascii "d", ascii "z.json"] (.file largeDocument)

theorem pass_snapshot_mixed :
    let source := disturbed 1 intrude
    let files := ["d/a.json", "d/b.json", "d/c.json"].map Path.ofString
    let p := pass .kept source true mixedTree mixedDirectory
    p.result = .ok mixedReport ∧
      (taskAt? p.tree [ascii "d", ascii "z.json"]).any Puzzle.isLarge ∧
      (∃ u visits, Lists .kept source mixedTree mixedDirectory u files ∧
        Visits source mixedDirectory 0 u visits p.tree ∧ visits.map Visit.file = files ∧
        mixedReport.Accounts true mixedDirectory visits) ∧
      (pass .kept source true mixedTree ⟨ascii "x"⟩).loads = [] := by
  intro source files p
  have hresult : p.result = .ok mixedReport := by decide +kernel
  have hlists : Lists .kept source mixedTree mixedDirectory _ files :=
    ⟨by decide +kernel, by decide +kernel, rfl, by decide +kernel⟩
  have hmissing : ¬ ∃ u files, Lists .kept source mixedTree ⟨ascii "x"⟩ u files := by
    rintro ⟨u, files, h⟩
    exact absurd h.isDirectory (by decide +kernel)
  refine ⟨hresult, by decide +kernel, ?_, ?_⟩
  · obtain ⟨visits, hvisits, -, hsettles⟩ :=
      (pass_snapshot .kept source true mixedTree mixedDirectory).1 _ files hlists
    have hsettled : Settles true mixedDirectory files visits (.ok mixedReport) :=
      hresult ▸ hsettles
    exact ⟨_, visits, hlists, hvisits, hsettled.1, hsettled.2.2⟩
  · exact ((pass_snapshot .kept source true mixedTree ⟨ascii "x"⟩).2 hmissing).1

end Prune
end GridPuzzles
