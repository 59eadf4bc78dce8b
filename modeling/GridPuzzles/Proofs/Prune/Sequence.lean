import GridPuzzles.Proofs.Prune.Effect
import GridPuzzles.Prune.Run

/-! A run over several directories as a sequence of passes. Each pass is made in the tree that the
one before it has left, its report is handed over before the next pass begins, and the run ends at
the first pass that fails. -/
namespace GridPuzzles
namespace Prune

variable {orders : Nat → Order} {skip : Bool} {t : FileTree} {dir : Path} {dirs : List Path}
  {report : Report} {reports : List Report} {fault : Fault}

theorem run_cons_of_ok (dirs : List Path)
    (h : (pass (orders 0) .documents skip t dir).result = .ok report) :
    let rest := run (fun i => orders (i + 1)) skip (pass (orders 0) .documents skip t dir).tree dirs
    (run orders skip t (dir :: dirs)).tree = rest.tree ∧
      (run orders skip t (dir :: dirs)).result = rest.result.map (report :: ·) := by
  constructor <;> simp only [run, h]

theorem exists_of_run_cons_ok (h : (run orders skip t (dir :: dirs)).result = .ok reports) :
    ∃ report rest, reports = report :: rest ∧
      (pass (orders 0) .documents skip t dir).result = .ok report ∧
      (run (fun i => orders (i + 1)) skip (pass (orders 0) .documents skip t dir).tree dirs).result
        = .ok rest ∧
      (run orders skip t (dir :: dirs)).tree =
        (run (fun i => orders (i + 1)) skip (pass (orders 0) .documents skip t dir).tree dirs).tree
      := by
  cases hpass : (pass (orders 0) .documents skip t dir).result with
  | error fault =>
    rw [run] at h
    simp only [hpass] at h
    cases h
  | ok report =>
    obtain ⟨htree, hresult⟩ := run_cons_of_ok dirs hpass
    rw [hresult] at h
    obtain ⟨rest, hrest, hreports⟩ := map_eq_ok.mp h
    exact ⟨report, rest, hreports.symm, rfl, hrest, htree⟩

/-- A pass of a run, with the tree that it is made in. -/
structure Stage where
  dir : Path
  before : FileTree
  pass : Pass

namespace Stage

def make (order : Order) (skip : Bool) (t : FileTree) (dir : Path) : Stage :=
  ⟨dir, t, Prune.pass order .documents skip t dir⟩

def steps (s : Stage) : List Step :=
  (Event.partitioning s.dir :: s.pass.events).map Step.logged ++
    match s.pass.result with
    | .ok report => [.reported report]
    | .error _ => []

def Completes (s : Stage) (report : Report) : Prop := s.pass.result = .ok report

def Fails (s : Stage) (fault : Fault) : Prop := s.pass.result = .error fault

end Stage

def later (n : Nat) (orders : Nat → Order) : Nat → Order := fun i => orders (i + n)

def stages (orders : Nat → Order) (skip : Bool) : FileTree → List Path → List Stage
  | _, [] => []
  | t, dir :: dirs =>
    let s := Stage.make (orders 0) skip t dir
    s :: stages (later 1 orders) skip s.pass.tree dirs

def treeAfter (t : FileTree) (ss : List Stage) : FileTree := ss.foldl (fun _ s => s.pass.tree) t

namespace Outcome

variable {s : Stage}

def following (s : Stage) (report : Report) (rest : Outcome) : Outcome :=
  ⟨rest.tree, s.steps ++ rest.steps, rest.result.map (report :: ·)⟩

/-- A run taken on from the tree that it has left, if it has succeeded. -/
def andThen (o : Outcome) (next : FileTree → Outcome) : Outcome :=
  match o.result with
  | .error _ => o
  | .ok reports =>
    let rest := next o.tree
    ⟨rest.tree, o.steps ++ rest.steps, rest.result.map (reports ++ ·)⟩

theorem andThen_of_error {failure : Failure} {o : Outcome} (next : FileTree → Outcome)
    (h : o.result = .error failure) : o.andThen next = o := by
  rw [andThen, h]

theorem following_andThen (rest : Outcome) (next : FileTree → Outcome) :
    (following s report rest).andThen next = following s report (rest.andThen next) := by
  obtain ⟨tree, steps, result⟩ := rest
  cases result with
  | error failure => rfl
  | ok reports =>
    cases hnext : (next tree).result <;> simp [following, andThen, hnext, Except.map]

theorem begin_andThen (t : FileTree) (next : FileTree → Outcome) :
    (⟨t, [], .ok []⟩ : Outcome).andThen next = next t := by
  rw [andThen]
  obtain ⟨tree, steps, result⟩ := next t
  cases result <;> rfl

end Outcome

/-! One directory of a run. -/

theorem run_cons_of_completes (h : (Stage.make (orders 0) skip t dir).Completes report) :
    let s := Stage.make (orders 0) skip t dir
    run orders skip t (dir :: dirs) =
      .following s report (run (later 1 orders) skip s.pass.tree dirs) := by
  have hresult : (pass (orders 0) .documents skip t dir).result = .ok report := h
  simp only [run, hresult, Outcome.following, Stage.steps, Stage.make, List.append_assoc,
    List.singleton_append]
  rfl

theorem run_cons_of_fails (h : (Stage.make (orders 0) skip t dir).Fails fault) :
    let s := Stage.make (orders 0) skip t dir
    run orders skip t (dir :: dirs) = ⟨s.pass.tree, s.steps, .error ⟨.pruning dir, fault⟩⟩ := by
  have hresult : (pass (orders 0) .documents skip t dir).result = .error fault := h
  simp only [run, hresult, Stage.steps, Stage.make, List.append_nil]

/-! The reports handed over. -/

def reportsIn (steps : List Step) : List Report :=
  steps.filterMap fun
    | .reported r => some r
    | .logged _ => none

theorem reportsIn_append (a b : List Step) : reportsIn (a ++ b) = reportsIn a ++ reportsIn b :=
  List.filterMap_append

theorem reportsIn_logged (events : List Event) : reportsIn (events.map Step.logged) = [] := by
  simp [reportsIn]

theorem Stage.reportsIn_steps_of_completes {s : Stage} (h : s.Completes report) :
    reportsIn s.steps = [report] := by
  rw [Stage.steps, reportsIn_append, reportsIn_logged, h]
  rfl

theorem Stage.reportsIn_steps_of_fails {s : Stage} (h : s.Fails fault) :
    reportsIn s.steps = [] := by
  rw [Stage.steps, reportsIn_append, reportsIn_logged, h]
  rfl

theorem reportsIn_stages {ss : List Stage} (h : List.Forall₂ Stage.Completes ss reports) :
    reportsIn (ss.flatMap Stage.steps) = reports := by
  induction h with
  | nil => rfl
  | cons hs _ ih =>
    rw [List.flatMap_cons, reportsIn_append, Stage.reportsIn_steps_of_completes hs, ih]
    rfl

theorem reportsIn_stages_append {ss : List Stage} {s : Stage}
    (h : List.Forall₂ Stage.Completes ss reports) (hs : s.Fails fault) :
    reportsIn (ss.flatMap Stage.steps ++ s.steps) = reports := by
  rw [reportsIn_append, reportsIn_stages h, Stage.reportsIn_steps_of_fails hs, List.append_nil]

/-! A whole run. -/

theorem run_of_completes
    (h : List.Forall₂ Stage.Completes (stages orders skip t dirs) reports) :
    run orders skip t dirs =
      ⟨treeAfter t (stages orders skip t dirs), (stages orders skip t dirs).flatMap Stage.steps,
        .ok reports⟩ := by
  induction dirs generalizing orders t reports with
  | nil =>
    cases h
    rfl
  | cons dir dirs ih =>
    cases h with
    | cons hs hrest =>
      rw [run_cons_of_completes hs, ih hrest]
      rfl

/-- A run over two lists of directories is a run over the first and then, if that succeeds, a run
over the second. -/
theorem run_append (orders : Nat → Order) (skip : Bool) (t : FileTree) (dirs others : List Path) :
    run orders skip t (dirs ++ others) =
      (run orders skip t dirs).andThen fun u => run (later dirs.length orders) skip u others := by
  induction dirs generalizing orders t with
  | nil =>
    rw [run, Outcome.begin_andThen]
    rfl
  | cons dir dirs ih =>
    rw [List.cons_append]
    cases hresult : (pass (orders 0) .documents skip t dir).result with
    | error fault =>
      rw [run_cons_of_fails hresult, run_cons_of_fails hresult, Outcome.andThen_of_error _ rfl]
    | ok report =>
      rw [run_cons_of_completes hresult, run_cons_of_completes hresult,
        Outcome.following_andThen, ih]
      rfl

theorem run_of_fails {before : List Path} (after : List Path)
    (h : List.Forall₂ Stage.Completes (stages orders skip t before) reports)
    (hs : (Stage.make (orders before.length) skip (treeAfter t (stages orders skip t before))
      dir).Fails fault) :
    let ss := stages orders skip t before
    let s := Stage.make (orders before.length) skip (treeAfter t ss) dir
    run orders skip t (before ++ dir :: after) =
      ⟨s.pass.tree, ss.flatMap Stage.steps ++ s.steps, .error ⟨.pruning dir, fault⟩⟩ := by
  have hstage : later before.length orders 0 = orders before.length := by
    rw [later, Nat.zero_add]
  rw [← hstage] at hs
  rw [run_append, run_of_completes h]
  simp only [Outcome.andThen, run_cons_of_fails hs, hstage]
  rfl

/-- A run is the sequence of the single passes, each in the tree that the one before it has left and
each report handed over before the next directory is touched. The first failure is that of the run,
and nothing is done after it. -/
theorem run_in_sequence (orders : Nat → Order) (skip : Bool) (t : FileTree) :
    (∀ dirs reports, List.Forall₂ Stage.Completes (stages orders skip t dirs) reports →
      let ss := stages orders skip t dirs
      run orders skip t dirs = ⟨treeAfter t ss, ss.flatMap Stage.steps, .ok reports⟩ ∧
        (run orders skip t dirs).reports = reports) ∧
    (∀ before dir after reports fault,
      let ss := stages orders skip t before
      let s := Stage.make (orders before.length) skip (treeAfter t ss) dir
      List.Forall₂ Stage.Completes ss reports → s.Fails fault →
        run orders skip t (before ++ dir :: after) =
          ⟨s.pass.tree, ss.flatMap Stage.steps ++ s.steps, .error ⟨.pruning dir, fault⟩⟩ ∧
        (run orders skip t (before ++ dir :: after)).reports = reports ∧
        (Activity.pruning dir).text = "Failed to prune '" ++ dir.text ++ "'") ∧
    ∀ dirs others, run orders skip t (dirs ++ others) =
      (run orders skip t dirs).andThen fun u => run (later dirs.length orders) skip u others := by
  refine ⟨?_, ?_, run_append orders skip t⟩
  · intro dirs reports h ss
    have hrun := run_of_completes h
    refine ⟨hrun, ?_⟩
    rw [hrun]
    exact reportsIn_stages h
  · intro before dir after reports fault ss s h hs
    have hrun := run_of_fails after h hs
    refine ⟨hrun, ?_, rfl⟩
    rw [hrun]
    exact reportsIn_stages_append h hs

def upperDirectory : Path := ⟨ascii "."⟩

def upperReport : Report := ⟨upperDirectory, 1, 1, [⟨ascii "./large/f.json"⟩], []⟩

theorem run_in_sequence_mixed :
    let orders : Nat → Order := fun _ => .kept
    let reports := [mixedReport, upperReport]
    (run orders true mixedTree [mixedDirectory, upperDirectory]).result = .ok reports ∧
      (run orders true mixedTree
        [mixedDirectory, upperDirectory, ⟨ascii "x"⟩, mixedDirectory]).reports = reports ∧
      (run orders true mixedTree
        [mixedDirectory, upperDirectory, ⟨ascii "x"⟩, mixedDirectory]).result =
          .error ⟨.pruning ⟨ascii "x"⟩, .directoryNotFound ⟨ascii "x"⟩⟩ := by
  intro orders reports
  have hcompletes : List.Forall₂ Stage.Completes
      (stages orders true mixedTree [mixedDirectory, upperDirectory]) reports := by
    refine .cons ?_ (.cons ?_ .nil)
    · exact (by decide +kernel : (pass .kept .documents true mixedTree mixedDirectory).result =
        .ok mixedReport)
    · exact (by decide +kernel : (pass .kept .documents true
        (pass .kept .documents true mixedTree mixedDirectory).tree upperDirectory).result =
          .ok upperReport)
  have hfails : (Stage.make .kept true
      (treeAfter mixedTree (stages orders true mixedTree [mixedDirectory, upperDirectory]))
      ⟨ascii "x"⟩).Fails (.directoryNotFound ⟨ascii "x"⟩) :=
    (by decide +kernel : (pass .kept .documents true
      (treeAfter mixedTree (stages orders true mixedTree [mixedDirectory, upperDirectory]))
        ⟨ascii "x"⟩).result = .error (.directoryNotFound ⟨ascii "x"⟩))
  obtain ⟨hall, hstopped, -⟩ := run_in_sequence orders true mixedTree
  obtain ⟨hrun, hreports, -⟩ := hstopped _ _ [mixedDirectory] _ _ hcompletes hfails
  refine ⟨?_, hreports, ?_⟩
  · rw [(hall _ _ hcompletes).1]
  · exact congrArg Outcome.result hrun

end Prune
end GridPuzzles
