import GridPuzzles.Program
import GridPuzzles.Proofs.CommandLine.Correspondence
import GridPuzzles.Proofs.Preview.Picture
import GridPuzzles.Proofs.View.Effect

/-! The cell size on the command line. An attached value is stored as soon as it is read, so what
becomes of the arguments is told by the value alone; the number that it stands for is the edge of
a cell in the picture. -/
namespace GridPuzzles
namespace CommandLine

open Preview (CellSize Depicts panels)

variable {task v : String} {size : UInt32}

abbrev sizeShown : String := "--cell-size <CELL_SIZE>"

def sizeArguments (task v : String) : List String := ["view", task, "--cell-size=" ++ v]

def sizeConfig (task : String) (size : UInt32) : View.Config := ⟨Path.ofString task, none, size⟩

theorem settle_task (hne : task ≠ "") (b : ViewDraft) :
    Progress.settle viewGrammar ⟨b, .positional [task], true, false⟩ =
      .ok (.resting { b with task := some (Path.ofString task) } true false) := by
  have hstore : viewGrammar.store b [task] = .ok { b with task := some (Path.ofString task) } :=
    viewGrammar_store.mpr ⟨by simpa using hne, rfl⟩
  exact Progress.settle_eq_ok.mpr ⟨_, hstore, rfl⟩

theorem next_cellSize (hne : task ≠ "") (v : String) :
    Progress.next viewGrammar ⟨⟨none, none, none⟩, .positional [task], true, false⟩
        ("--cell-size=" ++ v) =
      (cellSizeValue sizeShown v).map fun size =>
        .resting ⟨some (Path.ofString task), none, some size⟩ true false := by
  have harg : ("--cell-size=" ++ v).toList =
      '-' :: '-' :: ("cell-size".toList ++ '=' :: v.toList) := by simp
  have hlong := Progress.long_attached viewGrammar_regular
    (p := ⟨⟨none, none, none⟩, .positional [task], true, false⟩)
    (List.mem_cons_of_mem _ List.mem_cons_self) v
  rw [Progress.next_long rfl (by simp) harg]
  refine hlong.trans ?_
  simp only [Progress.attach, settle_task hne, ok_bind]
  cases cellSizeValue sizeShown v <;> rfl

theorem parse_sizeArguments (htask : Free task) (hne : task ≠ "") (v : String) :
    parse (sizeArguments task v) =
      (cellSizeValue sizeShown v).map fun size => .view (sizeConfig task size) := by
  have hbegin : (Progress.begin ⟨none, none, none⟩).next viewGrammar task =
      .ok ⟨⟨none, none, none⟩, .positional [task], true, false⟩ := by
    rw [Progress.next_free rfl htask]
    rfl
  have hread : readView [task, "--cell-size=" ++ v] =
      (cellSizeValue sizeShown v).map fun size => sizeConfig task size := by
    rw [readView, Grammar.read, List.foldlM_cons, hbegin, ok_bind, List.foldlM_cons,
      next_cellSize hne]
    cases cellSizeValue sizeShown v <;> rfl
  have hview : parse (sizeArguments task v) =
      (readView [task, "--cell-size=" ++ v]).map .view := by
    rw [sizeArguments, parse, if_neg (by decide), if_pos rfl]
  rw [hview, hread]
  cases cellSizeValue sizeShown v <;> rfl

theorem not_sizeSpelled (h : ∀ n, Denotes v.toList n → ¬ (1 ≤ n ∧ n ≤ 256)) (size : UInt32) :
    ¬ SizeSpelled size v := by
  intro hspelled
  obtain ⟨⟨hlow, hhigh⟩, hdenotes⟩ := sizeSpelled_iff.mp hspelled
  have hlargest : CellSize.largest.toNat = 256 := rfl
  rw [hlargest] at hhigh
  exact h _ hdenotes (by omega)

theorem depicts_of_runProgram (orders : Nat → Order) (t : FileTree) {args : List String}
    {c : View.Config} (hparse : parse args = .ok (.view c))
    (hexit : (runProgram orders t args).exitCode = 0) :
    ∃ puzzle train test img, TaskSource.loadDocument t c.task = .ok puzzle ∧
      puzzle.train.head? = some train ∧ puzzle.test.head? = some test ∧
      Depicts c.cellSize.toNat (panels train test) img ∧
      (runProgram orders t args).tree.inspect c.outputPath = .ok (.file (.picture img)) := by
  have htree : (runProgram orders t args).tree = (View.run t c).tree := by
    rw [runProgram, hparse]
    rfl
  have hresult : (View.run t c).result = .ok c.outputPath := by
    rcases View.run_cases t c with ⟨-, failure, hresult⟩ | ⟨hresult, -⟩
    · rw [runProgram, hparse] at hexit
      simp [Command.perform, hresult, Performance.failure?] at hexit
    · exact hresult
  obtain ⟨puzzle, img, hload, hdraw, hinspect⟩ := View.inspect_of_run hresult
  obtain ⟨train, test, htrain, htest, hdepicts⟩ := Preview.draw_depicts hdraw
  have hone := (accepted_of_parse hparse).1
  rw [Preview.CellSize.toNat_ofRequest, Nat.max_eq_left hone] at hdepicts
  rw [htree]
  exact ⟨puzzle, train, test, img, hload, htrain, htest, hdepicts, hinspect⟩

/-- A value for the cell size is accepted exactly if it is a numeral of a number from 1 to 256,
which is then the size of the cells in the picture; the other signed 64-bit numbers are refused for
not being in this range. -/
theorem parse_cellSize (task v : String) (htask : Free task) (hne : task ≠ "") :
    (∀ c, parse (sizeArguments task v) = .ok c ↔ ∃ size : UInt32,
      c = .view (sizeConfig task size) ∧ Denotes v.toList size.toNat ∧
        1 ≤ size.toNat ∧ size.toNat ≤ 256) ∧
    ((∀ n, Denotes v.toList n → ¬ (1 ≤ n ∧ n ≤ 256)) →
      ∃ reason, parse (sizeArguments task v) = .error (.badValue v sizeShown reason) ∧
        ∀ n, Denotes v.toList n → -2 ^ 63 ≤ n → n ≤ 2 ^ 63 - 1 →
          reason = toString n ++ " is not in 1..=256") ∧
    ∀ orders t size, parse (sizeArguments task v) = .ok (.view (sizeConfig task size)) →
      (runProgram orders t (sizeArguments task v)).exitCode = 0 →
      ∃ puzzle train test img,
        TaskSource.loadDocument t (Path.ofString task) = .ok puzzle ∧
        puzzle.train.head? = some train ∧ puzzle.test.head? = some test ∧
        Depicts size.toNat (panels train test) img ∧
        (runProgram orders t (sizeArguments task v)).tree.inspect
          (sizeConfig task size).outputPath = .ok (.file (.picture img)) := by
  have hparse := parse_sizeArguments htask hne v
  refine ⟨?_, ?_, fun orders t _ => depicts_of_runProgram orders t⟩
  · intro c
    simp only [hparse, map_eq_ok, cellSizeValue_eq_ok, sizeSpelled_iff]
    constructor
    · rintro ⟨size, ⟨haccepted, hdenotes⟩, rfl⟩
      exact ⟨size, rfl, hdenotes, haccepted⟩
    · rintro ⟨size, rfl, hdenotes, haccepted⟩
      exact ⟨size, ⟨haccepted, hdenotes⟩, rfl⟩
  · intro h
    obtain ⟨reason, herror, hreason⟩ := cellSizeValue_eq_error (not_sizeSpelled h)
    refine ⟨reason, ?_, ?_⟩
    · rw [hparse, herror]
      rfl
    · intro n hn hlow hhigh
      exact hreason n (numeral_eq_ok.mpr ⟨hn, hlow, hhigh⟩)

theorem parse_cellSize_signed :
    parse (sizeArguments "t.json" "+008") = .ok (.view (sizeConfig "t.json" 8)) ∧
      (∃ train test img, Depicts 8 (panels train test) img ∧
        (runProgram (fun _ => .kept) View.tinyTree (sizeArguments "t.json" "+008")).tree.inspect
          ⟨ascii "t.png"⟩ = .ok (.file (.picture img))) ∧
      parse (sizeArguments "t.json" "-0") =
        .error (.badValue "-0" sizeShown "0 is not in 1..=256") := by
  have htask : Free "t.json" := by decide
  have hne : "t.json" ≠ "" := by decide
  have hparse : parse (sizeArguments "t.json" "+008") = .ok (.view (sizeConfig "t.json" 8)) := by
    have hnumeral : numeral "+008".toList = .ok 8 := by decide
    exact ((parse_cellSize "t.json" "+008" htask hne).1 _).mpr
      ⟨8, rfl, (numeral_eq_ok.mp hnumeral).1, by decide, by decide⟩
  refine ⟨hparse, ?_, ?_⟩
  · have hexit : (runProgram (fun _ => .kept) View.tinyTree
        (sizeArguments "t.json" "+008")).exitCode = 0 := by decide +kernel
    obtain ⟨-, train, test, img, -, -, -, hdepicts, hinspect⟩ :=
      (parse_cellSize "t.json" "+008" htask hne).2.2 _ _ 8 hparse hexit
    exact ⟨train, test, img, hdepicts, hinspect⟩
  · have hnumeral : numeral "-0".toList = .ok 0 := by decide
    have hdenotes := (numeral_eq_ok.mp hnumeral).1
    have hrange : ∀ n, Denotes "-0".toList n → ¬ (1 ≤ n ∧ n ≤ 256) := by
      rintro n hn ⟨hlow, hhigh⟩
      have hbound : (256 : Int) ≤ (Nat.pow 2 63 - 1 : Nat) := by decide
      have h := numeral_eq_ok.mpr ⟨hn, by omega, by omega⟩
      rw [hnumeral, Except.ok.injEq] at h
      omega
    obtain ⟨reason, herror, hreason⟩ := (parse_cellSize "t.json" "-0" htask hne).2.1 hrange
    rw [herror, hreason 0 hdenotes (by decide) (by decide)]
    rfl

end CommandLine
end GridPuzzles
