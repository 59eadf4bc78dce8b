import GridPuzzles.Proofs.FileTree.Requests
import GridPuzzles.Proofs.Json.Pairs
import GridPuzzles.TaskSource

/-! The format of task files. A file holds a task exactly if its bytes spell it; all other files
are refused under their own name. -/
namespace GridPuzzles
open Json (Blank ListOf PairOf Reader)

/-- Lists of cells, each a number up to 255 in decimal digits without leading zeros. -/
def Grid.Spelled (g : Grid) : List UInt8 → Prop :=
  ListOf (ListOf fun (cell : UInt8) v => v = decimal cell.toNat) g.rows

def Example.Spelled (e : Example) : List UInt8 → Prop :=
  PairOf (ascii "input") (ascii "output") Grid.Spelled Grid.Spelled e.input e.output

def Puzzle.Spelled (p : Puzzle) : List UInt8 → Prop :=
  PairOf (ascii "train") (ascii "test") (ListOf Example.Spelled) (ListOf Example.Spelled)
    p.train p.test

/-- A whole document: the spelling of a task with nothing but blanks around it. -/
def Puzzle.Documented (p : Puzzle) (document : List UInt8) : Prop :=
  ∃ before v after, Blank before ∧ Blank after ∧ p.Spelled v ∧ document = before ++ (v ++ after)

theorem Grid.ofRows_eq_ok {rows : List (List UInt8)} {g : Grid} :
    ofRows rows = .ok g ↔ g.rows = rows := by
  rw [ofRows]
  split
  · rw [Except.ok.injEq]
    constructor
    · rintro rfl
      rfl
    · rintro rfl
      rfl
  · rename_i h
    simp only [reduceCtorEq, false_iff]
    rintro rfl
    exact h g.rectangular

theorem Grid.reader_reads : Grid.reader.Reads Grid.Spelled := by
  refine (Reader.cell_reads.sequence.sequence.refine _).congr ?_
  intro g v
  constructor
  · rintro ⟨rows, hv, hrows⟩
    split at hrows
    · rename_i hg
      cases hrows
      rwa [← Grid.ofRows_eq_ok.mp hg] at hv
    · cases hrows
  · intro hv
    refine ⟨g.rows, hv, ?_⟩
    rw [Grid.ofRows_eq_ok.mpr rfl]

theorem Example.reader_reads : Example.reader.Reads Example.Spelled := by
  have hne : ascii "input" ≠ ascii "output" := by decide
  refine ((Json.pairRecord_reads Grid.reader_reads Grid.reader_reads hne _).map _).congr ?_
  intro e v
  constructor
  · rintro ⟨⟨input, output⟩, hv, rfl⟩
    exact hv
  · intro hv
    exact ⟨(e.input, e.output), hv, rfl⟩

theorem Puzzle.reader_reads : Puzzle.reader.Reads Puzzle.Spelled := by
  have hne : ascii "train" ≠ ascii "test" := by decide
  refine ((Json.pairRecord_reads Example.reader_reads.sequence Example.reader_reads.sequence hne
    _).map _).congr ?_
  intro p v
  constructor
  · rintro ⟨⟨train, test⟩, hv, rfl⟩
    exact hv
  · intro hv
    exact ⟨(p.train, p.test), hv, rfl⟩

namespace TaskSource

/-- A file of UTF-8 loads as a task exactly if it spells that task; if it spells none, the failure
names the file. -/
theorem load_documents (t : FileTree) (p : Path) (call : Nat) {c : Content}
    (hfile : t.inspect p = .ok (.file c)) (htext : Utf8.isText c.stored.data.toList) :
    (∀ task, (documents.load call t p).result = .ok task ↔
      task.Documented c.stored.data.toList) ∧
    ((∀ task : Puzzle, ¬ task.Documented c.stored.data.toList) →
      ∃ failure, (documents.load call t p).result = .error (.unparsable p failure)) := by
  have hparse (task : Puzzle) : Puzzle.reader.parse c.stored.data.toList = .ok task ↔
      task.Documented c.stored.data.toList := Puzzle.reader_reads.parse_eq_ok htext
  have hload : (documents.load call t p).result = loadDocument t p := rfl
  simp only [hload, ← hparse]
  cases hdocument : Puzzle.reader.parse c.stored.data.toList with
  | ok task =>
    have hresult : loadDocument t p = .ok task := by
      simp only [loadDocument, hfile, parse_opening, hdocument]
    simp [hresult]
  | error failure =>
    have hresult : loadDocument t p = .error (.unparsable p failure) := by
      simp only [loadDocument, hfile, parse_opening, hdocument]
    simp [hresult]

/-- Keys in another order, one of them escaped, a nested member that is skipped and an example
without keys. -/
def decorated : List UInt8 :=
  ascii "\x7b\"t\\u0065st\":[], \"note\":\x7b\"a\":[-1.5e3,null]\x7d, \"train\":[[[[1,20]],[ ]]]\x7d\n"

def decoratedTask : Puzzle where
  train := [⟨⟨[[1, 20]], List.forall_mem_singleton.mpr rfl⟩, Grid.empty⟩]
  test := []

def doubled : List UInt8 := ascii "\x7b\"train\":[],\"test\":[],\"train\":[]\x7d"

def documentTree : FileTree where
  root := [(ascii "a.json", .file (.bytes decorated)), (ascii "b.json", .file (.bytes doubled))]
  workingDirectory := []

theorem load_documents_decorated :
    decoratedTask.Documented decorated ∧ ∀ task : Puzzle, ¬ task.Documented doubled := by
  constructor
  · have hfile : documentTree.inspect ⟨ascii "a.json"⟩ = .ok (.file (.bytes decorated)) :=
      FileTree.inspect_eq_ok.mpr ⟨[ascii "a.json"], by decide +kernel, rfl⟩
    have htext : Utf8.isText (Content.bytes decorated).stored.data.toList := by decide +kernel
    have hload : (documents.load 0 documentTree ⟨ascii "a.json"⟩).result = .ok decoratedTask := by
      decide +kernel
    exact ((load_documents documentTree _ 0 hfile htext).1 decoratedTask).mp hload
  · have hfile : documentTree.inspect ⟨ascii "b.json"⟩ = .ok (.file (.bytes doubled)) :=
      FileTree.inspect_eq_ok.mpr ⟨[ascii "b.json"], by decide +kernel, rfl⟩
    have htext : Utf8.isText (Content.bytes doubled).stored.data.toList := by decide +kernel
    have herror : (documents.load 0 documentTree ⟨ascii "b.json"⟩).result.isOk = false := by
      decide +kernel
    intro task htask
    rw [((load_documents documentTree _ 0 hfile htext).1 task).mpr htask] at herror
    cases herror

end TaskSource
end GridPuzzles
