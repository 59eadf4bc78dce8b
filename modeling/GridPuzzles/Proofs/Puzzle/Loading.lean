import GridPuzzles.TaskSource
import Mathlib.Tactic.Common

/-! What a load says of a path: nothing can be opened there, what is there holds no task, or a
task. -/
namespace GridPuzzles
namespace TaskSource

variable {t : FileTree} {p q : Path} {failure : Json.Failure} {e : DiskError} {fault : Fault}

/-- What a path names can be opened and holds no task: a file with other content, or a directory,
which cannot be read. -/
def holdsNoTask (t : FileTree) (p : Path) : Bool :=
  match t.inspect p with
  | .ok (.file c) => !(Puzzle.reader.parse c.stored.data.toList).isOk
  | .ok .directory => true
  | .error _ => false

theorem loadDocument_of_error (h : t.inspect p = .error e) :
    loadDocument t p = .error (.disk p e) := by
  rw [loadDocument, h]

theorem loadDocument_of_directory (h : t.inspect p = .ok .directory) :
    loadDocument t p = .error (.unparsable p ⟨.unreadable .isDirectory, none⟩) := by
  rw [loadDocument, h]

theorem loadDocument_of_file {c : Content} (h : t.inspect p = .ok (.file c)) :
    loadDocument t p =
      (Puzzle.reader.parse c.stored.data.toList).mapError (Fault.unparsable p) := by
  rw [loadDocument, h]
  simp only [parse_opening]
  cases Puzzle.reader.parse c.stored.data.toList <;> rfl

theorem loadDocument_eq_unparsable :
    loadDocument t p = .error (.unparsable q failure) ↔
      q = p ∧
        ((∃ c, t.inspect p = .ok (.file c) ∧
            Puzzle.reader.parse c.stored.data.toList = .error failure) ∨
          t.inspect p = .ok .directory ∧ failure = ⟨.unreadable .isDirectory, none⟩) := by
  cases hinspect : t.inspect p with
  | error e => simp [loadDocument_of_error hinspect]
  | ok entry =>
    cases entry with
    | directory =>
      simp [loadDocument_of_directory hinspect, eq_comm]
    | file c =>
      rw [loadDocument_of_file hinspect]
      cases hparse : Puzzle.reader.parse c.stored.data.toList <;>
        simp [Except.mapError, hparse, eq_comm]

theorem loadDocument_eq_disk :
    loadDocument t p = .error (.disk q e) ↔ q = p ∧ t.inspect p = .error e := by
  cases hinspect : t.inspect p with
  | error e => simp [loadDocument_of_error hinspect, eq_comm]
  | ok entry =>
    cases entry with
    | directory => simp [loadDocument_of_directory hinspect]
    | file c =>
      rw [loadDocument_of_file hinspect]
      cases Puzzle.reader.parse c.stored.data.toList <;> simp [Except.mapError]

theorem fault_of_loadDocument (h : loadDocument t p = .error fault) :
    (∃ e, fault = .disk p e) ∨ ∃ failure, fault = .unparsable p failure := by
  rw [loadDocument] at h
  split at h
  · cases h
    exact .inl ⟨_, rfl⟩
  · cases h
    exact .inr ⟨_, rfl⟩
  · split at h
    · cases h
    · cases h
      exact .inr ⟨_, rfl⟩

end TaskSource
end GridPuzzles
