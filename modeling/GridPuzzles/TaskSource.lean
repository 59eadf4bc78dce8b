import GridPuzzles.Log
import GridPuzzles.Puzzle.Document

/-! Task files: which files hold tasks, how one is loaded, and which a directory has. -/
namespace GridPuzzles

/-- What takes a path to a task. A load may depend on how many loads came before it, and it may
change the tree. -/
structure TaskSource where
  accepts : FileTree → Path → Bool
  load : (call : Nat) → FileTree → Path → Run Fault Puzzle

namespace TaskSource

def suffix : List UInt8 := ascii ".json"

/-- The name of a task file is text, and ends in the suffix. -/
def isTaskName (n : Name) : Bool := Utf8.isText n && suffix.isSuffixOf n

theorem isTaskName_iff {n : Name} : isTaskName n ↔ Utf8.isText n ∧ suffix <:+ n := by
  rw [isTaskName, Bool.and_eq_true, List.isSuffixOf_iff_suffix]

def acceptsDocument (t : FileTree) (p : Path) : Bool :=
  p.fileName?.any isTaskName && !t.isDirectory p

/-- As much of a file as a reader gets to see: all of it, or the signature of a picture, since
no document begins as a picture does. -/
def opening : Content → List UInt8
  | .bytes b => b
  | .picture _ => Preview.Png.signature

/-- A document that begins with a byte foreign to all documents is refused at that byte. -/
theorem parse_foreign (r : List UInt8) :
    Puzzle.reader.parse (0x89 :: r) = .error ⟨.expectedValue, some ⟨1, 1⟩⟩ := by
  have h : Puzzle.reader.run (0x89 :: r) = .failed .expectedValue r := rfl
  have hl : (0x89 :: r).length - r.length = 1 := by simp
  unfold Json.Reader.parse
  rw [h]
  simp only [hl]
  rfl

theorem parse_opening (c : Content) :
    Puzzle.reader.parse (opening c) = Puzzle.reader.parse c.stored.data.toList := by
  cases c with
  | bytes b => rfl
  | picture img =>
    have h : (Content.picture img).stored.data.toList =
        Preview.Png.signature ++ (Preview.Png.chunks img).data.toList :=
      Preview.Png.encode_eq_signature_append img
    rw [h]
    exact (parse_foreign _).trans (parse_foreign _).symm

/-- The task in a file; a directory can be opened, but not read. -/
def loadDocument (t : FileTree) (p : Path) : Except Fault Puzzle :=
  match t.inspect p with
  | .error e => .error (.disk p e)
  | .ok .directory => .error (.unparsable p ⟨.unreadable .isDirectory, none⟩)
  | .ok (.file c) =>
    match Puzzle.reader.parse (opening c) with
    | .ok task => .ok task
    | .error failure => .error (.unparsable p failure)

def parsedEvents (p : Path) : Except Fault Puzzle → List Event
  | .ok task => [.parsed p task.train.length task.test.length]
  | .error _ => []

def documents : TaskSource where
  accepts := acceptsDocument
  load _ t p := ⟨t, parsedEvents p (loadDocument t p), loadDocument t p⟩

end TaskSource

structure Order where
  arrange : List Name → List Name
  arrange_perm : ∀ names, (arrange names).Perm names

namespace Order

def kept : Order := ⟨id, fun _ => .refl _⟩

end Order

/-- The paths in a directory that a source accepts, all listed before any is loaded. -/
def taskFiles (order : Order) (source : TaskSource) (t : FileTree) (dir : Path) :
    Except Fault (List Path) :=
  if !t.isDirectory dir then .error (.directoryNotFound dir)
  else
    match t.readDirectory dir with
    | .error e => .error (.disk dir e)
    | .ok names => .ok (((order.arrange names).map dir.join).filter (source.accepts t))

def listTaskFiles (order : Order) (source : TaskSource) (t : FileTree) (dir : Path) :
    Run Fault (List Path) :=
  match taskFiles order source t dir with
  | .ok files => ⟨t, [.found files.length dir], .ok files⟩
  | .error e => ⟨t, [], .error e⟩

end GridPuzzles
