import GridPuzzles.FileTree.Basic
import GridPuzzles.FileTree.DiskError

/-! Requests to a file tree by path. A walk goes from the root or the working directory, one name
after the other, and every name but the last has to be a directory. -/
namespace GridPuzzles
namespace FileTree

def nameLimit : Nat := 255

def pathLimit : Nat := 4095

def checkSpelling (p : Path) : Except DiskError Unit :=
  if 0 ∈ p.bytes then .error .zeroByte
  else if p.bytes = [] then .error .notFound
  else .ok ()

def checkPath (p : Path) : Except DiskError Unit := do
  checkSpelling p
  if pathLimit < p.bytes.length then .error .nameTooLong else .ok ()

def step (t : FileTree) (l : Location) (n : Name) : Except DiskError Location :=
  if !t.isDirectoryAt l then .error .notDirectory
  else if n = Path.here then .ok l
  else if n = Path.up then .ok l.dropLast
  else if nameLimit < n.length then .error .nameTooLong
  else if (t.entry? (l ++ [n])).isNone then .error .notFound
  else .ok (l ++ [n])

def walk (t : FileTree) (l : Location) : List Name → Except DiskError Location
  | [] => .ok l
  | n :: ns =>
    match t.step l n with
    | .ok k => walk t k ns
    | .error e => .error e

def start (t : FileTree) (p : Path) : Location := if p.isAbsolute then [] else t.workingDirectory

/-- The names that the walk along a path looks up; a slash at the end asks for the directory
itself. -/
def lookups (p : Path) : List Name := if p.endsInSlash then p.steps ++ [Path.here] else p.steps

def locate (t : FileTree) (p : Path) : Except DiskError Location := do
  checkPath p
  t.walk (t.start p) (lookups p)

def fullLength (l : Location) : Nat := l.foldr (fun n k => n.length + 1 + k) 0

/-- Length in bytes of the path from the root to a name in a directory; dots are asked for as
the directory with a slash. -/
def askedLength (l : Location) (n : Name) : Nat :=
  fullLength l + 1 + if n = Path.here ∨ n = Path.up then 0 else n.length

/-- Goes down a list of names with one request for each, by its path from the root. -/
def survey (t : FileTree) (l : Location) : List Name → Except DiskError Location
  | [] => .ok l
  | n :: ns =>
    if pathLimit < askedLength l n then .error .nameTooLong
    else
      match t.step l n with
      | .ok k => survey t k ns
      | .error e => .error e

/-- The place that a path of any length names. -/
def resolve (t : FileTree) (p : Path) : Except DiskError Location := do
  checkSpelling p
  t.survey (t.start p) (lookups p)

inductive Last where
  | nothing
  | dots
  | name (n : Name)
deriving DecidableEq, Repr

def lastOf (p : Path) : Last :=
  match p.steps.getLast? with
  | none => .nothing
  | some n => if n = Path.here ∨ n = Path.up then .dots else .name n

def locateParent (t : FileTree) (p : Path) : Except DiskError (Location × Last) := do
  checkPath p
  let l ← t.walk (t.start p) p.steps.dropLast
  if t.isDirectoryAt l then .ok (l, lastOf p) else .error .notDirectory

def isDirectory (t : FileTree) (p : Path) : Bool :=
  match t.locate p with
  | .ok l => t.isDirectoryAt l
  | .error _ => false

def inspect (t : FileTree) (p : Path) : Except DiskError Entry := do
  let l ← t.locate p
  match t.entry? l with
  | some e => .ok e
  | none => .error .notFound

def readDirectory (t : FileTree) (p : Path) : Except DiskError (List Name) := do
  let l ← t.locate p
  if t.isDirectoryAt l then .ok (t.namesAt l) else .error .notDirectory

def makeDirectory (t : FileTree) (p : Path) : Except DiskError FileTree := do
  match ← t.locateParent p with
  | (l, .name n) =>
    if nameLimit < n.length then .error .nameTooLong
    else if (t.entry? (l ++ [n])).isSome then .error .alreadyExists
    else .ok (t.put (l ++ [n]) (.directory []))
  | _ => .error .alreadyExists

def ensureOne (t : FileTree) (p : Path) : Except DiskError FileTree :=
  match t.makeDirectory p with
  | .error .alreadyExists => if t.isDirectory p then .ok t else .error .alreadyExists
  | r => r

def conclude (t : FileTree) : Except DiskError FileTree → FileTree × Except DiskError Unit
  | .ok u => (u, .ok ())
  | .error e => (t, .error e)

/-- Makes a directory and those above it that are missing; `above` are the leading parts of the
path, the longest first. Directories made before a refusal stay. -/
def makeBelow (t : FileTree) (p : Path) : (above : List Path) → FileTree × Except DiskError Unit
  | [] => conclude t (t.ensureOne p)
  | q :: qs =>
    match t.ensureOne p with
    | .error .notFound =>
      match makeBelow t q qs with
      | (u, .ok ()) => conclude u (u.ensureOne p)
      | (u, .error e) => (u, .error e)
    | r => conclude t r

def makeDirectories (t : FileTree) (p : Path) : FileTree × Except DiskError Unit :=
  if p.parent? = none then (t, .ok ()) else t.makeBelow p p.above

def writeFile (t : FileTree) (p : Path) (c : Content) : Except DiskError FileTree := do
  match ← t.locateParent p with
  | (l, .name n) =>
    if p.endsInSlash then .error .isDirectory
    else if nameLimit < n.length then .error .nameTooLong
    else
      match t.entry? (l ++ [n]) with
      | some .directory => .error .isDirectory
      | _ => .ok (t.put (l ++ [n]) (.file c))
  | _ => .error .isDirectory

/-- What a rename may put in place of: nothing, a file by a file, and an empty directory by a
directory. -/
def replaceable (t : FileTree) (isDirectory : Bool) (target : Location) : Except DiskError Unit :=
  match t.entry? target with
  | none => .ok ()
  | some (.file _) => if isDirectory then .error .notDirectory else .ok ()
  | some .directory =>
    if !isDirectory then .error .isDirectory
    else if t.namesAt target = [] then .ok ()
    else .error .notEmpty

/-- Renames a file or a directory. A directory cannot go below itself, nothing can take the
place of a directory above it, and only a directory may be spelled with a slash at the end. -/
def rename (t : FileTree) (source target : Path) : Except DiskError FileTree := do
  if 0 ∈ source.bytes ∨ 0 ∈ target.bytes then .error .zeroByte
  match ← t.locateParent source, ← t.locateParent target with
  | (k, .name m), (l, .name n) =>
    if nameLimit < m.length then .error .nameTooLong
    match t.entry? (k ++ [m]) with
    | none => .error .notFound
    | some e =>
      let isDirectory := match e with
        | .directory => true
        | .file _ => false
      if nameLimit < n.length then .error .nameTooLong
      else if !isDirectory && (source.endsInSlash || target.endsInSlash) then
        .error .notDirectory
      else if (k ++ [m]).isPrefixOf l then .error .invalid
      else if (l ++ [n]).isPrefixOf k then .error .notEmpty
      else if k ++ [m] = l ++ [n] then .ok t
      else
        t.replaceable isDirectory (l ++ [n])
        return t.move (k ++ [m]) (l ++ [n])
  | _, _ => .error .busy

def remove (t : FileTree) (p : Path) : Except DiskError FileTree := do
  let l ← t.locate p
  match lastOf p with
  | .name _ => .ok (t.erase l)
  | _ => .error .invalid

/-- Whether two paths name one place; paths that name nothing are compared by components. -/
def samePlace (t : FileTree) (p q : Path) : Bool :=
  match t.resolve p, t.resolve q with
  | .ok k, .ok l => k = l
  | _, _ => p.sameAs q

end FileTree
end GridPuzzles
