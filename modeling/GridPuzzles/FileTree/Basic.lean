import GridPuzzles.Path
import GridPuzzles.Preview.Png

/-! Directory trees. A tree has a working directory; places in it are lists of names from the
root down. -/
namespace GridPuzzles

inductive Content where
  | bytes (b : List UInt8)
  /-- A PNG picture, kept as its pixels. -/
  | picture (img : Preview.Image)

def Content.stored : Content → ByteArray
  | bytes b => ⟨b.toArray⟩
  | picture img => Preview.Png.encode img

/-- A regular file, or a directory with its entries; of two entries of one name only the first
counts. -/
inductive Node where
  | file (content : Content)
  | directory (entries : List (Name × Node))

/-- What stands at a place, without what lies below it. -/
inductive Entry where
  | file (content : Content)
  | directory

def Node.entry : Node → Entry
  | file c => .file c
  | directory _ => .directory

abbrev Location := List Name

abbrev Directory := List (Name × Node)

namespace Directory

def names : Directory → List Name
  | [] => []
  | (n, _) :: r => n :: (names r).filter (· ≠ n)

def find? (d : Directory) : Location → Option Node
  | [] => some (.directory d)
  | n :: l =>
    match d.lookup n with
    | none => none
    | some (.directory e) => find? e l
    | some (.file c) => if l = [] then some (.file c) else none

def without (d : Directory) (n : Name) : Directory := d.filter fun e => e.1 ≠ n

def put (d : Directory) (node : Node) : Location → Directory
  | [] => d
  | n :: l =>
    if l = [] then (n, node) :: d.without n
    else
      match d.lookup n with
      | some (.directory e) => (n, .directory (put e node l)) :: d.without n
      | _ => d

def erase (d : Directory) : Location → Directory
  | [] => d
  | n :: l =>
    if l = [] then d.without n
    else
      match d.lookup n with
      | some (.directory e) => (n, .directory (erase e l)) :: d.without n
      | _ => d

end Directory

structure FileTree where
  root : Directory
  workingDirectory : Location

namespace FileTree

def entry? (t : FileTree) (l : Location) : Option Entry := (t.root.find? l).map Node.entry

def isDirectoryAt (t : FileTree) (l : Location) : Bool :=
  match t.entry? l with
  | some .directory => true
  | _ => false

def namesAt (t : FileTree) (l : Location) : List Name :=
  match t.root.find? l with
  | some (.directory d) => Directory.names d
  | _ => []

def put (t : FileTree) (l : Location) (node : Node) : FileTree :=
  { t with root := t.root.put node l }

def erase (t : FileTree) (l : Location) : FileTree := { t with root := t.root.erase l }

/-- Where a place is after the node at `source` has gone to `target`. -/
def relocated (source target l : Location) : Location :=
  if source.isPrefixOf l then target ++ l.drop source.length else l

/-- Takes the node at one place to another; the working directory goes with it. -/
def move (t : FileTree) (source target : Location) : FileTree :=
  match t.root.find? source with
  | none => t
  | some node =>
    { root := (t.root.erase source).put node target
      workingDirectory := relocated source target t.workingDirectory }

end FileTree
end GridPuzzles
