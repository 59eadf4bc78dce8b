import GridPuzzles.Program

/-! The program on a real disk. The places that a command can reach are read into a file tree,
the command runs on the tree, and the changes it logs are made on the disk. -/
namespace GridPuzzles
namespace Main

def place (start : Location) (p : Path) : Location :=
  p.steps.foldl
    (fun l n => if n = Path.here then l else if n = Path.up then l.dropLast else l ++ [n])
    (if p.isAbsolute then [] else start)

def addNode (t : FileTree) (l : Location) (node : Node) : FileTree :=
  let t := (List.range l.length).foldl (fun t i =>
    if (t.entry? (l.take i)).isNone then t.put (l.take i) (.directory []) else t) t
  if (t.entry? l).isNone then t.put l node else t

def nameOf (s : String) : Name := Utf8.encode s

def namesTask (p : Path) : Bool := p.fileName?.any TaskSource.isTaskName

/-- Adds what a path names, and the entries of a directory down to the given depth. Of files
not asked for the content is left out. -/
def addPath (wanted : Path → Bool) (t : FileTree) (p : Path) : (depth : Nat) → IO FileTree
  | 0 => do
    let some real ← (some <$> IO.FS.realPath p.text).catchExceptions fun _ => return none
      | return t
    let l := place t.workingDirectory p
    if ← real.isDir then return addNode t l (.directory [])
    else
      let bytes ← if wanted p then IO.FS.readBinFile p.text else pure ByteArray.empty
      return addNode t l (.file (.bytes bytes.data.toList))
  | depth + 1 => do
    let t ← addPath wanted t p 0
    if t.isDirectory p then
      let mut t := t
      for e in ← (← IO.FS.realPath p.text).readDir do
        t ← addPath wanted t (p.join (nameOf e.fileName)) depth
      return t
    else return t

def trail (p : Path) : List Path := p.above.reverse ++ [p]

/-- The part of the disk that a command can reach. -/
def snapshot (c : CommandLine.Command) : IO FileTree := do
  let start := place [] (Path.ofString (← IO.currentDir).toString)
  let mut t := addNode ⟨[], start⟩ start (.directory [])
  match c with
  | .prune c =>
    for d in c.dirs do
      for q in trail d do t ← addPath namesTask t q 0
      t ← addPath namesTask t d 2
  | .view c =>
    for q in trail c.task ++ trail c.outputPath do t ← addPath (· == c.task) t q 0
  return t

def makeLarge (before after : FileTree) (c : Prune.Config) : IO Unit := do
  for d in c.dirs do
    let large := Prune.largeDirectory d
    if after.isDirectory large && !before.isDirectory large then IO.FS.createDirAll large.text

def apply (after : FileTree) : Event → IO Unit
  | .moved source target => IO.FS.rename source.text target.text
  | .wrote _ _ out =>
    match after.inspect out with
    | .ok (.file c) => IO.FS.writeBinFile out.text c.stored
    | _ => pure ()
  | _ => pure ()

def run (args : List String) : IO Ending := do
  match CommandLine.parse args with
  | .error _ => return runProgram (fun _ => .kept) ⟨[], []⟩ args
  | .ok command =>
    let before ← snapshot command
    let e := runProgram (fun _ => .kept) before args
    match command with
    | .prune c => makeLarge before e.tree c
    | .view _ => pure ()
    for event in e.events do apply e.tree event
    return e

end Main
end GridPuzzles

def main (args : List String) : IO UInt32 := do
  let e ← GridPuzzles.Main.run args
  for line in e.logged do IO.eprintln line
  IO.print e.stdout
  if e.stderr ≠ "" then IO.eprintln e.stderr
  return e.exitCode
