import GridPuzzles.TaskSource

/-! One partition pass over a directory: its large tasks go to `large` inside it. -/
namespace GridPuzzles
namespace Prune

def largeName : Name := ascii "large"

def largeDirectory (dir : Path) : Path := dir.join largeName

def ensureDirectory (t : FileTree) (dir : Path) : Run Fault Unit :=
  match t.makeDirectories dir with
  | (u, .ok ()) => ⟨u, [], .ok ()⟩
  | (u, .error e) => ⟨u, [], .error (.disk dir e)⟩

def relocate (t : FileTree) (file dest : Path) : Run Fault Path :=
  match file.fileName? with
  | none => ⟨t, [], .error (.pathNotFound file)⟩
  | some name =>
    let target := dest.join name
    match t.rename file target with
    | .ok u => ⟨u, [.moved file target], .ok target⟩
    | .error e =>
      ⟨t, [], .error (if e = .notFound ∧ !t.isDirectory dest then .pathNotFound dest
        else .disk file e)⟩

structure Report where
  dir : Path
  /-- Task files examined, skipped ones included. -/
  total : Nat
  hit : Nat
  relocated : List Path
  skipped : List Path
deriving DecidableEq, Repr

namespace Report

def empty (dir : Path) : Report := ⟨dir, 0, 0, [], []⟩

def keeping (r : Report) : Report := { r with total := r.total + 1 }

def moving (target : Path) (r : Report) : Report :=
  { r with total := r.total + 1, hit := r.hit + 1, relocated := target :: r.relocated }

def skipping (file : Path) (r : Report) : Report :=
  { r with total := r.total + 1, skipped := file :: r.skipped }

def summary (r : Report) : String :=
  "Pruned " ++ toString r.hit ++ " / " ++ toString r.total ++ " tasks in " ++ r.dir.text ++ "."

def finished (r : Report) : Event := .finished r.dir r.hit r.total r.skipped.length

end Report

/-- What a pass leaves, with the paths it loaded in order. -/
structure Pass where
  tree : FileTree
  events : List Event
  loads : List Path
  result : Except Fault Report

namespace Pass

def stop (t : FileTree) (events : List Event) (loads : List Path) (fault : Fault) : Pass :=
  ⟨t, events, loads, .error fault⟩

/-- Puts the events and the load of one file before the rest of a pass. -/
def after (file : Path) (events : List Event) (update : Report → Report) (rest : Pass) : Pass :=
  ⟨rest.tree, events ++ rest.events, file :: rest.loads, rest.result.map update⟩

end Pass

/-- Loads files in order and moves the large ones; `call` loads came before. -/
def passFiles (source : TaskSource) (skipInvalid : Bool) (dir : Path) :
    (call : Nat) → FileTree → List Path → Pass
  | _, t, [] => ⟨t, [], [], .ok (Report.empty dir)⟩
  | call, t, file :: files =>
    let loaded := source.load call t file
    match loaded.result with
    | .error fault =>
      if skipInvalid && fault.isUnparsable then
        (passFiles source skipInvalid dir (call + 1) loaded.tree files).after file
          (loaded.events ++ [.skipping fault]) (Report.skipping file)
      else .stop loaded.tree loaded.events [file] fault
    | .ok task =>
      if task.isLarge then
        let moved := relocate loaded.tree file (largeDirectory dir)
        match moved.result with
        | .error fault => .stop moved.tree (loaded.events ++ moved.events) [file] fault
        | .ok target =>
          (passFiles source skipInvalid dir (call + 1) moved.tree files).after file
            (loaded.events ++ moved.events) (Report.moving target)
      else
        (passFiles source skipInvalid dir (call + 1) loaded.tree files).after file
          loaded.events Report.keeping

/-- Puts the log of the listing before that of the pass, and adds its end if there is a report. -/
def Pass.framed (listing : List Event) (p : Pass) : Pass :=
  { p with
    events := listing ++ p.events ++
      match p.result with
      | .ok r => [r.finished]
      | .error _ => [] }

/-- One pass: makes the directory for large tasks, lists the task files, and moves the large
ones. Files moved before an error stay moved. -/
def pass (order : Order) (source : TaskSource) (skipInvalid : Bool) (t : FileTree) (dir : Path) :
    Pass :=
  if !t.isDirectory dir then .stop t [] [] (.directoryNotFound dir)
  else
    let made := ensureDirectory t (largeDirectory dir)
    match made.result with
    | .error fault => .stop made.tree [] [] fault
    | .ok () =>
      let listing := listTaskFiles order source made.tree dir
      match listing.result with
      | .error fault => .stop listing.tree listing.events [] fault
      | .ok files =>
        (passFiles source skipInvalid dir 0 listing.tree files).framed listing.events

end Prune
end GridPuzzles
