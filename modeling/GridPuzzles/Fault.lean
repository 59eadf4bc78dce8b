import GridPuzzles.FileTree.Access
import GridPuzzles.Json.Failure
import GridPuzzles.Preview.Drawing

/-! What can go wrong, and the words for it. -/
namespace GridPuzzles

inductive Fault where
  | directoryNotFound (path : Path)
  | unparsable (path : Path) (failure : Json.Failure)
  /-- A file to move has no name, or the directory it should go to is missing. -/
  | pathNotFound (path : Path)
  | disk (path : Path) (error : DiskError)
  | undrawable (error : Preview.DrawError)
  | selfOverwrite (path : Path)
  | unwritable (path : Path) (error : DiskError)
deriving DecidableEq, Repr

namespace Fault

def source? : Fault → Option String
  | unparsable _ failure => some failure.message
  | disk _ error | unwritable _ error => some error.message
  | _ => none

def message : Fault → String
  | directoryNotFound path => "Directory not found: " ++ path.text
  | unparsable path failure => "Cannot parse task '" ++ path.text ++ "': " ++ failure.message
  | pathNotFound path => "Path not found: " ++ path.text
  | disk path error => "I/O error on '" ++ path.text ++ "': " ++ error.message
  | undrawable error => error.message
  | selfOverwrite path => "Refusing to overwrite task '" ++ path.text ++ "' with its own preview"
  | unwritable path error => "Cannot write image '" ++ path.text ++ "': " ++ error.message

def isUnparsable : Fault → Bool
  | unparsable .. => true
  | _ => false

end Fault

inductive Activity where
  | pruning (dir : Path)
  | loading (task : Path)
  | previewing (task : Path)
  | choosingOutput
deriving DecidableEq, Repr

def Activity.text : Activity → String
  | pruning dir => "Failed to prune '" ++ dir.text ++ "'"
  | loading task => "Cannot load task '" ++ task.text ++ "'"
  | previewing task => "Cannot render preview of '" ++ task.text ++ "'"
  | choosingOutput => "Choose a different --output path"

structure Failure where
  activity : Activity
  fault : Fault
deriving DecidableEq, Repr

namespace Failure

def causes (f : Failure) : List String := f.fault.message :: f.fault.source?.toList

def message (f : Failure) : String := ": ".intercalate (f.activity.text :: f.causes)

def indent (number : Option Nat) (text : String) : String :=
  match number with
  | none => "    " ++ "\n    ".intercalate (text.splitOn "\n")
  | some n => "    " ++ toString n ++ ": " ++ "\n       ".intercalate (text.splitOn "\n")

/-- The activity on a line, and below it the causes, numbered if there are several. -/
def report (f : Failure) : String :=
  let listed := match f.causes with
    | [c] => [indent none c]
    | cs => cs.zipIdx.map fun (c, i) => indent (some i) c
  "Error: " ++ f.activity.text ++ "\n\nCaused by:\n" ++ "\n".intercalate listed

end Failure
end GridPuzzles
