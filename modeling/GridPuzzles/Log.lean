import GridPuzzles.Fault
import GridPuzzles.Text.Control

/-! The log of a run. -/
namespace GridPuzzles

inductive Level where
  | trace
  | debug
  | info
  | warn
deriving DecidableEq, Repr

def Level.name : Level → String
  | trace => "TRACE"
  | debug => "DEBUG"
  | info => "INFO"
  | warn => "WARN"

def Level.isShown : Level → Bool
  | trace | debug => false
  | info | warn => true

inductive Event where
  | parsed (path : Path) (train test : Nat)
  | found (count : Nat) (dir : Path)
  | moved (source target : Path)
  | wrote (width height : UInt32) (path : Path)
  | partitioning (dir : Path)
  | finished (dir : Path) (hit total skipped : Nat)
  | rendered (task output : Path)
  | skipping (fault : Fault)
deriving DecidableEq, Repr

namespace Event

def level : Event → Level
  | parsed .. => .trace
  | found .. | moved .. | wrote .. => .debug
  | partitioning .. | finished .. | rendered .. => .info
  | skipping .. => .warn

def quoted (p : Path) : String := "'" ++ p.text ++ "'"

def text : Event → String
  | parsed path train test =>
    "Parsed " ++ quoted path ++ ": " ++ toString train ++ " train, " ++ toString test ++ " test"
  | found count dir => "Found " ++ toString count ++ " task files in " ++ quoted dir
  | moved source target => "Moved " ++ quoted source ++ " -> " ++ quoted target
  | wrote width height path =>
    "Wrote " ++ toString width ++ "x" ++ toString height ++ " preview to " ++ quoted path
  | partitioning dir => "Partitioning tasks in " ++ quoted dir
  | finished dir hit total skipped =>
    quoted dir ++ ": " ++ toString hit ++ " of " ++ toString total ++ " tasks relocated, " ++
      toString skipped ++ " skipped"
  | rendered task output => "Rendered " ++ quoted task ++ " to " ++ quoted output
  | skipping fault => "Skipping: " ++ fault.message

/-- The event as a line of the log, safe to show on a terminal. -/
def line (e : Event) : String := e.level.name ++ " " ++ Text.spelled e.text

end Event

/-- What a run leaves: the tree, its log, and a value or a reason for having none. -/
structure Run (ε α : Type) where
  tree : FileTree
  events : List Event
  result : Except ε α

end GridPuzzles
