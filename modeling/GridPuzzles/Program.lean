import GridPuzzles.CommandLine.Command
import GridPuzzles.View.Run

/-! The whole program: from its arguments and a file tree to what it prints, its exit code and
the tree it leaves. -/
namespace GridPuzzles

open CommandLine (Command)

structure Performance where
  tree : FileTree
  events : List Event
  printed : List String
  failure : Option Failure

namespace Performance

def failure? : Except Failure α → Option Failure
  | .ok _ => none
  | .error f => some f

def output (p : Performance) : String := CommandLine.lines p.printed

end Performance

/-- Runs a command; pass `i` sees its directory in the order `orders i`. -/
def Command.perform (orders : Nat → Order) (t : FileTree) : Command → Performance
  | .prune c =>
    let o := Prune.run orders c.skipInvalid t c.dirs
    ⟨o.tree, o.events, o.reports.map Prune.Report.summary, Performance.failure? o.result⟩
  | .view c =>
    let r := View.run t c
    let printed := match r.result with
      | .ok out => ["Rendered " ++ c.task.text ++ " -> " ++ out.text]
      | .error _ => []
    ⟨r.tree, r.events, printed, Performance.failure? r.result⟩

structure Ending where
  exitCode : UInt32
  stdout : String
  events : List Event
  stderr : String
  tree : FileTree

def Ending.logged (e : Ending) : List String :=
  (e.events.filter fun e => e.level.isShown).map Event.line

/-- Runs the program. Help and version go to standard output; bad arguments end it with 2, and
a failed command with 1. -/
def runProgram (orders : Nat → Order) (t : FileTree) (args : List String) : Ending :=
  match CommandLine.parse args with
  | .error r =>
    if r.isAnswer then ⟨0, r.printed, [], "", t⟩ else ⟨2, "", [], r.printed, t⟩
  | .ok command =>
    let p := Command.perform orders t command
    { exitCode := if p.failure.isSome then 1 else 0
      stdout := p.output
      events := p.events
      stderr := (p.failure.map Failure.report).getD ""
      tree := p.tree }

end GridPuzzles
