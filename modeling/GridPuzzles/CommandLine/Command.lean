import GridPuzzles.CommandLine.Arguments
import GridPuzzles.CommandLine.Numeral
import GridPuzzles.Prune.Run
import GridPuzzles.View.Config

/-! The commands of the program and their arguments. -/
namespace GridPuzzles
namespace CommandLine

inductive Command where
  | prune (config : Prune.Config)
  | view (config : View.Config)
deriving DecidableEq, Repr

def pathValue (shown value : String) : Except Refusal Path :=
  if value = "" then .error (.noValue shown) else .ok (Path.ofString value)

def cellSizeValue (shown value : String) : Except Refusal UInt32 :=
  match numeral value.toList with
  | .error e => .error (.badValue value shown e.message)
  | .ok n =>
    if 1 ≤ n ∧ n ≤ Preview.CellSize.largest.toNat then .ok (UInt32.ofNat n.toNat)
    else
      .error (.badValue value shown
        (toString n ++ " is not in 1..=" ++ toString Preview.CellSize.largest))

/-- An argument that may be given once. -/
def once (shown : String) (given : Option α) (value : Except Refusal α) :
    Except Refusal (Option α) :=
  match given with
  | some _ => .error (.repeated shown)
  | none => value.map some

def helpOption (topic : Topic) : CommandOption σ := ⟨"help", some 'h', "--help", .help topic⟩

structure PruneDraft where
  dirs : List Path
  skipInvalid : Option Unit

def pruneGrammar : Grammar PruneDraft where
  options :=
    [ ⟨"skip-invalid", none, "--skip-invalid", .switch fun d => do
        return { d with skipInvalid := ← once "--skip-invalid" d.skipInvalid (.ok ()) }⟩,
      helpOption .prune ]
  many := true
  store d values := do
    return { d with dirs := d.dirs ++ (← values.mapM (pathValue "[DIRS]...")) }

/-- The config for the arguments of `prune`; without directories the usual ones. -/
def readPrune (args : List String) : Except Refusal Prune.Config := do
  let d ← pruneGrammar.read ⟨[], none⟩ args
  return ⟨if d.dirs = [] then Prune.Config.default.dirs else d.dirs, d.skipInvalid.isSome⟩

structure ViewDraft where
  task : Option Path
  output : Option Path
  cellSize : Option UInt32

def viewGrammar : Grammar ViewDraft where
  options :=
    [ ⟨"output", some 'o', "--output <OUTPUT>", .value fun d v => do
        return { d with
          output := ← once "--output <OUTPUT>" d.output (pathValue "--output <OUTPUT>" v) }⟩,
      ⟨"cell-size", none, "--cell-size <CELL_SIZE>", .value fun d v => do
        return { d with
          cellSize := ← once "--cell-size <CELL_SIZE>" d.cellSize
            (cellSizeValue "--cell-size <CELL_SIZE>" v) }⟩,
      helpOption .view ]
  many := false
  store d values := do
    return { d with task := (← values.mapM (pathValue "<TASK>")).head? }

def readView (args : List String) : Except Refusal View.Config := do
  let d ← viewGrammar.read ⟨none, none, none⟩ args
  match d.task with
  | none => .error (.missing "<TASK>")
  | some task => return ⟨task, d.output, d.cellSize.getD Preview.CellSize.default⟩

def topic? (name : String) : Option Topic :=
  if name = "prune" then some .prune
  else if name = "view" then some .view
  else if name = "help" then some .help
  else none

def helpOn : List String → Refusal
  | [] => .help .program
  | name :: rest =>
    match topic? name, rest with
    | none, _ => .unknownCommand name
    | some topic, [] => .help topic
    | some _, next :: _ => .unknownCommand next

def withoutCommand (arg : String) : Refusal :=
  match arg.toList with
  | '-' :: '-' :: cs =>
    let (name, attached) := Progress.splitLong cs
    if name = "help" ∨ name = "version" then
      match attached with
      | some v => .unwantedValue v ("--" ++ name)
      | none => if name = "help" then .help .program else .version
    else .unknownArgument ("--" ++ name)
  | '-' :: 'h' :: _ => .help .program
  | '-' :: 'V' :: _ => .version
  | '-' :: c :: _ => .unknownArgument (String.ofList ['-', c])
  | _ => .unknownCommand arg

/-- The answer to arguments behind two dashes that come before any command. -/
def afterDashes : List String → Refusal
  | [] => .noCommand
  | arg :: _ => if (topic? arg).isSome then .unknownArgument arg else .unknownCommand arg

def parse : List String → Except Refusal Command
  | [] => .error .noCommand
  | arg :: args =>
    if arg = "prune" then (readPrune args).map .prune
    else if arg = "view" then (readView args).map .view
    else if arg = "help" then .error (helpOn args)
    else if arg = "--" then .error (afterDashes args)
    else .error (withoutCommand arg)

end CommandLine
end GridPuzzles
