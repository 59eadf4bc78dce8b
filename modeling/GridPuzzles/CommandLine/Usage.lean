import GridPuzzles.Text.Control

/-! What the command line answers instead of running a command. -/
namespace GridPuzzles
namespace CommandLine

inductive Topic where
  | program
  | prune
  | view
  | help
deriving DecidableEq, Repr

def lines (ls : List String) : String := String.join (ls.map fun l => l ++ "\n")

def Topic.text : Topic → String
  | program => lines
    [ "Partition and preview grid puzzle task files.",
      "",
      "Usage: grid-task-tools <COMMAND>",
      "",
      "Commands:",
      "  prune  Move tasks with any grid larger than 10x10 into <DIR>/large",
      "  view   Render the first train and test example of a task as a PNG",
      "  help   Print this message or the help of the given subcommand(s)",
      "",
      "Options:",
      "  -h, --help     Print help",
      "  -V, --version  Print version" ]
  | prune => lines
    [ "Move tasks with any grid larger than 10x10 into <DIR>/large",
      "",
      "Usage: grid-task-tools prune [OPTIONS] [DIRS]...",
      "",
      "Arguments:",
      "  [DIRS]...  Task directories, processed in order [default: data/training data/evaluation]",
      "",
      "Options:",
      "      --skip-invalid  Log and leave unparsable task files in place instead of aborting",
      "  -h, --help          Print help" ]
  | view => lines
    [ "Render the first train and test example of a task as a PNG",
      "",
      "Usage: grid-task-tools view [OPTIONS] <TASK>",
      "",
      "Arguments:",
      "  <TASK>  Path to a task .json file",
      "",
      "Options:",
      "  -o, --output <OUTPUT>        Where to write the PNG (defaults to the task path with .png)",
      "      --cell-size <CELL_SIZE>  Edge length of one grid cell in pixels (1-256) [default: 24]",
      "  -h, --help                   Print help" ]
  | help => lines
    [ "Print this message or the help of the given subcommand(s)",
      "",
      "Usage: grid-task-tools help [COMMAND]...",
      "",
      "Arguments:",
      "  [COMMAND]...  Print help for the subcommand(s)" ]

def versionText : String := "grid-task-tools 0.1.0\n"

/-- Why arguments name no command to run. Arguments of commands are named as help names them. -/
inductive Refusal where
  | help (topic : Topic)
  | version
  | noCommand
  | unknownArgument (arg : String)
  | unknownCommand (name : String)
  | noValue (arg : String)
  | repeated (arg : String)
  | badValue (value arg reason : String)
  | unwantedValue (value arg : String)
  | missing (arg : String)
deriving DecidableEq, Repr

namespace Refusal

def quoted (s : String) : String := "'" ++ s ++ "'"

/-- The text of a refusal; `visible` says what is shown of a part of the arguments. -/
def text (visible : String → String) : Refusal → String
  | help topic => topic.text
  | version => versionText
  | noCommand => Topic.program.text
  | unknownArgument arg => "error: unexpected argument " ++ quoted (visible arg) ++ " found"
  | unknownCommand name => "error: unrecognized subcommand " ++ quoted (visible name)
  | noValue arg => "error: a value is required for " ++ quoted arg ++ " but none was supplied"
  | repeated arg => "error: the argument " ++ quoted arg ++ " cannot be used multiple times"
  | badValue value arg reason =>
    "error: invalid value " ++ quoted (visible value) ++ " for " ++ quoted arg ++ ": " ++ reason
  | unwantedValue value arg =>
    "error: unexpected value " ++ quoted (visible value) ++ " for " ++ quoted arg ++
      " found; no more were expected"
  | missing arg => "error: the following required arguments were not provided:\n  " ++ arg

/-- The text as a message. Control sequences in the arguments are left out. -/
def message (r : Refusal) : String := r.text Text.plain

def printed (r : Refusal) : String := r.text Text.written

def isAnswer : Refusal → Bool
  | help _ | version => true
  | _ => false

end Refusal
end CommandLine
end GridPuzzles
