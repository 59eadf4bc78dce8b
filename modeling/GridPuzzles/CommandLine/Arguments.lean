import GridPuzzles.CommandLine.Usage

/-! Reading the arguments of a command. An option may have its value attached or as the next
argument; all other arguments, and everything after `--`, are positional. -/
namespace GridPuzzles
namespace CommandLine

inductive Effect (σ : Type) where
  | switch (set : σ → Except Refusal σ)
  | value (set : σ → String → Except Refusal σ)
  | help (topic : Topic)

structure CommandOption (σ : Type) where
  long : String
  short : Option Char
  shown : String
  effect : Effect σ

/-- The options and the positional argument of a command. -/
structure Grammar (σ : Type) where
  options : List (CommandOption σ)
  many : Bool
  store : σ → List String → Except Refusal σ

/-- Values that have been read but not stored. -/
inductive Pending (σ : Type) where
  | nothing
  | wanting (o : CommandOption σ) (set : σ → String → Except Refusal σ)
  | option (set : σ → String → Except Refusal σ) (value : String)
  | positional (values : List String)

structure Progress (σ : Type) where
  config : σ
  pending : Pending σ
  placed : Bool
  trailing : Bool

namespace Progress

def begin (config : σ) : Progress σ := ⟨config, .nothing, false, false⟩

/-- Stores what is pending. -/
def settle (g : Grammar σ) (p : Progress σ) : Except Refusal (Progress σ) :=
  match p.pending with
  | .nothing => .ok p
  | .wanting o _ => .error (.noValue o.shown)
  | .option set value => do return { p with config := ← set p.config value, pending := .nothing }
  | .positional values => do
    return { p with config := ← g.store p.config values, pending := .nothing }

def switch (g : Grammar σ) (p : Progress σ) (set : σ → Except Refusal σ) :
    Except Refusal (Progress σ) := do
  let p ← p.settle g
  return { p with config := ← set p.config }

def attach (g : Grammar σ) (p : Progress σ) (set : σ → String → Except Refusal σ)
    (value : String) : Except Refusal (Progress σ) := do
  let p ← p.settle g
  return { p with config := ← set p.config value }

def want (g : Grammar σ) (p : Progress σ) (o : CommandOption σ)
    (set : σ → String → Except Refusal σ) : Except Refusal (Progress σ) := do
  let p ← p.settle g
  return { p with pending := .wanting o set }

def help (g : Grammar σ) (p : Progress σ) (topic : Topic) : Except Refusal (Progress σ) := do
  let _ ← p.settle g
  throw (.help topic)

def splitLong (cs : List Char) : String × Option String :=
  let name := String.ofList (cs.takeWhile (· ≠ '='))
  match cs.dropWhile (· ≠ '=') with
  | [] => (name, none)
  | _ :: value => (name, some (String.ofList value))

def long (g : Grammar σ) (p : Progress σ) (cs : List Char) : Except Refusal (Progress σ) :=
  let (name, attached) := splitLong cs
  match g.options.find? fun o => o.long = name with
  | none => .error (.unknownArgument ("--" ++ name))
  | some o =>
    match o.effect, attached with
    | .value set, some v => p.attach g set v
    | .value set, none => p.want g o set
    | _, some v => .error (.unwantedValue v o.shown)
    | .switch set, none => p.switch g set
    | .help topic, none => p.help g topic

def short (g : Grammar σ) (p : Progress σ) : List Char → Except Refusal (Progress σ)
  | [] => .ok p
  | c :: cs =>
    match g.options.find? fun o => o.short = some c with
    | none => .error (.unknownArgument (String.ofList ['-', c]))
    | some o =>
      match o.effect with
      | .switch set => do short g (← p.switch g set) cs
      | .help topic => p.help g topic
      | .value set =>
        match cs with
        | [] => p.want g o set
        | '=' :: v => p.attach g set (String.ofList v)
        | v => p.attach g set (String.ofList v)

def place (g : Grammar σ) (p : Progress σ) (arg : String) : Except Refusal (Progress σ) :=
  if p.placed && !g.many then .error (.unknownArgument arg)
  else
    match p.pending with
    | .positional values => .ok { p with pending := .positional (values ++ [arg]) }
    | _ => do
      let p ← p.settle g
      return { p with pending := .positional [arg], placed := true }

def next (g : Grammar σ) (p : Progress σ) (arg : String) : Except Refusal (Progress σ) :=
  if p.trailing then p.place g arg
  else
    match arg.toList with
    | ['-', '-'] => .ok { p with trailing := true }
    | '-' :: '-' :: cs => p.long g cs
    | '-' :: c :: cs => p.short g (c :: cs)
    | _ =>
      match p.pending with
      | .wanting _ set => .ok { p with pending := .option set arg }
      | _ => p.place g arg

end Progress

def Grammar.read (g : Grammar σ) (blank : σ) (args : List String) : Except Refusal σ := do
  let p ← args.foldlM (Progress.next g) (.begin blank)
  return (← p.settle g).config

end CommandLine
end GridPuzzles
