import GridPuzzles.Prune.Pass

/-! Partition passes over several directories, one after the other. -/
namespace GridPuzzles
namespace Prune

/-- Which directories to partition, and what to do with files that hold no task. -/
structure Config where
  dirs : List Path
  /-- Leave such files in place instead of ending the run. -/
  skipInvalid : Bool
deriving DecidableEq, Repr

namespace Config

def default : Config :=
  ⟨[Path.ofString "data/training", Path.ofString "data/evaluation"], false⟩

def fields : Json.Record (Option (List (List UInt8)) × Option Bool)
    (List (List UInt8) × Bool) :=
  Json.pairRecord "PruneConfig" ("dirs", Json.Reader.sequence (Json.Reader.text .path))
    ("skip_invalid", Json.Reader.boolean)

def reader : Json.Reader Config :=
  fields.reader.map fun (dirs, skipInvalid) => ⟨dirs.map Path.mk, skipInvalid⟩

def written (c : Config) : List UInt8 :=
  Json.writeObject
    [ ("dirs", Json.writeList (c.dirs.map fun d => Json.writeText d.bytes)),
      ("skip_invalid", Json.writeBoolean c.skipInvalid) ]

end Config

inductive Step where
  | logged (e : Event)
  | reported (r : Report)
deriving DecidableEq, Repr

structure Outcome where
  tree : FileTree
  steps : List Step
  result : Except Failure (List Report)

namespace Outcome

def events (o : Outcome) : List Event :=
  o.steps.filterMap fun
    | .logged e => some e
    | .reported _ => none

def reports (o : Outcome) : List Report :=
  o.steps.filterMap fun
    | .reported r => some r
    | .logged _ => none

end Outcome

/-- Partitions directories in order until a pass fails; pass `i` sees its directory in the
order `orders i`. -/
def run (orders : Nat → Order) (skipInvalid : Bool) (t : FileTree) : List Path → Outcome
  | [] => ⟨t, [], .ok []⟩
  | dir :: dirs =>
    let p := pass (orders 0) .documents skipInvalid t dir
    let steps := (Event.partitioning dir :: p.events).map Step.logged
    match p.result with
    | .error fault => ⟨p.tree, steps, .error ⟨.pruning dir, fault⟩⟩
    | .ok r =>
      let rest := run (fun i => orders (i + 1)) skipInvalid p.tree dirs
      ⟨rest.tree, steps ++ .reported r :: rest.steps, rest.result.map (r :: ·)⟩

end Prune
end GridPuzzles
