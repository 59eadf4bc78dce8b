import GridPuzzles.Grid

/-! Puzzle tasks: pairs of grids, split into training and test examples. -/
namespace GridPuzzles

structure Example where
  input : Grid
  output : Grid
deriving DecidableEq, Inhabited

structure Puzzle where
  train : List Example
  test : List Example
deriving DecidableEq, Inhabited

inductive Split where
  | train
  | test
deriving DecidableEq, Repr

def Split.name : Split → String
  | .train => "train"
  | .test => "test"

def Example.isLarge (e : Example) : Bool := e.input.isLarge || e.output.isLarge

def Puzzle.examples (p : Puzzle) : List Example := p.train ++ p.test

def Puzzle.isLarge (p : Puzzle) : Bool := p.examples.any Example.isLarge

end GridPuzzles
