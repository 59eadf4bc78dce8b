/-! Rectangular grids of small integers, one per colored cell, and the size rule
that tells large grids from small ones. -/
namespace GridPuzzles

def leadingWidth : List (List UInt8) → Nat
  | [] => 0
  | r :: _ => r.length

structure ShapeError where
  row : Nat
  found : Nat
  expected : Nat
deriving DecidableEq, Repr

def ShapeError.message (e : ShapeError) : String :=
  "ragged grid: row " ++ toString e.row ++ " has " ++ toString e.found ++
    " cells, expected " ++ toString e.expected

structure Grid where
  rows : List (List UInt8)
  rectangular : ∀ r ∈ rows, r.length = leadingWidth rows
deriving DecidableEq

structure Cell where
  row : Nat
  col : Nat
  value : UInt8
deriving DecidableEq, Repr

namespace Grid

/-- Largest row or column count of a grid that is not large. -/
def sizeLimit : Nat := 10

/-- Accepts rows of one length and names the first row that breaks the shape otherwise. -/
def ofRows (rows : List (List UInt8)) : Except ShapeError Grid :=
  if h : ∀ r ∈ rows, r.length = leadingWidth rows then .ok ⟨rows, h⟩
  else
    let row := rows.findIdx fun r => r.length != leadingWidth rows
    .error ⟨row, (rows[row]?.getD []).length, leadingWidth rows⟩

def empty : Grid := ⟨[], by simp⟩

def filled (height width : Nat) (value : UInt8) : Grid where
  rows := List.replicate height (List.replicate width value)
  rectangular := by
    intro r h
    obtain ⟨hn, rfl⟩ := List.mem_replicate.1 h
    obtain ⟨n, rfl⟩ := Nat.exists_eq_succ_of_ne_zero hn
    simp [List.replicate_succ, leadingWidth]

def height (g : Grid) : Nat := g.rows.length

def width (g : Grid) : Nat := leadingWidth g.rows

def isLarge (g : Grid) : Bool := sizeLimit < g.height || sizeLimit < g.width

def cells (g : Grid) : List Cell :=
  g.rows.zipIdx.flatMap fun (values, row) =>
    values.zipIdx.map fun (value, col) => ⟨row, col, value⟩

instance : Inhabited Grid := ⟨empty⟩

end Grid
end GridPuzzles
