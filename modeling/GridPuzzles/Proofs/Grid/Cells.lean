import GridPuzzles.Grid

/-! Grids by row and column: the list of cells holds exactly the values of the grid at their
places, row by row, and the values determine a grid of given size. -/
namespace GridPuzzles

def Cell.place (c : Cell) : Nat × Nat := (c.row, c.col)

namespace Grid

/-- The value in a row and a column; none outside the grid. -/
def value? (g : Grid) (row col : Nat) : Option UInt8 := g.rows[row]?.bind fun values => values[col]?

theorem mem_cells {g : Grid} {c : Cell} : c ∈ g.cells ↔ g.value? c.row c.col = some c.value := by
  obtain ⟨row, col, value⟩ := c
  simp only [cells, List.mem_flatMap, List.mem_map, Prod.exists, List.mem_zipIdx_iff_getElem?,
    Cell.mk.injEq, value?, Option.bind_eq_some_iff]
  constructor
  · rintro ⟨values, row', hr, value', col', hc, rfl, rfl, rfl⟩
    exact ⟨values, hr, hc⟩
  · rintro ⟨values, hr, hc⟩
    exact ⟨values, row, hr, value, col, hc, rfl, rfl, rfl⟩

theorem value?_isSome_iff {g : Grid} {row col : Nat} :
    (g.value? row col).isSome ↔ row < g.height ∧ col < g.width := by
  rw [value?]
  by_cases hr : row < g.rows.length
  · have hw : g.rows[row].length = g.width := g.rectangular _ (List.getElem_mem hr)
    simp [hr, hw, height]
  · simp [hr, height]

theorem ext_value {g g' : Grid} (hh : g.height = g'.height) (hw : g.width = g'.width)
    (hv : ∀ row < g.height, ∀ col < g.width, g.value? row col = g'.value? row col) : g = g' := by
  have hrows : g.rows = g'.rows := by
    apply List.ext_getElem hh
    intro row hr hr'
    have hl : g.rows[row].length = g.width := g.rectangular _ (List.getElem_mem hr)
    have hl' : g'.rows[row].length = g'.width := g'.rectangular _ (List.getElem_mem hr')
    apply List.ext_getElem (by omega)
    intro col hc hc'
    have h := hv row hr col (by omega)
    simpa [value?, hr, hr', hc, hc'] using h
  cases g
  cases g'
  cases hrows
  rfl

def rowCells (values : List UInt8) (row : Nat) : List Cell :=
  values.zipIdx.map fun (value, col) => ⟨row, col, value⟩

theorem cells_eq (g : Grid) :
    g.cells = g.rows.zipIdx.flatMap fun p => rowCells p.1 p.2 := rfl

@[simp] theorem length_rowCells (values : List UInt8) (row : Nat) :
    (rowCells values row).length = values.length := by
  simp [rowCells]

@[simp] theorem map_value_rowCells (values : List UInt8) (row : Nat) :
    (rowCells values row).map Cell.value = values := by
  simp [rowCells, Function.comp_def]

theorem row_of_mem_rowCells {values : List UInt8} {row : Nat} {c : Cell}
    (h : c ∈ rowCells values row) : c.row = row := by
  obtain ⟨p, -, rfl⟩ := List.mem_map.mp h
  rfl

theorem pairwise_zipIdx {α : Type} (as : List α) (k : Nat) :
    (as.zipIdx k).Pairwise fun p q => p.2 < q.2 := by
  have h : ((as.zipIdx k).map Prod.snd).Pairwise (· < ·) := by
    rw [List.zipIdx_map_snd]
    exact List.pairwise_lt_range'
  exact List.pairwise_map.mp h

/-- Within a row the column grows, and from row to row the row does. -/
theorem pairwise_cells (g : Grid) :
    g.cells.Pairwise fun c d => Prod.Lex (· < ·) (· < ·) c.place d.place := by
  rw [cells_eq, List.pairwise_flatMap]
  constructor
  · intro p _
    rw [rowCells, List.pairwise_map]
    exact (pairwise_zipIdx p.1 0).imp fun h => .right _ h
  · apply (pairwise_zipIdx g.rows 0).imp
    intro p q hpq c hc d hd
    have hrow : c.row < d.row := by
      rwa [row_of_mem_rowCells hc, row_of_mem_rowCells hd]
    exact .left _ _ hrow

theorem length_cells (g : Grid) : g.cells.length = g.height * g.width := by
  have hwidth : ∀ p ∈ g.rows.zipIdx, (rowCells p.1 p.2).length = g.width := by
    intro p hp
    rw [length_rowCells]
    exact g.rectangular p.1 (List.fst_mem_of_mem_zipIdx hp)
  rw [cells_eq, List.length_flatMap, List.map_congr_left hwidth, List.map_const',
    List.sum_replicate_nat, List.length_zipIdx, height]

theorem filter_rowCells_of_ne {rows : List (List UInt8)} {k row : Nat}
    (h : ∀ p ∈ rows.zipIdx k, p.2 ≠ row) :
    ((rows.zipIdx k).flatMap fun p => rowCells p.1 p.2).filter (·.row = row) = [] := by
  rw [List.filter_eq_nil_iff]
  intro c hc
  obtain ⟨p, hp, hc⟩ := List.mem_flatMap.mp hc
  rw [row_of_mem_rowCells hc, decide_eq_true_iff]
  exact h p hp

/-- The cells of a row stand together, behind those of the rows above and before all others. -/
theorem filter_row_cells {g : Grid} {row : Nat} {values : List UInt8}
    (h : g.rows[row]? = some values) : g.cells.filter (·.row = row) = rowCells values row := by
  obtain ⟨above, below, hrows, hlen⟩ :
      ∃ above below, g.rows = above ++ values :: below ∧ above.length = row := by
    obtain ⟨hlt, rfl⟩ := List.getElem?_eq_some_iff.mp h
    exact ⟨g.rows.take row, g.rows.drop (row + 1), by simp,
      List.length_take_of_le (Nat.le_of_lt hlt)⟩
  have habove : ∀ p ∈ above.zipIdx 0, p.2 ≠ row := by
    intro p hp
    have hlt := List.snd_lt_of_mem_zipIdx hp
    omega
  have hbelow : ∀ p ∈ below.zipIdx (row + 1), p.2 ≠ row := by
    intro p hp
    have hle := List.le_snd_of_mem_zipIdx hp
    omega
  have hself : (rowCells values row).filter (·.row = row) = rowCells values row := by
    rw [List.filter_eq_self]
    intro c hc
    rw [row_of_mem_rowCells hc, decide_eq_true_iff]
  rw [cells_eq, hrows, List.zipIdx_append, Nat.zero_add, hlen, List.zipIdx_cons,
    List.flatMap_append, List.flatMap_cons, List.filter_append, List.filter_append,
    filter_rowCells_of_ne habove, filter_rowCells_of_ne hbelow, hself, List.nil_append,
    List.append_nil]

theorem regroup_cells (g : Grid) :
    (List.range g.height).map (fun row => (g.cells.filter (·.row = row)).map Cell.value) =
      g.rows := by
  apply List.ext_getElem
  · simp [height]
  · intro row hr hr'
    rw [List.getElem_map, List.getElem_range, filter_row_cells (List.getElem?_eq_getElem hr'),
      map_value_rowCells]

theorem nodup_places (g : Grid) : (g.cells.map Cell.place).Nodup := by
  rw [List.Nodup, List.pairwise_map]
  apply (pairwise_cells g).imp
  intro c d h he
  rw [he] at h
  rcases Prod.lex_def.mp h with hlt | ⟨-, hlt⟩
  · exact Nat.lt_irrefl _ hlt
  · exact Nat.lt_irrefl _ hlt

theorem mem_places {g : Grid} {row col : Nat} :
    (row, col) ∈ g.cells.map Cell.place ↔ row < g.height ∧ col < g.width := by
  rw [List.mem_map, ← value?_isSome_iff, Option.isSome_iff_exists]
  constructor
  · rintro ⟨c, hc, hplace⟩
    obtain ⟨rfl, rfl⟩ := Prod.mk.inj hplace
    exact ⟨c.value, mem_cells.mp hc⟩
  · rintro ⟨value, hvalue⟩
    exact ⟨⟨row, col, value⟩, mem_cells.mpr hvalue, rfl⟩

/-- The cells of a grid are as many as its rows times its columns, in strictly increasing order of
row and then column. Each place of the grid occurs exactly once and no other does, each with the
value that the grid has there, and the values row by row are the rows. -/
theorem cells_rowMajor (g : Grid) :
    g.cells.length = g.height * g.width ∧
    (g.cells.map Cell.place).Pairwise (Prod.Lex (· < ·) (· < ·)) ∧
    (∀ row col, (g.cells.map Cell.place).count (row, col) =
      if row < g.height ∧ col < g.width then 1 else 0) ∧
    (∀ c, c ∈ g.cells ↔ ∃ values, g.rows[c.row]? = some values ∧ values[c.col]? = some c.value) ∧
    (List.range g.height).map (fun row => (g.cells.filter (·.row = row)).map Cell.value) =
      g.rows := by
  refine ⟨length_cells g, List.pairwise_map.mpr (pairwise_cells g), ?_, ?_, regroup_cells g⟩
  · intro row col
    rw [(nodup_places g).count]
    simp only [mem_places]
  · intro c
    rw [mem_cells, value?, Option.bind_eq_some_iff]

end Grid
end GridPuzzles
