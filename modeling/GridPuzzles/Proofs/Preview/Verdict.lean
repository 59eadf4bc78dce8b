import GridPuzzles.Proofs.Preview.Drawable

/-! What decides whether a preview is drawn, and with which error it is refused. First come the
missing examples, then the area of the image, counted without bounds, and last the first cell
without a color; nothing else has a part in it. -/
namespace GridPuzzles
namespace Preview

variable {size : CellSize} {s : Nat} {x : UInt32} {cell : Cell} {cells : List Cell}
  {grids : List Grid} {p : Puzzle}

/-! The limit. -/

def Layout.sizes (l : Layout) : List (Extent Nat) × Extent Nat :=
  (l.panels.map (Extent.map UInt32.toNat), l.image.map UInt32.toNat)

theorem layout?_eq_none_iff (size : CellSize) {shapes : List Shape} (hn : shapes.length ≤ 2 ^ 32) :
    layout? size shapes = none ↔
      2 ^ 26 < fullWidth size.pixels.toNat shapes * fullHeight size.pixels.toNat shapes := by
  rw [← Nat.not_le, ← layout?_isSome_iff hn, Option.not_isSome_iff_eq_none]

theorem drawPanels_eq_tooLarge_iff {pixels : UInt32} :
    drawPanels size grids = .error (.tooLarge pixels) ↔
      layout? size (grids.map shape) = none ∧ pixels = size.pixels := by
  cases hl : layout? size (grids.map shape) with
  | none =>
    rw [drawPanels, hl]
    simp [eq_comm]
  | some l =>
    have hsome : (layout? size (grids.map shape)).isSome := by rw [hl]; rfl
    simp [drawPanels_ne_tooLarge hsome]

/-- The size limit is exact. A preview of four grids is too large if and only if its area, counted
without bounds, is beyond the limit, and in every other case the layout has exactly the sizes that
are counted without bounds. -/
theorem layout?_exact (cellSize : UInt32) (a b c d : Grid) :
    let size := CellSize.ofRequest cellSize
    let s := max cellSize.toNat 1
    let grids := [a, b, c, d]
    let width := (grids.map fun g => g.width * (s + 1) + 1).sum + 3 * s
    let height := (grids.map fun g => g.height * (s + 1) + 1).foldr max 0
    (drawPanels size grids = .error (.tooLarge size.pixels) ↔ 2 ^ 26 < width * height) ∧
    (layout? size (grids.map shape)).map Layout.sizes =
      if 2 ^ 26 < width * height then none
      else some (grids.map fun g => ⟨g.width * (s + 1) + 1, g.height * (s + 1) + 1⟩,
        ⟨width, height⟩) := by
  intro size s grids width height
  have hs : size.pixels.toNat = s := CellSize.toNat_ofRequest cellSize
  have hn : (grids.map shape).length ≤ 2 ^ 32 := by simp [grids]
  have hwidth : fullWidth s (grids.map shape) = width := by
    simp [fullWidth, width, grids, shape, span, Nat.mul_comm]
  have hheight : fullHeight s (grids.map shape) = height := by
    simp [fullHeight, height, grids, shape, span]
  have hnone := layout?_eq_none_iff size hn
  rw [hs, hwidth, hheight] at hnone
  refine ⟨by simp [drawPanels_eq_tooLarge_iff, hnone], ?_⟩
  by_cases hlimit : 2 ^ 26 < width * height
  · rw [if_pos hlimit, hnone.mpr hlimit]
    rfl
  · rw [if_neg hlimit]
    cases hl : layout? size (grids.map shape) with
    | none => exact absurd (hnone.mp hl) hlimit
    | some l =>
      obtain ⟨-, hpanels, himage⟩ := (layout?_eq_some hn).mp hl
      rw [hs] at hpanels himage
      rw [Option.map_some, Layout.sizes, hpanels, himage, hwidth, hheight, List.map_map]
      rfl

example : (layout? (.ofRequest 2) [⟨1365, 0⟩, ⟨0, 5458⟩, ⟨0, 0⟩, ⟨0, 0⟩]).isSome ∧
    layout? (.ofRequest 2) [⟨1365, 0⟩, ⟨0, 5459⟩, ⟨0, 0⟩, ⟨0, 0⟩] = none := by
  decide +kernel

/-! The first cell without a color. -/

def beyondPalette (c : Cell) : Bool := 9 < c.value

theorem ofCell?_eq_none_iff {value : UInt8} : Color.ofCell? value = none ↔ 9 < value := by
  rw [← UInt8.not_le, ← ofCell?_isSome_iff, Option.not_isSome_iff_eq_none]

theorem squareOf_of_beyondPalette (h : beyondPalette cell) :
    squareOf size x cell = .error (.noColor cell.value) := by
  rw [squareOf, ofCell?_eq_none_iff.mpr (of_decide_eq_true h)]

theorem exists_squareOf (h : ¬ beyondPalette cell) :
    ∃ stroke, squareOf size x cell = .ok stroke := by
  have hvalue : cell.value ≤ 9 := UInt8.not_lt.mp fun hlt => h (decide_eq_true hlt)
  obtain ⟨color, hcolor⟩ := Option.isSome_iff_exists.mp (ofCell?_isSome_iff.mpr hvalue)
  exact ⟨_, squareOf_eq_ok.mpr ⟨color, hcolor, rfl⟩⟩

theorem squares_of_find? (h : cells.find? beyondPalette = some cell) :
    cells.mapM (squareOf size x) = .error (.noColor cell.value) := by
  induction cells with
  | nil => cases h
  | cons first cells ih =>
    rw [List.mapM_cons, bind_eq_error]
    by_cases hfirst : beyondPalette first
    · rw [List.find?_cons_of_pos hfirst, Option.some.injEq] at h
      subst h
      exact .inl (squareOf_of_beyondPalette hfirst)
    · rw [List.find?_cons_of_neg hfirst] at h
      obtain ⟨stroke, hstroke⟩ := exists_squareOf hfirst
      exact .inr ⟨stroke, hstroke, bind_eq_error.mpr (.inl (ih h))⟩

theorem exists_squares (h : cells.find? beyondPalette = none) :
    ∃ squares, cells.mapM (squareOf size x) = .ok squares :=
  exists_mapM_ok fun c hc => exists_squareOf (List.find?_eq_none.mp h c hc)

theorem strokes_of_find? (size : CellSize) (x : UInt32) {extents : List (Extent UInt32)}
    (hl : grids.length = extents.length)
    (h : (grids.flatMap Grid.cells).find? beyondPalette = some cell) :
    strokes size x (grids.zip extents) = .error (.noColor cell.value) := by
  induction grids generalizing x extents with
  | nil => cases h
  | cons g grids ih =>
    cases extents with
    | nil => cases hl
    | cons e extents =>
      rw [List.flatMap_cons, List.find?_append] at h
      rw [List.zip_cons_cons, strokes, bind_eq_error]
      cases hg : g.cells.find? beyondPalette with
      | some c =>
        rw [hg, Option.some_or, Option.some.injEq] at h
        subst h
        exact .inl (squares_of_find? hg)
      | none =>
        rw [hg, Option.none_or] at h
        obtain ⟨squares, hsquares⟩ := exists_squares hg
        exact .inr ⟨squares, hsquares, bind_eq_error.mpr (.inl (ih _ (Nat.succ.inj hl) h))⟩

theorem exists_strokes_of_find? (size : CellSize) (x : UInt32) (extents : List (Extent UInt32))
    (h : (grids.flatMap Grid.cells).find? beyondPalette = none) :
    ∃ painted, strokes size x (grids.zip extents) = .ok painted := by
  apply exists_strokes
  intro g hg c hc
  have hvalue := List.find?_eq_none.mp h c (List.mem_flatMap.mpr ⟨g, hg, hc⟩)
  exact ofCell?_isSome_iff.mpr (UInt8.not_lt.mp fun hlt => hvalue (decide_eq_true hlt))

/-! The whole verdict. -/

def area (s : Nat) (grids : List Grid) : Nat :=
  fullWidth s (grids.map shape) * fullHeight s (grids.map shape)

theorem drawPanels_of_layout {l : Layout} (hl : layout? size (grids.map shape) = some l) :
    drawPanels size grids = do
      let painted ← strokes size 0 (grids.zip l.panels)
      return (Image.blank l.image.width l.image.height Color.background).paintAll painted := by
  rw [drawPanels, hl]

theorem length_panels_of_layout {l : Layout} (hn : grids.length ≤ 2 ^ 32)
    (hl : layout? size (grids.map shape) = some l) : grids.length = l.panels.length := by
  obtain ⟨-, hpanels, -⟩ := (layout?_eq_some (by simpa using hn)).mp hl
  simpa using (congrArg List.length hpanels).symm

/-- What becomes of grids: the area decides first, and then the first cell without a color. -/
theorem drawPanels_cases (size : CellSize) (grids : List Grid) (hn : grids.length ≤ 2 ^ 32) :
    2 ^ 26 < area size.pixels.toNat grids ∧
      drawPanels size grids = .error (.tooLarge size.pixels) ∨
    (area size.pixels.toNat grids ≤ 2 ^ 26 ∧
      ∃ cell, (grids.flatMap Grid.cells).find? beyondPalette = some cell ∧
        drawPanels size grids = .error (.noColor cell.value)) ∨
    area size.pixels.toNat grids ≤ 2 ^ 26 ∧
      (grids.flatMap Grid.cells).find? beyondPalette = none ∧
      ∃ img, drawPanels size grids = .ok img := by
  have hshapes : (grids.map shape).length ≤ 2 ^ 32 := by simpa using hn
  have hnone := layout?_eq_none_iff size hshapes
  cases hl : layout? size (grids.map shape) with
  | none => exact .inl ⟨hnone.mp hl, drawPanels_eq_tooLarge_iff.mpr ⟨hl, rfl⟩⟩
  | some l =>
    have hlimit : area size.pixels.toNat grids ≤ 2 ^ 26 := by
      by_contra hlt
      rw [hnone.mpr (Nat.lt_of_not_le hlt)] at hl
      cases hl
    rw [drawPanels_of_layout hl]
    cases hfind : (grids.flatMap Grid.cells).find? beyondPalette with
    | some cell =>
      have hstrokes := strokes_of_find? size 0 (length_panels_of_layout hn hl) hfind
      exact .inr (.inl ⟨hlimit, cell, rfl, bind_eq_error.mpr (.inl hstrokes)⟩)
    | none =>
      obtain ⟨painted, hpainted⟩ := exists_strokes_of_find? size 0 l.panels hfind
      exact .inr (.inr ⟨hlimit, rfl, _, bind_eq_ok.mpr ⟨painted, hpainted, rfl⟩⟩)

/-! One kind of outcome at a time, for grids and then for tasks. -/

section

variable (size) (hn : grids.length ≤ 2 ^ 32)
include hn

theorem drawPanels_eq_noColor_iff (value : UInt8) :
    drawPanels size grids = .error (.noColor value) ↔
      area size.pixels.toNat grids ≤ 2 ^ 26 ∧
        ∃ cell, (grids.flatMap Grid.cells).find? beyondPalette = some cell ∧
          cell.value = value := by
  rcases drawPanels_cases size grids hn with ⟨hlimit, h⟩ | ⟨hlimit, _, hfind, h⟩ |
    ⟨hlimit, hfind, _, h⟩
  · simp [h, Nat.not_le.mpr hlimit, -Nat.reducePow]
  · simp only [h, hlimit, hfind, Except.error.injEq, DrawError.noColor.injEq, true_and,
      Option.some.injEq, exists_eq_left']
  · simp only [h, hfind, reduceCtorEq, false_and, exists_false, and_false]

theorem exists_drawPanels_iff :
    (∃ img, drawPanels size grids = .ok img) ↔
      area size.pixels.toNat grids ≤ 2 ^ 26 ∧
        (grids.flatMap Grid.cells).find? beyondPalette = none := by
  rcases drawPanels_cases size grids hn with ⟨hlimit, h⟩ | ⟨hlimit, _, hfind, h⟩ |
    ⟨hlimit, hfind, _, h⟩
  · simp [h, Nat.not_le.mpr hlimit, -Nat.reducePow]
  · simp only [h, hfind, reduceCtorEq, exists_false, and_false]
  · simp only [h, hlimit, hfind, Except.ok.injEq, exists_eq', and_self]

end

theorem drawPanels_ne_noExample (split : Split) :
    drawPanels size grids ≠ .error (.noExample split) := by
  rw [drawPanels]
  split
  · simp
  · intro h
    rcases bind_eq_error.mp h with h | ⟨painted, -, h⟩
    · obtain ⟨value, he⟩ := noColor_of_strokes h
      cases he
    · cases h

/-- The grids that a preview shows; none if an example is missing. -/
def shown? (p : Puzzle) : Option (List Grid) :=
  p.train.head?.bind fun train => p.test.head?.map fun test => panels train test

theorem length_of_shown? (h : shown? p = some grids) : grids.length = 4 := by
  obtain ⟨train, -, h⟩ := Option.bind_eq_some_iff.mp h
  obtain ⟨test, -, rfl⟩ := Option.map_eq_some_iff.mp h
  rfl

section

variable (size p)

theorem draw_cases :
    p.train = [] ∧ shown? p = none ∧ draw size p = .error (.noExample .train) ∨
    (p.train ≠ [] ∧ p.test = []) ∧ shown? p = none ∧ draw size p = .error (.noExample .test) ∨
    (p.train ≠ [] ∧ p.test ≠ []) ∧ ∃ grids, shown? p = some grids ∧
      draw size p = drawPanels size grids := by
  obtain ⟨train, test⟩ := p
  cases train with
  | nil => exact .inl ⟨rfl, rfl, rfl⟩
  | cons first train =>
    cases test with
    | nil => exact .inr (.inl ⟨⟨List.cons_ne_nil _ _, rfl⟩, rfl, rfl⟩)
    | cons second test =>
      exact .inr (.inr ⟨⟨List.cons_ne_nil _ _, List.cons_ne_nil _ _⟩, _, rfl, rfl⟩)

theorem draw_take_one : draw size p = draw size ⟨p.train.take 1, p.test.take 1⟩ := by
  obtain ⟨train, test⟩ := p
  cases train with
  | nil => rfl
  | cons first train => cases test <;> rfl

theorem draw_eq_noTrain_iff : draw size p = .error (.noExample .train) ↔ p.train = [] := by
  rcases draw_cases size p with ⟨hp, -, h⟩ | ⟨hp, -, h⟩ | ⟨hp, grids, -, h⟩
  · simp [hp, h]
  · simp [hp, h]
  · simp [hp, h, drawPanels_ne_noExample]

theorem draw_eq_noTest_iff :
    draw size p = .error (.noExample .test) ↔ p.train ≠ [] ∧ p.test = [] := by
  rcases draw_cases size p with ⟨hp, -, h⟩ | ⟨hp, -, h⟩ | ⟨hp, grids, -, h⟩
  · simp [hp, h]
  · simp [hp, h]
  · simp [hp, h, drawPanels_ne_noExample]

theorem draw_eq_iff {outcome : Except DrawError Image}
    (h : ∀ split, outcome ≠ .error (.noExample split)) :
    draw size p = outcome ↔ ∃ grids, shown? p = some grids ∧ drawPanels size grids = outcome := by
  rcases draw_cases size p with ⟨-, hshown, hdraw⟩ | ⟨-, hshown, hdraw⟩ | ⟨-, grids, hshown, hdraw⟩
  · simp [hshown, hdraw, (h .train).symm]
  · simp [hshown, hdraw, (h .test).symm]
  · simp [hshown, hdraw]

theorem draw_eq_tooLarge_iff (pixels : UInt32) :
    draw size p = .error (.tooLarge pixels) ↔
      ∃ grids, shown? p = some grids ∧
        2 ^ 26 < area size.pixels.toNat grids ∧ pixels = size.pixels := by
  rw [draw_eq_iff size p (by simp)]
  refine exists_congr fun grids => and_congr_right fun hshown => ?_
  have hn : (grids.map shape).length ≤ 2 ^ 32 := by simp [length_of_shown? hshown]
  rw [drawPanels_eq_tooLarge_iff, layout?_eq_none_iff size hn]
  rfl

theorem draw_eq_noColor_iff (value : UInt8) :
    draw size p = .error (.noColor value) ↔
      ∃ grids, shown? p = some grids ∧ area size.pixels.toNat grids ≤ 2 ^ 26 ∧
        ∃ cell, (grids.flatMap Grid.cells).find? beyondPalette = some cell ∧
          cell.value = value := by
  rw [draw_eq_iff size p (by simp)]
  refine exists_congr fun grids => and_congr_right fun hshown => ?_
  exact drawPanels_eq_noColor_iff size (by simp [length_of_shown? hshown]) value

theorem exists_draw_iff :
    (∃ img, draw size p = .ok img) ↔
      ∃ grids, shown? p = some grids ∧ area size.pixels.toNat grids ≤ 2 ^ 26 ∧
        (grids.flatMap Grid.cells).find? beyondPalette = none := by
  have hdraw (img : Image) : draw size p = .ok img ↔
      ∃ grids, shown? p = some grids ∧ drawPanels size grids = .ok img :=
    draw_eq_iff size p (by simp)
  simp only [hdraw]
  rw [exists_comm]
  refine exists_congr fun grids => ?_
  rw [exists_and_left]
  refine and_congr_right fun hshown => ?_
  exact exists_drawPanels_iff size (by simp [length_of_shown? hshown])

end

/-- The outcome of a preview is decided in this order: a missing train example, a missing test
example, an area beyond the limit whatever the cells are, the first cell above the palette in the
four grids shown, and otherwise there is an image. Further examples have no part in it. -/
theorem draw_decided (cellSize : UInt32) (p : Puzzle) :
    let size := CellSize.ofRequest cellSize
    let s := max cellSize.toNat 1
    (draw size p = .error (.noExample .train) ↔ p.train = []) ∧
    (draw size p = .error (.noExample .test) ↔ p.train ≠ [] ∧ p.test = []) ∧
    (∀ pixels, draw size p = .error (.tooLarge pixels) ↔
      ∃ grids, shown? p = some grids ∧ 2 ^ 26 < area s grids ∧ pixels.toNat = s) ∧
    (∀ value, draw size p = .error (.noColor value) ↔
      ∃ grids, shown? p = some grids ∧ area s grids ≤ 2 ^ 26 ∧
        ∃ cell, (grids.flatMap Grid.cells).find? (fun c => 9 < c.value) = some cell ∧
          cell.value = value) ∧
    ((∃ img, draw size p = .ok img) ↔
      ∃ grids, shown? p = some grids ∧ area s grids ≤ 2 ^ 26 ∧
        ∀ cell ∈ grids.flatMap Grid.cells, cell.value ≤ 9) ∧
    draw size p = draw size ⟨p.train.take 1, p.test.take 1⟩ := by
  intro size s
  have hs : size.pixels.toNat = s := CellSize.toNat_ofRequest cellSize
  have hpixels (pixels : UInt32) : pixels = size.pixels ↔ pixels.toNat = s := by
    rw [← hs, UInt32.toNat_inj]
  have hcolored (cells : List Cell) :
      cells.find? beyondPalette = none ↔ ∀ cell ∈ cells, cell.value ≤ 9 := by
    simp [beyondPalette]
  refine ⟨draw_eq_noTrain_iff size p, draw_eq_noTest_iff size p, fun pixels => ?_, fun value => ?_,
    ?_, draw_take_one size p⟩
  · rw [draw_eq_tooLarge_iff, hpixels, hs]
  · rw [draw_eq_noColor_iff, hs]
    rfl
  · rw [exists_draw_iff, hs]
    simp only [hcolored]

example : draw (.ofRequest 2) ⟨[⟨⟨[[1], [2]], by decide⟩, ⟨[[3, 12]], by decide⟩⟩],
    [⟨⟨[[200]], by decide⟩, Grid.empty⟩]⟩ = .error (.noColor 12) := rfl

end Preview
end GridPuzzles
