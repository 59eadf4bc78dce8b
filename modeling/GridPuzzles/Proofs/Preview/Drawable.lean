import GridPuzzles.Proofs.Preview.Picture
import Mathlib.Algebra.Order.BigOperators.Group.List
import Mathlib.Algebra.Group.Action.Defs
import Mathlib.Algebra.Order.Ring.Nat

/-! When a preview can be drawn: the area decides whether there is a layout, and the values of the
shown cells decide the rest. -/
namespace GridPuzzles
namespace Preview

variable {size : CellSize} {s s' m n : Nat} {shapes : List Shape} {x : UInt32}
  {grids : List Grid} {p : Puzzle}
  {train test : Example} {e : DrawError}

/-! Layouts. -/

theorem span_le_span (hs : s ≤ s') (hn : m ≤ n) : span s m ≤ span s' n :=
  Nat.succ_le_succ (Nat.mul_le_mul hn (Nat.succ_le_succ hs))

theorem exists_extents {es : List (Extent Nat)}
    (h : ∀ e ∈ es, e.width < 2 ^ 32 ∧ e.height < 2 ^ 32) :
    ∃ fs : List (Extent UInt32), fs.map (Extent.map UInt32.toNat) = es := by
  refine ⟨es.map (Extent.map UInt32.ofNat), ?_⟩
  calc (es.map (Extent.map UInt32.ofNat)).map (Extent.map UInt32.toNat)
    _ = es.map id := by
      rw [List.map_map]
      apply List.map_congr_left
      intro e he
      obtain ⟨hw, hh⟩ := h e he
      simp only [Function.comp_apply, Extent.map, UInt32.toNat_ofNat_of_lt' hw,
        UInt32.toNat_ofNat_of_lt' hh, id]
    _ = es := List.map_id es

theorem layout?_isSome_iff (hn : shapes.length ≤ 2 ^ 32) :
    (layout? size shapes).isSome ↔
      fullWidth size.pixels.toNat shapes * fullHeight size.pixels.toNat shapes ≤ 2 ^ 26 := by
  rw [Option.isSome_iff_exists]
  constructor
  · rintro ⟨l, hl⟩
    exact ((layout?_eq_some hn).mp hl).1
  · intro harea
    obtain ⟨hwidth, hheight⟩ := sides_le_area (by decide) harea
    have hpanels : ∀ e ∈ shapes.map (Shape.extent size.pixels.toNat),
        e.width < 2 ^ 32 ∧ e.height < 2 ^ 32 := by
      intro e he
      obtain ⟨shape, hshape, rfl⟩ := List.mem_map.mp he
      have hw := span_le_fullWidth (s := size.pixels.toNat) hshape
      have hh := span_le_fullHeight (s := size.pixels.toNat) hshape
      simp only [Shape.extent]
      omega
    obtain ⟨panels, hpanels⟩ := exists_extents hpanels
    let width := UInt32.ofNat (fullWidth size.pixels.toNat shapes)
    let height := UInt32.ofNat (fullHeight size.pixels.toNat shapes)
    have hw : width.toNat = fullWidth size.pixels.toNat shapes :=
      UInt32.toNat_ofNat_of_lt' (by simp only [UInt32.size]; omega)
    have hh : height.toNat = fullHeight size.pixels.toNat shapes :=
      UInt32.toNat_ofNat_of_lt' (by simp only [UInt32.size]; omega)
    exact ⟨⟨panels, width, height⟩, (layout?_eq_some hn).mpr
      ⟨harea, hpanels, by rw [Extent.map, hw, hh]⟩⟩

theorem fullWidth_le (h : ∀ shape ∈ shapes, shape.cols ≤ n) :
    fullWidth s shapes ≤ shapes.length * span s n + s * (shapes.length - 1) := by
  have hsum := List.sum_le_card_nsmul (shapes.map fun shape => span s shape.cols) (span s n)
  rw [List.length_map, smul_eq_mul] at hsum
  apply Nat.add_le_add_right
  apply hsum
  intro w hw
  obtain ⟨shape, hshape, rfl⟩ := List.mem_map.mp hw
  exact span_le_span (Nat.le_refl s) (h shape hshape)

theorem fullHeight_le (h : ∀ shape ∈ shapes, shape.rows ≤ n) :
    fullHeight s shapes ≤ span s n := by
  induction shapes with
  | nil => exact span_pos s n
  | cons first shapes ih =>
    rw [fullHeight, List.map_cons, List.foldr_cons]
    exact Nat.max_le.mpr ⟨span_le_span (Nat.le_refl s) (h first (by simp)),
      ih fun shape hshape => h shape (by simp [hshape])⟩

theorem layout?_isSome_of_small (hsize : size.pixels.toNat ≤ CellSize.largest.toNat)
    (hlength : shapes.length = 4)
    (hsmall : ∀ shape ∈ shapes, shape.rows ≤ Grid.sizeLimit ∧ shape.cols ≤ Grid.sizeLimit) :
    (layout? size shapes).isSome := by
  have hspan := span_le_span hsize (Nat.le_refl Grid.sizeLimit)
  have hwidth := fullWidth_le (s := size.pixels.toNat) fun shape h => (hsmall shape h).2
  have hheight := fullHeight_le (s := size.pixels.toNat) fun shape h => (hsmall shape h).1
  rw [hlength] at hwidth
  rw [layout?_isSome_iff (by rw [hlength]; decide)]
  calc fullWidth size.pixels.toNat shapes * fullHeight size.pixels.toNat shapes
    _ ≤ (4 * span CellSize.largest.toNat Grid.sizeLimit + CellSize.largest.toNat * 3) *
        span CellSize.largest.toNat Grid.sizeLimit := by
      apply Nat.mul_le_mul
      · exact Nat.le_trans hwidth
          (Nat.add_le_add (Nat.mul_le_mul_left 4 hspan) (Nat.mul_le_mul_right 3 hsize))
      · exact Nat.le_trans hheight hspan
    -- 11052 times 2571 pixels, less than half of the limit
    _ ≤ 2 ^ 26 := by decide

/-! Strokes. -/

theorem ofCell?_isSome_iff {value : UInt8} : (Color.ofCell? value).isSome ↔ value ≤ 9 := by
  rw [Color.ofCell?, isSome_getElem?, UInt8.le_iff_toNat_le]
  exact Nat.lt_succ_iff

theorem noColor_of_strokes {panels : List (Grid × Extent UInt32)}
    (h : strokes size x panels = .error e) : ∃ value, e = .noColor value := by
  induction panels generalizing x with
  | nil => cases h
  | cons panel panels ih =>
    obtain ⟨g, extent⟩ := panel
    rw [strokes] at h
    rcases bind_eq_error.mp h with h | ⟨squares, -, h⟩
    · obtain ⟨c, -, hc⟩ := exists_mem_of_mapM_error h
      rw [squareOf] at hc
      split at hc
      · cases hc
      · cases hc
        exact ⟨c.value, rfl⟩
    · rcases bind_eq_error.mp h with h | ⟨others, -, h⟩
      · exact ih h
      · cases h

theorem exists_strokes (size : CellSize) (x : UInt32) (extents : List (Extent UInt32))
    (h : ∀ g ∈ grids, Colored g) :
    ∃ painted, strokes size x (grids.zip extents) = .ok painted := by
  induction grids generalizing x extents with
  | nil => exact ⟨[], rfl⟩
  | cons g grids ih =>
    cases extents with
    | nil => exact ⟨[], rfl⟩
    | cons extent extents =>
      have hsquares : ∃ squares, g.cells.mapM (squareOf size x) = .ok squares := by
        apply exists_mapM_ok
        intro c hc
        obtain ⟨color, hcolor⟩ := Option.isSome_iff_exists.mp (h g (by simp) c hc)
        exact ⟨_, squareOf_eq_ok.mpr ⟨color, hcolor, rfl⟩⟩
      obtain ⟨squares, hsquares⟩ := hsquares
      obtain ⟨others, hothers⟩ := ih (x + (extent.width + size.pixels)) extents
        fun g hg => h g (by simp [hg])
      rw [List.zip_cons_cons]
      exact ⟨_, strokes_cons_eq_ok.mpr ⟨squares, others, hsquares, hothers, rfl⟩⟩

/-! Drawing. -/

theorem drawPanels_ne_tooLarge {pixels : UInt32} (h : (layout? size (grids.map shape)).isSome) :
    drawPanels size grids ≠ .error (.tooLarge pixels) := by
  obtain ⟨l, hl⟩ := Option.isSome_iff_exists.mp h
  rw [drawPanels, hl]
  intro herror
  rcases bind_eq_error.mp herror with herror | ⟨painted, -, herror⟩
  · obtain ⟨value, he⟩ := noColor_of_strokes herror
    cases he
  · cases herror

theorem exists_drawPanels (h : (layout? size (grids.map shape)).isSome)
    (hg : ∀ g ∈ grids, Colored g) : ∃ img, drawPanels size grids = .ok img := by
  obtain ⟨l, hl⟩ := Option.isSome_iff_exists.mp h
  obtain ⟨painted, hpainted⟩ := exists_strokes size 0 l.panels hg
  rw [drawPanels, hl]
  exact ⟨_, bind_eq_ok.mpr ⟨painted, hpainted, rfl⟩⟩

theorem draw_eq (htrain : p.train.head? = some train) (htest : p.test.head? = some test) :
    draw size p = drawPanels size (panels train test) := by
  obtain ⟨_, htrain⟩ := List.head?_eq_some_iff.mp htrain
  obtain ⟨_, htest⟩ := List.head?_eq_some_iff.mp htest
  rw [draw, htrain, htest]

theorem small_of_not_isLarge {g : Grid} (h : ¬ g.isLarge) :
    g.height ≤ Grid.sizeLimit ∧ g.width ≤ Grid.sizeLimit := by
  simpa [Grid.isLarge] using h

/-- The panels of a task that is not large have a layout at every cell size up to the largest. -/
theorem layout?_isSome_of_not_isLarge (hsize : size.pixels.toNat ≤ CellSize.largest.toNat)
    (hp : ¬ p.isLarge) (htrain : p.train.head? = some train) (htest : p.test.head? = some test) :
    (layout? size ((panels train test).map shape)).isSome := by
  have hexample : ∀ e ∈ p.examples, ¬ e.isLarge := by simpa [Puzzle.isLarge] using hp
  have htrain := hexample train (List.mem_append_left _ (List.mem_of_mem_head? htrain))
  have htest := hexample test (List.mem_append_right _ (List.mem_of_mem_head? htest))
  simp only [Example.isLarge, Bool.or_eq_true, not_or] at htrain htest
  apply layout?_isSome_of_small hsize rfl
  simp only [panels, List.map_cons, List.map_nil, List.forall_mem_cons]
  exact ⟨small_of_not_isLarge htrain.1, small_of_not_isLarge htrain.2,
    small_of_not_isLarge htest.1, small_of_not_isLarge htest.2, by simp⟩

theorem draw_ne_tooLarge (hsize : size.pixels.toNat ≤ CellSize.largest.toNat)
    (hp : ¬ p.isLarge) (pixels : UInt32) : draw size p ≠ .error (.tooLarge pixels) := by
  cases htrain : p.train.head? with
  | none => simp [draw, List.head?_eq_none_iff.mp htrain]
  | some train =>
    cases htest : p.test.head? with
    | none =>
      obtain ⟨_, htrain⟩ := List.head?_eq_some_iff.mp htrain
      simp [draw, htrain, List.head?_eq_none_iff.mp htest]
    | some test =>
      rw [draw_eq htrain htest]
      exact drawPanels_ne_tooLarge (layout?_isSome_of_not_isLarge hsize hp htrain htest)

theorem exists_draw (hsize : size.pixels.toNat ≤ CellSize.largest.toNat) (hp : ¬ p.isLarge)
    (htrain : p.train.head? = some train) (htest : p.test.head? = some test)
    (hvalues : ∀ g ∈ panels train test, ∀ c ∈ g.cells, c.value ≤ 9) :
    ∃ img, draw size p = .ok img := by
  rw [draw_eq htrain htest]
  exact exists_drawPanels (layout?_isSome_of_not_isLarge hsize hp htrain htest)
    fun g hg c hc => ofCell?_isSome_iff.mpr (hvalues g hg c hc)

end Preview
end GridPuzzles
