import GridPuzzles.Proofs.Preview.Picture

/-! Reading a preview back. The first pixel row tells lines from gaps, and with them the cell
size and the widths; the left edge of each panel tells its height; each cell shows its value. -/
namespace GridPuzzles
namespace Preview

variable {s s' left d row col x y : Nat} {g g' : Grid} {grids grids' : List Grid}

theorem ofCell?_inj {v v' : UInt8} {c : Color} (h : Color.ofCell? v = some c)
    (h' : Color.ofCell? v' = some c) : v = v' := by
  have hn : Color.palette.Nodup := by decide
  obtain ⟨hlt, -⟩ := List.getElem?_eq_some_iff.mp h
  exact UInt8.toNat_inj.mp ((List.getElem?_inj hlt hn).mp (h.trans h'.symm))

theorem background_ne_gridLine : Color.background ≠ Color.gridLine := by decide

theorem picture_left (h : x < left) : picture s left grids x y = Color.background := by
  rw [picture, picture?_left h]
  rfl

theorem picture_line (left : Nat) (grids : List Grid) (hx : d < span s g.width)
    (hy : y < span s g.height) (hl : s + 1 ∣ d ∨ s + 1 ∣ y) :
    picture s left (g :: grids) (left + d) y = Color.gridLine := by
  rw [picture, picture?, if_pos ⟨by omega, by omega, hy⟩, Nat.add_sub_cancel_left, panelColor?,
    if_pos hl]
  rfl

theorem picture_beside (left : Nat) (grids : List Grid) (hx : d < span s g.width + s)
    (hout : span s g.width ≤ d ∨ span s g.height ≤ y) :
    picture s left (g :: grids) (left + d) y = Color.background := by
  rw [picture, picture?, if_neg (by omega), picture?_left (by omega)]
  rfl

theorem picture_tail (hx : left + (span s g.width + s) ≤ x) :
    picture s left (g :: grids) x y = picture s (left + (span s g.width + s)) grids x y := by
  rw [picture, picture?, if_neg (by omega)]
  rfl

theorem picture_cell (hs : 0 < s) (hr : row < g.height) (hc : col < g.width) :
    picture s left (g :: grids) (left + (col * (s + 1) + 1)) (row * (s + 1) + 1) =
      ((g.value? row col).bind Color.ofCell?).getD Color.background := by
  have hx := stride_le_span (s := s) hc
  have hy := stride_le_span (s := s) hr
  obtain ⟨hdx, hnx⟩ := (between_lines_iff (s := s) (n := col)).mp ⟨Nat.le_refl _, by omega⟩
  obtain ⟨hdy, hny⟩ := (between_lines_iff (s := s) (n := row)).mp ⟨Nat.le_refl _, by omega⟩
  rw [picture, picture?, if_pos ⟨by omega, by omega, by omega⟩, Nat.add_sub_cancel_left,
    panelColor?, if_neg (not_or.mpr ⟨hnx, hny⟩), hdx, hdy]

theorem width_le (hs' : 0 < s')
    (h : ∀ x y, picture s left (g :: grids) x y = picture s' left (g' :: grids') x y) :
    span s g.width ≤ span s' g'.width := by
  by_contra hlt
  have hline := picture_line left grids (Nat.lt_of_not_le hlt) (span_pos s g.height)
    (Or.inr (Nat.dvd_zero _))
  have hgap := picture_beside (s := s') (g := g') left grids' (Nat.lt_add_of_pos_right hs')
    (Or.inl (Nat.le_refl _)) (y := 0)
  rw [h, hgap] at hline
  exact background_ne_gridLine hline

theorem gap_le {g₂ g₂' : Grid} (hw : span s g.width = span s' g'.width)
    (h : ∀ x y, picture s left (g :: g₂ :: grids) x y =
      picture s' left (g' :: g₂' :: grids') x y) : s ≤ s' := by
  by_contra hlt
  have hgap := picture_beside (s := s) (g := g) left (g₂ :: grids) (y := 0)
    (Nat.add_lt_add_left (Nat.lt_of_not_le hlt) _) (Or.inl (Nat.le_add_right _ s'))
  have hline := picture_line (s := s') (g := g₂') (left + (span s' g'.width + s')) grids'
    (span_pos _ _) (span_pos _ _) (Or.inr (Nat.dvd_zero _))
  rw [h, hw, picture_tail (Nat.le_refl _)] at hgap
  exact background_ne_gridLine (hgap.symm.trans hline)

theorem height_le (hs : 0 < s)
    (h : ∀ x y, picture s left (g :: grids) x y = picture s left (g' :: grids') x y) :
    span s g.height ≤ span s g'.height := by
  by_contra hlt
  have hline := picture_line left grids (span_pos s g.width) (Nat.lt_of_not_le hlt)
    (Or.inl (Nat.dvd_zero _))
  have hbelow := picture_beside (s := s) (g := g') left grids' (d := 0)
    (Nat.lt_of_lt_of_le hs (Nat.le_add_left _ _)) (Or.inr (Nat.le_refl _))
  rw [h, hbelow] at hline
  exact background_ne_gridLine hline

theorem head_eq (hs : 0 < s) (hg : Colored g) (hg' : Colored g')
    (h : ∀ x y, picture s left (g :: grids) x y = picture s left (g' :: grids') x y) :
    g = g' := by
  have hw : g.width = g'.width :=
    span_inj (Nat.le_antisymm (width_le hs h) (width_le hs fun x y => (h x y).symm))
  have hh : g.height = g'.height :=
    span_inj (Nat.le_antisymm (height_le hs h) (height_le hs fun x y => (h x y).symm))
  apply Grid.ext_value hh hw
  intro row hr col hc
  obtain ⟨v, hv⟩ := Option.isSome_iff_exists.mp (Grid.value?_isSome_iff.mpr ⟨hr, hc⟩)
  obtain ⟨v', hv'⟩ := Option.isSome_iff_exists.mp
    (Grid.value?_isSome_iff.mpr ⟨hh ▸ hr, hw ▸ hc⟩ : (g'.value? row col).isSome)
  obtain ⟨color, hcolor⟩ := Option.isSome_iff_exists.mp
    (hg ⟨row, col, v⟩ (Grid.mem_cells.mpr hv))
  obtain ⟨color', hcolor'⟩ := Option.isSome_iff_exists.mp
    (hg' ⟨row, col, v'⟩ (Grid.mem_cells.mpr hv'))
  have hpixel := h (left + (col * (s + 1) + 1)) (row * (s + 1) + 1)
  rw [picture_cell hs hr hc, picture_cell hs (hh ▸ hr) (hw ▸ hc), hv, hv', Option.bind_some,
    Option.bind_some, hcolor, hcolor'] at hpixel
  simp only [Option.getD_some] at hpixel
  have hvalue : v = v' := ofCell?_inj hcolor (hpixel ▸ hcolor')
  rw [hv, hv', hvalue]

theorem grids_eq (hs : 0 < s) (hl : grids.length = grids'.length)
    (hg : ∀ g ∈ grids, Colored g) (hg' : ∀ g ∈ grids', Colored g)
    (h : ∀ x y, picture s left grids x y = picture s left grids' x y) : grids = grids' := by
  induction grids generalizing left grids' with
  | nil => exact (List.length_eq_zero_iff.mp hl.symm).symm
  | cons g grids ih =>
    cases grids' with
    | nil => cases hl
    | cons g' grids' =>
      have he := head_eq hs (hg g (by simp)) (hg' g' (by simp)) h
      subst he
      have ht : ∀ x y, picture s (left + (span s g.width + s)) grids x y =
          picture s (left + (span s g.width + s)) grids' x y := by
        intro x y
        by_cases hx : x < left + (span s g.width + s)
        · rw [picture_left hx, picture_left hx]
        · have hle := Nat.le_of_not_lt hx
          rw [← picture_tail hle, ← picture_tail hle, h]
      rw [ih (by simpa using hl) (fun g hm => hg g (by simp [hm]))
        (fun g hm => hg' g (by simp [hm])) ht]

/-- A picture of at least two panels shows the cell size and all of its grids. -/
theorem picture_injective (hs : 0 < s) (hs' : 0 < s') (hn : 2 ≤ grids.length)
    (hl : grids.length = grids'.length) (hg : ∀ g ∈ grids, Colored g)
    (hg' : ∀ g ∈ grids', Colored g)
    (h : ∀ x y, picture s left grids x y = picture s' left grids' x y) :
    s = s' ∧ grids = grids' := by
  have he : s = s' := by
    match grids, grids', hl, hn with
    | g :: g₂ :: grids, g' :: g₂' :: grids', _, _ =>
      have hsymm := fun x y => (h x y).symm
      have hw := Nat.le_antisymm (width_le hs' h) (width_le hs hsymm)
      exact Nat.le_antisymm (gap_le hw h) (gap_le hw.symm hsymm)
  subst he
  exact ⟨rfl, grids_eq hs hl hg hg' h⟩

theorem picture?_right (h : left + (grids.map fun g => span s g.width + s).sum ≤ x + s) :
    picture? s left grids x y = none := by
  induction grids generalizing left with
  | nil => rfl
  | cons g grids ih =>
    rw [List.map_cons, List.sum_cons] at h
    rw [picture?, if_neg (by omega)]
    exact ih (by omega)

theorem picture?_below (h : (grids.map fun g => span s g.height).foldr max 1 ≤ y) :
    picture? s left grids x y = none := by
  induction grids generalizing left with
  | nil => rfl
  | cons g grids ih =>
    rw [List.map_cons, List.foldr_cons] at h
    rw [picture?, if_neg (by omega)]
    exact ih (by omega)

theorem Depicts.picture_eq {img img' : Image} (hd : Depicts s grids img)
    (hd' : Depicts s' grids' img') (hn : 0 < grids.length) (hn' : 0 < grids'.length)
    (hw : img.width = img'.width) (hh : img.height = img'.height)
    (hp : ∀ x y, img.pixel? x y = img'.pixel? x y) (x y : Nat) :
    picture s 0 grids x y = picture s' 0 grids' x y := by
  have hout {s : Nat} {grids : List Grid} {img : Image} (hd : Depicts s grids img)
      (hn : 0 < grids.length) (hxy : ¬ (x < img.width.toNat ∧ y < img.height.toNat)) :
      picture s 0 grids x y = Color.background := by
    have hlast : s * grids.length = s * (grids.length - 1) + s := by
      rw [← Nat.mul_succ]
      congr 1
      omega
    have hnone : picture? s 0 grids x y = none := by
      by_cases hx : x < img.width.toNat
      · apply picture?_below
        have := hd.height
        omega
      · apply picture?_right
        have := hd.width
        rw [sum_span_add_gap]
        omega
    rw [picture, hnone]
    rfl
  by_cases hxy : x < img.width.toNat ∧ y < img.height.toNat
  · have h := hp x y
    rw [hd.pixel x y hxy.1 hxy.2, hd'.pixel x y (hw ▸ hxy.1) (hh ▸ hxy.2)] at h
    exact Option.some.inj h
  · rw [hout hd hn hxy, hout hd' hn' (hw ▸ hh ▸ hxy)]

/-- Equal previews show equal cell sizes and equal first examples: drawing is injective. -/
theorem draw_injective (c₁ c₂ : UInt32) (p₁ p₂ : Puzzle) (img₁ img₂ : Image)
    (h₁ : draw (CellSize.ofRequest c₁) p₁ = .ok img₁)
    (h₂ : draw (CellSize.ofRequest c₂) p₂ = .ok img₂)
    (hw : img₁.width = img₂.width) (hh : img₁.height = img₂.height)
    (hp : ∀ x y, img₁.pixel? x y = img₂.pixel? x y) :
    max c₁.toNat 1 = max c₂.toNat 1 ∧ ∃ train test,
      p₁.train.head? = some train ∧ p₂.train.head? = some train ∧
      p₁.test.head? = some test ∧ p₂.test.head? = some test := by
  obtain ⟨train₁, test₁, htr₁, hte₁, hd₁⟩ := draw_depicts h₁
  obtain ⟨train₂, test₂, htr₂, hte₂, hd₂⟩ := draw_depicts h₂
  rw [CellSize.toNat_ofRequest] at hd₁ hd₂
  have hpic := Depicts.picture_eq hd₁ hd₂ (by simp [panels]) (by simp [panels]) hw hh hp
  have hl : (panels train₁ test₁).length = (panels train₂ test₂).length := rfl
  obtain ⟨hs, hgrids⟩ := picture_injective (Nat.le_max_right _ 1) (Nat.le_max_right _ 1)
    (by simp [panels]) hl hd₁.colored hd₂.colored hpic
  simp only [panels, List.cons.injEq, and_true] at hgrids
  obtain ⟨hti, hto, hei, heo⟩ := hgrids
  obtain ⟨input, output⟩ := train₁
  obtain ⟨input', output'⟩ := test₁
  cases hti
  cases hto
  cases hei
  cases heo
  exact ⟨hs, train₂, test₂, htr₁, htr₂, hte₁, hte₂⟩

theorem draw_injective_zero_one : ∃ img,
    draw (CellSize.ofRequest 0) unevenPuzzle = .ok img ∧
    draw (CellSize.ofRequest 1) ⟨unevenPuzzle.train ++ unevenPuzzle.test, unevenPuzzle.test⟩ =
      .ok img ∧
    max (0 : UInt32).toNat 1 = max (1 : UInt32).toNat 1 ∧ ∃ train test,
      unevenPuzzle.train.head? = some train ∧
      (unevenPuzzle.train ++ unevenPuzzle.test).head? = some train ∧
      unevenPuzzle.test.head? = some test ∧ unevenPuzzle.test.head? = some test := by
  obtain ⟨img, h⟩ : ∃ img, draw (CellSize.ofRequest 0) unevenPuzzle = .ok img := ⟨_, rfl⟩
  have h' : draw (CellSize.ofRequest 1)
      ⟨unevenPuzzle.train ++ unevenPuzzle.test, unevenPuzzle.test⟩ = .ok img := h
  exact ⟨img, h, h', draw_injective 0 1 _ _ img img h h' rfl rfl fun _ _ => rfl⟩

end Preview
end GridPuzzles
