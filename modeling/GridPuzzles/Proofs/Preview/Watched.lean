import GridPuzzles.Proofs.Preview.Drawable

/-! Drawing with every step watched. Sums, products and narrowed numbers are compared with their
unbounded values, and pixels are set one at a time, each only if it lies inside the image. -/
namespace GridPuzzles
namespace Preview

/-! Single pixels. -/

namespace Image

def set (img : Image) (x y : UInt32) (c : Color) : Image where
  width := img.width
  height := img.height
  pixels := img.pixels.setIfInBounds (y.toNat * img.width.toNat + x.toNat) c
  size_eq := by simpa using img.size_eq

theorem ext_pixel {img img' : Image} (hw : img.width = img'.width)
    (hh : img.height = img'.height) (hp : ∀ x y, img.pixel? x y = img'.pixel? x y) :
    img = img' := by
  obtain ⟨w, h, pixels, hsize⟩ := img
  obtain ⟨w', h', pixels', hsize'⟩ := img'
  cases hw
  cases hh
  have hpixels : pixels = pixels' := by
    apply Array.ext_getElem?
    intro i
    by_cases hw : 0 < w.toNat
    · have hi := hp (i % w.toNat) (i / w.toNat)
      simpa only [pixel?, Nat.mod_lt i hw, if_true, Nat.div_add_mod'] using hi
    · have h0 : w.toNat = 0 := by omega
      rw [h0, Nat.zero_mul] at hsize hsize'
      rw [Array.getElem?_eq_none (by omega), Array.getElem?_eq_none (by omega)]
  cases hpixels
  rfl

end Image

theorem Stroke.covers_iff {s : Stroke} {x y : Nat} :
    s.covers x y ↔ (s.left.toNat ≤ x ∧ x < s.right.toNat) ∧
      s.top.toNat ≤ y ∧ y < s.bottom.toNat := by
  simp only [covers, Bool.and_eq_true, decide_eq_true_eq]

def dot (x y : UInt32) (c : Color) : Stroke := ⟨x, x + 1, y, y + 1, c⟩

@[simp] theorem color_dot (x y : UInt32) (c : Color) : (dot x y c).color = c := rfl

theorem covers_dot {x y : UInt32} (c : Color) (hx : x.toNat + 1 < 2 ^ 32)
    (hy : y.toNat + 1 < 2 ^ 32) (px py : Nat) :
    (dot x y c).covers px py ↔ px = x.toNat ∧ py = y.toNat := by
  have hright : (x + 1).toNat = x.toNat + 1 := toNat_add_of_lt hx
  have hbottom : (y + 1).toNat = y.toNat + 1 := toNat_add_of_lt hy
  rw [Stroke.covers_iff]
  simp only [dot, hright, hbottom]
  omega

theorem Image.set_eq_paint {img : Image} {x y : UInt32} (c : Color)
    (hx : x.toNat < img.width.toNat) (hy : y.toNat < img.height.toNat) :
    img.set x y c = img.paint (dot x y c) := by
  refine ext_pixel rfl rfl fun px py => ?_
  have hwidth := img.width.toNat_lt
  have hheight := img.height.toNat_lt
  rw [pixel?_paint]
  by_cases hpx : px < img.width.toNat
  · have hrun : (y.toNat * img.width.toNat + x.toNat ≤ py * img.width.toNat + px ∧
        py * img.width.toNat + px < y.toNat * img.width.toNat + x.toNat + 1) ↔
          py = y.toNat ∧ x.toNat ≤ px ∧ px < x.toNat + 1 := run_index_iff (by omega) hpx
    have hindex : y.toNat * img.width.toNat + x.toNat = py * img.width.toNat + px ↔
        (dot x y c).covers px py := by
      rw [covers_dot c (by omega) (by omega)]
      omega
    simp only [pixel?, set, hpx, if_true, Array.getElem?_setIfInBounds]
    by_cases hcov : (dot x y c).covers px py
    · rw [if_pos (hindex.mpr hcov), ← hindex.mpr hcov]
      by_cases hb : y.toNat * img.width.toNat + x.toNat < img.pixels.size <;> simp [hb, hcov]
    · simp [mt hindex.mp hcov, hcov]
  · simp [pixel?, set, hpx]

theorem Image.paintAll_eq_paint {s : Stroke} {strokes : List Stroke}
    (hcolor : ∀ s' ∈ strokes, s'.color = s.color)
    (hcovers : ∀ x y, (∃ s' ∈ strokes, s'.covers x y) ↔ s.covers x y) (img : Image) :
    img.paintAll strokes = img.paint s := by
  refine ext_pixel (by simp) (by simp) fun x y => ?_
  rw [pixel?_paintAll, pixel?_paint]
  congr 1
  funext old
  by_cases h : s.covers x y
  · rw [if_pos h]
    exact shade_of_covered (fun s' hs' _ => hcolor s' hs') ((hcovers x y).mpr h) old
  · rw [if_neg h]
    exact shade_of_uncovered (fun s' hs' hcov => h ((hcovers x y).mp ⟨s', hs', hcov⟩)) old

/-! Watched steps. -/

namespace Watched

/-- What can stop watched drawing. -/
inductive Halt where
  | wrapped
  | outside
  | refused (e : DrawError)
deriving DecidableEq, Repr

/-- The word, if it is the number. -/
def faithful (w : UInt32) (n : Nat) : Except Halt UInt32 :=
  if w.toNat = n then .ok w else .error .wrapped

def add (a b : UInt32) : Except Halt UInt32 := faithful (a + b) (a.toNat + b.toNat)

def mul (a b : UInt32) : Except Halt UInt32 := faithful (a * b) (a.toNat * b.toNat)

def narrow (n : Nat) : Except Halt UInt32 := faithful (UInt32.ofNat n) n

def put (img : Image) (x y : UInt32) (c : Color) : Except Halt Image :=
  if x.toNat < img.width.toNat ∧ y.toNat < img.height.toNat then .ok (img.set x y c)
  else .error .outside

def drawFrame (x : UInt32) (e : Extent UInt32) (img : Image) : Except Halt Image :=
  (0...e.height).toList.foldlM (fun img y =>
    (0...e.width).toList.foldlM (fun img dx => do
      put img (← add x dx) y Color.gridLine) img) img

def leftOf (stride x : UInt32) (col : Nat) : Except Halt UInt32 := do
  add (← add x (← mul (← narrow col) stride)) 1

def topOf (stride : UInt32) (row : Nat) : Except Halt UInt32 := do
  add (← mul (← narrow row) stride) 1

def drawCell (size : CellSize) (stride x : UInt32) (img : Image) (c : Cell) :
    Except Halt Image :=
  match Color.ofCell? c.value with
  | none => .error (.refused (.noColor c.value))
  | some color => do
    let left ← leftOf stride x c.col
    let top ← topOf stride c.row
    let bottom ← add top size.pixels
    (top...bottom).toList.foldlM (fun img y => do
      let right ← add left size.pixels
      (left...right).toList.foldlM (fun img x => put img x y color) img) img

def drawPanel (size : CellSize) (x : UInt32) (img : Image) (g : Grid) (e : Extent UInt32) :
    Except Halt Image := do
  let stride ← add size.pixels 1
  let img ← drawFrame x e img
  g.cells.foldlM (drawCell size stride x) img

/-- Panels placed from column `x` on. The column after the last panel is computed as well. -/
def drawFrom (size : CellSize) : (x : UInt32) → List (Grid × Extent UInt32) → Image →
    Except Halt Image
  | _, [], img => .ok img
  | x, (g, e) :: rest, img => do
    let img ← drawPanel size x img g e
    let next ← add x (← add e.width size.pixels)
    drawFrom size next rest img

def drawPanels (size : CellSize) (grids : List Grid) : Except Halt Image :=
  match layout? size (grids.map shape) with
  | none => .error (.refused (.tooLarge size.pixels))
  | some l =>
    drawFrom size 0 (grids.zip l.panels)
      (Image.blank l.image.width l.image.height Color.background)

/-- The preview of a task, drawn with every step watched. -/
def draw (size : CellSize) (p : Puzzle) : Except Halt Image :=
  match p.train, p.test with
  | [], _ => .error (.refused (.noExample .train))
  | _ :: _, [] => .error (.refused (.noExample .test))
  | train :: _, test :: _ => drawPanels size (panels train test)

/-! Single steps. -/

theorem faithful_eq_ok {w : UInt32} {n : Nat} (h : w.toNat = n) : faithful w n = .ok w := if_pos h

theorem add_eq_ok {a b : UInt32} (h : a.toNat + b.toNat < 2 ^ 32) : add a b = .ok (a + b) :=
  faithful_eq_ok (toNat_add_of_lt h)

theorem mul_eq_ok {a b : UInt32} (h : a.toNat * b.toNat < 2 ^ 32) : mul a b = .ok (a * b) :=
  faithful_eq_ok (by rw [UInt32.toNat_mul]; exact Nat.mod_eq_of_lt h)

theorem narrow_eq_ok {n : Nat} (h : n < 2 ^ 32) : narrow n = .ok (UInt32.ofNat n) :=
  faithful_eq_ok (UInt32.toNat_ofNat_of_lt' h)

theorem put_eq_ok {img : Image} {x y : UInt32} (c : Color) (hx : x.toNat < img.width.toNat)
    (hy : y.toNat < img.height.toNat) : put img x y c = .ok (img.paintAll [dot x y c]) := by
  rw [put, if_pos ⟨hx, hy⟩, Image.set_eq_paint c hx hy]
  rfl

theorem mem_words {a b x : UInt32} :
    x ∈ (a...b).toList ↔ a.toNat ≤ x.toNat ∧ x.toNat < b.toNat := by
  rw [Std.Rco.mem_toList_iff_mem, Std.Rco.mem_iff, UInt32.le_iff_toNat_le, UInt32.lt_iff_toNat_lt]

theorem exists_mem_words {a b : UInt32} {n : Nat} :
    (∃ x ∈ (a...b).toList, x.toNat = n) ↔ a.toNat ≤ n ∧ n < b.toNat := by
  constructor
  · rintro ⟨x, hx, rfl⟩
    exact mem_words.mp hx
  · intro h
    have hfit : (UInt32.ofNat n).toNat = n :=
      UInt32.toNat_ofNat_of_lt' (Nat.lt_trans h.2 b.toNat_lt)
    refine ⟨UInt32.ofNat n, mem_words.mpr ?_, hfit⟩
    rwa [hfit]

theorem toNat_shifted {x w dx : UInt32} (h : x.toNat + w.toNat < 2 ^ 32)
    (hdx : dx ∈ (0...w).toList) : (x + dx).toNat = x.toNat + dx.toNat := by
  have hdx := mem_words.mp hdx
  exact toNat_add_of_lt (by omega)

theorem exists_mem_shifted {x w : UInt32} {n : Nat} (h : x.toNat + w.toNat < 2 ^ 32) :
    (∃ px ∈ (0...w).toList.map (x + ·), px.toNat = n) ↔
      x.toNat ≤ n ∧ n < x.toNat + w.toNat := by
  constructor
  · rintro ⟨px, hpx, rfl⟩
    obtain ⟨dx, hdx, rfl⟩ := List.mem_map.mp hpx
    rw [toNat_shifted h hdx]
    have hdx := mem_words.mp hdx
    omega
  · rintro ⟨hl, hr⟩
    obtain ⟨dx, hdx, hn⟩ := exists_mem_words.mpr
      (⟨Nat.zero_le _, by omega⟩ : (0 : UInt32).toNat ≤ n - x.toNat ∧ n - x.toNat < w.toNat)
    refine ⟨x + dx, List.mem_map_of_mem hdx, ?_⟩
    rw [toNat_shifted h hdx, hn]
    omega

theorem foldlM_paintAll {α : Type} {f : Image → α → Except Halt Image} {g : α → List Stroke}
    {width height : UInt32} {as : List α}
    (hf : ∀ a ∈ as, ∀ img : Image, img.width = width → img.height = height →
      f img a = .ok (img.paintAll (g a)))
    {img : Image} (hw : img.width = width) (hh : img.height = height) :
    as.foldlM f img = .ok (img.paintAll (as.flatMap g)) := by
  induction as generalizing img with
  | nil => rfl
  | cons a as ih =>
    obtain ⟨hfirst, hrest⟩ := List.forall_mem_cons.mp hf
    rw [List.foldlM_cons, hfirst img hw hh, ok_bind, List.flatMap_cons,
      ih hrest (by rw [Image.width_paintAll, hw]) (by rw [Image.height_paintAll, hh])]
    simp only [Image.paintAll, List.foldl_append]

/-- Dots in every row and in every column of a stroke paint like the stroke. -/
theorem paintAll_dots {s : Stroke} {columns : List UInt32}
    (hcolumns : ∀ n, (∃ x ∈ columns, x.toNat = n) ↔ s.left.toNat ≤ n ∧ n < s.right.toNat)
    (img : Image) :
    img.paintAll ((s.top...s.bottom).toList.flatMap fun y => columns.map fun x => dot x y s.color) =
      img.paint s := by
  have hright := s.right.toNat_lt
  have hbottom := s.bottom.toNat_lt
  have hcovers (x y : UInt32) (hx : x ∈ columns) (hy : y ∈ (s.top...s.bottom).toList)
      (px py : Nat) :
      (dot x y s.color).covers px py ↔ px = x.toNat ∧ py = y.toNat := by
    have hx := (hcolumns x.toNat).mp ⟨x, hx, rfl⟩
    have hy := mem_words.mp hy
    exact covers_dot s.color (by omega) (by omega) px py
  apply Image.paintAll_eq_paint
  · intro d hd
    obtain ⟨y, -, hd⟩ := List.mem_flatMap.mp hd
    obtain ⟨x, -, rfl⟩ := List.mem_map.mp hd
    rfl
  · intro px py
    rw [s.covers_iff, ← hcolumns]
    constructor
    · rintro ⟨d, hd, hcov⟩
      obtain ⟨y, hy, hd⟩ := List.mem_flatMap.mp hd
      obtain ⟨x, hx, rfl⟩ := List.mem_map.mp hd
      obtain ⟨rfl, rfl⟩ := (hcovers x y hx hy px py).mp hcov
      exact ⟨⟨x, hx, rfl⟩, mem_words.mp hy⟩
    · rintro ⟨⟨x, hx, rfl⟩, hpy⟩
      obtain ⟨y, hy, rfl⟩ := exists_mem_words.mpr hpy
      exact ⟨dot x y s.color, List.mem_flatMap.mpr ⟨y, hy, List.mem_map_of_mem hx⟩,
        (hcovers x y hx hy _ _).mpr ⟨rfl, rfl⟩⟩

theorem foldlM_rows {s : Stroke} {img : Image} (columns : List UInt32)
    {row : Image → UInt32 → Except Halt Image}
    (hcolumns : ∀ n, (∃ x ∈ columns, x.toNat = n) ↔ s.left.toNat ≤ n ∧ n < s.right.toNat)
    (hrow : ∀ y ∈ (s.top...s.bottom).toList, ∀ img' : Image,
      img'.width = img.width → img'.height = img.height →
        row img' y = .ok (img'.paintAll (columns.map fun x => dot x y s.color))) :
    (s.top...s.bottom).toList.foldlM row img = .ok (img.paint s) := by
  rw [foldlM_paintAll hrow rfl rfl, paintAll_dots hcolumns]

theorem foldlM_columns {α : Type} {img : Image} {as : List α} {column : α → UInt32} {y : UInt32}
    {c : Color} {step : Image → α → Except Halt Image}
    (hstep : ∀ a ∈ as, ∀ img', step img' a = put img' (column a) y c)
    (hx : ∀ a ∈ as, (column a).toNat < img.width.toNat) (hy : y.toNat < img.height.toNat) :
    as.foldlM step img = .ok (img.paintAll ((as.map column).map fun x => dot x y c)) := by
  have hput (a : α) (ha : a ∈ as) (img' : Image) (hw : img'.width = img.width)
      (hh : img'.height = img.height) :
      step img' a = .ok (img'.paintAll [dot (column a) y c]) := by
    rw [hstep a ha, put_eq_ok c (hw ▸ hx a ha) (hh ▸ hy)]
  rw [foldlM_paintAll hput rfl rfl, List.map_map, List.map_eq_flatMap]
  rfl

/-! Panels. -/

variable {size : CellSize} {x : UInt32} {e : Extent UInt32} {img : Image} {g : Grid} {c : Cell}

theorem drawFrame_eq_ok (hw : x.toNat + e.width.toNat ≤ img.width.toNat)
    (hh : e.height.toNat ≤ img.height.toNat) :
    drawFrame x e img = .ok (img.paint (frame x e)) := by
  have hfit : x.toNat + e.width.toNat < 2 ^ 32 := Nat.lt_of_le_of_lt hw img.width.toNat_lt
  have hright : (frame x e).right.toNat = x.toNat + e.width.toNat := toNat_add_of_lt hfit
  apply foldlM_rows (s := frame x e) ((0...e.width).toList.map (x + ·))
  · intro n
    rw [hright]
    exact exists_mem_shifted hfit
  · intro y hy img' hw' hh'
    have hy : y.toNat < e.height.toNat := (mem_words.mp hy).2
    apply foldlM_columns
    · intro dx hdx img''
      have hdx := mem_words.mp hdx
      rw [add_eq_ok (by omega)]
      rfl
    · intro dx hdx
      rw [toNat_shifted hfit hdx, hw']
      have hdx := mem_words.mp hdx
      omega
    · rw [hh']
      omega

theorem mul_stride_eq_ok (size : CellSize) (n : Nat)
    (h : n * (size.pixels.toNat + 1) + 1 + size.pixels.toNat < 2 ^ 32) :
    narrow n = .ok (UInt32.ofNat n) ∧
      mul (UInt32.ofNat n) (size.pixels + 1) = .ok (UInt32.ofNat n * (size.pixels + 1)) ∧
      (UInt32.ofNat n * (size.pixels + 1)).toNat = n * (size.pixels.toNat + 1) := by
  have hn : n ≤ n * (size.pixels.toNat + 1) := Nat.le_mul_of_pos_right n (Nat.succ_pos _)
  have hcount : (UInt32.ofNat n).toNat = n := UInt32.toNat_ofNat_of_lt' (by
    simp only [UInt32.size]
    omega)
  have hstride : (size.pixels + 1).toNat = size.pixels.toNat + 1 :=
    toNat_add_of_lt (by rw [UInt32.toNat_one]; omega)
  refine ⟨narrow_eq_ok (by omega), mul_eq_ok ?_, ?_⟩
  · rw [hcount, hstride]
    omega
  · rw [UInt32.toNat_mul, hcount, hstride]
    exact Nat.mod_eq_of_lt (by omega)

theorem leftOf_eq_ok (size : CellSize) (x : UInt32) (n : Nat)
    (h : x.toNat + n * (size.pixels.toNat + 1) + 1 + size.pixels.toNat < 2 ^ 32) :
    leftOf (size.pixels + 1) x n = .ok (x + UInt32.ofNat n * (size.pixels + 1) + 1) := by
  obtain ⟨hnarrow, hmul, hoffset⟩ := mul_stride_eq_ok size n (by omega)
  have hadd : (x + UInt32.ofNat n * (size.pixels + 1)).toNat =
      x.toNat + n * (size.pixels.toNat + 1) := by
    rw [toNat_add_of_lt (by omega), hoffset]
  rw [leftOf, hnarrow, ok_bind, hmul, ok_bind, add_eq_ok (by omega), ok_bind]
  exact add_eq_ok (by rw [hadd, UInt32.toNat_one]; omega)

theorem topOf_eq_ok (size : CellSize) (n : Nat)
    (h : n * (size.pixels.toNat + 1) + 1 + size.pixels.toNat < 2 ^ 32) :
    topOf (size.pixels + 1) n = .ok (UInt32.ofNat n * (size.pixels + 1) + 1) := by
  obtain ⟨hnarrow, hmul, hoffset⟩ := mul_stride_eq_ok size n h
  rw [topOf, hnarrow, ok_bind, hmul, ok_bind]
  exact add_eq_ok (by rw [hoffset, UInt32.toNat_one]; omega)

theorem foldlM_stroke {s : Stroke} {row : Image → UInt32 → Except Halt Image}
    (hright : s.right.toNat ≤ img.width.toNat) (hbottom : s.bottom.toNat ≤ img.height.toNat)
    (hrow : ∀ img' y, row img' y =
      (s.left...s.right).toList.foldlM (fun img x => put img x y s.color) img') :
    (s.top...s.bottom).toList.foldlM row img = .ok (img.paint s) := by
  refine foldlM_rows _ (fun _ => exists_mem_words) fun y hy img' hw' hh' => ?_
  have hy := mem_words.mp hy
  have hx (px : UInt32) (hpx : px ∈ (s.left...s.right).toList) :
      (id px).toNat < img'.width.toNat := by
    have hpx := mem_words.mp hpx
    rw [hw', id]
    omega
  have hcolumns : (s.left...s.right).toList.foldlM (fun img x => put img x y s.color) img' =
      .ok (img'.paintAll (((s.left...s.right).toList.map id).map fun x => dot x y s.color)) :=
    foldlM_columns (fun _ _ _ => rfl) hx (by rw [hh']; omega)
  rw [hrow, hcolumns, List.map_id]

theorem drawCell_eq (hrow : c.row < g.height) (hcol : c.col < g.width)
    (hw : x.toNat + span size.pixels.toNat g.width ≤ img.width.toNat)
    (hh : span size.pixels.toNat g.height ≤ img.height.toNat) :
    drawCell size (size.pixels + 1) x img c =
      ((squareOf size x c).map img.paint).mapError .refused := by
  have hwidth := img.width.toNat_lt
  have hheight := img.height.toNat_lt
  have hcolumn := stride_le_span (s := size.pixels.toNat) hcol
  have hline := stride_le_span (s := size.pixels.toNat) hrow
  rw [drawCell, squareOf]
  cases Color.ofCell? c.value with
  | none => rfl
  | some color =>
    obtain ⟨hleft, hright⟩ := toNat_offset size x c.col (by omega)
    obtain ⟨htop, hbottom⟩ := toNat_offset size 0 c.row (by rw [UInt32.toNat_zero]; omega)
    simp only [UInt32.zero_add, UInt32.toNat_zero, Nat.zero_add] at htop hbottom
    simp only [leftOf_eq_ok size x c.col (by omega), topOf_eq_ok size c.row (by omega), ok_bind]
    rw [add_eq_ok (by omega), ok_bind]
    apply foldlM_stroke (s := square size x c color)
    · simp only [square]
      omega
    · simp only [square]
      omega
    · intro img' y
      rw [add_eq_ok (by omega)]
      rfl

theorem foldlM_drawCell {cells : List Cell}
    (hcells : ∀ c ∈ cells, c.row < g.height ∧ c.col < g.width)
    (hw : x.toNat + span size.pixels.toNat g.width ≤ img.width.toNat)
    (hh : span size.pixels.toNat g.height ≤ img.height.toNat) :
    cells.foldlM (drawCell size (size.pixels + 1) x) img =
      ((cells.mapM (squareOf size x)).map img.paintAll).mapError .refused := by
  induction cells generalizing img with
  | nil => rfl
  | cons c cells ih =>
    obtain ⟨hrow, hcol⟩ := hcells c (by simp)
    rw [List.foldlM_cons, List.mapM_cons, drawCell_eq hrow hcol hw hh]
    cases squareOf size x c with
    | error e => rfl
    | ok s =>
      have hrest : cells.foldlM (drawCell size (size.pixels + 1) x) (img.paint s) =
          ((cells.mapM (squareOf size x)).map (img.paint s).paintAll).mapError .refused :=
        ih (fun c hc => hcells c (by simp [hc])) hw hh
      refine hrest.trans ?_
      cases cells.mapM (squareOf size x) <;> rfl

theorem drawPanel_eq (he : e.map UInt32.toNat = (shape g).extent size.pixels.toNat)
    (hw : x.toNat + span size.pixels.toNat g.width ≤ img.width.toNat)
    (hh : span size.pixels.toNat g.height ≤ img.height.toNat)
    (hs : size.pixels.toNat + 1 < 2 ^ 32) :
    drawPanel size x img g e =
      ((g.cells.mapM (squareOf size x)).map fun squares =>
        img.paintAll (frame x e :: squares)).mapError .refused := by
  obtain ⟨hew, heh⟩ := Extent.mk.inj he
  simp only [shape] at hew heh
  have hcells (c : Cell) (hc : c ∈ g.cells) : c.row < g.height ∧ c.col < g.width :=
    Grid.value?_isSome_iff.mp (Option.isSome_iff_exists.mpr ⟨_, Grid.mem_cells.mp hc⟩)
  rw [drawPanel, add_eq_ok hs, ok_bind, drawFrame_eq_ok (by omega) (by omega), ok_bind]
  exact foldlM_drawCell hcells hw hh

/-- Panels side by side are drawn without a halt where their widths and the gap after each of
them end at most one gap behind the image. -/
theorem drawFrom_eq {grids : List Grid} {extents : List (Extent UInt32)}
    (he : extents.map (Extent.map UInt32.toNat) =
      grids.map fun g => (shape g).extent size.pixels.toNat)
    (hw : x.toNat + (grids.map fun g => span size.pixels.toNat g.width + size.pixels.toNat).sum ≤
      img.width.toNat + size.pixels.toNat)
    (hh : ∀ g ∈ grids, span size.pixels.toNat g.height ≤ img.height.toNat)
    (hfit : img.width.toNat + size.pixels.toNat < 2 ^ 32) :
    drawFrom size x (grids.zip extents) img =
      ((strokes size x (grids.zip extents)).map img.paintAll).mapError .refused := by
  induction grids generalizing x extents img with
  | nil => rfl
  | cons g grids ih =>
    cases extents with
    | nil => simp at he
    | cons e extents =>
      simp only [List.map_cons, List.cons.injEq] at he
      simp only [List.map_cons, List.sum_cons] at hw
      have hew : e.width.toNat = span size.pixels.toNat g.width := congrArg Extent.width he.1
      have hgap : (e.width + size.pixels).toNat =
          span size.pixels.toNat g.width + size.pixels.toNat := by
        rw [toNat_add_of_lt (by omega), hew]
      have hnext : (x + (e.width + size.pixels)).toNat =
          x.toNat + (span size.pixels.toNat g.width + size.pixels.toNat) := by
        rw [toNat_add_of_lt (by omega), hgap]
      have hpos := span_pos size.pixels.toNat g.width
      rw [List.zip_cons_cons, drawFrom, strokes,
        drawPanel_eq he.1 (by omega) (hh g (by simp)) (by omega)]
      cases g.cells.mapM (squareOf size x) with
      | error e => rfl
      | ok squares =>
        simp only [Except.map, Except.mapError, ok_bind]
        rw [add_eq_ok (by omega), ok_bind, add_eq_ok (by omega), ok_bind, ih he.2
          (by rw [hnext, Image.width_paintAll]; omega)
          (fun g hg => by rw [Image.height_paintAll]; exact hh g (by simp [hg]))
          (by rwa [Image.width_paintAll])]
        cases strokes size (x + (e.width + size.pixels)) (grids.zip extents) with
        | error e => rfl
        | ok others => simp [Except.map, Except.mapError, Image.paintAll]

theorem drawPanels_eq {grids : List Grid} (hn : 2 ≤ grids.length) (hn' : grids.length ≤ 2 ^ 32) :
    drawPanels size grids = (Preview.drawPanels size grids).mapError .refused := by
  rw [drawPanels, Preview.drawPanels]
  cases hl : layout? size (grids.map shape) with
  | none => rfl
  | some l =>
    obtain ⟨hpanels, hwidth, hheight, hfit⟩ := layout?_room hn hn' hl
    let img := Image.blank l.image.width l.image.height Color.background
    have hroom : (0 : UInt32).toNat +
        (grids.map fun g => span size.pixels.toNat g.width + size.pixels.toNat).sum ≤
          img.width.toNat + size.pixels.toNat := by
      rw [UInt32.toNat_zero, Nat.zero_add, hwidth]
      rfl
    have hdraw : drawFrom size 0 (grids.zip l.panels) img =
        ((strokes size 0 (grids.zip l.panels)).map img.paintAll).mapError .refused :=
      drawFrom_eq hpanels hroom hheight hfit
    simp only
    refine hdraw.trans ?_
    cases strokes size 0 (grids.zip l.panels) <;> rfl

/-- No word and no pixel ever stops drawing: every sum, product and narrowed number is what it is
without bounds, also behind the last panel, and every pixel that is set lies inside the image. -/
theorem draw_watched (cellSize : UInt32) (p : Puzzle) :
    draw (.ofRequest cellSize) p =
      (Preview.draw (.ofRequest cellSize) p).mapError Halt.refused := by
  obtain ⟨train, test⟩ := p
  cases train with
  | nil => rfl
  | cons train rest =>
    cases test with
    | nil => rfl
    | cons test rest => exact drawPanels_eq (by simp [panels]) (by simp [panels])

end Watched

end Preview
end GridPuzzles
