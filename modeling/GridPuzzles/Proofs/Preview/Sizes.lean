import GridPuzzles.Preview.Layout
import Mathlib.Algebra.Order.BigOperators.Group.List
import Mathlib.Algebra.Order.Ring.Nat

/-! Preview sizes over the natural numbers. The checked words compute exactly these numbers
wherever they give a result, and they give one exactly if the area is within the limit. -/
namespace GridPuzzles
namespace Preview

theorem guarded_eq_some {W : Type} {value : W → Nat} {size n : Nat} {v w : W}
    (hinj : ∀ a b, value a = value b → a = b) (hlt : ∀ a, value a < size)
    (hv : n < size → value v = n) :
    (if n < size then some v else none) = some w ↔ value w = n := by
  constructor
  · intro h
    by_cases hn : n < size
    · rw [if_pos hn] at h
      cases h
      exact hv hn
    · rw [if_neg hn] at h
      cases h
  · intro h
    have hn : n < size := h ▸ hlt w
    rw [if_pos hn]
    exact congrArg some (hinj _ _ ((hv hn).trans h.symm))

theorem word?_eq_some {n : Nat} {a : UInt64} : word? n = some a ↔ a.toNat = n :=
  guarded_eq_some (fun _ _ => UInt64.toNat_inj.mp) UInt64.toNat_lt
    UInt64.toNat_ofNat_of_lt'

theorem checkedAdd_eq_some {a b c : UInt64} :
    checkedAdd a b = some c ↔ c.toNat = a.toNat + b.toNat :=
  guarded_eq_some (fun _ _ => UInt64.toNat_inj.mp) UInt64.toNat_lt fun h => by
    rw [UInt64.toNat_add]
    exact Nat.mod_eq_of_lt h

theorem checkedMul_eq_some {a b c : UInt64} :
    checkedMul a b = some c ↔ c.toNat = a.toNat * b.toNat :=
  guarded_eq_some (fun _ _ => UInt64.toNat_inj.mp) UInt64.toNat_lt fun h => by
    rw [UInt64.toNat_mul]
    exact Nat.mod_eq_of_lt h

theorem narrow?_eq_some {a : UInt64} {b : UInt32} : narrow? a = some b ↔ b.toNat = a.toNat :=
  guarded_eq_some (fun _ _ => UInt32.toNat_inj.mp) UInt32.toNat_lt fun h => by
    rw [UInt64.toNat_toUInt32]
    exact Nat.mod_eq_of_lt h

/-- Pixels taken by `n` cells of edge length `s` and the lines around them. -/
def span (s n : Nat) : Nat := n * (s + 1) + 1

theorem span_pos (s n : Nat) : 0 < span s n := Nat.succ_pos _

theorem span_inj {s m n : Nat} (h : span s m = span s n) : m = n :=
  Nat.eq_of_mul_eq_mul_right (Nat.succ_pos s) (Nat.succ.inj h)

theorem span?_eq_some {size : CellSize} {n : Nat} {a : UInt64} :
    span? size n = some a ↔ a.toNat = span size.pixels.toNat n := by
  have hs : (size.pixels.toUInt64 + 1).toNat = size.pixels.toNat + 1 := by
    have hp := size.pixels.toNat_lt
    rw [UInt64.toNat_add, UInt32.toNat_toUInt64]
    exact Nat.mod_eq_of_lt (by simp only [UInt64.toNat_one]; omega)
  simp only [span?, bind, Option.bind_eq_some_iff, word?_eq_some, checkedMul_eq_some,
    checkedAdd_eq_some, hs, UInt64.toNat_one, span]
  constructor
  · rintro ⟨w, rfl, p, hp, ha⟩
    rw [ha, hp]
  · intro ha
    have hlt := a.toNat_lt
    have hn : n ≤ n * (size.pixels.toNat + 1) := Nat.le_mul_of_pos_right n (Nat.succ_pos _)
    have hfit (k : Nat) (hk : k ≤ n * (size.pixels.toNat + 1)) : (UInt64.ofNat k).toNat = k :=
      UInt64.toNat_ofNat_of_lt' (by simp only [UInt64.size]; omega)
    refine ⟨UInt64.ofNat n, hfit n hn, UInt64.ofNat (n * (size.pixels.toNat + 1)), ?_, ?_⟩
    · rw [hfit _ (Nat.le_refl _), hfit n hn]
    · rw [hfit _ (Nat.le_refl _)]
      exact ha

def Extent.map {V W : Type} (f : V → W) (e : Extent V) : Extent W := ⟨f e.width, f e.height⟩

def Shape.extent (s : Nat) (shape : Shape) : Extent Nat := ⟨span s shape.cols, span s shape.rows⟩

theorem panelExtent?_eq_some {size : CellSize} {shape : Shape} {e : Extent UInt64} :
    panelExtent? size shape = some e ↔
      e.map UInt64.toNat = shape.extent size.pixels.toNat := by
  obtain ⟨w, h⟩ := e
  simp only [panelExtent?, bind, Option.bind_eq_some_iff, span?_eq_some, pure, Option.some.injEq,
    Extent.mk.injEq, Extent.map, Shape.extent]
  constructor
  · rintro ⟨w', hw, h', hh, rfl, rfl⟩
    exact ⟨hw, hh⟩
  · rintro ⟨hw, hh⟩
    exact ⟨w, hw, h, hh, rfl, rfl⟩

theorem narrowExtent?_eq_some {e : Extent UInt64} {f : Extent UInt32} :
    narrowExtent? e = some f ↔ f.map UInt32.toNat = e.map UInt64.toNat := by
  obtain ⟨w, h⟩ := f
  simp only [narrowExtent?, bind, Option.bind_eq_some_iff, narrow?_eq_some, pure,
    Option.some.injEq, Extent.mk.injEq, Extent.map]
  constructor
  · rintro ⟨w', hw, h', hh, rfl, rfl⟩
    exact ⟨hw, hh⟩
  · rintro ⟨hw, hh⟩
    exact ⟨w, hw, h, hh, rfl, rfl⟩

theorem mapM_eq_some {A B C : Type} {f : A → Option B} {g : B → C} {h : A → C}
    (hf : ∀ a b, f a = some b ↔ g b = h a) (as : List A) (bs : List B) :
    as.mapM f = some bs ↔ bs.map g = as.map h := by
  induction as generalizing bs with
  | nil => cases bs <;> simp
  | cons a as ih =>
    simp only [List.mapM_cons, bind, Option.bind_eq_some_iff, pure, Option.some.injEq]
    constructor
    · rintro ⟨b, hb, cs, hcs, rfl⟩
      simp [(hf a b).mp hb, (ih cs).mp hcs]
    · intro hb
      cases bs with
      | nil => simp at hb
      | cons b bs =>
        simp only [List.map_cons, List.cons.injEq] at hb
        exact ⟨b, (hf a b).mpr hb.1, bs, (ih bs).mpr hb.2, rfl⟩

theorem mapM_panelExtent?_eq_some {size : CellSize} {shapes : List Shape}
    {es : List (Extent UInt64)} :
    shapes.mapM (panelExtent? size) = some es ↔
      es.map (Extent.map UInt64.toNat) = shapes.map (Shape.extent size.pixels.toNat) :=
  mapM_eq_some (fun _ _ => panelExtent?_eq_some) shapes es

theorem mapM_narrowExtent?_eq_some {es : List (Extent UInt64)} {fs : List (Extent UInt32)} :
    es.mapM narrowExtent? = some fs ↔
      fs.map (Extent.map UInt32.toNat) = es.map (Extent.map UInt64.toNat) :=
  mapM_eq_some (fun _ _ => narrowExtent?_eq_some) es fs

theorem foldlM_width_eq_some (es : List (Extent UInt64)) (a w : UInt64) :
    es.foldlM (fun acc e => checkedAdd acc e.width) a = some w ↔
      w.toNat = a.toNat + (es.map fun e => e.width.toNat).sum := by
  induction es generalizing a with
  | nil => simp [← UInt64.toNat_inj, eq_comm]
  | cons e es ih =>
    simp only [List.foldlM_cons, bind, Option.bind_eq_some_iff, checkedAdd_eq_some, ih,
      List.map_cons, List.sum_cons]
    constructor
    · rintro ⟨b, hb, hw⟩
      omega
    · intro hw
      have hlt := w.toNat_lt
      have hb : (UInt64.ofNat (a.toNat + e.width.toNat)).toNat = a.toNat + e.width.toNat :=
        UInt64.toNat_ofNat_of_lt' (by simp only [UInt64.size]; omega)
      exact ⟨_, hb, by omega⟩

theorem toNat_max (a b : UInt64) : (max a b).toNat = max a.toNat b.toNat := by
  change (if a ≤ b then b else a).toNat = _
  by_cases h : a ≤ b
  · rw [if_pos h, Nat.max_eq_right (UInt64.le_iff_toNat_le.mp h)]
  · have hn : ¬ a.toNat ≤ b.toNat := fun hab => h (UInt64.le_iff_toNat_le.mpr hab)
    rw [if_neg h, Nat.max_eq_left (by omega)]

theorem toNat_tallest (es : List (Extent UInt64)) (h : ∀ e ∈ es, 0 < e.height.toNat) :
    (tallest es).toNat = (es.map fun e => e.height.toNat).foldr max 1 := by
  induction es with
  | nil => rfl
  | cons e es ih =>
    cases es with
    | nil =>
      have he := h e (by simp)
      simp only [tallest, List.map_cons, List.map_nil, List.foldr_cons, List.foldr_nil]
      omega
    | cons e' es =>
      have ht := ih fun e he => h e (by simp [he])
      rw [tallest, List.map_cons, List.foldr_cons, ← ht, toNat_max]
      exact fun he => by cases he

def fullWidth (s : Nat) (shapes : List Shape) : Nat :=
  (shapes.map fun shape => span s shape.cols).sum + s * (shapes.length - 1)

def fullHeight (s : Nat) (shapes : List Shape) : Nat :=
  (shapes.map fun shape => span s shape.rows).foldr max 1

theorem fullHeight_pos (s : Nat) (shapes : List Shape) : 0 < fullHeight s shapes := by
  induction shapes with
  | nil => exact Nat.one_pos
  | cons shape shapes ih =>
    rw [fullHeight, List.map_cons, List.foldr_cons]
    exact Nat.lt_of_lt_of_le (span_pos s shape.rows) (Nat.le_max_left _ _)

theorem span_le_fullWidth {s : Nat} {shapes : List Shape} {shape : Shape} (h : shape ∈ shapes) :
    span s shape.cols ≤ fullWidth s shapes := by
  have hmem : span s shape.cols ∈ shapes.map fun shape => span s shape.cols :=
    List.mem_map_of_mem h
  exact Nat.le_trans (List.le_sum_of_mem hmem) (Nat.le_add_right _ _)

theorem span_le_fullHeight {s : Nat} {shapes : List Shape} {shape : Shape} (h : shape ∈ shapes) :
    span s shape.rows ≤ fullHeight s shapes := by
  induction shapes with
  | nil => cases h
  | cons first shapes ih =>
    rw [fullHeight, List.map_cons, List.foldr_cons]
    rcases List.mem_cons.mp h with rfl | h
    · exact Nat.le_max_left _ _
    · exact Nat.le_trans (ih h) (Nat.le_max_right _ _)

theorem sides_le_area {s m : Nat} {shapes : List Shape} (hm : 0 < m)
    (h : fullWidth s shapes * fullHeight s shapes ≤ m) :
    fullWidth s shapes ≤ m ∧ fullHeight s shapes ≤ m := by
  refine ⟨Nat.le_trans (Nat.le_mul_of_pos_right _ (fullHeight_pos s shapes)) h, ?_⟩
  cases shapes with
  | nil => exact hm
  | cons first shapes =>
    have hwidth : 0 < fullWidth s (first :: shapes) :=
      Nat.lt_of_lt_of_le (span_pos s first.cols) (span_le_fullWidth (by simp))
    exact Nat.le_trans (Nat.le_mul_of_pos_left _ hwidth) h

theorem panels_widths {s : Nat} {shapes : List Shape} {es : List (Extent UInt64)}
    (h : es.map (Extent.map UInt64.toNat) = shapes.map (Shape.extent s)) :
    (es.map fun e => e.width.toNat) = shapes.map fun shape => span s shape.cols := by
  have hw := congrArg (List.map Extent.width) h
  simpa only [List.map_map, Function.comp_def, Extent.map, Shape.extent] using hw

theorem toNat_tallest_panels {s : Nat} {shapes : List Shape} {es : List (Extent UInt64)}
    (h : es.map (Extent.map UInt64.toNat) = shapes.map (Shape.extent s)) :
    (tallest es).toNat = fullHeight s shapes := by
  have hh := congrArg (List.map Extent.height) h
  simp only [List.map_map, Function.comp_def, Extent.map, Shape.extent] at hh
  rw [toNat_tallest, hh, fullHeight]
  intro e he
  have hm : e.height.toNat ∈ es.map fun e => e.height.toNat := List.mem_map_of_mem he
  rw [hh] at hm
  obtain ⟨shape, -, hs⟩ := List.mem_map.mp hm
  exact hs ▸ span_pos s shape.rows

theorem toNat_gaps {a : UInt32} {n : Nat} (hn : n ≤ 2 ^ 32) :
    (a.toUInt64 * UInt64.ofNat (n - 1)).toNat = a.toNat * (n - 1) := by
  have ha := a.toNat_lt
  have hc : (UInt64.ofNat (n - 1)).toNat = n - 1 :=
    UInt64.toNat_ofNat_of_lt' (by simp only [UInt64.size]; omega)
  rw [UInt64.toNat_mul, UInt32.toNat_toUInt64, hc]
  apply Nat.mod_eq_of_lt
  calc a.toNat * (n - 1) ≤ a.toNat * 2 ^ 32 := Nat.mul_le_mul_left _ (by omega)
    _ < 2 ^ 64 := by omega

/-- A layout is given exactly if the area of the image is within the limit, and all its sizes
are the unbounded ones. The gaps are counted in unchecked words, so there must not be too many
panels. -/
theorem layout?_eq_some {size : CellSize} {shapes : List Shape} {l : Layout}
    (hn : shapes.length ≤ 2 ^ 32) :
    layout? size shapes = some l ↔
      fullWidth size.pixels.toNat shapes * fullHeight size.pixels.toNat shapes ≤ 2 ^ 26 ∧
      l.panels.map (Extent.map UInt32.toNat) = shapes.map (Shape.extent size.pixels.toNat) ∧
      l.image.map UInt32.toNat =
        ⟨fullWidth size.pixels.toNat shapes, fullHeight size.pixels.toNat shapes⟩ := by
  have hlimit (a : UInt64) : a ≤ pixelLimit ↔ a.toNat ≤ 2 ^ 26 := UInt64.le_iff_toNat_le
  simp only [layout?, bind, Option.bind_eq_some_iff, mapM_panelExtent?_eq_some,
    foldlM_width_eq_some, toNat_gaps hn, checkedMul_eq_some]
  constructor
  · rintro ⟨es, hes, w, hw, a, ha, hl⟩
    rw [panels_widths hes, Nat.add_comm] at hw
    rw [toNat_tallest_panels hes] at ha
    split at hl
    · rename_i hlim
      simp only [Option.bind_eq_some_iff, mapM_narrowExtent?_eq_some, narrowExtent?_eq_some,
        pure, Option.some.injEq] at hl
      obtain ⟨fs, hfs, im, him, rfl⟩ := hl
      rw [hlimit, ha, hw] at hlim
      refine ⟨hlim, hfs.trans hes, him.trans ?_⟩
      rw [Extent.map, hw, toNat_tallest_panels hes]
      rfl
    · cases hl
  · rintro ⟨hlim, hps, him⟩
    let es := l.panels.map (Extent.map UInt32.toUInt64)
    have hes : es.map (Extent.map UInt64.toNat) = shapes.map (Shape.extent size.pixels.toNat) := by
      rw [← hps]
      simp [es, Extent.map]
    obtain ⟨hw, hh⟩ := Extent.mk.inj him
    have ht := toNat_tallest_panels hes
    obtain ⟨area, harea⟩ : ∃ area : UInt64, area.toNat =
        fullWidth size.pixels.toNat shapes * fullHeight size.pixels.toNat shapes :=
      ⟨UInt64.ofNat _, UInt64.toNat_ofNat_of_lt' (by simp only [UInt64.size]; omega)⟩
    refine ⟨es, hes, l.image.width.toUInt64, ?_, area, ?_, ?_⟩
    · rw [UInt32.toNat_toUInt64, hw, panels_widths hes, Nat.add_comm]
      rfl
    · rw [UInt32.toNat_toUInt64, hw, ht]
      exact harea
    · rw [if_pos ((hlimit _).mpr (harea ▸ hlim))]
      simp only [Option.bind_eq_some_iff, mapM_narrowExtent?_eq_some, narrowExtent?_eq_some,
        pure, Option.some.injEq]
      refine ⟨l.panels, hps.trans hes.symm, l.image, ?_, rfl⟩
      rw [him, Extent.map, UInt32.toNat_toUInt64, hw, ht]

end Preview
end GridPuzzles
