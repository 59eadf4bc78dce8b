import GridPuzzles.Preview.Image

/-! What painting does to single pixels: each stroke recolors exactly the pixels it covers, so
after a list of strokes a pixel has the color of the last one that covers it. -/
namespace GridPuzzles
namespace Preview

namespace Image

theorem getElem?_fillRun (c : Color) (start count i : Nat) (pixels : Array Color) :
    (fillRun c start count pixels)[i]? =
      pixels[i]?.map fun old => if start ≤ i ∧ i < start + count then c else old := by
  induction count generalizing start pixels with
  | zero =>
    have hn : ¬ (start ≤ i ∧ i < start) := by omega
    simp [fillRun, hn]
  | succ n ih =>
    rw [fillRun, ih, Array.getElem?_setIfInBounds]
    by_cases hi : start = i
    · subst hi
      by_cases hb : start < pixels.size <;> simp [hb]
    · have he : (start + 1 ≤ i ∧ i < start + 1 + n) ↔ (start ≤ i ∧ i < start + (n + 1)) := by
        omega
      simp only [if_neg hi, he]

theorem run_index_iff {width left count top x y : Nat} (hr : ∀ k < count, left + k < width)
    (hx : x < width) :
    (top * width + left ≤ y * width + x ∧ y * width + x < top * width + left + count) ↔
      y = top ∧ left ≤ x ∧ x < left + count := by
  constructor
  · rintro ⟨h₁, h₂⟩
    have hw := hr (count - 1) (by omega)
    have hy : y = top := by
      rcases Nat.lt_trichotomy y top with hlt | he | hgt
      · have hm := Nat.mul_le_mul_right width (Nat.succ_le_of_lt hlt)
        rw [Nat.succ_mul] at hm
        omega
      · exact he
      · have hm := Nat.mul_le_mul_right width (Nat.succ_le_of_lt hgt)
        rw [Nat.succ_mul] at hm
        omega
    subst hy
    omega
  · rintro ⟨rfl, h₁, h₂⟩
    omega

theorem getElem?_fillRows (c : Color) {width left count x : Nat} (top rows y : Nat)
    (pixels : Array Color) (hr : ∀ k < count, left + k < width) (hx : x < width) :
    (fillRows c width left count top rows pixels)[y * width + x]? =
      pixels[y * width + x]?.map fun old =>
        if (top ≤ y ∧ y < top + rows) ∧ left ≤ x ∧ x < left + count then c else old := by
  induction rows generalizing top pixels with
  | zero =>
    have hn : ¬ (top ≤ y ∧ y < top) := by omega
    simp [fillRows, hn]
  | succ n ih =>
    rw [fillRows, ih, getElem?_fillRun, Option.map_map]
    congr 1
    funext old
    simp only [Function.comp_apply, run_index_iff hr hx]
    by_cases hy : y = top
    · subst hy
      have hn : ¬ (y + 1 ≤ y ∧ y < y + 1 + n) := by omega
      have hin : y ≤ y ∧ y < y + (n + 1) := by omega
      simp only [hn, hin, and_self, true_and, false_and, if_false]
    · have he : (top + 1 ≤ y ∧ y < top + 1 + n) ↔ (top ≤ y ∧ y < top + (n + 1)) := by omega
      simp only [he, hy, false_and, if_false]

theorem pixel?_isSome_iff (img : Image) (x y : Nat) :
    (img.pixel? x y).isSome ↔ x < img.width.toNat ∧ y < img.height.toNat := by
  obtain ⟨w, h, pixels, hsize⟩ := img
  by_cases hx : x < w.toNat
  · have hy : y * w.toNat + x < pixels.size ↔ y < h.toNat := by
      rw [hsize, Nat.mul_comm w.toNat]
      constructor
      · intro hlt
        exact Nat.lt_of_mul_lt_mul_right (Nat.lt_of_le_of_lt (Nat.le_add_right _ x) hlt)
      · intro hlt
        have hm := Nat.mul_le_mul_right w.toNat (Nat.succ_le_of_lt hlt)
        rw [Nat.succ_mul] at hm
        omega
    simp [pixel?, hx, hy]
  · simp [pixel?, hx]

theorem pixel?_eq_none {img : Image} {x y : Nat}
    (h : ¬ (x < img.width.toNat ∧ y < img.height.toNat)) : img.pixel? x y = none := by
  rw [← pixel?_isSome_iff] at h
  simpa using h

@[simp] theorem width_paint (img : Image) (s : Stroke) : (img.paint s).width = img.width := rfl

@[simp] theorem height_paint (img : Image) (s : Stroke) : (img.paint s).height = img.height := rfl

theorem pixel?_blank {w h : UInt32} {x y : Nat} (c : Color) (hx : x < w.toNat)
    (hy : y < h.toNat) : (blank w h c).pixel? x y = some c := by
  have hs := (pixel?_isSome_iff (blank w h c) x y).mpr ⟨hx, hy⟩
  simpa [pixel?, blank, hx, Array.getElem?_replicate] using hs

/-- Painting a stroke recolors exactly the pixels that it covers. -/
theorem pixel?_paint (img : Image) (s : Stroke) (x y : Nat) :
    (img.paint s).pixel? x y =
      (img.pixel? x y).map fun old => if s.covers x y then s.color else old := by
  by_cases hin : x < img.width.toNat ∧ y < img.height.toNat
  · obtain ⟨hx, hy⟩ := hin
    obtain ⟨w, h, pixels, hsize⟩ := img
    have hr : ∀ k < min s.right.toNat w.toNat - s.left.toNat, s.left.toNat + k < w.toNat := by
      omega
    have hc : ((s.top.toNat ≤ y ∧
        y < s.top.toNat + (min s.bottom.toNat h.toNat - s.top.toNat)) ∧
        s.left.toNat ≤ x ∧ x < s.left.toNat + (min s.right.toNat w.toNat - s.left.toNat)) ↔
          s.covers x y := by
      simp only at hx hy
      simp only [Stroke.covers, Bool.and_eq_true, decide_eq_true_eq]
      omega
    simp only at hx
    simp only [paint, pixel?, hx, if_true, getElem?_fillRows s.color _ _ _ _ hr hx, hc]
  · have hout : (img.paint s).pixel? x y = none := pixel?_eq_none hin
    rw [hout, pixel?_eq_none hin]
    rfl

end Image

/-- The color of a pixel after strokes have been painted over it. -/
def shade (strokes : List Stroke) (x y : Nat) (old : Color) : Color :=
  strokes.foldl (fun c s => if s.covers x y then s.color else c) old

theorem shade_cons (s : Stroke) (strokes : List Stroke) (x y : Nat) (old : Color) :
    shade (s :: strokes) x y old =
      shade strokes x y (if s.covers x y then s.color else old) := rfl

theorem shade_append (strokes others : List Stroke) (x y : Nat) (old : Color) :
    shade (strokes ++ others) x y old = shade others x y (shade strokes x y old) :=
  List.foldl_append ..

theorem shade_of_uncovered {strokes : List Stroke} {x y : Nat}
    (h : ∀ s ∈ strokes, ¬ s.covers x y) (old : Color) : shade strokes x y old = old := by
  induction strokes with
  | nil => rfl
  | cons s strokes ih =>
    rw [shade_cons, if_neg (h s (by simp))]
    exact ih fun s hs => h s (by simp [hs])

/-- Where all strokes that cover a pixel have one color, their order does not matter. -/
theorem shade_of_covered {strokes : List Stroke} {x y : Nat} {c : Color}
    (hc : ∀ s ∈ strokes, s.covers x y → s.color = c) (hs : ∃ s ∈ strokes, s.covers x y)
    (old : Color) : shade strokes x y old = c := by
  induction strokes generalizing old with
  | nil => simp at hs
  | cons s strokes ih =>
    have hcs := fun s hs => hc s (List.mem_cons_of_mem _ hs)
    rw [shade_cons]
    by_cases ht : ∃ s ∈ strokes, s.covers x y
    · exact ih hcs ht _
    · have hh : s.covers x y := by
        obtain ⟨s', hs', hcov⟩ := hs
        rcases List.mem_cons.mp hs' with rfl | hm
        · exact hcov
        · exact absurd ⟨s', hm, hcov⟩ ht
      rw [if_pos hh, hc s (by simp) hh]
      exact shade_of_uncovered (fun s hs hcov => ht ⟨s, hs, hcov⟩) c

namespace Image

@[simp] theorem width_paintAll (img : Image) (strokes : List Stroke) :
    (img.paintAll strokes).width = img.width := by
  induction strokes generalizing img with
  | nil => rfl
  | cons s strokes ih => exact (ih (img.paint s)).trans (width_paint img s)

@[simp] theorem height_paintAll (img : Image) (strokes : List Stroke) :
    (img.paintAll strokes).height = img.height := by
  induction strokes generalizing img with
  | nil => rfl
  | cons s strokes ih => exact (ih (img.paint s)).trans (height_paint img s)

theorem pixel?_paintAll (img : Image) (strokes : List Stroke) (x y : Nat) :
    (img.paintAll strokes).pixel? x y = (img.pixel? x y).map (shade strokes x y) := by
  induction strokes generalizing img with
  | nil => exact Option.map_id'.symm
  | cons s strokes ih =>
    have h := ih (img.paint s)
    rw [pixel?_paint, Option.map_map] at h
    exact h

end Image
end Preview
end GridPuzzles
