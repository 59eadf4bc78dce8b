import GridPuzzles.Grid
import Mathlib.Tactic.Common

/-! Which nested rows are accepted as a grid. Every row is compared with row 0 only, and that tells
whether all rows have one length: if they have not, the row that is refused is the first one that
differs from row 0. -/
namespace GridPuzzles

variable {rows : List (List UInt8)} {e e' : ShapeError}

def Uniform (rows : List (List UInt8)) : Prop := ∀ r ∈ rows, ∀ s ∈ rows, r.length = s.length

theorem uniform_iff : Uniform rows ↔ ∀ r ∈ rows, r.length = leadingWidth rows := by
  cases rows with
  | nil => simp [Uniform]
  | cons s rows =>
    constructor
    · intro h r hr
      exact h r hr s List.mem_cons_self
    · intro h r hr r' hr'
      rw [h r hr, h r' hr']

theorem length_head (h : rows ≠ []) : rows[0]?.map List.length = some (leadingWidth rows) := by
  cases rows with
  | nil => exact absurd rfl h
  | cons r rows => rfl

namespace ShapeError

/-- The error is about the first row whose length differs from that of row 0. -/
structure Blames (e : ShapeError) (rows : List (List UInt8)) : Prop where
  expected : rows[0]?.map List.length = some e.expected
  found : rows[e.row]?.map List.length = some e.found
  differs : e.found ≠ e.expected
  first : ∀ i < e.row, rows[i]?.map List.length = some e.expected

namespace Blames

theorem row_pos (h : e.Blames rows) : 0 < e.row := by
  rw [Nat.pos_iff_ne_zero]
  intro h0
  have hfound := h.found
  rw [h0, h.expected, Option.some.injEq] at hfound
  exact h.differs hfound.symm

theorem row_le (h : e.Blames rows) (h' : e'.Blames rows) : e.row ≤ e'.row := by
  by_contra hlt
  have hsame := h.first e'.row (Nat.lt_of_not_le hlt)
  have hexpected := h.expected
  rw [h'.found, Option.some.injEq] at hsame
  rw [h'.expected, Option.some.injEq] at hexpected
  exact h'.differs (hsame.trans hexpected.symm)

theorem unique (h : e.Blames rows) (h' : e'.Blames rows) : e = e' := by
  have hrow : e.row = e'.row := Nat.le_antisymm (h.row_le h') (h'.row_le h)
  have hfound := h.found
  have hexpected := h.expected
  rw [hrow, h'.found, Option.some.injEq] at hfound
  rw [h'.expected, Option.some.injEq] at hexpected
  cases e
  cases e'
  simp_all

theorem not_uniform (h : e.Blames rows) : ¬ Uniform rows := by
  intro hrows
  obtain ⟨r, hr, hrlen⟩ := Option.map_eq_some_iff.mp h.expected
  obtain ⟨s, hs, hslen⟩ := Option.map_eq_some_iff.mp h.found
  have hsame := hrows s (List.mem_of_getElem? hs) r (List.mem_of_getElem? hr)
  rw [hslen, hrlen] at hsame
  exact h.differs hsame

end Blames
end ShapeError

namespace Grid

theorem blames_findIdx (h : ¬ ∀ r ∈ rows, r.length = leadingWidth rows) :
    let row := rows.findIdx fun r => r.length != leadingWidth rows
    (ShapeError.mk row (rows[row]?.getD []).length (leadingWidth rows)).Blames rows := by
  intro row
  push Not at h
  obtain ⟨r, hr, hlen⟩ := h
  have hlt : row < rows.length :=
    List.findIdx_lt_length_of_exists ⟨r, hr, by simpa using hlen⟩
  constructor
  case expected => exact length_head (List.ne_nil_of_mem hr)
  case found => simp [hlt]
  case differs =>
    have hfound := List.findIdx_getElem (w := hlt)
    simpa [hlt] using hfound
  case first =>
    intro i hi
    have hsame := List.not_of_lt_findIdx hi
    simpa [Nat.lt_trans hi hlt] using hsame

/-- Rows of one length are kept, and all others are refused for the first one that differs. -/
theorem ofRows_cases (rows : List (List UInt8)) :
    (Uniform rows ∧ ∃ g, ofRows rows = .ok g ∧ g.rows = rows) ∨
      (¬ Uniform rows ∧ ∃ e, ofRows rows = .error e ∧ e.Blames rows) := by
  rw [uniform_iff]
  by_cases h : ∀ r ∈ rows, r.length = leadingWidth rows
  · exact .inl ⟨h, ⟨rows, h⟩, dif_pos h, rfl⟩
  · exact .inr ⟨h, _, dif_neg h, blames_findIdx h⟩

/-- Rows are accepted if and only if all have one length, and the grid then holds them unchanged.
All other rows are refused for the first one whose length differs from that of row 0. -/
theorem ofRows_exact (rows : List (List UInt8)) :
    ((∃ g, ofRows rows = .ok g) ↔ Uniform rows) ∧
    (∀ g, ofRows rows = .ok g → g.rows = rows ∧ g.height = rows.length ∧
      (∀ r ∈ rows, r.length = g.width) ∧ (rows = [] → g.width = 0)) ∧
    ((∃ e, ofRows rows = .error e) ↔ ¬ Uniform rows) ∧
    ∀ e, ofRows rows = .error e ↔ 0 < e.row ∧ e.Blames rows := by
  rcases ofRows_cases rows with ⟨hrows, g, hg, rfl⟩ | ⟨hrows, e, he, hblames⟩
  · rw [hg]
    refine ⟨by simp [hrows], ?_, by simp [hrows], ?_⟩
    · intro g' hg'
      cases hg'
      refine ⟨rfl, rfl, g.rectangular, ?_⟩
      intro hnil
      rw [width, hnil]
      rfl
    · intro e
      constructor
      · intro he
        cases he
      · rintro ⟨-, hblames⟩
        exact absurd hrows hblames.not_uniform
  · rw [he]
    refine ⟨by simp [hrows], by simp, by simp [hrows], ?_⟩
    intro e'
    rw [Except.error.injEq]
    constructor
    · rintro rfl
      exact ⟨hblames.row_pos, hblames⟩
    · rintro ⟨-, hblames'⟩
      exact hblames.unique hblames'

theorem ofRows_exact_ragged :
    ofRows [[1, 2], [3, 4], [5], [6, 7, 8]] = .error ⟨2, 1, 2⟩ ∧
      ∃ g, ofRows [[], []] = .ok g ∧ g.height = 2 ∧ g.width = 0 := by
  have hragged : (ShapeError.mk 2 1 2).Blames [[1, 2], [3, 4], [5], [6, 7, 8]] := by
    constructor <;> decide
  obtain ⟨g, hg⟩ := (ofRows_exact [[], []]).1.mpr (by simp [Uniform])
  obtain ⟨-, hheight, hwidth, -⟩ := (ofRows_exact [[], []]).2.1 g hg
  exact ⟨((ofRows_exact _).2.2.2 _).mpr ⟨by decide, hragged⟩, g, hg, hheight,
    (hwidth [] List.mem_cons_self).symm⟩

end Grid
end GridPuzzles
