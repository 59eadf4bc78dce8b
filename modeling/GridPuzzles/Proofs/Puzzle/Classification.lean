import GridPuzzles.Puzzle
import Mathlib.Data.List.Forall2
import Mathlib.Data.Sym.Sym2

/-! Which tasks are large. The width of a grid is read off its first row, and that is enough since
all rows have one length: a task is large exactly if one of its grids has too many rows or any row
with too many cells. -/
namespace GridPuzzles

/-- More rows than a grid that is not large may have, or a row with more cells than that. -/
def Oversized (rows : List (List UInt8)) : Prop :=
  10 < rows.length ∨ ∃ r ∈ rows, 10 < r.length

/-- What was in a list has a counterpart in one that its elements have been changed and added to. -/
theorem exists_of_mem_sublistForall₂ {α β : Type} {R : α → β → Prop} {as : List α} {bs : List β}
    {a : α} (h : List.SublistForall₂ R as bs) (ha : a ∈ as) : ∃ b ∈ bs, R a b := by
  induction h with
  | nil => cases ha
  | cons hr _ ih =>
    rcases List.mem_cons.mp ha with rfl | ha
    · exact ⟨_, List.mem_cons_self, hr⟩
    · obtain ⟨b, hb, hr⟩ := ih ha
      exact ⟨b, List.mem_cons_of_mem _ hb, hr⟩
  | cons_right _ ih =>
    obtain ⟨b, hb, hr⟩ := ih ha
    exact ⟨b, List.mem_cons_of_mem _ hb, hr⟩

namespace Grid

variable {g g' : Grid}

theorem ofRows_rows (g : Grid) : ofRows g.rows = .ok g := dif_pos g.rectangular

theorem isLarge_iff : g.isLarge ↔ Oversized g.rows := by
  have hcols : 10 < leadingWidth g.rows ↔ ∃ r ∈ g.rows, 10 < r.length := by
    constructor
    · intro h
      cases hrows : g.rows with
      | nil =>
        rw [hrows] at h
        cases h
      | cons r rs =>
        rw [hrows] at h
        exact ⟨r, List.mem_cons_self, h⟩
    · rintro ⟨r, hr, h⟩
      rwa [← g.rectangular r hr]
  rw [isLarge, Bool.or_eq_true, decide_eq_true_iff, decide_eq_true_iff]
  exact or_congr Iff.rfl hcols

/-- Rows have been added to a grid, and cells to its rows, anywhere. -/
def Grows (g g' : Grid) : Prop := List.SublistForall₂ List.Sublist g.rows g'.rows

theorem Grows.oversized (h : g.Grows g') (hg : Oversized g.rows) : Oversized g'.rows := by
  rcases hg with hg | ⟨r, hr, hg⟩
  · obtain ⟨rows, hcols, hrows⟩ := List.sublistForall₂_iff.mp h
    rw [hcols.length_eq] at hg
    exact .inl (Nat.lt_of_lt_of_le hg hrows.length_le)
  · obtain ⟨r', hr', hsub⟩ := exists_of_mem_sublistForall₂ h hr
    exact .inr ⟨r', hr', Nat.lt_of_lt_of_le hg hsub.length_le⟩

end Grid

namespace Example

variable {e e' : Example}

def pair (e : Example) : Sym2 Grid := s(e.input, e.output)

theorem isLarge_iff : e.isLarge ↔ ∃ g ∈ e.pair, Oversized g.rows := by
  rw [isLarge, Bool.or_eq_true, Grid.isLarge_iff, Grid.isLarge_iff]
  simp [pair]

/-- Rows and columns have been added to the grids of an example. -/
structure Grows (e e' : Example) : Prop where
  input : e.input.Grows e'.input
  output : e.output.Grows e'.output

theorem Grows.isLarge (h : e.Grows e') (he : e.isLarge) : e'.isLarge := by
  obtain ⟨g, hg, hlarge⟩ := isLarge_iff.mp he
  rw [isLarge_iff]
  rcases Sym2.mem_iff.mp hg with rfl | rfl
  · exact ⟨e'.input, Sym2.mem_mk_left _ _, h.input.oversized hlarge⟩
  · exact ⟨e'.output, Sym2.mem_mk_right _ _, h.output.oversized hlarge⟩

end Example

namespace Puzzle

variable {p q : Puzzle}

def pairs (p : Puzzle) : List (Sym2 Grid) := p.examples.map Example.pair

/-- Examples have been added to a task, in either split, and rows and columns to its grids. -/
def Grows (p q : Puzzle) : Prop := List.SublistForall₂ Example.Grows p.examples q.examples

theorem isLarge_iff : p.isLarge ↔ ∃ z ∈ p.pairs, ∃ g ∈ z, Oversized g.rows := by
  simp [isLarge, Example.isLarge_iff, pairs]

theorem Grows.isLarge (h : p.Grows q) (hp : p.isLarge) : q.isLarge := by
  obtain ⟨e, he, hlarge⟩ := List.any_eq_true.mp hp
  obtain ⟨e', he', hgrows⟩ := exists_of_mem_sublistForall₂ h he
  exact List.any_eq_true.mpr ⟨e', he', hgrows.isLarge hlarge⟩

/-- A task is large if and only if a grid of one of its examples has more than 10 rows or a row of
more than 10 cells. It does not matter in which order, split or half of an example the grids stand,
and what is added to a large task leaves it large. -/
theorem isLarge_exact :
    (∀ g : Grid, Grid.ofRows g.rows = .ok g) ∧
    (∀ p : Puzzle, p.isLarge ↔ ∃ e, (e ∈ p.train ∨ e ∈ p.test) ∧
      ∃ g, (g = e.input ∨ g = e.output) ∧ (10 < g.rows.length ∨ ∃ r ∈ g.rows, 10 < r.length)) ∧
    (∀ p q : Puzzle, p.pairs.Perm q.pairs → q.isLarge = p.isLarge) ∧
    ∀ p q : Puzzle, p.Grows q → p.isLarge → q.isLarge := by
  refine ⟨Grid.ofRows_rows, ?_, ?_, fun _ _ => Grows.isLarge⟩
  · intro p
    simp only [isLarge, List.any_eq_true, examples, List.mem_append, Example.isLarge_iff,
      Example.pair, Sym2.mem_iff, Oversized]
  · intro p q h
    rw [Bool.eq_iff_iff, isLarge_iff, isLarge_iff]
    simp only [h.mem_iff]

def smallExample : Example := ⟨.filled 1 1 0, .filled 1 1 0⟩

def wideExample : Example := ⟨.filled 1 1 0, .filled 1 11 0⟩

def widerExample : Example := ⟨.filled 1 1 0, .filled 2 12 0⟩

theorem isLarge_exact_wide :
    (Puzzle.mk [wideExample, smallExample] []).isLarge ∧
      (Puzzle.mk [smallExample] [⟨wideExample.output, wideExample.input⟩]).isLarge ∧
      (Puzzle.mk [smallExample, widerExample] [smallExample]).isLarge := by
  have hlarge : (Puzzle.mk [wideExample, smallExample] []).isLarge := by decide
  have hpairs : (Puzzle.mk [wideExample, smallExample] []).pairs.Perm
      (Puzzle.mk [smallExample] [⟨wideExample.output, wideExample.input⟩]).pairs := by
    have hswap : Example.pair ⟨wideExample.output, wideExample.input⟩ = wideExample.pair :=
      Sym2.eq_swap
    simp only [pairs, examples, List.append_nil, List.singleton_append, List.map_cons, List.map_nil,
      hswap]
    exact .swap _ _ _
  have hgrows : (Puzzle.mk [wideExample, smallExample] []).Grows
      (Puzzle.mk [smallExample, widerExample] [smallExample]) := by
    have hsame (g : Grid) : g.Grows g := List.sublistForall₂_iff.mpr
      ⟨g.rows, List.forall₂_same.mpr fun r _ => List.Sublist.refl r, List.Sublist.refl _⟩
    have hwider : wideExample.output.Grows widerExample.output := .cons (by decide) .nil
    exact .cons_right (.cons ⟨hsame _, hwider⟩ (.cons ⟨hsame _, hsame _⟩ .nil))
  refine ⟨hlarge, ?_, isLarge_exact.2.2.2 _ _ hgrows hlarge⟩
  rw [isLarge_exact.2.2.1 _ _ hpairs]
  exact hlarge

end Puzzle
end GridPuzzles
