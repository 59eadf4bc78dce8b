import GridPuzzles.Proofs.Prune.Effect
import Mathlib.Algebra.BigOperators.Group.Finset.Piecewise
import Mathlib.Algebra.Order.Group.Multiset

/-! What the files of a directory and of its directory for large tasks hold, before and after a
pass. -/
namespace GridPuzzles
namespace Prune

variable {skip : Bool} {t u : FileTree} {dir : Path} {l k : Location} {n : Name}
  {order : Order} {moved : List Name}

def storedAt (t : FileTree) (k : Location) : Multiset ByteArray :=
  match t.entry? k with
  | some (.file c) => {c.stored}
  | _ => 0

def storedIn (t : FileTree) (l : Location) : Multiset ByteArray :=
  ∑ n ∈ (t.namesAt l).toFinset, storedAt t (l ++ [n])

theorem storedAt_congr (h : u.entry? k = t.entry? k) : storedAt u k = storedAt t k := by
  rw [storedAt, storedAt, h]

theorem storedAt_of_entry? (h : ∀ c, t.entry? k ≠ some (.file c)) : storedAt t k = 0 := by
  rw [storedAt]
  split
  · rename_i c hc
    exact absurd hc (h c)
  · rfl

theorem storedIn_eq_sum {s : Finset Name} (hs : (t.namesAt l).toFinset ⊆ s) :
    storedIn t l = ∑ n ∈ s, storedAt t (l ++ [n]) := by
  apply Finset.sum_subset hs
  intro n _ hn
  apply storedAt_of_entry?
  intro c hc
  apply hn
  rw [List.mem_toFinset, FileTree.mem_namesAt, hc]
  rfl

namespace Partitioned

theorem storedAt_add (h : Partitioned t l moved u) (n : Name) :
    storedAt u (l ++ [n]) + storedAt u (l ++ [largeName, n]) +
        (if n ∈ moved.toFinset then storedAt t (l ++ [largeName, n]) else 0) =
      storedAt t (l ++ [n]) + storedAt t (l ++ [largeName, n]) := by
  by_cases hmem : n ∈ moved.toFinset
  · have hn : n ∈ moved := List.mem_toFinset.mp hmem
    have hgone : storedAt u (l ++ [n]) = 0 := storedAt_of_entry? (by simp [h.gone n hn])
    have harrived : storedAt u (l ++ [largeName, n]) = storedAt t (l ++ [n]) := by
      rw [storedAt, h.arrived n hn, storedAt]
    rw [if_pos hmem, hgone, harrived, zero_add]
  · have hn : n ∉ moved := fun hm => hmem (List.mem_toFinset.mpr hm)
    rw [if_neg hmem, add_zero, storedAt_congr (h.entry?_target hn)]
    congr 1
    by_cases hl : n = largeName
    · rw [hl, storedAt_of_entry? h.vacant, storedAt_of_entry? (by simp [h.large])]
    · exact storedAt_congr (h.entry?_stays hn hl)

/-- What is held after a pass, together with what the moved files have replaced, is what was held
before. -/
theorem storedIn_add (h : Partitioned t l moved u) :
    storedIn u l + storedIn u (l ++ [largeName]) +
        ∑ n ∈ moved.toFinset, storedAt t (l ++ [largeName, n]) =
      storedIn t l + storedIn t (l ++ [largeName]) := by
  -- all sums are taken over the names that occur anywhere
  let s : Finset Name := (t.namesAt l).toFinset ∪ (t.namesAt (l ++ [largeName])).toFinset ∪
    (u.namesAt l).toFinset ∪ (u.namesAt (l ++ [largeName])).toFinset
  have hmoved : moved.toFinset ⊆ s := by
    intro n hn
    obtain ⟨c, hc⟩ := h.file n (List.mem_toFinset.mp hn)
    have hmem : n ∈ t.namesAt l := by simp [FileTree.mem_namesAt, hc]
    simp [s, hmem]
  have hreplaced : ∑ n ∈ moved.toFinset, storedAt t (l ++ [largeName, n]) =
      ∑ n ∈ s, if n ∈ moved.toFinset then storedAt t (l ++ [largeName, n]) else 0 := by
    rw [Finset.sum_ite_mem, Finset.inter_eq_right.mpr hmoved]
  have ht : storedIn t l = ∑ n ∈ s, storedAt t (l ++ [n]) :=
    storedIn_eq_sum fun n hn => by simp [s, List.mem_toFinset.mp hn]
  have htl : storedIn t (l ++ [largeName]) = ∑ n ∈ s, storedAt t (l ++ [largeName] ++ [n]) :=
    storedIn_eq_sum fun n hn => by simp [s, List.mem_toFinset.mp hn]
  have hu : storedIn u l = ∑ n ∈ s, storedAt u (l ++ [n]) :=
    storedIn_eq_sum fun n hn => by simp [s, List.mem_toFinset.mp hn]
  have hul : storedIn u (l ++ [largeName]) = ∑ n ∈ s, storedAt u (l ++ [largeName] ++ [n]) :=
    storedIn_eq_sum fun n hn => by simp [s, List.mem_toFinset.mp hn]
  rw [ht, htl, hu, hul, hreplaced, ← Finset.sum_add_distrib, ← Finset.sum_add_distrib,
    ← Finset.sum_add_distrib]
  apply Finset.sum_congr rfl
  intro n _
  rw [FileTree.append_pair]
  exact h.storedAt_add n

end Partitioned

theorem exists_partitioned (order : Order) (skip : Bool) (hw : t.WellNamed)
    (hd : t.NamesDirectory dir l) :
    (pass order .documents skip t dir).tree = t ∨
      ∃ moved, (∀ n ∈ moved, n ∈ largeNames t l) ∧
        Partitioned t l moved (pass order .documents skip t dir).tree := by
  cases hl : largeFault? t dir l with
  | some fault =>
    rw [pass_of_largeFault? hd hl]
    exact Or.inl rfl
  | none =>
    refine Or.inr ⟨_, ?_, (pass_documents order skip hw hd hl).tree⟩
    rw [List.nil_append]
    apply movedNames_subset hw hd
    intro n hn
    exact mem_taskFileNames order hd hl ((List.takeWhile_sublist _).subset hn)

/-- Of what the files of a directory and of its directory for large tasks held, only that is gone
which moved large tasks have replaced. -/
structure KeepsStored (t : FileTree) (l : Location) (u : FileTree) : Prop where
  conserved : ∃ moved : Finset Name,
    (∀ n ∈ moved, n ∈ largeNames t l ∧ u.entry? (l ++ [n]) = none ∧
      u.entry? (l ++ [largeName, n]) = t.entry? (l ++ [n])) ∧
    storedIn u l + storedIn u (l ++ [largeName]) +
        ∑ n ∈ moved, storedAt t (l ++ [largeName, n]) =
      storedIn t l + storedIn t (l ++ [largeName])
  conserved_of_free : (∀ n ∈ largeNames t l, storedAt t (l ++ [largeName, n]) = 0) →
    storedIn u l + storedIn u (l ++ [largeName]) = storedIn t l + storedIn t (l ++ [largeName])
  survives : ∀ n ∉ largeNames t l,
    u.entry? (l ++ [largeName, n]) = t.entry? (l ++ [largeName, n])

theorem KeepsStored.refl (t : FileTree) (l : Location) : KeepsStored t l t :=
  ⟨⟨∅, by simp, by simp⟩, fun _ => rfl, fun _ _ => rfl⟩

theorem Partitioned.keepsStored (h : Partitioned t l moved u)
    (hlarge : ∀ n ∈ moved, n ∈ largeNames t l) : KeepsStored t l u := by
  have hadd := h.storedIn_add
  constructor
  case conserved =>
    refine ⟨moved.toFinset, ?_, hadd⟩
    intro n hn
    have hm := List.mem_toFinset.mp hn
    exact ⟨hlarge n hm, h.gone n hm, h.arrived n hm⟩
  case conserved_of_free =>
    intro hfree
    rw [Finset.sum_eq_zero, add_zero] at hadd
    · exact hadd
    · intro n hn
      exact hfree n (hlarge n (List.mem_toFinset.mp hn))
  case survives =>
    intro n hn
    exact h.entry?_target fun hm => hn (hlarge n hm)

/-- Whatever a pass returns, it loses content only where a large task is moved onto a file of its
own name: a file in the directory for large tasks stays as it is unless a large task has its
name. -/
theorem pass_keeps_stored (order : Order) (skip : Bool) (dir : Path) (hw : t.WellNamed) :
    (¬ t.isDirectory dir → (pass order .documents skip t dir).tree = t) ∧
      ∀ l, t.NamesDirectory dir l →
        KeepsStored t l (pass order .documents skip t dir).tree := by
  refine ⟨fun h => by rw [pass_of_not_isDirectory h]; rfl, ?_⟩
  intro l hd
  rcases exists_partitioned order skip hw hd with hsame | ⟨moved, hlarge, hu⟩
  · rw [hsame]
    exact KeepsStored.refl t l
  · exact hu.keepsStored hlarge

/-- An earlier pass has left a task, and a new large task has its name. -/
def occupiedTree : FileTree where
  root :=
    [(ascii "d", .directory
      [(ascii "a.json", .file largeDocument),
        (largeName, .directory [(ascii "a.json", .file (.bytes (ascii "[[],[]]")))])])]
  workingDirectory := []

theorem wellNamed_occupiedTree : occupiedTree.WellNamed :=
  FileTree.wellNamed_of_allProper (by decide +kernel)

theorem namesDirectory_occupiedTree :
    occupiedTree.NamesDirectory mixedDirectory [ascii "d"] :=
  ⟨by decide +kernel, by decide +kernel⟩

theorem pass_keeps_stored_occupied :
    occupiedTree.WellNamed ∧ occupiedTree.NamesDirectory mixedDirectory [ascii "d"] ∧
      KeepsStored occupiedTree [ascii "d"]
        (pass .kept .documents false occupiedTree mixedDirectory).tree := by
  have hkeeps := pass_keeps_stored .kept false mixedDirectory wellNamed_occupiedTree
  exact ⟨wellNamed_occupiedTree, namesDirectory_occupiedTree,
    hkeeps.2 _ namesDirectory_occupiedTree⟩

/-- The task of the earlier pass is lost: a pass does not keep what the two directories hold. -/
theorem occupied_stored_lost :
    ¬ ∀ (order : Order) (skip : Bool) (t : FileTree) (dir : Path) (l : Location),
      t.WellNamed → t.NamesDirectory dir l →
        storedIn (pass order .documents skip t dir).tree l +
            storedIn (pass order .documents skip t dir).tree (l ++ [largeName]) =
          storedIn t l + storedIn t (l ++ [largeName]) := by
  intro h
  have hstored := h .kept false occupiedTree mixedDirectory _ wellNamed_occupiedTree
    namesDirectory_occupiedTree
  have hcard := congrArg Multiset.card hstored
  revert hcard
  decide +kernel

end Prune
end GridPuzzles
