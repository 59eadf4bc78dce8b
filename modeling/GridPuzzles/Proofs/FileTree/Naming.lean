import GridPuzzles.Proofs.FileTree.Entries
import GridPuzzles.Proofs.Path.Join

/-! Trees in which every entry has a name that entries can have. -/
namespace GridPuzzles

mutual

def Directory.allProper : List (Name × Node) → Bool
  | [] => true
  | e :: d => Directory.entryProper e && Directory.allProper d

def Directory.entryProper : Name × Node → Bool
  | (n, .file _) => decide n.Proper
  | (n, .directory d) => decide n.Proper && Directory.allProper d

end

namespace FileTree

/-- All names in the tree are names that entries can have, as in every tree on a disk. -/
def WellNamed (t : FileTree) : Prop := ∀ l, ∀ n ∈ t.namesAt l, Name.Proper n

theorem proper_of_allProper {d : Directory} {n : Name} {node : Node} (h : Directory.allProper d)
    (hn : d.lookup n = some node) :
    n.Proper ∧ ∀ e, node = .directory e → Directory.allProper e := by
  induction d with
  | nil => cases hn
  | cons e d ih =>
    obtain ⟨m, below⟩ := e
    rw [Directory.allProper, Bool.and_eq_true] at h
    rw [Directory.lookup_cons_eq] at hn
    by_cases hm : n = m
    · rw [if_pos hm] at hn
      cases hn
      subst hm
      cases node with
      | file c => exact ⟨by simpa [Directory.entryProper] using h.1, by simp⟩
      | directory e =>
        have hentry := h.1
        rw [Directory.entryProper, Bool.and_eq_true, decide_eq_true_eq] at hentry
        refine ⟨hentry.1, ?_⟩
        intro e' he
        cases he
        exact hentry.2
    · rw [if_neg hm] at hn
      exact ih h.2 hn

theorem allProper_of_find? {d e : Directory} {l : Location} (h : Directory.allProper d)
    (hl : d.find? l = some (.directory e)) : Directory.allProper e := by
  induction l generalizing d with
  | nil =>
    cases hl
    exact h
  | cons n l ih =>
    rw [Directory.find?_cons] at hl
    obtain ⟨node, hn, hl⟩ := Option.bind_eq_some_iff.mp hl
    cases node with
    | file c => cases l <;> cases hl
    | directory d' =>
      rw [Node.find?_directory] at hl
      exact ih ((proper_of_allProper h hn).2 d' rfl) hl

theorem wellNamed_of_allProper {t : FileTree} (h : Directory.allProper t.root) : t.WellNamed := by
  intro l n hn
  rw [namesAt] at hn
  split at hn
  · rename_i d hd
    rw [Directory.mem_names] at hn
    obtain ⟨node, hnode⟩ := Option.isSome_iff_exists.mp hn
    exact (proper_of_allProper (allProper_of_find? h hd) hnode).1
  · cases hn

end FileTree
end GridPuzzles
