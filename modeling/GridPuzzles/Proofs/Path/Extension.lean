import GridPuzzles.Proofs.Path.Join
import Mathlib.Data.List.Infix

/-! The last name of a path: every spelling that ends in a name is that name in a directory, and a
path that got an extension ends in a name with that extension. -/
namespace GridPuzzles
namespace Path

open FileTree (lastOf)

variable {p q : Path} {n ext : Name}

theorem slash_notMem_or_exists_append (bs : List UInt8) :
    slash ∉ bs ∨ ∃ a n, bs = a ++ slash :: n ∧ slash ∉ n := by
  by_cases h : slash ∈ bs
  · obtain ⟨n, a, hrev, hn⟩ := List.eq_append_cons_of_mem (List.mem_reverse.mpr h)
    refine .inr ⟨a.reverse, n.reverse, ?_, by simpa using hn⟩
    rw [← List.reverse_reverse bs, hrev]
    simp
  · exact .inl h

theorem exists_join_of_lastOf (h : lastOf p = .name n) (hs : p.endsInSlash = false) :
    ∃ q : Path, p = q.join n ∧ slash ∉ n ∧ n ≠ [] := by
  obtain ⟨hlast, -, -⟩ := last_step_of_lastOf h
  rw [steps] at hlast
  have hn : n ≠ [] := by
    simpa using (List.mem_filter.mp (List.mem_of_getLast? hlast)).2
  rcases slash_notMem_or_exists_append p.bytes with hfree | ⟨a, m, hbytes, hm⟩
  · rw [split_of_notMem hfree] at hlast
    have h0 : p.bytes ≠ [] := by
      intro h0
      simp [h0] at hlast
    have hnp : p.bytes = n := by simpa [h0] using hlast
    refine ⟨⟨[]⟩, ?_, hnp ▸ hfree, hn⟩
    rw [← hnp]
    rfl
  · have hm0 : m ≠ [] := by
      rintro rfl
      simp [endsInSlash, hbytes] at hs
    have hmn : m = n := by
      rw [hbytes, split_append_slash, split_of_notMem hm, List.filter_append] at hlast
      simpa [hm0] using hlast
    refine ⟨⟨a ++ [slash]⟩, ?_, hmn ▸ hm, hn⟩
    have hends : endsInSlash ⟨a ++ [slash]⟩ = true := by simp [endsInSlash]
    rw [join, if_neg (by simp), if_pos hends, ← hmn, List.append_assoc, List.singleton_append,
      ← hbytes]

/-- A path that got an extension ends in a name with that extension, if it ends in a name. -/
theorem suffix_of_withExtension (hn : n.Proper) (hext : slash ∉ ext)
    (h : p.withExtension ext = q.join n) : dot :: ext <:+ n := by
  rw [withExtension] at h
  split at h
  · rename_i hstem
    rw [stem?, h, fileName?_join q hn] at hstem
    cases hstem
  · rename_i stem hstem
    have hbytes := congrArg bytes h
    rw [bytes_join] at hbytes
    have hend : dot :: ext <:+ q.lead ++ n := ⟨_, hbytes⟩
    rcases lead_cases q with ⟨-, hlead⟩ | ⟨a, hlead, -, -⟩
    · rwa [hlead, List.nil_append] at hend
    · -- the slash before the name is not in the extension
      rw [hlead, List.append_assoc, List.singleton_append] at hend
      have hname : slash :: n <:+ a ++ slash :: n := List.suffix_append _ _
      rcases List.suffix_or_suffix_of_suffix hend hname with hsuffix | hsuffix
      · rcases List.suffix_cons_iff.mp hsuffix with heq | hsuffix
        · cases heq
        · exact hsuffix
      · have hmem : slash ∈ dot :: ext := hsuffix.subset (by simp)
        rcases List.mem_cons.mp hmem with heq | hmem
        · cases heq
        · exact absurd hmem hext

end Path
end GridPuzzles
