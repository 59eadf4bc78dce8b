import GridPuzzles.Proofs.Prune.Readiness

/-! What a pass leaves for the next one. The tree after a pass is looked at as the tree before it
less the task files that are gone, and two such changes after one another are one. -/
namespace GridPuzzles
namespace Prune

variable {skip : Bool} {t u v : FileTree} {dir : Path} {l k : Location} {n : Name}
  {moved more : List Name}

theorem nodup_documentNames (t : FileTree) (l : Location) : (documentNames t l).Nodup :=
  (t.nodup_namesAt l).filter _

theorem nodup_largeNames (t : FileTree) (l : Location) : (largeNames t l).Nodup :=
  (nodup_documentNames t l).filter _

/-- Of the task files of a directory, the named ones are gone and all others are as they were. -/
structure FilesLeft (t : FileTree) (l : Location) (moved : List Name) (u : FileTree) : Prop where
  gone : ∀ n ∈ moved, u.entry? (l ++ [n]) = none
  stays : ∀ n ∉ moved, TaskSource.isTaskName n →
    u.entry? (l ++ [n]) = t.entry? (l ++ [n])

namespace FilesLeft

theorem refl (t : FileTree) (l : Location) : FilesLeft t l [] t := ⟨by simp, fun _ _ _ => rfl⟩

theorem trans (h : FilesLeft t l moved u) (h' : FilesLeft u l [] v)
    (hs : ∀ n ∈ moved, TaskSource.isTaskName n) : FilesLeft t l moved v where
  gone n hn := by rw [h'.stays n List.not_mem_nil (hs n hn), h.gone n hn]
  stays n hn hsuffix := by rw [h'.stays n List.not_mem_nil hsuffix, h.stays n hn hsuffix]

theorem taskAt?_eq (h : FilesLeft t l moved u) (hn : n ∉ moved)
    (hs : TaskSource.isTaskName n) : taskAt? u (l ++ [n]) = taskAt? t (l ++ [n]) := by
  rw [taskAt?, taskAt?, h.stays n hn hs]

theorem mem_documentNames_iff (h : FilesLeft t l moved u) :
    n ∈ documentNames u l ↔ n ∈ documentNames t l ∧ n ∉ moved := by
  rw [mem_documentNames, mem_documentNames]
  by_cases hn : n ∈ moved
  · simp [h.gone n hn, hn]
  · constructor
    · rintro ⟨hs, hc⟩
      rw [h.stays n hn hs] at hc
      exact ⟨⟨hs, hc⟩, hn⟩
    · rintro ⟨⟨hs, hc⟩, -⟩
      rw [h.stays n hn hs]
      exact ⟨hs, hc⟩

theorem mem_filter_iff (h : FilesLeft t l moved u) (p : Option Puzzle → Bool) :
    n ∈ (documentNames u l).filter (fun n => p (taskAt? u (l ++ [n]))) ↔
      n ∈ (documentNames t l).filter (fun n => p (taskAt? t (l ++ [n]))) ∧ n ∉ moved := by
  rw [List.mem_filter, List.mem_filter, h.mem_documentNames_iff, and_assoc, and_assoc,
    and_congr_right_iff]
  intro hmem
  rw [and_comm, and_congr_left_iff]
  intro hn
  rw [h.taskAt?_eq hn (mem_documentNames.mp hmem).1]

/-- The task files of some kind that are left, with those of that kind that are gone, are those
that were there. -/
theorem filter_perm (h : FilesLeft t l moved u) (hnodup : moved.Nodup)
    (hmoved : ∀ n ∈ moved, n ∈ documentNames t l) (p : Option Puzzle → Bool) :
    ((documentNames u l).filter (fun n => p (taskAt? u (l ++ [n]))) ++
        moved.filter (fun n => p (taskAt? t (l ++ [n])))).Perm
      ((documentNames t l).filter fun n => p (taskAt? t (l ++ [n]))) := by
  apply (List.perm_ext_iff_of_nodup _ ((nodup_documentNames t l).filter _)).mpr
  · intro n
    rw [List.mem_append, h.mem_filter_iff p, List.mem_filter, List.mem_filter]
    by_cases hn : n ∈ moved
    · simp [hn, hmoved n hn]
    · simp [hn]
  · refine List.Nodup.append ((nodup_documentNames u l).filter _) (hnodup.filter _) ?_
    intro n hu hm
    exact ((h.mem_filter_iff p).mp hu).2 (List.mem_filter.mp hm).1

theorem documentNames_append_perm (h : FilesLeft t l moved u) (hnodup : moved.Nodup)
    (hmoved : ∀ n ∈ moved, n ∈ documentNames t l) :
    (documentNames u l ++ moved).Perm (documentNames t l) := by
  have hperm := h.filter_perm hnodup hmoved fun _ => true
  simpa only [List.filter_true] using hperm

theorem largeNames_perm (h : FilesLeft t l moved u) (hnot : ∀ n ∈ largeNames t l, n ∉ moved) :
    (largeNames u l).Perm (largeNames t l) := by
  apply (List.perm_ext_iff_of_nodup (nodup_largeNames u l) (nodup_largeNames t l)).mpr
  intro n
  exact (h.mem_filter_iff fun o => o.any Puzzle.isLarge).trans (and_iff_left_of_imp (hnot n))

theorem parsed (h : FilesLeft t l moved u)
    (hparsed : ∀ n ∈ documentNames t l, (taskAt? t (l ++ [n])).isSome) :
    ∀ n ∈ documentNames u l, (taskAt? u (l ++ [n])).isSome := by
  intro n hn
  obtain ⟨hmem, hnot⟩ := h.mem_documentNames_iff.mp hn
  rw [h.taskAt?_eq hnot (mem_documentNames.mp hmem).1]
  exact hparsed n hmem

/-! The kinds of task files that a report counts, if only large tasks are gone. -/

section

variable (h : FilesLeft t l moved u) (hnodup : moved.Nodup)
  (hmoved : ∀ n ∈ moved, n ∈ largeNames t l)

include h hnodup hmoved

theorem largeNames_append_perm : (largeNames u l ++ moved).Perm (largeNames t l) := by
  have hperm := h.filter_perm hnodup
    (fun n hn => (mem_largeNames_iff.mp (hmoved n hn)).1) fun o => o.any Puzzle.isLarge
  have hall : moved.filter (fun n => (taskAt? t (l ++ [n])).any Puzzle.isLarge) = moved :=
    List.filter_eq_self.mpr fun n hn => (mem_largeNames_iff.mp (hmoved n hn)).2
  rwa [hall] at hperm

theorem unparsableNames_perm : (unparsableNames u l).Perm (unparsableNames t l) := by
  have hperm := h.filter_perm hnodup
    (fun n hn => (mem_largeNames_iff.mp (hmoved n hn)).1) Option.isNone
  have hnone : moved.filter (fun n => (taskAt? t (l ++ [n])).isNone) = [] := by
    rw [List.filter_eq_nil_iff]
    intro n hn
    have hlarge := (mem_largeNames_iff.mp (hmoved n hn)).2
    cases htask : taskAt? t (l ++ [n]) with
    | none => simp [htask] at hlarge
    | some task => simp
  rwa [hnone, List.append_nil] at hperm

end

theorem largeNames_eq_nil (h : FilesLeft t l (largeNames t l) u) : largeNames u l = [] := by
  have hlength :=
    (h.largeNames_append_perm (nodup_largeNames t l) fun _ hn => hn).length_eq
  rw [List.length_append] at hlength
  exact List.length_eq_zero_iff.mp (by omega)

theorem fits (h : FilesLeft t l moved u) (hfits : Fits t dir l) : Fits u dir l where
  large := hfits.large
  listed n hn hs := by
    have hnot : n ∉ moved := by
      intro hm
      rw [FileTree.mem_namesAt, h.gone n hm] at hn
      cases hn
    rw [FileTree.mem_namesAt, h.stays n hnot hs] at hn
    exact hfits.listed n (FileTree.mem_namesAt.mpr hn) hs
  moved n hn := hfits.moved n ((h.mem_filter_iff _).mp hn).1

theorem ready (h : FilesLeft t l moved u) (hready : Ready skip t l)
    (hlarge : u.entry? (l ++ [largeName]) = some .directory)
    (hfree : ∀ n ∈ largeNames u l, ¬ u.isDirectoryAt (l ++ [largeName, n])) :
    Ready skip u l where
  vacant c hc := by
    rw [hlarge] at hc
    cases hc
  free := hfree
  parsed := hready.parsed.imp_right h.parsed

end FilesLeft

theorem Partitioned.filesLeft (h : Partitioned t l moved u) : FilesLeft t l moved u where
  gone := h.gone
  stays _ hn hs := h.entry?_stays hn (ne_largeName hs)

end Prune
end GridPuzzles
