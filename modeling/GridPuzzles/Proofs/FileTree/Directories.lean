import GridPuzzles.Proofs.FileTree.Destination
import GridPuzzles.Proofs.FileTree.Renaming
import GridPuzzles.Proofs.Path.Parent

/-! Making a directory together with those above it that are missing. Each of them is at a leading
part of the path, so whatever the tree had before stays as it was, and a directory that is there
already is not made again. -/
namespace GridPuzzles
namespace FileTree

variable {t u v : FileTree} {p q : Path} {l k : Location} {n : Name}

theorem namesDirectory_root (h0 : p.bytes ≠ []) (h : p.parent? = none) (hp : ¬ TooLong p) :
    t.NamesDirectory p [] := by
  have hzero : 0 ∉ p.bytes := by
    intro hmem
    have hbody : (0 : UInt8) ∈ p.reversedBody :=
      Path.mem_trimEnd (by decide) (by decide) (List.mem_reverse.mpr hmem)
    rw [Path.reversedBody_of_parent?_eq_none h0 h] at hbody
    revert hbody
    decide
  exact ⟨(leadsTo_root t (Path.components_of_parent?_eq_none h0 h)).locate
    (checkPath_eq_ok.mpr ⟨hzero, h0, hp⟩), isDirectoryAt_iff.mpr (entry?_root t)⟩

/-- The tree `u` has all that `t` has, and besides directories, which leading parts of a path
name. -/
structure AddsDirectories (t : FileTree) (p : Path) (u : FileTree) : Prop where
  kept : ∀ k e, t.entry? k = some e → u.entry? k = some e
  added : ∀ k, t.entry? k = none → (u.entry? k).isSome →
    ∃ q, q.components <+: p.components ∧ u.NamesDirectory q k
  workingDirectory : u.workingDirectory = t.workingDirectory

namespace AddsDirectories

theorem refl (t : FileTree) (p : Path) : t.AddsDirectories p t where
  kept _ _ h := h
  added k hnone hsome := by simp [hnone] at hsome
  workingDirectory := rfl

theorem extends_before (h : t.AddsDirectories p u) : t.Extends u where
  directory k hk := isDirectoryAt_iff.mpr (h.kept k _ (isDirectoryAt_iff.mp hk))
  entry k hk := by
    obtain ⟨e, he⟩ := Option.isSome_iff_exists.mp hk
    rw [h.kept k e he]
    rfl
  workingDirectory := h.workingDirectory

theorem namesDirectory (h : t.AddsDirectories p u) (hq : t.NamesDirectory q k) :
    u.NamesDirectory q k :=
  ⟨h.extends_before.locate hq.locate, h.extends_before.directory k hq.directory⟩

theorem trans (h : t.AddsDirectories p u) (h' : u.AddsDirectories p v) :
    t.AddsDirectories p v where
  kept k e he := h'.kept k e (h.kept k e he)
  added k hnone hsome := by
    cases hk : u.entry? k with
    | none => exact h'.added k hk hsome
    | some e =>
      obtain ⟨q, hprefix, hq⟩ := h.added k hnone (by simp [hk])
      exact ⟨q, hprefix, h'.namesDirectory hq⟩
  workingDirectory := h'.workingDirectory.trans h.workingDirectory

theorem of_prefix (h : t.AddsDirectories q u) (hq : q.components <+: p.components) :
    t.AddsDirectories p u where
  kept := h.kept
  added k hnone hsome := by
    obtain ⟨r, hr, hk⟩ := h.added k hnone hsome
    exact ⟨r, hr.trans hq, hk⟩
  workingDirectory := h.workingDirectory

end AddsDirectories

theorem makeDirectory_eq_ok (h : t.makeDirectory p = .ok u) :
    ∃ k n, t.locateParent p = .ok (k, .name n) ∧ n.length ≤ nameLimit ∧
      t.entry? (k ++ [n]) = none ∧ u = t.put (k ++ [n]) (.directory []) := by
  obtain ⟨⟨k, last⟩, hp, h⟩ := bind_eq_ok.mp h
  cases last with
  | nothing => cases h
  | dots => cases h
  | name n =>
    simp only at h
    split at h
    · cases h
    · rename_i hlen
      split at h
      · cases h
      · rename_i hnone
        cases h
        exact ⟨k, n, hp, Nat.not_lt.mp hlen, by simpa using hnone, rfl⟩

theorem addsDirectories_makeDirectory (h : t.makeDirectory p = .ok u) :
    t.AddsDirectories p u ∧ ∃ l, u.NamesDirectory p l := by
  obtain ⟨k, n, hp, hlen, hnone, hu⟩ := makeDirectory_eq_ok h
  have hvacant : ¬ t.isDirectoryAt (k ++ [n]) := by
    rw [isDirectoryAt_iff, hnone]
    simp
  have hentry (j : Location) :
      u.entry? j = if j = k ++ [n] then some .directory else t.entry? j := by
    rw [hu]
    exact entry?_put_leaf (fun _ _ => rfl) (isDirectoryAt_of_locateParent hp) hvacant j
  have hkept : ∀ j e, t.entry? j = some e → u.entry? j = some e := by
    intro j e he
    rw [hentry, if_neg, he]
    rintro rfl
    rw [hnone] at he
    cases he
  have hworking : u.workingDirectory = t.workingDirectory := by
    rw [hu]
    rfl
  have hp' : u.locateParent p = .ok (k, .name n) :=
    locateParent_mono (fun j hj => isDirectoryAt_iff.mpr (hkept j _ (isDirectoryAt_iff.mp hj)))
      (fun _ => hworking) hp
  have hnames : u.NamesDirectory p (k ++ [n]) :=
    namesDirectory_of_locateParent hp' hlen (isDirectoryAt_iff.mpr (by rw [hentry, if_pos rfl]))
  refine ⟨⟨hkept, ?_, hworking⟩, k ++ [n], hnames⟩
  intro j hj hsome
  rw [hentry] at hsome
  split at hsome
  · rename_i hjk
    exact ⟨p, List.prefix_refl _, hjk ▸ hnames⟩
  · rw [hj] at hsome
    cases hsome

theorem NamesDirectory.exists_parent (h : t.NamesDirectory p l) :
    ∃ k, t.locateParent p = .ok (k, lastOf p) ∧
      ∀ n, lastOf p = .name n → t.step k n = .ok l := by
  have hwalk := h.walk_steps
  rcases List.eq_nil_or_concat p.steps with hsteps | ⟨init, m, hsteps⟩
  · have hlast : lastOf p = .nothing := by
      rw [lastOf, hsteps]
      rfl
    rw [hsteps] at hwalk
    refine ⟨l, locateParent_eq_ok.mpr ⟨h.checkPath_eq, ?_, h.directory, rfl⟩, by simp [hlast]⟩
    rwa [hsteps]
  · rw [List.concat_eq_append] at hsteps
    rw [hsteps, walk_append] at hwalk
    obtain ⟨k, hk, hm⟩ := bind_eq_ok.mp hwalk
    rw [walk_singleton] at hm
    refine ⟨k, locateParent_eq_ok.mpr ⟨h.checkPath_eq, ?_, isDirectoryAt_of_step hm, rfl⟩, ?_⟩
    · rwa [hsteps, List.dropLast_concat]
    · intro n hn
      have hlast := (Path.last_step_of_lastOf hn).1
      rw [hsteps, List.getLast?_concat, Option.some.injEq] at hlast
      rwa [← hlast]

theorem makeDirectory_of_namesDirectory (h : t.NamesDirectory p l) :
    t.makeDirectory p = .error .alreadyExists := by
  obtain ⟨k, hp, hstep⟩ := h.exists_parent
  rw [makeDirectory, hp, ok_bind]
  cases hlast : lastOf p with
  | nothing => rfl
  | dots => rfl
  | name n =>
    obtain ⟨-, hhere, hup⟩ := Path.last_step_of_lastOf hlast
    have hn := hstep n hlast
    have hlen : ¬ nameLimit < n.length := by
      intro hlen
      simp [step, hhere, hup, hlen, isDirectoryAt_of_step hn] at hn
    have hsome : (t.entry? (k ++ [n])).isSome := by
      by_contra hnone
      rw [Bool.not_eq_true, Option.isSome_eq_false_iff] at hnone
      simp [step, hhere, hup, hlen, hnone, isDirectoryAt_of_step hn] at hn
    simp [hlen, hsome]

theorem ensureOne_of_namesDirectory (h : t.NamesDirectory p l) : t.ensureOne p = .ok t := by
  rw [ensureOne, makeDirectory_of_namesDirectory h]
  exact if_pos h.isDirectory_eq

theorem addsDirectories_ensureOne (h : t.ensureOne p = .ok u) :
    t.AddsDirectories p u ∧ ∃ l, u.NamesDirectory p l := by
  rw [ensureOne] at h
  split at h
  · split at h
    · rename_i hd
      cases h
      exact ⟨.refl t p, namesDirectory_of_isDirectory hd⟩
    · cases h
  · exact addsDirectories_makeDirectory h

theorem conclude_error {r : Except DiskError FileTree} {e : DiskError}
    (h : (conclude t r).2 = .error e) : (conclude t r).1 = t := by
  cases r with
  | ok u => cases h
  | error e' => rfl

theorem makeBelow_of_namesDirectory (h : t.NamesDirectory p l) (above : List Path) :
    t.makeBelow p above = (t, .ok ()) := by
  have hone := ensureOne_of_namesDirectory h
  rw [makeBelow_eq (by simp [hone]), hone]
  rfl

theorem makeDirectories_of_namesDirectory (h : t.NamesDirectory p l) :
    t.makeDirectories p = (t, .ok ()) := by
  rw [makeDirectories]
  split
  · rfl
  · exact makeBelow_of_namesDirectory h p.above

theorem makeDirectory_of_vacant (hp : t.locateParent p = .ok (l, .name n))
    (hlen : n.length ≤ nameLimit) (hnone : t.entry? (l ++ [n]) = none) :
    t.makeDirectory p = .ok (t.put (l ++ [n]) (.directory [])) := by
  rw [makeDirectory, hp, ok_bind]
  simp [Nat.not_lt.mpr hlen, hnone]

theorem makeDirectories_of_vacant (hp : t.locateParent p = .ok (l, .name n))
    (hlen : n.length ≤ nameLimit) (hnone : t.entry? (l ++ [n]) = none) :
    (t.makeDirectories p).2 = .ok () := by
  have hone : t.ensureOne p = .ok (t.put (l ++ [n]) (.directory [])) := by
    rw [ensureOne, makeDirectory_of_vacant hp hlen hnone]
  rw [makeDirectories]
  split
  · rfl
  · rw [makeBelow_eq (by simp [hone]), hone]
    rfl

/-- What making a directory with those above it leaves, whether it succeeds or not. -/
structure Makes (t : FileTree) (p : Path) (made : FileTree × Except DiskError Unit) : Prop where
  adds : t.AddsDirectories p made.1
  named : made.2 = .ok () → ∃ l, made.1.NamesDirectory p l

theorem makes_conclude (t : FileTree) (p : Path) : t.Makes p (conclude t (t.ensureOne p)) := by
  cases h : t.ensureOne p with
  | ok u =>
    obtain ⟨hadds, hnamed⟩ := addsDirectories_ensureOne h
    exact ⟨hadds, fun _ => hnamed⟩
  | error e => exact ⟨.refl t p, fun he => by cases he⟩

/-- The directories above a path are made before the path is tried again. The recursion goes up
from parent to parent, so all that is made is named by leading parts of the path. -/
theorem makes_makeBelow (t : FileTree) (p : Path) : t.Makes p (t.makeBelow p p.above) := by
  induction p using Path.above.induct generalizing t with
  | case1 p hp =>
    rw [Path.above_of_parent?_eq_none hp]
    exact makes_conclude t p
  | case2 p q hp hq =>
    rw [Path.above_of_parent? hp, if_pos hq]
    exact makes_conclude t p
  | case3 p q hp hq ih =>
    rw [Path.above_of_parent? hp, if_neg hq, makeBelow]
    split
    · have hadds := (ih t).adds.of_prefix (Path.components_parent?_prefix hp)
      split
      · rename_i u hu
        rw [hu] at hadds
        have hagain := makes_conclude u p
        exact ⟨hadds.trans hagain.adds, hagain.named⟩
      · rename_i u e hu
        rw [hu] at hadds
        exact ⟨hadds, fun he => by cases he⟩
    · exact makes_conclude t p

theorem makeBelow_error {above : List Path} {e : DiskError} (hq : t.NamesDirectory q l)
    (h : (t.makeBelow p (q :: above)).2 = .error e) : (t.makeBelow p (q :: above)).1 = t := by
  rw [makeBelow] at h ⊢
  split at h
  · rw [makeBelow_of_namesDirectory hq] at h ⊢
    exact conclude_error h
  · exact conclude_error h

/-- A refusal leaves the tree as it was, if the parent of the path is the working directory or
another directory that is there. -/
theorem makeDirectories_error {e : DiskError} (hparent : p.parent? = some q)
    (hq : q.bytes = [] ∨ t.isDirectory q) (h : (t.makeDirectories p).2 = .error e) :
    (t.makeDirectories p).1 = t := by
  have hp : p.parent? ≠ none := by simp [hparent]
  rw [makeDirectories, if_neg hp, Path.above_of_parent? hparent] at h ⊢
  by_cases htop : q.parent? = none
  · rw [if_pos htop] at h ⊢
    exact conclude_error h
  · rw [if_neg htop] at h ⊢
    rcases hq with hempty | hq
    · exact absurd (by rw [Path.parent?, Path.reversedBody, hempty]; rfl) htop
    · obtain ⟨l, hl⟩ := namesDirectory_of_isDirectory hq
      exact makeBelow_error hl h

end FileTree
end GridPuzzles
