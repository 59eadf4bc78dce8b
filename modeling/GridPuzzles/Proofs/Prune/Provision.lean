import GridPuzzles.Proofs.FileTree.Directories
import GridPuzzles.Prune.Pass

/-! Providing a directory, in which files can then be put. This only ever adds directories on the
way to it, and once it is there nothing more is done. -/
namespace GridPuzzles
namespace Prune

open FileTree (TooLong)

variable {t : FileTree} {dir : Path}

/-- A directory has been provided, or it has been found that it cannot be; either way there may be
more directories than before, and nothing else is different. -/
structure Provides (t : FileTree) (dir : Path) (made : Run Fault Unit) : Prop where
  adds : t.AddsDirectories dir made.tree
  /-- The path leads to a directory, however long it is. -/
  leads : made.result = .ok () → ∃ l, made.tree.LeadsTo dir l ∧ made.tree.isDirectoryAt l
  /-- Requests can be made with the path, if it is not too long for any request. -/
  found : made.result = .ok () → ¬ TooLong dir → made.tree.isDirectory dir
  again : made.result = .ok () → ensureDirectory made.tree dir = ⟨made.tree, [], .ok ()⟩
  ready : t.isDirectory dir → made = ⟨t, [], .ok ()⟩
  free : ∀ k n, t.locateParent dir = .ok (k, .name n) → n.length ≤ FileTree.nameLimit →
    t.entry? (k ++ [n]) = none → made.result = .ok ()
  unchanged : ∀ parent, dir.parent? = some parent → parent.bytes = [] ∨ t.isDirectory parent →
    ∀ fault, made.result = .error fault → made.tree = t
  blames : ∀ fault, made.result = .error fault → ∃ e, fault = .disk dir e

theorem ensureDirectory_of_ok {u : FileTree} (h : t.makeDirectories dir = (u, .ok ())) :
    ensureDirectory t dir = ⟨u, [], .ok ()⟩ := by
  rw [ensureDirectory, h]

theorem ensureDirectory_of_error {u : FileTree} {e : DiskError}
    (h : t.makeDirectories dir = (u, .error e)) :
    ensureDirectory t dir = ⟨u, [], .error (.disk dir e)⟩ := by
  rw [ensureDirectory, h]

theorem ensureDirectory_of_isDirectory (h : t.isDirectory dir) :
    ensureDirectory t dir = ⟨t, [], .ok ()⟩ := by
  obtain ⟨l, hl⟩ := FileTree.namesDirectory_of_isDirectory h
  exact ensureDirectory_of_ok (FileTree.makeDirectories_of_namesDirectory hl)

theorem ensureDirectory_of_vacant {k : Location} {n : Name}
    (hp : t.locateParent dir = .ok (k, .name n)) (hlen : n.length ≤ FileTree.nameLimit)
    (hnone : t.entry? (k ++ [n]) = none) : (ensureDirectory t dir).result = .ok () := by
  have hmade := FileTree.makeDirectories_of_vacant hp hlen hnone
  rw [ensureDirectory_of_ok (Prod.ext rfl hmade)]

theorem provides_root (h0 : dir.bytes ≠ []) (h : dir.parent? = none) :
    Provides t dir (ensureDirectory t dir) := by
  have hmade : ensureDirectory t dir = ⟨t, [], .ok ()⟩ := ensureDirectory_of_ok (if_pos h)
  rw [hmade]
  constructor
  case adds => exact .refl t dir
  case leads =>
    intro _
    exact ⟨[], FileTree.leadsTo_root t (Path.components_of_parent?_eq_none h0 h),
      FileTree.isDirectoryAt_iff.mpr (FileTree.entry?_root t)⟩
  case found => exact fun _ hshort => (FileTree.namesDirectory_root h0 h hshort).isDirectory_eq
  case again => exact fun _ => hmade
  case ready => exact fun _ => rfl
  case free => exact fun _ _ _ _ _ => rfl
  case unchanged => exact fun _ _ _ _ _ => rfl
  case blames => simp

/-- Providing a directory only adds directories at leading parts of the path, whether it succeeds or
not. Providing it again changes nothing, and neither does a failure below a directory that is there.
-/
theorem ensureDirectory_provides (t : FileTree) (dir : Path) (h0 : dir.bytes ≠ []) :
    Provides t dir (ensureDirectory t dir) := by
  by_cases hroot : dir.parent? = none
  · exact provides_root h0 hroot
  · have hmakes : t.Makes dir (t.makeDirectories dir) := by
      rw [FileTree.makeDirectories, if_neg hroot]
      exact FileTree.makes_makeBelow t dir
    have hready : t.isDirectory dir → ensureDirectory t dir = ⟨t, [], .ok ()⟩ :=
      ensureDirectory_of_isDirectory
    have hfree (k : Location) (n : Name) (hp : t.locateParent dir = .ok (k, .name n))
        (hlen : n.length ≤ FileTree.nameLimit) (hnone : t.entry? (k ++ [n]) = none) :
        (ensureDirectory t dir).result = .ok () :=
      ensureDirectory_of_vacant hp hlen hnone
    cases hmade : t.makeDirectories dir with
    | mk u result =>
      rw [hmade] at hmakes
      cases result with
      | ok done =>
        have hensured := ensureDirectory_of_ok hmade
        obtain ⟨l, hl⟩ := hmakes.named rfl
        rw [hensured] at hready hfree ⊢
        constructor
        case adds => exact hmakes.adds
        case leads => exact fun _ => ⟨l, hl.leadsTo, hl.directory⟩
        case found => exact fun _ _ => hl.isDirectory_eq
        case again => exact fun _ => ensureDirectory_of_isDirectory hl.isDirectory_eq
        case ready => exact hready
        case free => exact hfree
        case unchanged => simp
        case blames => simp
      | error e =>
        rw [ensureDirectory_of_error hmade] at hready hfree ⊢
        constructor
        case adds => exact hmakes.adds
        case leads => simp
        case found => simp
        case again => simp
        case ready => exact hready
        case free => exact hfree
        case unchanged =>
          intro parent hparent hd _ _
          have hsame := FileTree.makeDirectories_error hparent hd (congrArg Prod.snd hmade)
          rwa [hmade] at hsame
        case blames =>
          intro fault hfault
          cases hfault
          exact ⟨e, rfl⟩

def blockedTree : FileTree where
  root := [(ascii "d", .directory [(ascii "f", .file (.bytes []))])]
  workingDirectory := [ascii "d"]

/-- A file in the way is found after a directory on the way has been made. A detour does not matter,
nor do slashes and dots between the names. -/
theorem ensureDirectory_provides_blocked :
    let blocked : Path := ⟨ascii "x/../f/y"⟩
    let spelled : Path := ⟨ascii "x/../y//./z/"⟩
    let refused := ensureDirectory blockedTree blocked
    let made := ensureDirectory blockedTree spelled
    blocked.bytes ≠ [] ∧ refused.result = .error (.disk blocked .alreadyExists) ∧
      refused.tree.entry? [ascii "d", ascii "f"] = some (.file (.bytes [])) ∧
      (∃ q, q.components <+: blocked.components ∧
        refused.tree.NamesDirectory q [ascii "d", ascii "x"]) ∧
      made.result = .ok () ∧ made.tree.isDirectory spelled := by
  intro blocked spelled refused made
  have hrefused := ensureDirectory_provides blockedTree blocked (by decide)
  have hmade := ensureDirectory_provides blockedTree spelled (by decide)
  have hresult : made.result = .ok () := by decide +kernel
  exact ⟨by decide, by decide +kernel, hrefused.adds.kept _ _ rfl,
    hrefused.adds.added _ rfl (by decide +kernel), hresult, hmade.found hresult (by decide)⟩

end Prune
end GridPuzzles
