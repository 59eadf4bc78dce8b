import GridPuzzles.Prune.Pass
import GridPuzzles.Proofs.FileTree.Renaming

/-! Moving one file into a directory. Either the file goes there under its own name and nothing else
changes, or nothing changes at all and the error names the path at fault. -/
namespace GridPuzzles
namespace Prune

open FileTree (TooLong)

variable {t u : FileTree} {file dest : Path} {n : Name}

/-- What moving a file into a directory does is told by what renaming it does. -/
theorem relocate_cases (t : FileTree) (file dest : Path) :
    (file.fileName? = none ∧ relocate t file dest = ⟨t, [], .error (.pathNotFound file)⟩) ∨
    ∃ n, file.fileName? = some n ∧
      ((∃ u, t.rename file (dest.join n) = .ok u ∧
          relocate t file dest = ⟨u, [.moved file (dest.join n)], .ok (dest.join n)⟩) ∨
        ∃ e, t.rename file (dest.join n) = .error e ∧ relocate t file dest =
          ⟨t, [], .error (if e = .notFound ∧ t.isDirectory dest = false then .pathNotFound dest
            else .disk file e)⟩) := by
  rw [relocate]
  cases file.fileName? with
  | none => exact .inl ⟨rfl, rfl⟩
  | some n =>
    refine .inr ⟨n, rfl, ?_⟩
    cases hrename : t.rename file (dest.join n) with
    | ok u => exact .inl ⟨u, rfl, by simp [hrename]⟩
    | error e => exact .inr ⟨e, rfl, by simp [hrename]⟩

theorem relocate_of_walk {parent : Location × FileTree.Last}
    (hfile : t.locateParent file = .ok parent) (hname : file.fileName? = some n) (hn : n.Proper)
    (h0 : 0 ∉ dest.bytes) (hdest : t.walk (t.start dest) dest.steps = .error .notFound) :
    relocate t file dest =
      ⟨t, [], .error (if TooLong (dest.join n) then .disk file .nameTooLong
        else .pathNotFound dest)⟩ := by
  have hzero : 0 ∉ (dest.join n).bytes := fun h => h0 ((Path.zero_mem_join dest hn).mp h)
  have htarget := FileTree.locateParent_join_eq t h0 hn
  rw [hdest] at htarget
  rw [relocate, hname]
  by_cases hlong : TooLong (dest.join n)
  · rw [if_pos hlong] at htarget
    simp [FileTree.rename_of_target hzero hfile htarget, hlong]
  · rw [if_neg hlong] at htarget
    simp [FileTree.rename_of_target hzero hfile htarget, hlong,
      FileTree.isDirectory_of_walk hdest]

/-- A move of a file into a directory that does all or nothing, and blames the path at fault. -/
structure Relocates (t : FileTree) (file dest : Path) (moved : Run Fault Path) : Prop where
  renames : ∀ p, moved.result = .ok p →
    ∃ n c, file.fileName? = some n ∧ p = dest.join n ∧ t.Renames file p c moved.tree
  unchanged : ∀ fault, moved.result = .error fault → moved.tree = t
  faults : ∀ fault, moved.result = .error fault →
    fault = .pathNotFound file ∨ fault = .pathNotFound dest ∨ ∃ e, fault = .disk file e
  nameless : file.fileName? = none → moved.result = .error (.pathNotFound file)
  found : t.isDirectory dest → file.fileName? ≠ none →
    ∀ p, moved.result ≠ .error (.pathNotFound p)
  missing : ∀ c, t.inspect file = .ok (.file c) → dest.bytes ≠ [] →
    t.inspect dest = .error .notFound →
    (∀ n, file.fileName? = some n → ¬ TooLong (dest.join n)) →
    moved.result = .error (.pathNotFound dest)

theorem relocate_missing_directory {c : Content} (hfile : t.inspect file = .ok (.file c))
    (h0 : dest.bytes ≠ []) (hdest : t.inspect dest = .error .notFound)
    (hshort : ∀ n, file.fileName? = some n → ¬ TooLong (dest.join n)) :
    (relocate t file dest).result = .error (.pathNotFound dest) := by
  obtain ⟨k, n, hentry, -⟩ := FileTree.namesEntry_of_inspect hfile
  obtain ⟨hzero, hwalk⟩ := FileTree.walk_of_missing h0 (FileTree.inspect_eq_error.mp hdest)
  rw [relocate_of_walk hentry.parent hentry.fileName?_eq hentry.proper hzero hwalk,
    if_neg (hshort n hentry.fileName?_eq)]

/-- A file, or nothing at all, is moved into a directory all or nothing. -/
theorem relocate_all_or_nothing (hfile : t.inspect file ≠ .ok .directory) (dest : Path) :
    Relocates t file dest (relocate t file dest) := by
  rcases relocate_cases t file dest with ⟨hname, hrun⟩ | ⟨n, hname, h⟩
  · constructor
    case renames => simp [hrun]
    case unchanged => simp [hrun]
    case faults => simp [hrun]
    case nameless => simp [hrun]
    case found => exact fun _ h => absurd hname h
    case missing => exact fun _ => relocate_missing_directory
  · rcases h with ⟨u, hrename, hrun⟩ | ⟨e, hrename, hrun⟩
    · obtain ⟨c, hc⟩ := FileTree.renames_of_rename hfile hrename
      constructor
      case renames =>
        rw [hrun]
        intro p hp
        cases hp
        exact ⟨n, c, hname, rfl, hc⟩
      case unchanged => simp [hrun]
      case faults => simp [hrun]
      case nameless => simp [hname]
      case found => simp [hrun]
      case missing => exact fun _ => relocate_missing_directory
    · constructor
      case renames => simp [hrun]
      case unchanged => simp [hrun]
      case faults =>
        rw [hrun]
        intro fault hfault
        cases hfault
        split
        · exact .inr (.inl rfl)
        · exact .inr (.inr ⟨e, rfl⟩)
      case nameless => simp [hname]
      case found =>
        intro hd _
        simp [hrun, hd]
      case missing => exact fun _ => relocate_missing_directory

/-- A file in a directory, which also has another directory with an older file of that name. -/
def staleTree : FileTree where
  root :=
    [(ascii "d", .directory
      [(ascii "a.json", .file (.bytes (ascii "new"))),
        (ascii "large", .directory [(ascii "a.json", .file (.bytes (ascii "old")))])])]
  workingDirectory := [ascii "d"]

theorem relocate_all_or_nothing_stale :
    let file : Path := ⟨ascii "a.json"⟩
    let moved := relocate staleTree file ⟨ascii "large"⟩
    staleTree.inspect file ≠ .ok .directory ∧
      moved.result = .ok ⟨ascii "large/a.json"⟩ ∧
      (∃ c, staleTree.Renames file ⟨ascii "large/a.json"⟩ c moved.tree) ∧
      (relocate staleTree file ⟨ascii "gone"⟩).result = .error (.pathNotFound ⟨ascii "gone"⟩) := by
  intro file moved
  have hfile : staleTree.inspect file = .ok (.file (.bytes (ascii "new"))) := rfl
  have hentry : staleTree.inspect file ≠ .ok .directory := by simp [hfile]
  have hmoved : moved.result = .ok ⟨ascii "large/a.json"⟩ := by decide +kernel
  obtain ⟨n, c, -, -, hrenames⟩ :=
    (relocate_all_or_nothing hentry ⟨ascii "large"⟩).renames _ hmoved
  have hgone := (relocate_all_or_nothing hentry ⟨ascii "gone"⟩).missing _ hfile (by decide) rfl
    (by
      intro n hn
      cases hn
      decide +kernel)
  exact ⟨hentry, hmoved, ⟨c, hrenames⟩, hgone⟩

theorem relocate_succeeds_iff {c : Content} (hfile : t.inspect file = .ok (.file c))
    (hdest : t.isDirectory dest) (hname : file.fileName? = some n)
    (hshort : ¬ TooLong (dest.join n)) :
    (∃ p, (relocate t file dest).result = .ok p) ↔ ¬ t.isDirectory (dest.join n) := by
  obtain ⟨k, m, hentry, hc⟩ := FileTree.namesEntry_of_inspect hfile
  rw [hentry.fileName?_eq] at hname
  cases hname
  have hm := hentry.proper
  obtain ⟨l, hl⟩ := FileTree.namesDirectory_of_isDirectory hdest
  have htarget := hl.locateParent_join hm
  rw [if_neg hshort] at htarget
  have hrename := FileTree.rename_file hentry.parent htarget hm.length_le hc
  rw [if_neg (Nat.not_lt.mpr hm.length_le), hentry.spelled, Path.endsInSlash_join dest hm,
    Bool.or_self, if_neg Bool.false_ne_true] at hrename
  rw [hl.isDirectory_join hm, relocate, hentry.fileName?_eq]
  by_cases hd : t.isDirectoryAt (l ++ [n])
  · have hne : k ++ [n] ≠ l ++ [n] := fun e => FileTree.not_isDirectoryAt_of_file hc (e ▸ hd)
    rw [if_neg hne, if_pos hd] at hrename
    by_cases habove : l ++ [n] <+: k
    · simp [hrename, habove, hd, hshort]
    · simp [hrename, habove, hd, hshort]
  · have habove : ¬ l ++ [n] <+: k := by
      intro h
      have hk := hentry.directory
      rcases FileTree.eq_or_none_below hd h with rfl | hnone
      · exact hd hk
      · rw [FileTree.isDirectoryAt_iff, hnone] at hk
        cases hk
    rw [if_neg habove, if_neg hd] at hrename
    by_cases hsame : k ++ [n] = l ++ [n]
    · simp [hrename, hsame, hd]
    · simp [hrename, hsame, hd]

end Prune
end GridPuzzles
