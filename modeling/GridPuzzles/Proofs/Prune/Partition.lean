import GridPuzzles.Proofs.FileTree.Requests
import GridPuzzles.Prune.Pass

/-! A partly partitioned directory: some of its files have gone to the directory for large tasks and
everything else is as before. -/
namespace GridPuzzles
namespace Prune

open FileTree (isDirectoryAt_iff)

variable {t u : FileTree} {dir : Path} {l k : Location} {n : Name} {moved : List Name}

theorem largeName_proper : Name.Proper largeName := by
  constructor <;> decide

/-- The tree `u` is `t` with the directory for large tasks and with the named files of the
directory at `l` moved there. A moved file may take the place of a file. -/
structure Partitioned (t : FileTree) (l : Location) (moved : List Name) (u : FileTree) :
    Prop where
  file : ∀ n ∈ moved, ∃ c, t.entry? (l ++ [n]) = some (.file c)
  free : ∀ n ∈ moved, ¬ t.isDirectoryAt (l ++ [largeName, n])
  vacant : ∀ c, t.entry? (l ++ [largeName]) ≠ some (.file c)
  large : u.entry? (l ++ [largeName]) = some .directory
  gone : ∀ n ∈ moved, u.entry? (l ++ [n]) = none
  arrived : ∀ n ∈ moved, u.entry? (l ++ [largeName, n]) = t.entry? (l ++ [n])
  kept : ∀ k, k ≠ l ++ [largeName] →
    (∀ n ∈ moved, k ≠ l ++ [n] ∧ k ≠ l ++ [largeName, n]) → u.entry? k = t.entry? k
  workingDirectory : t.isDirectoryAt t.workingDirectory →
    u.workingDirectory = t.workingDirectory

namespace Partitioned

theorem congr {others : List Name} (h : Partitioned t l moved u)
    (he : ∀ n, n ∈ others ↔ n ∈ moved) : Partitioned t l others u where
  file n hn := h.file n ((he n).mp hn)
  free n hn := h.free n ((he n).mp hn)
  vacant := h.vacant
  large := h.large
  gone n hn := h.gone n ((he n).mp hn)
  arrived n hn := h.arrived n ((he n).mp hn)
  kept k hl hk := h.kept k hl fun n hn => hk n ((he n).mpr hn)
  workingDirectory := h.workingDirectory

theorem isDirectoryAt (h : Partitioned t l moved u) (hk : t.isDirectoryAt k) :
    u.isDirectoryAt k := by
  rw [isDirectoryAt_iff] at hk ⊢
  by_cases hl : k = l ++ [largeName]
  · rw [hl, h.large]
  · rw [h.kept k hl, hk]
    intro n hn
    obtain ⟨c, hc⟩ := h.file n hn
    constructor
    · rintro rfl
      rw [hc] at hk
      cases hk
    · rintro rfl
      exact h.free n hn (isDirectoryAt_iff.mpr hk)

theorem namesDirectory (h : Partitioned t l moved u) (hd : t.NamesDirectory dir k) :
    u.NamesDirectory dir k :=
  hd.mono (fun _ => h.isDirectoryAt) h.workingDirectory

theorem entry?_congr {s v : FileTree} (hu : Partitioned t l moved u) (hv : Partitioned s l moved v)
    (hs : ∀ n ∈ moved, s.entry? (l ++ [n]) = t.entry? (l ++ [n]))
    (hk : s.entry? k = t.entry? k) : v.entry? k = u.entry? k := by
  by_cases hl : k = l ++ [largeName]
  · rw [hl, hu.large, hv.large]
  · by_cases hout : ∀ n ∈ moved, k ≠ l ++ [n] ∧ k ≠ l ++ [largeName, n]
    · rw [hu.kept k hl hout, hv.kept k hl hout, hk]
    · push Not at hout
      obtain ⟨n, hn, hin⟩ := hout
      by_cases hsource : k = l ++ [n]
      · rw [hsource, hu.gone n hn, hv.gone n hn]
      · rw [hin hsource, hu.arrived n hn, hv.arrived n hn, hs n hn]

theorem entry?_eq {v : FileTree} (hu : Partitioned t l moved u) (hv : Partitioned t l moved v)
    (k : Location) : u.entry? k = v.entry? k :=
  hv.entry?_congr hu (fun _ _ => rfl) rfl

theorem entry?_stays (h : Partitioned t l moved u) (hn : n ∉ moved) (hl : n ≠ largeName) :
    u.entry? (l ++ [n]) = t.entry? (l ++ [n]) := by
  apply h.kept
  · simpa using hl
  · intro m hm
    constructor
    · intro he
      have hnm : n = m := by simpa using he
      exact hn (hnm ▸ hm)
    · intro he
      simp at he

theorem entry?_target (h : Partitioned t l moved u) (hn : n ∉ moved) :
    u.entry? (l ++ [largeName, n]) = t.entry? (l ++ [largeName, n]) := by
  apply h.kept
  · intro he
    simp at he
  · intro m hm
    constructor
    · intro he
      simp at he
    · intro he
      have hnm : n = m := by simpa using he
      exact hn (hnm ▸ hm)

theorem entry?_move {c : Content} (h : Partitioned t l moved u) (hn : n ∉ moved)
    (hl : n ≠ largeName) (hc : t.entry? (l ++ [n]) = some (.file c)) (k : Location) :
    FileTree.entry? (u.move (l ++ [n]) (l ++ [largeName, n])) k =
      if l ++ [largeName, n] <+: k then
        u.entry? (l ++ [n] ++ k.drop (l ++ [largeName, n]).length)
      else if l ++ [n] <+: k then none else u.entry? k := by
  have hdrop : (l ++ [largeName, n]).dropLast = l ++ [largeName] := by
    rw [← FileTree.append_pair, List.dropLast_concat]
  apply FileTree.entry?_move
  · rw [h.entry?_stays hn hl, hc]
    rfl
  · simp
  · simp
  · rw [hdrop]
    exact isDirectoryAt_iff.mpr h.large
  · rw [hdrop, List.prefix_append_right_inj]
    simpa using hl

/-- Nothing lies below a file, neither where it was nor where it goes. -/
theorem entry?_move_kept {c : Content} (h : Partitioned t l moved u) (hn : n ∉ moved)
    (hl : n ≠ largeName) (hc : t.entry? (l ++ [n]) = some (.file c))
    (hf : ¬ t.isDirectoryAt (l ++ [largeName, n])) (hlarge : k ≠ l ++ [largeName])
    (hk : ∀ m ∈ moved ++ [n], k ≠ l ++ [m] ∧ k ≠ l ++ [largeName, m]) :
    FileTree.entry? (u.move (l ++ [n]) (l ++ [largeName, n])) k = t.entry? k := by
  obtain ⟨hkn, hkt⟩ := hk n (by simp)
  rw [h.entry?_move hn hl hc]
  by_cases ht : l ++ [largeName, n] <+: k
  · obtain ⟨j, rfl⟩ := ht
    have hj : j ≠ [] := fun e => hkt (by simp [e])
    have hu : u.entry? (l ++ [n]) = some (.file c) := by rw [h.entry?_stays hn hl, hc]
    rw [if_pos (List.prefix_append _ _), List.drop_left,
      FileTree.entry?_below (FileTree.not_isDirectoryAt_of_file hu) hj,
      FileTree.entry?_below hf hj]
  · rw [if_neg ht]
    by_cases hs : l ++ [n] <+: k
    · obtain ⟨j, rfl⟩ := hs
      have hj : j ≠ [] := fun e => hkn (by simp [e])
      rw [if_pos (List.prefix_append _ _),
        FileTree.entry?_below (FileTree.not_isDirectoryAt_of_file hc) hj]
    · rw [if_neg hs]
      exact h.kept k hlarge fun m hm => hk m (by simp [hm])

theorem workingDirectory_move {c : Content} {target : Location} (h : Partitioned t l moved u)
    (hc : t.entry? (l ++ [n]) = some (.file c)) (hw : t.isDirectoryAt t.workingDirectory) :
    (u.move (l ++ [n]) target).workingDirectory = t.workingDirectory := by
  have hu := h.workingDirectory hw
  rw [FileTree.workingDirectory_move, hu]
  rw [hu]
  exact FileTree.not_prefix_of_file hc hw

/-- Moving one more file keeps the form. -/
theorem move {c : Content} (h : Partitioned t l moved u) (hn : n ∉ moved) (hl : n ≠ largeName)
    (hc : t.entry? (l ++ [n]) = some (.file c)) (hf : ¬ t.isDirectoryAt (l ++ [largeName, n])) :
    Partitioned t l (moved ++ [n]) (u.move (l ++ [n]) (l ++ [largeName, n])) := by
  have hlong (m : Name) : ¬ l ++ [largeName, n] <+: l ++ [m] := by
    intro hp
    have hlen := hp.length_le
    simp at hlen
  constructor
  case file =>
    intro m hm
    rcases List.mem_append.mp hm with hm | hm
    · exact h.file m hm
    · rw [List.mem_singleton.mp hm]
      exact ⟨c, hc⟩
  case free =>
    intro m hm
    rcases List.mem_append.mp hm with hm | hm
    · exact h.free m hm
    · rw [List.mem_singleton.mp hm]
      exact hf
  case vacant => exact h.vacant
  case large =>
    rw [h.entry?_move hn hl hc, if_neg (hlong _), if_neg, h.large]
    rw [List.prefix_append_right_inj]
    simpa using hl
  case gone =>
    intro m hm
    rw [h.entry?_move hn hl hc, if_neg (hlong m)]
    by_cases hmn : l ++ [n] <+: l ++ [m]
    · rw [if_pos hmn]
    · rw [if_neg hmn]
      rcases List.mem_append.mp hm with hm | hm
      · exact h.gone m hm
      · rw [List.mem_singleton.mp hm] at hmn
        exact absurd (List.prefix_refl _) hmn
  case arrived =>
    intro m hm
    rw [h.entry?_move hn hl hc]
    by_cases hmn : m = n
    · rw [hmn, if_pos (List.prefix_refl _), List.drop_length, List.append_nil,
        h.entry?_stays hn hl]
    · have hm' : m ∈ moved := by simpa [hmn] using hm
      rw [if_neg, if_neg, h.arrived m hm']
      · rw [List.prefix_append_right_inj, List.cons_prefix_cons]
        exact fun he => hl he.1
      · rw [List.prefix_append_right_inj]
        simpa using Ne.symm hmn
  case kept => exact fun k hlarge hk => h.entry?_move_kept hn hl hc hf hlarge hk
  case workingDirectory => exact h.workingDirectory_move hc

theorem largeName_notMem (h : Partitioned t l moved u) : largeName ∉ moved := by
  intro hm
  obtain ⟨c, hc⟩ := h.file largeName hm
  exact h.vacant c hc

theorem wellNamed (h : Partitioned t l moved u) (hw : t.WellNamed) : u.WellNamed := by
  intro k n hn
  rw [FileTree.mem_namesAt] at hn
  by_cases hl : k ++ [n] = l ++ [largeName]
  · obtain ⟨-, hname⟩ := List.append_inj' hl rfl
    cases hname
    exact largeName_proper
  · by_cases hk : ∀ m ∈ moved, k ++ [n] ≠ l ++ [m] ∧ k ++ [n] ≠ l ++ [largeName, m]
    · rw [h.kept _ hl hk] at hn
      exact hw k n (FileTree.mem_namesAt.mpr hn)
    · push Not at hk
      obtain ⟨m, hm, hk⟩ := hk
      obtain ⟨c, hc⟩ := h.file m hm
      have hproper : m.Proper := hw l m (by simp [FileTree.mem_namesAt, hc])
      have hlast : (k ++ [n]).getLast? = some m := by
        by_cases hs : k ++ [n] = l ++ [m]
        · simp [hs]
        · simp [hk hs]
      have hnm : n = m := by simpa using hlast
      rwa [hnm]

theorem trans {more : List Name} {v : FileTree} (h : Partitioned t l moved u)
    (h' : Partitioned u l more v) : Partitioned t l (moved ++ more) v := by
  have hfresh : ∀ n ∈ more, n ∉ moved := by
    intro n hn hm
    obtain ⟨c, hc⟩ := h'.file n hn
    rw [h.gone n hm] at hc
    cases hc
  have hstays : ∀ n ∈ more, u.entry? (l ++ [n]) = t.entry? (l ++ [n]) := fun n hn =>
    h.entry?_stays (hfresh n hn) fun he => h'.largeName_notMem (he ▸ hn)
  constructor
  case file =>
    intro n hn
    rcases List.mem_append.mp hn with hn | hn
    · exact h.file n hn
    · obtain ⟨c, hc⟩ := h'.file n hn
      exact ⟨c, (hstays n hn).symm.trans hc⟩
  case free =>
    intro n hn
    rcases List.mem_append.mp hn with hn | hn
    · exact h.free n hn
    · have hfree := h'.free n hn
      rwa [FileTree.isDirectoryAt, h.entry?_target (hfresh n hn)] at hfree
  case vacant => exact h.vacant
  case large => exact h'.large
  case gone =>
    intro n hn
    rcases List.mem_append.mp hn with hn | hn
    · rw [h'.entry?_stays (fun hm => hfresh n hm hn) fun he => h.largeName_notMem (he ▸ hn),
        h.gone n hn]
    · exact h'.gone n hn
  case arrived =>
    intro n hn
    rcases List.mem_append.mp hn with hn | hn
    · rw [h'.entry?_target fun hm => hfresh n hm hn, h.arrived n hn]
    · rw [h'.arrived n hn, hstays n hn]
  case kept =>
    intro k hl hk
    rw [h'.kept k hl fun n hn => hk n (List.mem_append_right _ hn),
      h.kept k hl fun n hn => hk n (List.mem_append_left _ hn)]
  case workingDirectory =>
    intro hd
    have hu := h.workingDirectory hd
    rw [h'.workingDirectory (by rw [hu]; exact h.isDirectoryAt hd), hu]

end Partitioned
end Prune
end GridPuzzles
