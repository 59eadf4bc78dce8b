import GridPuzzles.Proofs.FileTree.Writing
import GridPuzzles.Proofs.Path.Extension

/-! Renaming a file. Only the place that the file leaves and the place that it takes change, and
there is a directory at neither, so all other paths lead where they led before. -/
namespace GridPuzzles
namespace FileTree

variable {t u : FileTree} {p q : Path} {l k j : Location} {n m : Name} {c : Content}

theorem isDirectoryAt_dropLast (h : t.isDirectoryAt l) : t.isDirectoryAt l.dropLast := by
  by_cases h0 : l = []
  · rw [h0] at h ⊢
    exact h
  · by_contra hd
    have hnone : t.entry? (l.dropLast ++ [l.getLast h0]) = none := entry?_below hd (by simp)
    rw [List.dropLast_append_getLast, isDirectoryAt_iff.mp h] at hnone
    cases hnone

theorem step_cases (h : t.step l n = .ok k) :
    t.isDirectoryAt k ∨ n ≠ Path.here ∧ n ≠ Path.up ∧ n.length ≤ nameLimit ∧ k = l ++ [n] ∧
      (t.entry? k).isSome := by
  have hl := isDirectoryAt_of_step h
  rw [step, hl] at h
  split at h
  · cases h
  · split at h
    · cases h
      exact .inl hl
    · rename_i hhere
      split at h
      · cases h
        exact .inl (isDirectoryAt_dropLast hl)
      · rename_i hup
        split at h
        · cases h
        · rename_i hlen
          split at h
          · cases h
          · rename_i hsome
            cases h
            refine .inr ⟨hhere, hup, Nat.not_lt.mp hlen, rfl, ?_⟩
            rwa [Option.isNone_iff_eq_none, ← ne_eq, ← Option.isSome_iff_ne_none] at hsome

theorem isSome_of_step (h : t.step l n = .ok k) : (t.entry? k).isSome := by
  rcases step_cases h with hk | ⟨-, -, -, -, hk⟩
  · simp [isDirectoryAt_iff.mp hk]
  · exact hk

theorem isSome_of_walk {ns : List Name} (hns : ns ≠ []) (h : t.walk l ns = .ok k) :
    (t.entry? k).isSome := by
  induction ns generalizing l with
  | nil => exact absurd rfl hns
  | cons n ns ih =>
    rw [walk] at h
    split at h
    · rename_i j hs
      by_cases hns : ns = []
      · rw [hns] at h
        cases h
        exact isSome_of_step hs
      · exact ih hns h
    · cases h

theorem steps_ne_nil (h : p.bytes ≠ []) (hs : p.endsInSlash = false) : p.steps ≠ [] := by
  rw [Path.steps]
  rcases Path.slash_notMem_or_exists_append p.bytes with hfree | ⟨a, n, hbytes, hn⟩
  · rw [Path.split_of_notMem hfree]
    simp [h]
  · have hn0 : n ≠ [] := by
      rintro rfl
      simp [Path.endsInSlash, hbytes] at hs
    rw [hbytes, Path.split_append_slash, Path.split_of_notMem hn, List.filter_append]
    simp [hn0]

theorem lookups_ne_nil (h : p.bytes ≠ []) : lookups p ≠ [] := by
  rw [lookups]
  split
  · simp
  · rename_i hs
    exact steps_ne_nil h (by simpa using hs)

theorem isSome_of_locate (h : t.locate p = .ok l) : (t.entry? l).isSome := by
  obtain ⟨_, hc, hw⟩ := bind_eq_ok.mp h
  exact isSome_of_walk (lookups_ne_nil (checkPath_eq_ok.mp hc).2.1) hw

theorem inspect_eq_error {e : DiskError} : t.inspect p = .error e ↔ t.locate p = .error e := by
  cases hp : t.locate p with
  | error e' => simp [inspect, hp, bind, Except.bind]
  | ok l =>
    obtain ⟨entry, hentry⟩ := Option.isSome_iff_exists.mp (isSome_of_locate hp)
    simp [inspect, hp, bind, Except.bind, hentry]

/-- A path spells a name in a directory, in which there need not be an entry of that name. -/
structure NamesEntry (t : FileTree) (p : Path) (k : Location) (n : Name) : Prop where
  parent : t.locateParent p = .ok (k, .name n)
  spelled : p.endsInSlash = false
  length_le : n.length ≤ nameLimit

namespace NamesEntry

theorem directory (h : t.NamesEntry p k n) : t.isDirectoryAt k :=
  isDirectoryAt_of_locateParent h.parent

theorem exists_join (h : t.NamesEntry p k n) : ∃ q : Path, p = q.join n ∧ n.Proper := by
  obtain ⟨hc, -, -, hlast⟩ := locateParent_eq_ok.mp h.parent
  obtain ⟨-, hhere, hup⟩ := Path.last_step_of_lastOf hlast
  obtain ⟨q, hq, hslash, hne⟩ := Path.exists_join_of_lastOf hlast h.spelled
  have hzero : 0 ∉ n := by
    intro hn
    apply (checkPath_eq_ok.mp hc).1
    rw [hq, Path.bytes_join]
    exact List.mem_append_right _ hn
  refine ⟨q, hq, ?_⟩
  constructor
  case ne_nil => exact hne
  case slash_notMem => exact hslash
  case zero_notMem => exact hzero
  case ne_here => exact hhere
  case ne_up => exact hup
  case length_le => exact h.length_le

theorem proper (h : t.NamesEntry p k n) : n.Proper := by
  obtain ⟨-, -, hn⟩ := h.exists_join
  exact hn

theorem fileName?_eq (h : t.NamesEntry p k n) : p.fileName? = some n := by
  obtain ⟨q, rfl, hn⟩ := h.exists_join
  exact Path.fileName?_join q hn

theorem locate_eq (h : t.NamesEntry p k n) :
    t.locate p = if (t.entry? (k ++ [n])).isNone then .error .notFound else .ok (k ++ [n]) :=
  locate_of_locateParent h.parent h.spelled h.length_le

theorem inspect_eq (h : t.NamesEntry p k n) :
    t.inspect p = match t.entry? (k ++ [n]) with
      | some e => .ok e
      | none => .error .notFound := by
  rw [inspect, h.locate_eq]
  cases he : t.entry? (k ++ [n]) <;> simp [bind, Except.bind, he]

theorem mono (hd : ∀ l, t.isDirectoryAt l → u.isDirectoryAt l)
    (hw : t.isDirectoryAt t.workingDirectory → u.workingDirectory = t.workingDirectory)
    (h : t.NamesEntry p k n) : u.NamesEntry p k n :=
  ⟨locateParent_mono hd hw h.parent, h.spelled, h.length_le⟩

end NamesEntry

theorem namesDirectory_of_locateParent (hp : t.locateParent p = .ok (k, .name n))
    (hlen : n.length ≤ nameLimit) (hd : t.isDirectoryAt (k ++ [n])) :
    t.NamesDirectory p (k ++ [n]) := by
  have hsteps : t.walk (t.start p) p.steps = .ok (k ++ [n]) := by
    rw [walk_steps_of_locateParent hp hlen, isDirectoryAt_iff.mp hd]
    rfl
  refine ⟨?_, hd⟩
  rw [locate, (locateParent_eq_ok.mp hp).1]
  exact walk_lookups hsteps hd

theorem inspect_of_locateParent (hp : t.locateParent p = .ok (k, .name n))
    (hlen : n.length ≤ nameLimit) (hd : t.isDirectoryAt (k ++ [n])) :
    t.inspect p = .ok .directory :=
  inspect_eq_ok.mpr ⟨k ++ [n], (namesDirectory_of_locateParent hp hlen hd).locate,
    isDirectoryAt_iff.mp hd⟩

theorem namesEntry_of_inspect (h : t.inspect p = .ok (.file c)) :
    ∃ k n, t.NamesEntry p k n ∧ t.entry? (k ++ [n]) = some (.file c) := by
  obtain ⟨l, hl, hc⟩ := inspect_eq_ok.mp h
  have hfile := not_isDirectoryAt_of_file hc
  obtain ⟨_, hcheck, hw⟩ := bind_eq_ok.mp hl
  have hspelled : p.endsInSlash = false := by
    by_contra hs
    rw [Bool.not_eq_false] at hs
    rw [lookups, if_pos hs, walk_append] at hw
    obtain ⟨k, -, hhere⟩ := bind_eq_ok.mp hw
    rw [walk_singleton] at hhere
    have hk := isDirectoryAt_of_step hhere
    rw [step_here hk] at hhere
    cases hhere
    exact hfile hk
  rw [lookups, hspelled, if_neg Bool.false_ne_true] at hw
  have hsteps := steps_ne_nil (checkPath_eq_ok.mp hcheck).2.1 hspelled
  rw [← List.dropLast_append_getLast hsteps, walk_append] at hw
  obtain ⟨k, hk, hlast⟩ := bind_eq_ok.mp hw
  rw [walk_singleton] at hlast
  obtain ⟨hhere, hup, hlen, rfl, -⟩ := (step_cases hlast).resolve_left hfile
  have hname : lastOf p = .name (p.steps.getLast hsteps) := by
    rw [lastOf, List.getLast?_eq_getLast_of_ne_nil hsteps]
    simp [hhere, hup]
  refine ⟨k, p.steps.getLast hsteps, ?_, hc⟩
  constructor
  case parent =>
    exact locateParent_eq_ok.mpr ⟨hcheck, hk, isDirectoryAt_of_step hlast, hname⟩
  case spelled => exact hspelled
  case length_le => exact hlen

/-- The tree `u` is the tree `t` once the file that one path names has gone to another path. -/
structure Renames (t : FileTree) (p q : Path) (c : Content) (u : FileTree) : Prop where
  source : t.inspect p = .ok (.file c)
  target : u.inspect q = .ok (.file c)
  gone : t.locate p ≠ t.locate q → u.inspect p = .error .notFound
  same : t.locate p = t.locate q → u = t
  kept : ∀ j, t.locate p ≠ .ok j → u.locate q ≠ .ok j → u.entry? j = t.entry? j

theorem entry?_move_file (hc : t.entry? (k ++ [m]) = some (.file c)) (hl : t.isDirectoryAt l)
    (hd : ¬ t.isDirectoryAt (l ++ [n])) (j : Location) :
    entry? (t.move (k ++ [m]) (l ++ [n])) j =
      if j = l ++ [n] then some (.file c) else if j = k ++ [m] then none else t.entry? j := by
  have hfile := not_isDirectoryAt_of_file hc
  rw [entry?_move (by simp [hc]) (by simp) (by simp) (by rwa [List.dropLast_concat])
    (by rw [List.dropLast_concat]; exact not_prefix_of_file hc hl)]
  by_cases htarget : l ++ [n] <+: j
  · rw [if_pos htarget]
    by_cases hj : j = l ++ [n]
    · rw [if_pos hj, hj, List.drop_length, List.append_nil, hc]
    · have hnone := (eq_or_none_below hd htarget).resolve_left hj
      obtain ⟨i, rfl⟩ := htarget
      have hi : i ≠ [] := by
        rintro rfl
        exact hj (List.append_nil _)
      rw [if_neg hj, hnone, ite_self, List.drop_left, entry?_below hfile hi]
  · have hj : j ≠ l ++ [n] := by
      rintro rfl
      exact htarget (List.prefix_refl _)
    rw [if_neg htarget, if_neg hj]
    by_cases hsource : k ++ [m] <+: j
    · rw [if_pos hsource]
      rcases eq_or_none_below hfile hsource with hj' | hnone
      · rw [if_pos hj']
      · rw [hnone, ite_self]
    · rw [if_neg hsource, if_neg]
      rintro rfl
      exact hsource (List.prefix_refl _)

theorem entry_of_rename (h : t.rename p q = .ok u) :
    ∃ k m l n e, t.locateParent p = .ok (k, .name m) ∧ t.locateParent q = .ok (l, .name n) ∧
      m.length ≤ nameLimit ∧ t.entry? (k ++ [m]) = some e := by
  rw [rename] at h
  split at h
  · cases h
  · obtain ⟨⟨k, source⟩, hp, h⟩ := bind_eq_ok.mp h
    obtain ⟨⟨l, target⟩, hq, h⟩ := bind_eq_ok.mp h
    cases source with
    | nothing => cases h
    | dots => cases h
    | name m =>
      cases target with
      | nothing => cases h
      | dots => cases h
      | name n =>
        simp only at h
        split at h
        · cases h
        · rename_i hlen
          cases he : t.entry? (k ++ [m]) with
          | none =>
            rw [he] at h
            cases h
          | some e => exact ⟨k, m, l, n, e, hp, hq, Nat.not_lt.mp hlen, he⟩

/-- A renamed file goes to the place that the new path spells, unless it is there already. -/
theorem places_of_rename (hp : t.inspect p ≠ .ok .directory) (h : t.rename p q = .ok u) :
    ∃ k m l n c, t.NamesEntry p k m ∧ t.NamesEntry q l n ∧
      t.entry? (k ++ [m]) = some (.file c) ∧
      (k ++ [m] = l ++ [n] ∧ u = t ∨
        k ++ [m] ≠ l ++ [n] ∧ ¬ t.isDirectoryAt (l ++ [n]) ∧
          u = t.move (k ++ [m]) (l ++ [n])) := by
  obtain ⟨k, m, l, n, e, hsource, htarget, hm, he⟩ := entry_of_rename h
  cases e with
  | directory =>
    exact absurd (inspect_of_locateParent hsource hm (isDirectoryAt_iff.mpr he)) hp
  | file c =>
    rw [rename_file hsource htarget hm he] at h
    split at h
    · cases h
    · rename_i hn
      split at h
      · cases h
      · rename_i hslash
        rw [Bool.or_eq_true, not_or, Bool.not_eq_true, Bool.not_eq_true] at hslash
        have hp' : t.NamesEntry p k m := ⟨hsource, hslash.1, hm⟩
        have hq' : t.NamesEntry q l n := ⟨htarget, hslash.2, Nat.not_lt.mp hn⟩
        refine ⟨k, m, l, n, c, hp', hq', he, ?_⟩
        split at h
        · cases h
        · split at h
          · rename_i hsame
            cases h
            exact .inl ⟨hsame, rfl⟩
          · rename_i hother
            split at h
            · cases h
            · rename_i hd
              cases h
              exact .inr ⟨hother, hd, rfl⟩

theorem isDirectoryAt_move_file (hc : t.entry? (k ++ [m]) = some (.file c))
    (hl : t.isDirectoryAt l) (hd : ¬ t.isDirectoryAt (l ++ [n])) (hj : t.isDirectoryAt j) :
    (t.move (k ++ [m]) (l ++ [n])).isDirectoryAt j := by
  have htarget : j ≠ l ++ [n] := fun e => hd (e ▸ hj)
  have hsource : j ≠ k ++ [m] := fun e => not_isDirectoryAt_of_file hc (e ▸ hj)
  rw [isDirectoryAt_iff] at hj ⊢
  rw [entry?_move_file hc hl hd, if_neg htarget, if_neg hsource, hj]

theorem renames_same (hp : t.NamesEntry p k m) (hq : t.NamesEntry q k m)
    (hc : t.entry? (k ++ [m]) = some (.file c)) : t.Renames p q c t where
  source := by rw [hp.inspect_eq, hc]
  target := by rw [hq.inspect_eq, hc]
  gone h := absurd (hp.locate_eq.trans hq.locate_eq.symm) h
  same _ := rfl
  kept _ _ _ := rfl

theorem renames_move (hp : t.NamesEntry p k m) (hq : t.NamesEntry q l n)
    (hc : t.entry? (k ++ [m]) = some (.file c)) (hne : k ++ [m] ≠ l ++ [n])
    (hd : ¬ t.isDirectoryAt (l ++ [n])) :
    t.Renames p q c (t.move (k ++ [m]) (l ++ [n])) := by
  have hentry := entry?_move_file hc hq.directory hd
  have hdirectory (j : Location) (hj : t.isDirectoryAt j) :=
    isDirectoryAt_move_file hc hq.directory hd hj
  have hworking (hw : t.isDirectoryAt t.workingDirectory) :
      (t.move (k ++ [m]) (l ++ [n])).workingDirectory = t.workingDirectory :=
    workingDirectory_move (not_prefix_of_file hc hw)
  -- no directory goes away, so both paths spell the places that they spelled before
  have hp' := hp.mono hdirectory hworking
  have hq' := hq.mono hdirectory hworking
  have hsource : t.locate p = .ok (k ++ [m]) := by
    rw [hp.locate_eq, hc]
    rfl
  have hfile : entry? (t.move (k ++ [m]) (l ++ [n])) (l ++ [n]) = some (.file c) := by
    rw [hentry, if_pos rfl]
  have htarget : (t.move (k ++ [m]) (l ++ [n])).locate q = .ok (l ++ [n]) := by
    rw [hq'.locate_eq, hfile]
    rfl
  constructor
  case source => rw [hp.inspect_eq, hc]
  case target => rw [hq'.inspect_eq, hfile]
  case gone =>
    intro _
    rw [hp'.inspect_eq, hentry, if_neg hne, if_pos rfl]
  case same =>
    intro hthere
    rw [hsource, hq.locate_eq] at hthere
    split at hthere
    · cases hthere
    · rw [Except.ok.injEq] at hthere
      exact absurd hthere hne
  case kept =>
    intro j hj hj'
    rw [hsource, ne_eq, Except.ok.injEq] at hj
    rw [htarget, ne_eq, Except.ok.injEq] at hj'
    rw [hentry, if_neg (Ne.symm hj'), if_neg (Ne.symm hj)]

theorem renames_of_rename (hp : t.inspect p ≠ .ok .directory) (h : t.rename p q = .ok u) :
    ∃ c, t.Renames p q c u := by
  obtain ⟨k, m, l, n, c, hsource, htarget, hc, hplaces⟩ := places_of_rename hp h
  rcases hplaces with ⟨hsame, rfl⟩ | ⟨hother, hd, rfl⟩
  · obtain ⟨rfl, hm⟩ := List.append_inj' hsame rfl
    cases hm
    exact ⟨c, renames_same hsource htarget hc⟩
  · exact ⟨c, renames_move hsource htarget hc hother hd⟩

end FileTree
end GridPuzzles
