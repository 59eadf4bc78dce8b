import GridPuzzles.Proofs.FileTree.Requests

/-! Writing a file, and telling whether two paths name one place. A written file takes the place
of a file or of nothing, so all other paths lead where they led before. -/
namespace GridPuzzles
namespace FileTree

variable {t u : FileTree} {p q : Path} {l k : Location} {n : Name} {c : Content}

/-- The tree `u` has all that `t` has: a walk in `t` goes the same way in `u`. -/
structure Extends (t u : FileTree) : Prop where
  directory : ∀ k, t.isDirectoryAt k → u.isDirectoryAt k
  entry : ∀ k, (t.entry? k).isSome → (u.entry? k).isSome
  workingDirectory : u.workingDirectory = t.workingDirectory

namespace Extends

theorem step (h : t.Extends u) (hs : t.step l n = .ok k) : u.step l n = .ok k := by
  have hl := isDirectoryAt_of_step hs
  unfold FileTree.step at hs ⊢
  rw [hl] at hs
  rw [h.directory l hl]
  by_cases hhere : n = Path.here
  · simpa [hhere] using hs
  · by_cases hup : n = Path.up
    · simpa [hhere, hup] using hs
    · by_cases hlen : nameLimit < n.length
      · simp [hhere, hup, hlen] at hs
      · cases he : t.entry? (l ++ [n]) with
        | none => simp [hhere, hup, hlen, he] at hs
        | some e =>
          have hu := Option.isSome_iff_ne_none.mp (h.entry (l ++ [n]) (by simp [he]))
          simp only [hhere, hup, hlen, he, if_false, Option.isNone_some, Bool.not_true,
            Bool.false_eq_true] at hs
          simp [hhere, hup, hlen, hu, hs]

theorem walk (h : t.Extends u) {ns : List Name} (hw : t.walk l ns = .ok k) :
    u.walk l ns = .ok k := by
  induction ns generalizing l with
  | nil => exact hw
  | cons n ns ih =>
    rw [FileTree.walk] at hw
    split at hw
    · rename_i j hs
      rw [FileTree.walk, h.step hs]
      exact ih hw
    · cases hw

theorem start (h : t.Extends u) (p : Path) : u.start p = t.start p := by
  rw [FileTree.start, FileTree.start, h.workingDirectory]

theorem locate (h : t.Extends u) (hl : t.locate p = .ok l) : u.locate p = .ok l := by
  obtain ⟨_, hc, hw⟩ := bind_eq_ok.mp hl
  rw [FileTree.locate, hc, h.start]
  exact h.walk hw

theorem locateParent {last : Last} (h : t.Extends u) (hp : t.locateParent p = .ok (k, last)) :
    u.locateParent p = .ok (k, last) := by
  obtain ⟨hc, hw, hk, hlast⟩ := locateParent_eq_ok.mp hp
  rw [← h.start] at hw
  exact locateParent_eq_ok.mpr ⟨hc, h.walk hw, h.directory k hk, hlast⟩

end Extends

theorem walk_steps_of_locateParent (hp : t.locateParent p = .ok (k, .name n))
    (hlen : n.length ≤ nameLimit) :
    t.walk (t.start p) p.steps =
      if (t.entry? (k ++ [n])).isNone then .error .notFound else .ok (k ++ [n]) := by
  obtain ⟨-, hw, hk, hlast⟩ := locateParent_eq_ok.mp hp
  obtain ⟨hn, hhere, hup⟩ := Path.last_step_of_lastOf hlast
  have hsteps : p.steps = p.steps.dropLast ++ [n] := (List.dropLast_append_getLast? n hn).symm
  rw [hsteps, walk_append, hw, ok_bind, walk_singleton]
  simp [step, hk, hhere, hup, Nat.not_lt.mpr hlen]

theorem locate_of_locateParent (hp : t.locateParent p = .ok (k, .name n))
    (hslash : p.endsInSlash = false) (hlen : n.length ≤ nameLimit) :
    t.locate p =
      if (t.entry? (k ++ [n])).isNone then .error .notFound else .ok (k ++ [n]) := by
  rw [locate, (locateParent_eq_ok.mp hp).1, lookups, hslash, if_neg Bool.false_ne_true]
  exact walk_steps_of_locateParent hp hlen

theorem writeFile_eq_ok (h : t.writeFile p c = .ok u) :
    ∃ k n, t.locateParent p = .ok (k, .name n) ∧ p.endsInSlash = false ∧ n.length ≤ nameLimit ∧
      ¬ t.isDirectoryAt (k ++ [n]) ∧ u = t.put (k ++ [n]) (.file c) := by
  obtain ⟨⟨k, last⟩, hp, h⟩ := bind_eq_ok.mp h
  cases last with
  | nothing => cases h
  | dots => cases h
  | name n =>
    simp only at h
    split at h
    · cases h
    · rename_i hslash
      split at h
      · cases h
      · rename_i hlen
        split at h
        · cases h
        · rename_i hvacant
          cases h
          exact ⟨k, n, hp, by simpa using hslash, Nat.not_lt.mp hlen,
            fun hd => hvacant (isDirectoryAt_iff.mp hd), rfl⟩

theorem entry?_put_file (hk : t.isDirectoryAt k) (hd : ¬ t.isDirectoryAt (k ++ [n]))
    (j : Location) :
    entry? (t.put (k ++ [n]) (.file c)) j =
      if j = k ++ [n] then some (.file c) else t.entry? j :=
  entry?_put_leaf (Node.entry?_file_cons c) hk hd j

theorem extends_put_file (hk : t.isDirectoryAt k) (hd : ¬ t.isDirectoryAt (k ++ [n])) :
    t.Extends (t.put (k ++ [n]) (.file c)) where
  directory j hj := by
    have hne : j ≠ k ++ [n] := fun e => hd (e ▸ hj)
    rw [isDirectoryAt_iff] at hj ⊢
    rw [entry?_put_file hk hd, if_neg hne, hj]
  entry j hj := by
    rw [entry?_put_file hk hd]
    by_cases hne : j = k ++ [n]
    · simp [hne]
    · rwa [if_neg hne]
  workingDirectory := rfl

/-- A file has been written to a path, which names the place `k`. -/
structure Writes (t : FileTree) (p : Path) (c : Content) (u : FileTree) (k : Location) :
    Prop where
  vacant : ¬ t.isDirectoryAt k
  locate_before : (t.entry? k).isSome → t.locate p = .ok k
  locate : u.locate p = .ok k
  entry : u.entry? k = some (.file c)
  kept : ∀ j, j ≠ k → u.entry? j = t.entry? j
  extends_before : t.Extends u

theorem writes_of_writeFile (h : t.writeFile p c = .ok u) : ∃ k, t.Writes p c u k := by
  obtain ⟨k, n, hp, hslash, hlen, hd, rfl⟩ := writeFile_eq_ok h
  have hk := isDirectoryAt_of_locateParent hp
  have hextends : t.Extends (t.put (k ++ [n]) (.file c)) := extends_put_file hk hd
  have hentry : entry? (t.put (k ++ [n]) (.file c)) (k ++ [n]) = some (.file c) := by
    rw [entry?_put_file hk hd, if_pos rfl]
  refine ⟨k ++ [n], ?_⟩
  constructor
  case vacant => exact hd
  case locate_before =>
    intro hsome
    rw [locate_of_locateParent hp hslash hlen, if_neg]
    simpa [Option.isSome_iff_ne_none] using hsome
  case locate =>
    rw [locate_of_locateParent (hextends.locateParent hp) hslash hlen, hentry]
    rfl
  case entry => exact hentry
  case kept =>
    intro j hj
    rw [entry?_put_file hk hd, if_neg hj]
  case extends_before => exact hextends

/-- A path whose steps have been resolved leads where it leads in a walk, unless it comes to a place
that is too deep. -/
theorem survey_of_walk {ns : List Name} (h : t.walk l ns = .ok k) :
    t.survey l ns = .ok k ∨ t.survey l ns = .error .nameTooLong := by
  induction ns generalizing l with
  | nil => exact .inl h
  | cons n ns ih =>
    rw [walk] at h
    split at h
    · rename_i j hs
      rw [survey, hs]
      by_cases hlong : pathLimit < askedLength l n
      · exact .inr (if_pos hlong)
      · rw [if_neg hlong]
        exact ih h
    · cases h

theorem resolve_of_locate (h : t.locate p = .ok l) :
    t.resolve p = .ok l ∨ t.resolve p = .error .nameTooLong := by
  obtain ⟨_, hc, hw⟩ := bind_eq_ok.mp h
  obtain ⟨_, hs, -⟩ := bind_eq_ok.mp hc
  rw [resolve, hs]
  exact survey_of_walk hw

/-- A path leads to a place that is too deep to be asked for by its path from the root. -/
def TooDeep (t : FileTree) (p : Path) : Prop := t.resolve p = .error .nameTooLong

instance (t : FileTree) (p : Path) : Decidable (t.TooDeep p) :=
  inferInstanceAs (Decidable (_ = _))

theorem samePlace_of_locate (hp : t.locate p = .ok l) (hq : t.locate q = .ok l)
    (hp' : ¬ t.TooDeep p) (hq' : ¬ t.TooDeep q) : t.samePlace p q := by
  have hpl := (resolve_of_locate hp).resolve_right hp'
  have hql := (resolve_of_locate hq).resolve_right hq'
  simp [samePlace, hpl, hql]

end FileTree
end GridPuzzles
