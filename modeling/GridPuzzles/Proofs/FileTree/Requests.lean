import GridPuzzles.Proofs.Fallible
import GridPuzzles.Proofs.FileTree.Naming

/-! Requests for the entries of a directory. Once a path names a directory, what a request for a
name in it does depends only on the entry at that place and on the length of the path. -/
namespace GridPuzzles
namespace FileTree

variable {t u : FileTree} {p q : Path} {l k : Location} {n m : Name}

/-- A path names the directory at a place. -/
structure NamesDirectory (t : FileTree) (p : Path) (l : Location) : Prop where
  locate : t.locate p = .ok l
  directory : t.isDirectoryAt l

/-- No request can be made with a path that is too long. -/
def TooLong (p : Path) : Prop := pathLimit < p.bytes.length

instance (p : Path) : Decidable (TooLong p) := inferInstanceAs (Decidable (_ < _))

theorem walk_append (t : FileTree) (l : Location) (ns ms : List Name) :
    t.walk l (ns ++ ms) = t.walk l ns >>= fun k => t.walk k ms := by
  induction ns generalizing l with
  | nil => rfl
  | cons n ns ih =>
    rw [List.cons_append, walk, walk]
    cases t.step l n with
    | ok k => exact ih k
    | error e => rfl

theorem walk_singleton (t : FileTree) (l : Location) (n : Name) : t.walk l [n] = t.step l n := by
  rw [walk]
  cases t.step l n <;> rfl

theorem step_here (h : t.isDirectoryAt l) : t.step l Path.here = .ok l := by
  simp [step, h]

theorem step_proper (h : t.isDirectoryAt l) (hn : n.Proper) :
    t.step l n = if (t.entry? (l ++ [n])).isNone then .error .notFound else .ok (l ++ [n]) := by
  have hlen := hn.length_le
  simp [step, h, hn.ne_here, hn.ne_up, Nat.not_lt.mpr hlen]

theorem isDirectoryAt_of_step (h : t.step l n = .ok k) : t.isDirectoryAt l := by
  by_contra hd
  rw [Bool.not_eq_true] at hd
  simp [step, hd] at h

theorem walk_lookups (hw : t.walk (t.start p) p.steps = .ok l) (hd : t.isDirectoryAt l) :
    t.walk (t.start p) (lookups p) = .ok l := by
  rw [lookups]
  split
  · rw [walk_append, hw, ok_bind, walk_singleton, step_here hd]
  · exact hw

theorem checkPath_eq_ok : checkPath p = .ok () ↔ 0 ∉ p.bytes ∧ p.bytes ≠ [] ∧ ¬ TooLong p := by
  rw [checkPath, checkSpelling, TooLong]
  by_cases h0 : 0 ∈ p.bytes
  · simp [h0, bind, Except.bind]
  · by_cases hn : p.bytes = []
    · simp [hn, bind, Except.bind]
    · by_cases hl : pathLimit < p.bytes.length <;> simp [h0, hn, hl, bind, Except.bind]

theorem checkPath_join (h : 0 ∉ p.bytes) (hn : n.Proper) :
    checkPath (p.join n) = if TooLong (p.join n) then .error .nameTooLong else .ok () := by
  have hz : 0 ∉ (p.join n).bytes := fun hm => h ((Path.zero_mem_join p hn).mp hm)
  rw [checkPath, checkSpelling]
  rw [if_neg hz, if_neg (Path.bytes_join_ne_nil p hn)]
  rfl

theorem start_join (t : FileTree) (p : Path) (hn : n.Proper) :
    t.start (p.join n) = t.start p := by
  rw [start, Path.isAbsolute_join p hn, start]

theorem lookups_join (p : Path) (hn : n.Proper) : lookups (p.join n) = p.steps ++ [n] := by
  rw [lookups, Path.endsInSlash_join p hn, if_neg Bool.false_ne_true, Path.steps_join p hn]

theorem lastOf_join (p : Path) (hn : n.Proper) : lastOf (p.join n) = .name n := by
  rw [lastOf, Path.steps_join p hn, List.getLast?_concat]
  simp [hn.ne_here, hn.ne_up]

theorem locateParent_join_eq (t : FileTree) (h : 0 ∉ p.bytes) (hn : n.Proper) :
    t.locateParent (p.join n) =
      if TooLong (p.join n) then .error .nameTooLong
      else match t.walk (t.start p) p.steps with
        | .ok l => if t.isDirectoryAt l then .ok (l, .name n) else .error .notDirectory
        | .error e => .error e := by
  rw [locateParent, checkPath_join h hn, start_join t p hn, Path.steps_join p hn,
    List.dropLast_concat, lastOf_join p hn]
  by_cases hl : TooLong (p.join n)
  · rw [if_pos hl, if_pos hl]
    rfl
  · rw [if_neg hl, if_neg hl]
    cases t.walk (t.start p) p.steps <;> rfl

theorem locateParent_eq_ok {last : Last} :
    t.locateParent p = .ok (k, last) ↔
      checkPath p = .ok () ∧ t.walk (t.start p) p.steps.dropLast = .ok k ∧ t.isDirectoryAt k ∧
        lastOf p = last := by
  simp only [locateParent, bind_eq_ok]
  constructor
  · rintro ⟨_, hc, j, hw, h⟩
    split at h
    · rename_i hj
      cases h
      exact ⟨hc, hw, hj, rfl⟩
    · cases h
  · rintro ⟨hc, hw, hk, rfl⟩
    exact ⟨(), hc, k, hw, if_pos hk⟩

theorem isDirectoryAt_of_locateParent {last : Last} (h : t.locateParent p = .ok (k, last)) :
    t.isDirectoryAt k :=
  (locateParent_eq_ok.mp h).2.2.1

theorem zero_notMem_of_locateParent {last : Last} (h : t.locateParent p = .ok (k, last)) :
    0 ∉ p.bytes :=
  (checkPath_eq_ok.mp (locateParent_eq_ok.mp h).1).1

theorem inspect_eq_ok {e : Entry} :
    t.inspect p = .ok e ↔ ∃ l, t.locate p = .ok l ∧ t.entry? l = some e := by
  rw [inspect, bind_eq_ok]
  constructor
  · rintro ⟨l, hl, h⟩
    refine ⟨l, hl, ?_⟩
    split at h
    · cases h
      assumption
    · cases h
  · rintro ⟨l, hl, he⟩
    exact ⟨l, hl, by rw [he]⟩

namespace NamesDirectory

theorem checkPath_eq (h : t.NamesDirectory p l) : checkPath p = .ok () := by
  obtain ⟨_, hc, -⟩ := bind_eq_ok.mp h.locate
  exact hc

theorem walk_steps (h : t.NamesDirectory p l) : t.walk (t.start p) p.steps = .ok l := by
  obtain ⟨_, -, hw⟩ := bind_eq_ok.mp h.locate
  rw [lookups] at hw
  split at hw
  · rw [walk_append] at hw
    obtain ⟨k, hk, hhere⟩ := bind_eq_ok.mp hw
    rw [walk_singleton] at hhere
    rw [step_here (isDirectoryAt_of_step hhere)] at hhere
    cases hhere
    exact hk
  · exact hw

theorem zero_notMem (h : t.NamesDirectory p l) : 0 ∉ p.bytes :=
  (checkPath_eq_ok.mp h.checkPath_eq).1

theorem locate_join (h : t.NamesDirectory p l) (hn : n.Proper) :
    t.locate (p.join n) =
      if TooLong (p.join n) then .error .nameTooLong
      else if (t.entry? (l ++ [n])).isNone then .error .notFound
      else .ok (l ++ [n]) := by
  rw [FileTree.locate, checkPath_join h.zero_notMem hn, start_join t p hn, lookups_join p hn,
    walk_append, h.walk_steps]
  by_cases hl : TooLong (p.join n)
  · rw [if_pos hl, if_pos hl]
    rfl
  · rw [if_neg hl, if_neg hl, ← step_proper h.directory hn, ← walk_singleton]
    rfl

theorem locateParent_join (h : t.NamesDirectory p l) (hn : n.Proper) :
    t.locateParent (p.join n) =
      if TooLong (p.join n) then .error .nameTooLong else .ok (l, .name n) := by
  rw [locateParent_join_eq t h.zero_notMem hn, h.walk_steps]
  simp [h.directory]

theorem inspect_join (h : t.NamesDirectory p l) (hn : n.Proper) :
    t.inspect (p.join n) =
      if TooLong (p.join n) then .error .nameTooLong
      else match t.entry? (l ++ [n]) with
        | some e => .ok e
        | none => .error .notFound := by
  rw [inspect, h.locate_join hn]
  by_cases hl : TooLong (p.join n)
  · rw [if_pos hl, if_pos hl]
    rfl
  · rw [if_neg hl, if_neg hl]
    cases he : t.entry? (l ++ [n]) <;> simp [bind, Except.bind, he]

theorem isDirectory_join (h : t.NamesDirectory p l) (hn : n.Proper) :
    t.isDirectory (p.join n) = (!decide (TooLong (p.join n)) && t.isDirectoryAt (l ++ [n])) := by
  rw [isDirectory, h.locate_join hn]
  by_cases hl : TooLong (p.join n)
  · simp [hl]
  · cases he : t.entry? (l ++ [n]) with
    | none => simp [hl, isDirectoryAt, he]
    | some e => simp [hl]

theorem join (h : t.NamesDirectory p l) (hn : n.Proper) (hl : ¬ TooLong (p.join n))
    (hd : t.entry? (l ++ [n]) = some .directory) : t.NamesDirectory (p.join n) (l ++ [n]) := by
  refine ⟨?_, isDirectoryAt_iff.mpr hd⟩
  rw [h.locate_join hn, if_neg hl, hd]
  rfl

theorem isDirectory_eq (h : t.NamesDirectory p l) : t.isDirectory p := by
  rw [isDirectory, h.locate]
  exact h.directory

theorem readDirectory_eq (h : t.NamesDirectory p l) :
    t.readDirectory p = .ok (t.namesAt l) := by
  rw [readDirectory, h.locate]
  exact if_pos h.directory

end NamesDirectory

theorem replaceable_false (t : FileTree) (k : Location) :
    t.replaceable false k = if t.isDirectoryAt k then .error .isDirectory else .ok () := by
  rw [replaceable, isDirectoryAt]
  cases t.entry? k with
  | none => rfl
  | some e => cases e <;> rfl

theorem append_pair (l : Location) (m n : Name) : l ++ [m] ++ [n] = l ++ [m, n] := by simp

/-- Renaming a file: it goes to its new place unless the new name is too long, one of the paths
asks for a directory, or a directory is in the way. -/
theorem rename_file {c : Content} (hp : t.locateParent p = .ok (k, .name m))
    (hq : t.locateParent q = .ok (l, .name n)) (hm : m.length ≤ nameLimit)
    (hc : t.entry? (k ++ [m]) = some (.file c)) :
    t.rename p q =
      if nameLimit < n.length then .error .nameTooLong
      else if p.endsInSlash || q.endsInSlash then .error .notDirectory
      else if l ++ [n] <+: k then .error .notEmpty
      else if k ++ [m] = l ++ [n] then .ok t
      else if t.isDirectoryAt (l ++ [n]) then .error .isDirectory
      else .ok (t.move (k ++ [m]) (l ++ [n])) := by
  have hbelow : (k ++ [m]).isPrefixOf l = false := by
    rw [Bool.eq_false_iff, ne_eq, List.isPrefixOf_iff_prefix]
    exact not_prefix_of_file hc (isDirectoryAt_of_locateParent hq)
  have htarget := replaceable_false t (l ++ [n])
  have hzero : ¬ (0 ∈ p.bytes ∨ 0 ∈ q.bytes) :=
    not_or.mpr ⟨zero_notMem_of_locateParent hp, zero_notMem_of_locateParent hq⟩
  rw [rename, if_neg hzero, hp, hq]
  simp only [bind, Except.bind, hc, if_neg (Nat.not_lt.mpr hm), hbelow, htarget,
    List.isPrefixOf_iff_prefix, Bool.not_false, Bool.true_and, Bool.false_eq_true, if_false]
  by_cases hd : t.isDirectoryAt (l ++ [n])
  · simp only [hd, if_true]
  · simp only [hd]
    rfl

theorem rename_of_target {e : DiskError} {parent : Location × Last} (h0 : 0 ∉ q.bytes)
    (hp : t.locateParent p = .ok parent) (hq : t.locateParent q = .error e) :
    t.rename p q = .error e := by
  rw [rename, if_neg (not_or.mpr ⟨zero_notMem_of_locateParent hp, h0⟩), hp, hq]
  rfl

/-- Renaming a file of a directory into another directory beside it: the file goes there unless
a path is too long or a directory has its name. -/
theorem rename_join {c : Content} (hp : t.NamesDirectory p l)
    (hq : t.NamesDirectory q (l ++ [m])) (hn : n.Proper)
    (hc : t.entry? (l ++ [n]) = some (.file c)) :
    t.rename (p.join n) (q.join n) =
      if TooLong (p.join n) ∨ TooLong (q.join n) then .error .nameTooLong
      else if t.isDirectoryAt (l ++ [m, n]) then .error .isDirectory
      else .ok (t.move (l ++ [n]) (l ++ [m, n])) := by
  have hzp : 0 ∉ (p.join n).bytes := fun h => hp.zero_notMem ((Path.zero_mem_join p hn).mp h)
  have hzq : 0 ∉ (q.join n).bytes := fun h => hq.zero_notMem ((Path.zero_mem_join q hn).mp h)
  have habove : ¬ l ++ [m] ++ [n] <+: l := by
    intro h
    have hle := h.length_le
    simp only [List.length_append, List.length_cons, List.length_nil] at hle
    omega
  have hne : l ++ [n] ≠ l ++ [m] ++ [n] := by simp
  have hsource := hp.locateParent_join hn
  have htarget := hq.locateParent_join hn
  by_cases h₁ : TooLong (p.join n)
  · rw [if_pos h₁] at hsource
    rw [rename, if_neg (not_or.mpr ⟨hzp, hzq⟩), hsource, if_pos (Or.inl h₁)]
    rfl
  · rw [if_neg h₁] at hsource
    by_cases h₂ : TooLong (q.join n)
    · rw [if_pos h₂] at htarget
      rw [rename_of_target hzq hsource htarget, if_pos (Or.inr h₂)]
    · rw [if_neg h₂] at htarget
      rw [rename_file hsource htarget hn.length_le hc, if_neg (not_or.mpr ⟨h₁, h₂⟩),
        if_neg (Nat.not_lt.mpr hn.length_le), Path.endsInSlash_join p hn,
        Path.endsInSlash_join q hn, if_neg habove, if_neg hne, append_pair]
      rfl

theorem makeDirectory_join (h : t.NamesDirectory p l) (hn : n.Proper) :
    t.makeDirectory (p.join n) =
      if TooLong (p.join n) then .error .nameTooLong
      else if (t.entry? (l ++ [n])).isSome then .error .alreadyExists
      else .ok (t.put (l ++ [n]) (.directory [])) := by
  have hlen : ¬ nameLimit < n.length := Nat.not_lt.mpr hn.length_le
  rw [makeDirectory, h.locateParent_join hn]
  by_cases hl : TooLong (p.join n)
  · rw [if_pos hl, if_pos hl]
    rfl
  · rw [if_neg hl, if_neg hl]
    exact if_neg hlen

theorem parent?_join_ne_none (p : Path) (hn : n.Proper) : (p.join n).parent? ≠ none := by
  have hbody : (p.join n).reversedBody = n.reverse ++ p.lead.reverse := by
    rw [Path.reversedBody, Path.bytes_join, List.reverse_append, Path.trimEnd_name hn]
  unfold Path.parent?
  rw [hbody]
  split
  · rename_i h0
    exact absurd (List.reverse_eq_nil_iff.mp (List.append_eq_nil_iff.mp h0).1) hn.ne_nil
  · rename_i b hb
    have hne : b ≠ Path.slash := by
      intro e
      cases hrev : n.reverse with
      | nil => exact hn.ne_nil (List.reverse_eq_nil_iff.mp hrev)
      | cons c tail =>
        rw [hrev, List.cons_append, List.cons.injEq] at hb
        have hc : c ∈ n := List.mem_reverse.mp (by simp [hrev])
        exact hn.slash_notMem (e ▸ hb.1 ▸ hc)
    simp [hne]
  · simp

theorem ensureOne_join (h : t.NamesDirectory p l) (hn : n.Proper) :
    t.ensureOne (p.join n) =
      if TooLong (p.join n) then .error .nameTooLong
      else match t.entry? (l ++ [n]) with
        | none => .ok (t.put (l ++ [n]) (.directory []))
        | some .directory => .ok t
        | some (.file _) => .error .alreadyExists := by
  rw [ensureOne, makeDirectory_join h hn, h.isDirectory_join hn]
  by_cases hl : TooLong (p.join n)
  · simp [hl]
  · cases he : t.entry? (l ++ [n]) with
    | none => simp [hl]
    | some e => cases e <;> simp [hl, isDirectoryAt, he]

theorem makeBelow_eq {above : List Path} (h : t.ensureOne p ≠ .error .notFound) :
    t.makeBelow p above = conclude t (t.ensureOne p) := by
  cases above with
  | nil => rfl
  | cons q qs =>
    rw [makeBelow]
    split
    · rename_i he
      exact absurd he h
    · rfl

theorem makeDirectories_join (h : t.NamesDirectory p l) (hn : n.Proper) :
    t.makeDirectories (p.join n) =
      if TooLong (p.join n) then (t, .error .nameTooLong)
      else match t.entry? (l ++ [n]) with
        | none => (t.put (l ++ [n]) (.directory []), .ok ())
        | some .directory => (t, .ok ())
        | some (.file _) => (t, .error .alreadyExists) := by
  have hone := ensureOne_join h hn
  have hfound : t.ensureOne (p.join n) ≠ .error .notFound := by
    rw [hone]
    by_cases hl : TooLong (p.join n)
    · simp [hl]
    · cases t.entry? (l ++ [n]) with
      | none => simp [hl]
      | some e => cases e <;> simp [hl]
  rw [makeDirectories, if_neg (parent?_join_ne_none p hn), makeBelow_eq hfound, hone]
  by_cases hl : TooLong (p.join n)
  · rw [if_pos hl, if_pos hl]
    rfl
  · rw [if_neg hl, if_neg hl]
    cases t.entry? (l ++ [n]) with
    | none => rfl
    | some e => cases e <;> rfl

theorem step_mono (hd : ∀ l, t.isDirectoryAt l → u.isDirectoryAt l) (h : t.step l n = .ok k)
    (hk : t.isDirectoryAt k) : u.step l n = .ok k := by
  have hl := isDirectoryAt_of_step h
  have he := isDirectoryAt_iff.mp (hd k hk)
  unfold step at h ⊢
  rw [hl] at h
  rw [hd l hl]
  by_cases hhere : n = Path.here
  · simpa [hhere] using h
  · by_cases hup : n = Path.up
    · simpa [hhere, hup] using h
    · by_cases hlen : nameLimit < n.length
      · simp [hhere, hup, hlen] at h
      · by_cases hn : (t.entry? (l ++ [n])).isNone
        · simp [hhere, hup, hlen, hn] at h
        · rw [Bool.not_eq_true] at hn
          simp only [Bool.not_true, Bool.false_eq_true, if_false, hhere, hup, hlen, hn,
            Except.ok.injEq] at h
          subst h
          simp [hhere, hup, hlen, he]

theorem isDirectoryAt_of_walk {ns : List Name} (h : t.walk l ns = .ok k)
    (hk : t.isDirectoryAt k) : t.isDirectoryAt l := by
  cases ns with
  | nil =>
    cases h
    exact hk
  | cons n ns =>
    rw [walk] at h
    split at h
    · rename_i hs
      exact isDirectoryAt_of_step hs
    · cases h

/-- A walk that reaches a directory goes through directories only, so it goes the same way in
every tree that has these directories. -/
theorem walk_mono (hd : ∀ l, t.isDirectoryAt l → u.isDirectoryAt l) {ns : List Name}
    (h : t.walk l ns = .ok k) (hk : t.isDirectoryAt k) : u.walk l ns = .ok k := by
  induction ns generalizing l with
  | nil => exact h
  | cons n ns ih =>
    rw [walk] at h
    split at h
    · rename_i k' hs
      rw [walk, step_mono hd hs (isDirectoryAt_of_walk h hk)]
      exact ih h
    · cases h

theorem start_mono {ns : List Name}
    (hw : t.isDirectoryAt t.workingDirectory → u.workingDirectory = t.workingDirectory)
    (h : t.walk (t.start p) ns = .ok k) (hk : t.isDirectoryAt k) : u.start p = t.start p := by
  have hfirst := isDirectoryAt_of_walk h hk
  unfold start at hfirst ⊢
  by_cases ha : p.isAbsolute
  · rw [if_pos ha, if_pos ha]
  · rw [if_neg ha] at hfirst
    rw [if_neg ha, if_neg ha, hw hfirst]

theorem locateParent_mono {last : Last} (hd : ∀ l, t.isDirectoryAt l → u.isDirectoryAt l)
    (hw : t.isDirectoryAt t.workingDirectory → u.workingDirectory = t.workingDirectory)
    (h : t.locateParent p = .ok (k, last)) : u.locateParent p = .ok (k, last) := by
  obtain ⟨hc, hwalk, hk, hlast⟩ := locateParent_eq_ok.mp h
  refine locateParent_eq_ok.mpr ⟨hc, ?_, hd k hk, hlast⟩
  rw [start_mono hw hwalk hk]
  exact walk_mono hd hwalk hk

theorem NamesDirectory.mono (hd : ∀ l, t.isDirectoryAt l → u.isDirectoryAt l)
    (hw : t.isDirectoryAt t.workingDirectory → u.workingDirectory = t.workingDirectory)
    (h : t.NamesDirectory p l) : u.NamesDirectory p l := by
  refine ⟨?_, hd l h.directory⟩
  obtain ⟨_, hc, hwalk⟩ := bind_eq_ok.mp h.locate
  rw [FileTree.locate, hc, start_mono hw hwalk h.directory]
  exact walk_mono hd hwalk h.directory

theorem namesDirectory_of_isDirectory (h : t.isDirectory p) :
    ∃ l, t.NamesDirectory p l := by
  rw [isDirectory] at h
  split at h
  · rename_i l hl
    exact ⟨l, hl, h⟩
  · cases h

theorem step_here_ne_notFound : t.step l Path.here ≠ .error .notFound := by
  rw [step]
  split <;> simp

theorem walk_of_missing (h0 : p.bytes ≠ []) (h : t.locate p = .error .notFound) :
    0 ∉ p.bytes ∧ t.walk (t.start p) p.steps = .error .notFound := by
  have hcheck : checkPath p ≠ .error .notFound := by
    rw [checkPath, checkSpelling, if_neg h0]
    by_cases hz : 0 ∈ p.bytes
    · simp [hz, bind, Except.bind]
    · by_cases hlong : pathLimit < p.bytes.length <;> simp [hz, hlong, bind, Except.bind]
  obtain ⟨_, hc, hw⟩ := (bind_eq_error.mp h).resolve_left hcheck
  refine ⟨(checkPath_eq_ok.mp hc).1, ?_⟩
  rw [lookups] at hw
  split at hw
  · rw [walk_append] at hw
    refine (bind_eq_error.mp hw).resolve_right ?_
    rintro ⟨k, -, hhere⟩
    rw [walk_singleton] at hhere
    exact step_here_ne_notFound hhere
  · exact hw

theorem isDirectory_of_walk {e : DiskError} (h : t.walk (t.start p) p.steps = .error e) :
    t.isDirectory p = false := by
  by_contra hd
  obtain ⟨l, hl⟩ := namesDirectory_of_isDirectory (Bool.not_eq_false _ ▸ hd)
  rw [hl.walk_steps] at h
  cases h

end FileTree
end GridPuzzles
