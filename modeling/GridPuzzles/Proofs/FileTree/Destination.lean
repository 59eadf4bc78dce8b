import GridPuzzles.Proofs.FileTree.Requests
import GridPuzzles.Proofs.Path.Components

/-! Where a path leads is told by its components alone: a walk may be refused, but it cannot come to
another place. -/
namespace GridPuzzles
namespace FileTree

open GridPuzzles.Path (Component component?)

variable {t : FileTree} {p q : Path} {l k : Location} {n : Name}

def advance (l : Location) : Component → Location
  | .root => []
  | .here => l
  | .up => l.dropLast
  | .name n => l ++ [n]

def destination (l : Location) (cs : List Component) : Location := cs.foldl advance l

theorem destination_concat (l : Location) (cs : List Component) (c : Component) :
    destination l (cs ++ [c]) = advance (destination l cs) c :=
  List.foldl_concat advance l c cs

theorem advance_injective {m : Name} {c d : Component} (hc : component? n = some c)
    (hd : component? m = some d) (h : advance l c = advance l d) : c = d := by
  have hlength : ∀ x : Name, l ++ [x] ≠ l.dropLast := by
    intro x he
    have hlen := congrArg List.length he
    rw [List.length_append, List.length_dropLast, List.length_singleton] at hlen
    omega
  rw [component?] at hc hd
  split at hc
  · cases hc
  · split at hd
    · cases hd
    · split at hc <;> split at hd <;> cases hc <;> cases hd
      · rfl
      · exact absurd h.symm (hlength m)
      · exact absurd h (hlength n)
      · have he : n = m := by simpa [advance] using h
        rw [he]

theorem step_eq_ok (hn : n ≠ []) (h : t.step l n = .ok k) :
    k = destination l (component? n).toList := by
  rw [step] at h
  split at h
  · cases h
  · split at h
    · rename_i hhere
      cases h
      rw [hhere]
      rfl
    · rename_i hhere
      split at h
      · rename_i hup
        cases h
        rw [hup]
        rfl
      · rename_i hup
        split at h
        · cases h
        · split at h
          · cases h
          · cases h
            rw [Path.component?_eq_name hn hhere hup]
            rfl

theorem walk_eq_ok {ns : List Name} (hns : ∀ n ∈ ns, n ≠ []) (h : t.walk l ns = .ok k) :
    k = destination l (ns.filterMap component?) := by
  induction ns generalizing l with
  | nil =>
    cases h
    rfl
  | cons n ns ih =>
    rw [walk] at h
    split at h
    · rename_i j hs
      have hj := step_eq_ok (hns n List.mem_cons_self) hs
      rw [ih (fun m hm => hns m (List.mem_cons_of_mem n hm)) h, hj, List.filterMap_cons]
      cases component? n <;> rfl
    · cases h

theorem filterMap_steps (p : Path) :
    p.steps.filterMap component? = (Path.split p.bytes).filterMap component? := by
  rw [Path.steps, List.filterMap_filter]
  congr 1
  funext n
  by_cases hn : n = []
  · rw [hn]
    rfl
  · simp [hn]

theorem filterMap_lookups (p : Path) :
    (lookups p).filterMap component? = (Path.split p.bytes).filterMap component? := by
  rw [lookups]
  split
  · rw [List.filterMap_append, filterMap_steps]
    exact List.append_nil _
  · exact filterMap_steps p

theorem ne_nil_of_mem_lookups (h : n ∈ lookups p) : n ≠ [] := by
  have hsteps : ∀ m ∈ p.steps, m ≠ [] := by
    intro m hm
    simpa using (List.mem_filter.mp hm).2
  rw [lookups] at h
  split at h
  · rcases List.mem_append.mp h with h | h
    · exact hsteps n h
    · rw [List.mem_singleton.mp h]
      decide
  · exact hsteps n h

theorem destination_components (t : FileTree) (p : Path) :
    destination t.workingDirectory p.components =
      destination (t.start p) ((Path.split p.bytes).filterMap component?) := by
  rw [Path.components, start]
  split
  · rfl
  · split <;> rfl

theorem walk_lookups_eq_ok (h : t.walk (t.start p) (lookups p) = .ok k) :
    k = destination t.workingDirectory p.components := by
  rw [walk_eq_ok (fun _ => ne_nil_of_mem_lookups) h, filterMap_lookups, destination_components]

theorem locate_eq_ok (h : t.locate p = .ok k) :
    k = destination t.workingDirectory p.components := by
  obtain ⟨_, -, hwalk⟩ := bind_eq_ok.mp h
  exact walk_lookups_eq_ok hwalk

theorem walk_of_survey {ns : List Name} (h : t.survey l ns = .ok k) : t.walk l ns = .ok k := by
  induction ns generalizing l with
  | nil => exact h
  | cons n ns ih =>
    rw [survey] at h
    split at h
    · cases h
    · split at h
      · rename_i j hs
        rw [walk, hs]
        exact ih h
      · cases h

theorem resolve_eq_ok (h : t.resolve p = .ok k) :
    k = destination t.workingDirectory p.components := by
  obtain ⟨_, -, hsurvey⟩ := bind_eq_ok.mp h
  exact walk_lookups_eq_ok (walk_of_survey hsurvey)

/-- Two paths that lead to different places if their components differ are compared by these
alone. -/
theorem samePlace_eq_sameAs
    (h : destination t.workingDirectory p.components =
      destination t.workingDirectory q.components → p.components = q.components) :
    t.samePlace p q = p.sameAs q := by
  rw [samePlace]
  split
  · rename_i k l hk hl
    rw [Path.sameAs, resolve_eq_ok hk, resolve_eq_ok hl, decide_eq_decide]
    exact ⟨h, congrArg _⟩
  · rfl

/-- The names of a path, however long the path is, lead to a place. -/
def LeadsTo (t : FileTree) (p : Path) (l : Location) : Prop :=
  t.walk (t.start p) (lookups p) = .ok l

theorem NamesDirectory.leadsTo (h : t.NamesDirectory p l) : t.LeadsTo p l := by
  obtain ⟨_, -, hwalk⟩ := bind_eq_ok.mp h.locate
  exact hwalk

theorem NamesDirectory.leadsTo_join (h : t.NamesDirectory p l) (hn : n.Proper)
    (hsome : (t.entry? (l ++ [n])).isSome) : t.LeadsTo (p.join n) (l ++ [n]) := by
  have hfound : (t.entry? (l ++ [n])).isNone = false := by
    rwa [← Option.not_isSome, Bool.not_eq_false']
  rw [LeadsTo, start_join t p hn, lookups_join p hn, walk_append, h.walk_steps, ok_bind,
    walk_singleton, step_proper h.directory hn, hfound]
  rfl

theorem LeadsTo.locate (h : t.LeadsTo p l) (hp : checkPath p = .ok ()) : t.locate p = .ok l := by
  rw [FileTree.locate, hp]
  exact h

theorem steps_append_slashes (b : List UInt8) (i : Nat) :
    Path.steps ⟨b ++ List.replicate i Path.slash⟩ = Path.steps ⟨b⟩ := by
  induction i with
  | zero => simp
  | succ i ih =>
    rw [← ih, List.replicate_succ', ← List.append_assoc, Path.steps, Path.split_append_slash,
      List.filter_append]
    exact List.append_nil _

theorem NamesDirectory.append_slashes (h : t.NamesDirectory p l) (i : Nat)
    (hshort : ¬ TooLong ⟨p.bytes ++ List.replicate i Path.slash⟩) :
    t.NamesDirectory ⟨p.bytes ++ List.replicate i Path.slash⟩ l := by
  obtain ⟨hzero, hne, -⟩ := checkPath_eq_ok.mp h.checkPath_eq
  have hzero' : 0 ∉ p.bytes ++ List.replicate i Path.slash := by
    have hslash : (0 : UInt8) ≠ Path.slash := by decide
    simp [hzero, hslash]
  have hstart : t.start ⟨p.bytes ++ List.replicate i Path.slash⟩ = t.start p := by
    rw [start, start, Path.isAbsolute, Path.isAbsolute, List.head?_append_of_ne_nil _ hne]
  have hwalk : t.LeadsTo ⟨p.bytes ++ List.replicate i Path.slash⟩ l := by
    apply walk_lookups _ h.directory
    rw [hstart, steps_append_slashes]
    exact h.walk_steps
  exact ⟨hwalk.locate (checkPath_eq_ok.mpr ⟨hzero', by simp [hne], hshort⟩), h.directory⟩

theorem walk_dots {ns : List Name} (hl : t.isDirectoryAt l) (h : ∀ n ∈ ns, n = Path.here) :
    t.walk l ns = .ok l := by
  induction ns with
  | nil => rfl
  | cons n ns ih =>
    rw [h n List.mem_cons_self, walk, step_here hl]
    exact ih fun m hm => h m (List.mem_cons_of_mem _ hm)

theorem eq_here_of_component? (hn : n ≠ []) (h : Path.component? n = none) : n = Path.here := by
  by_contra hhere
  rw [Path.component?, if_neg (not_or.mpr ⟨hn, hhere⟩)] at h
  split at h <;> cases h

theorem isAbsolute_of_root (h : Component.root ∈ p.components) :
    p.isAbsolute ∧ p.components = .root :: (Path.split p.bytes).filterMap component? := by
  have hothers : Component.root ∉ (Path.split p.bytes).filterMap component? := by
    intro hmem
    obtain ⟨n, -, hn⟩ := List.mem_filterMap.mp hmem
    rw [component?] at hn
    split at hn
    · cases hn
    · split at hn <;> cases hn
  rw [Path.components] at h ⊢
  by_cases ha : p.isAbsolute
  · exact ⟨ha, if_pos ha⟩
  · simp only [if_neg ha] at h
    split at h
    · exact absurd h (by simpa using hothers)
    · exact absurd h hothers

theorem leadsTo_root (t : FileTree) (h : p.components = [.root]) : t.LeadsTo p [] := by
  obtain ⟨ha, hcomponents⟩ := isAbsolute_of_root (by simp [h] : Component.root ∈ p.components)
  rw [h, List.cons.injEq] at hcomponents
  have hdots : ∀ n ∈ lookups p, n = Path.here := by
    have hnone := filterMap_lookups p
    rw [← hcomponents.2, List.filterMap_eq_nil_iff] at hnone
    exact fun n hn => eq_here_of_component? (ne_nil_of_mem_lookups hn) (hnone n hn)
  rw [LeadsTo, start, if_pos ha]
  exact walk_dots (isDirectoryAt_iff.mpr (entry?_root t)) hdots

end FileTree
end GridPuzzles
