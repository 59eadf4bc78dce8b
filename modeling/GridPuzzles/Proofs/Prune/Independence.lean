import GridPuzzles.Proofs.Prune.Remainder
import GridPuzzles.Proofs.Prune.Sequence

/-! Passes over two directories that are independent of each other. A pass reads and changes only
entries of its directory and of the directory for large tasks in it. -/
namespace GridPuzzles
namespace Prune

variable {skip : Bool} {t u v : FileTree} {dir a b : Path} {k l j : Location} {n : Name}
  {moved : List Name} {orders : Nat → Order} {report : Report} {reports : List Report}

/-- A pass over the directory at the place `l` may look at or change what is at the place `k`: an
entry of the directory or of its directory for large tasks. -/
def Reaches (l k : Location) : Prop := ∃ n, k = l ++ [n] ∨ k = l ++ [largeName, n]

structure Independent (k l : Location) : Prop where
  ne : k ≠ l
  ne_large : l ≠ k ++ [largeName]
  large_ne : k ≠ l ++ [largeName]

theorem Independent.symm (h : Independent k l) : Independent l k :=
  ⟨h.ne.symm, h.large_ne, h.ne_large⟩

theorem Independent.not_reaches (h : Independent k l) (hk : Reaches k j) : ¬ Reaches l j := by
  rintro ⟨m, hl⟩
  obtain ⟨n, hk⟩ := hk
  rw [← FileTree.append_pair] at hk hl
  rcases hk with rfl | rfl <;> rcases hl with he | he
  · exact h.ne (List.append_inj' he rfl).1
  · exact h.large_ne (List.append_inj' he rfl).1
  · exact h.ne_large (List.append_inj' he rfl).1.symm
  · exact h.ne (List.append_inj' (List.append_inj' he rfl).1 rfl).1

theorem Partitioned.entry?_of_not_reaches (h : Partitioned t l moved u) (hk : ¬ Reaches l k) :
    u.entry? k = t.entry? k := by
  apply h.kept
  · rintro rfl
    exact hk ⟨largeName, .inl rfl⟩
  · intro n _
    exact ⟨fun he => hk ⟨n, .inl he⟩, fun he => hk ⟨n, .inr he⟩⟩

/-- Two trees look the same to a pass over the directory at a place. -/
def SameFor (l : Location) (t u : FileTree) : Prop :=
  ∀ k, Reaches l k → u.entry? k = t.entry? k

theorem Partitioned.sameFor (h : Partitioned t k moved u) (hkl : Independent k l) :
    SameFor l t u :=
  fun _ hj => h.entry?_of_not_reaches (hkl.symm.not_reaches hj)

namespace SameFor

theorem symm (h : SameFor l t u) : SameFor l u t := fun k hk => (h k hk).symm

theorem entry (h : SameFor l t u) (n : Name) : u.entry? (l ++ [n]) = t.entry? (l ++ [n]) :=
  h _ ⟨n, .inl rfl⟩

theorem target (h : SameFor l t u) (n : Name) :
    u.entry? (l ++ [largeName, n]) = t.entry? (l ++ [largeName, n]) :=
  h _ ⟨n, .inr rfl⟩

theorem filesLeft (h : SameFor l t u) : FilesLeft t l [] u := ⟨by simp, fun n _ _ => h.entry n⟩

theorem largeNames_perm (h : SameFor l t u) : (largeNames u l).Perm (largeNames t l) :=
  h.filesLeft.largeNames_perm (by simp)

theorem ready (h : SameFor l t u) (hready : Ready skip t l) : Ready skip u l where
  vacant c := by
    rw [h.entry]
    exact hready.vacant c
  parsed := hready.parsed.imp_right h.filesLeft.parsed
  free n hn := by
    rw [FileTree.isDirectoryAt, h.target]
    exact hready.free n (h.largeNames_perm.mem_iff.mp hn)

theorem agrees (h : SameFor l t u) (hreport : report.Agrees skip u dir l) :
    report.Agrees skip t dir l := by
  have hdocuments : (documentNames u l).Perm (documentNames t l) := by
    simpa using h.filesLeft.documentNames_append_perm List.nodup_nil (by simp)
  have hunparsable : (unparsableNames u l).Perm (unparsableNames t l) :=
    h.filesLeft.unparsableNames_perm List.nodup_nil (by simp)
  constructor
  case dir_eq => exact hreport.dir_eq
  case total_eq => rw [hreport.total_eq, hdocuments.length_eq]
  case relocated_perm => exact hreport.relocated_perm.trans (h.largeNames_perm.map _)
  case relocated_nodup => exact hreport.relocated_nodup
  case skipped_perm => exact hreport.skipped_perm.trans (hunparsable.map _)
  case skipped_nodup => exact hreport.skipped_nodup
  case skipped_eq_nil => exact hreport.skipped_eq_nil
  case hit_eq => exact hreport.hit_eq
  case hit_add_skipped_le => exact hreport.hit_add_skipped_le

end SameFor

/-- A pass over a directory succeeds on every tree that looks the same to it as one on which it has
succeeded. -/
theorem Done.repeat (order : Order) (h : Done skip t dir l report v) (hw : u.WellNamed)
    (hd : u.NamesDirectory dir l) (hu : SameFor l t u) :
    ∃ report', (pass order .documents skip u dir).result = .ok report' ∧
      Done skip u dir l report' (pass order .documents skip u dir).tree ∧
      report'.Rearranges report := by
  have hfits := hu.filesLeft.fits h.fits
  have hready := hu.ready h.ready
  obtain ⟨report', hresult, hdone⟩ := exists_done_of_ready order hw hd hfits hready
  exact ⟨report', hresult, hdone, (hu.agrees hdone.agrees).rearranges h.agrees⟩

theorem entry?_swap {s w : FileTree} {first second : List Name} (hkl : Independent k l)
    (hu : Partitioned t k first u) (hv : Partitioned u l second v)
    (hs : Partitioned t l second s) (hw : Partitioned s k first w) (j : Location) :
    w.entry? j = v.entry? j := by
  by_cases hk : Reaches k j
  · have hsame := hs.sameFor hkl.symm
    rw [hv.entry?_of_not_reaches (hkl.not_reaches hk)]
    exact hu.entry?_congr hw (fun n _ => hsame.entry n) (hsame j hk)
  · rw [hw.entry?_of_not_reaches hk]
    by_cases hl : Reaches l j
    · have hsame := hu.sameFor hkl
      exact (hs.entry?_congr hv (fun n _ => hsame.entry n) (hsame j hl)).symm
    · rw [hs.entry?_of_not_reaches hl, hv.entry?_of_not_reaches hl, hu.entry?_of_not_reaches hk]

theorem exists_of_run_pair_ok (h : (run orders skip t [a, b]).result = .ok reports) :
    ∃ first second, reports = [first, second] ∧
      (pass (orders 0) .documents skip t a).result = .ok first ∧
      (pass (orders 1) .documents skip (pass (orders 0) .documents skip t a).tree b).result =
        .ok second ∧
      (run orders skip t [a, b]).tree =
        (pass (orders 1) .documents skip (pass (orders 0) .documents skip t a).tree b).tree := by
  obtain ⟨first, rest, rfl, hfirst, hrest, htree⟩ := exists_of_run_cons_ok h
  obtain ⟨second, none, rfl, hsecond, hnone, htree'⟩ := exists_of_run_cons_ok hrest
  cases hnone
  exact ⟨first, second, rfl, hfirst, hsecond, htree.trans htree'⟩

theorem run_pair_of_ok {first second : Report}
    (ha : (pass (orders 0) .documents skip t a).result = .ok first)
    (hb : (pass (orders 1) .documents skip (pass (orders 0) .documents skip t a).tree b).result =
      .ok second) :
    (run orders skip t [a, b]).result = .ok [first, second] ∧
      (run orders skip t [a, b]).tree =
        (pass (orders 1) .documents skip (pass (orders 0) .documents skip t a).tree b).tree := by
  have hlater : (pass (later 1 orders 0) .documents skip
      (pass (orders 0) .documents skip t a).tree b).result = .ok second := hb
  obtain ⟨htree, hresult⟩ := run_cons_of_ok [b] ha
  obtain ⟨htree', hresult'⟩ := run_cons_of_ok [] hlater
  constructor
  · exact hresult.trans (congrArg (Except.map (first :: ·)) hresult')
  · exact htree.trans htree'

/-- Two directories of which neither is the other or the one for its large tasks can be partitioned
in either order, with the same tree and, up to the order of their lists, the same reports. One may
lie anywhere below the other. -/
theorem run_commutes (others : Nat → Order) (hw : t.WellNamed) (ha : t.NamesDirectory a k)
    (hb : t.NamesDirectory b l) (hkl : Independent k l)
    (h : (run orders skip t [a, b]).result = .ok reports) :
    ∃ ofA ofB ofA' ofB', reports = [ofA, ofB] ∧
      (run others skip t [b, a]).result = .ok [ofB', ofA'] ∧
      ofA'.Rearranges ofA ∧ ofB'.Rearranges ofB ∧
      ∀ j, FileTree.entry? (run others skip t [b, a]).tree j =
        FileTree.entry? (run orders skip t [a, b]).tree j := by
  obtain ⟨ofA, ofB, rfl, hpassA, hpassB, htree⟩ := exists_of_run_pair_ok h
  have hdoneA := done_of_pass_ok hw ha hpassA
  have hdoneB := done_of_pass_ok (hdoneA.tree.wellNamed hw) (hdoneA.tree.namesDirectory hb) hpassB
  have hsameB := (hdoneA.tree.sameFor hkl).symm
  obtain ⟨ofB', hpassB', hdoneB', hreportB⟩ := hdoneB.repeat (others 0) hw hb hsameB
  have hsameA := hdoneB'.tree.sameFor hkl.symm
  obtain ⟨ofA', hpassA', hdoneA', hreportA⟩ := hdoneA.repeat (others 1)
    (hdoneB'.tree.wellNamed hw) (hdoneB'.tree.namesDirectory ha) hsameA
  obtain ⟨hresult, htree'⟩ := run_pair_of_ok hpassB' hpassA'
  refine ⟨ofA, ofB, ofA', ofB', rfl, hresult, hreportA, hreportB, ?_⟩
  intro j
  rw [htree, htree']
  exact entry?_swap hkl hdoneA.tree
    (hdoneB.tree.congr fun n => hsameB.largeNames_perm.mem_iff)
    hdoneB'.tree (hdoneA'.tree.congr fun n => hsameA.symm.largeNames_perm.mem_iff) j

theorem independent_mixed : Independent [ascii "d"] [] := by
  constructor
  · simp
  · simp
  · decide

theorem run_commutes_mixed :
    mixedTree.WellNamed ∧ mixedTree.NamesDirectory mixedDirectory [ascii "d"] ∧
      mixedTree.NamesDirectory upperDirectory [] ∧ Independent [ascii "d"] [] ∧
      (run (fun _ => .kept) true mixedTree [mixedDirectory, upperDirectory]).result =
        .ok [mixedReport, upperReport] ∧
      ∃ lower upper, (run (fun _ => .kept) true mixedTree
          [upperDirectory, mixedDirectory]).result = .ok [upper, lower] ∧
        lower.Rearranges mixedReport ∧ upper.Rearranges upperReport := by
  have hw : mixedTree.WellNamed := FileTree.wellNamed_of_allProper (by decide +kernel)
  have hlower : mixedTree.NamesDirectory mixedDirectory [ascii "d"] :=
    ⟨by decide +kernel, by decide +kernel⟩
  have hupper : mixedTree.NamesDirectory upperDirectory [] :=
    ⟨by decide +kernel, by decide +kernel⟩
  have h : (run (fun _ => .kept) true mixedTree [mixedDirectory, upperDirectory]).result =
      .ok [mixedReport, upperReport] := by
    decide +kernel
  obtain ⟨ofA, ofB, lower, upper, hreports, hresult, hA, hB, -⟩ :=
    run_commutes (fun _ => .kept) hw hlower hupper independent_mixed h
  cases hreports
  exact ⟨hw, hlower, hupper, independent_mixed, h, lower, upper, hresult, hA, hB⟩

end Prune
end GridPuzzles
