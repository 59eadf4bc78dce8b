import GridPuzzles.Proofs.Prune.Abort
import GridPuzzles.Proofs.Prune.Snapshot
import Mathlib.Data.List.Find

/-! The directory for large tasks is renamed while a pass is under way. No later load needs it, so
the pass goes on until it comes to the next large task, and fails there. -/
namespace GridPuzzles
namespace FileTree

variable {t u : FileTree} {p q : Path} {l k j source : Location} {n m : Name}

theorem eq_move_of_rename (hp : t.NamesDirectory p l) (hn : n.Proper)
    (hd : t.entry? (l ++ [n]) = some .directory) (hq : t.locateParent q = .ok (k, .name m))
    (hfree : t.entry? (k ++ [m]) = none) (h : t.rename (p.join n) q = .ok u) :
    u = t.move (l ++ [n]) (k ++ [m]) ∧ ¬ l ++ [n] <+: k := by
  have hne : l ++ [n] ≠ k ++ [m] := by
    intro he
    rw [he, hfree] at hd
    cases hd
  rw [rename, hp.locateParent_join hn, hq] at h
  split at h
  · cases h
  · by_cases hlong : TooLong (p.join n)
    · rw [if_pos hlong] at h
      cases h
    · rw [if_neg hlong] at h
      simp only [bind, Except.bind, hd, Nat.not_lt.mpr hn.length_le, if_false, if_neg hne,
        Bool.not_true, Bool.false_and, Bool.false_eq_true, replaceable, hfree] at h
      split at h
      · cases h
      · split at h
        · cases h
        · rename_i hbelow
          split at h
          · cases h
          · cases h
            exact ⟨rfl, fun hp => hbelow (List.isPrefixOf_iff_prefix.mpr hp)⟩

/-- What becomes of an entry when a node is moved to a place at which there was nothing: it is gone
from there if it was at or below the node, and is kept otherwise. -/
theorem entry?_move_free (hs : (t.entry? source).isSome) (hs0 : source ≠ [])
    (hd : t.isDirectoryAt k) (hb : ¬ source <+: k) (hfree : t.entry? (k ++ [m]) = none)
    (hj : (t.entry? j).isSome) :
    entry? (t.move source (k ++ [m])) j = if source <+: j then none else t.entry? j := by
  have hnot : ¬ k ++ [m] <+: j := by
    intro hp
    have hvacant : ¬ t.isDirectoryAt (k ++ [m]) := by simp [isDirectoryAt, hfree]
    rcases eq_or_none_below hvacant hp with rfl | hnone
    · rw [hfree] at hj
      cases hj
    · rw [hnone] at hj
      cases hj
  rw [entry?_move hs hs0 (by simp) (by rwa [List.dropLast_concat])
    (by rwa [List.dropLast_concat]), if_neg hnot]

theorem entry?_move_below (hs : (t.entry? source).isSome) (hs0 : source ≠ [])
    (hd : t.isDirectoryAt k) (hb : ¬ source <+: k) (j : Location) :
    entry? (t.move source (k ++ [m])) (k ++ [m] ++ j) = t.entry? (source ++ j) := by
  rw [entry?_move hs hs0 (by simp) (by rwa [List.dropLast_concat])
    (by rwa [List.dropLast_concat]), if_pos (List.prefix_append _ _), List.drop_left]

theorem walk_join_missing (hp : t.NamesDirectory p l) (hn : n.Proper)
    (hnone : t.entry? (l ++ [n]) = none) :
    t.walk (t.start (p.join n)) (p.join n).steps = .error .notFound := by
  rw [start_join t p hn, Path.steps_join p hn, walk_append, hp.walk_steps, ok_bind, walk_singleton,
    step_proper hp.directory hn, hnone]
  rfl

end FileTree

namespace Prune

open FileTree (TooLong)

variable {source other : TaskSource} {skip : Bool} {t u : FileTree} {dir p : Path}
  {l q : Location} {n : Name} {call k : Nat} {file : Path} {files more : List Path} {order : Order}
  {report : Report} {before rest ns : List Name} {change : FileTree → FileTree}

def Report.followed (r s : Report) : Report :=
  { s with
    total := r.total + s.total
    hit := r.hit + s.hit
    relocated := r.relocated ++ s.relocated
    skipped := r.skipped ++ s.skipped }

theorem followed_counted (v : Visit) (r s : Report) :
    (v.counted dir r).followed s = v.counted dir (r.followed s) := by
  have hadd (a b : Nat) : a + 1 + b = a + b + 1 := by omega
  rw [Visit.counted]
  cases v.loaded.result with
  | error fault => simp only [Report.skipping, Report.followed, hadd, List.cons_append]
  | ok task =>
    by_cases ht : task.isLarge
    · simp only [if_pos ht]
      cases (v.move dir).result with
      | error fault => rfl
      | ok target => simp only [Report.moving, Report.followed, hadd, List.cons_append]
    · simp only [if_neg ht, Report.keeping, Report.followed, hadd]

theorem empty_followed (s : Report) : (Report.empty dir).followed s = s := by
  simp [Report.followed, Report.empty]

theorem passFiles_append (more : List Path)
    (h : (passFiles source skip dir call t files).result = .ok report) :
    let whole := passFiles source skip dir call t (files ++ more)
    let last := passFiles source skip dir (call + files.length)
      (passFiles source skip dir call t files).tree more
    whole.tree = last.tree ∧ whole.result = last.result.map report.followed := by
  induction files generalizing call t report with
  | nil =>
    cases h
    have hid : (Report.empty dir).followed = id := funext empty_followed
    rw [hid]
    refine ⟨rfl, ?_⟩
    simp only [List.nil_append, List.length_nil, Nat.add_zero, passFiles]
    cases (passFiles source skip dir call t more).result <;> rfl
  | cons file files ih =>
    let v : Visit := ⟨file, source.load call t file⟩
    have hload : source.load call t v.file = v.loaded := rfl
    rcases passFiles_visit skip v hload with ⟨-, hrest⟩ | ⟨fault, -, hstop⟩
    · rw [hrest] at h
      simp only [Pass.after] at h
      cases hr : (passFiles source skip dir (call + 1) (v.tree dir) files).result with
      | error fault =>
        rw [hr] at h
        cases h
      | ok r =>
        rw [hr] at h
        cases h
        obtain ⟨htree, hresult⟩ := ih hr
        have hcall : call + 1 + files.length = call + (file :: files).length := by
          rw [List.length_cons]
          omega
        rw [hcall] at htree hresult
        rw [List.cons_append, hrest, hrest]
        refine ⟨htree, ?_⟩
        simp only [Pass.after, hresult]
        cases (passFiles source skip dir (call + (file :: files).length)
            (passFiles source skip dir (call + 1) (v.tree dir) files).tree more).result with
        | error fault => rfl
        | ok s => exact congrArg Except.ok (followed_counted v r s).symm
    · rw [hstop] at h
      cases h

theorem passFiles_congr
    (h : ∀ i, call ≤ i → i < call + files.length → ∀ t p, source.load i t p = other.load i t p) :
    passFiles source skip dir call t files = passFiles other skip dir call t files := by
  induction files generalizing call t with
  | nil => rfl
  | cons file files ih =>
    rw [List.length_cons] at h
    have hfirst := h call (Nat.le_refl _) (by omega) t file
    have hrest (u : FileTree) : passFiles source skip dir (call + 1) u files =
        passFiles other skip dir (call + 1) u files :=
      ih fun i hi hlt => h i (by omega) (by omega)
    simp only [passFiles, hfirst, hrest]

theorem load_disturbed (hne : call ≠ k) (t : FileTree) (p : Path) :
    (disturbed k change).load call t p = TaskSource.documents.load call t p := by
  simp only [disturbed, if_neg hne]

/-- From the load on before which the tree changes, a pass is one in the changed tree. -/
theorem passFiles_disturbed :
    passFiles (disturbed k change) skip dir k t (file :: files) =
      passFiles .documents skip dir k (change t) (file :: files) := by
  have hfirst : (disturbed k change).load k t file =
      TaskSource.documents.load k (change t) file := by
    simp only [disturbed, if_true]
  have hrest (u : FileTree) : passFiles (disturbed k change) skip dir (k + 1) u files =
      passFiles .documents skip dir (k + 1) u files :=
    passFiles_congr fun i hi _ => load_disturbed (by omega)
  simp only [passFiles, hfirst, hrest]

def holdsLarge (t : FileTree) (l : Location) (n : Name) : Bool :=
  (taskAt? t (l ++ [n])).any Puzzle.isLarge

def missingFault (dir : Path) (n : Name) : Fault :=
  if TooLong ((largeDirectory dir).join n) then .disk (dir.join n) .nameTooLong
  else .pathNotFound (largeDirectory dir)

theorem relocate_missing (hu : u.NamesDirectory dir l)
    (hgone : u.entry? (l ++ [largeName]) = none) (hn : n.Proper)
    (hshort : ¬ TooLong (dir.join n)) :
    relocate u (dir.join n) (largeDirectory dir) = ⟨u, [], .error (missingFault dir n)⟩ := by
  have hparent := hu.locateParent_join hn
  have hzero : 0 ∉ (largeDirectory dir).bytes :=
    fun h => hu.zero_notMem ((Path.zero_mem_join dir largeName_proper).mp h)
  rw [if_neg hshort] at hparent
  exact relocate_of_walk hparent (Path.fileName?_join dir hn) hn hzero
    (FileTree.walk_join_missing hu largeName_proper hgone)

/-- A pass over files of a directory without the directory for large tasks changes nothing and fails
at the first large task. -/
theorem passFiles_missing (skip : Bool) (call : Nat) (hu : u.NamesDirectory dir l)
    (hgone : u.entry? (l ++ [largeName]) = none) (hns : ∀ n ∈ ns, n.Proper)
    (hparsed : ∀ n ∈ ns, ∃ task, TaskSource.loadDocument u (dir.join n) = .ok task) :
    let v := passFiles .documents skip dir call u (ns.map dir.join)
    v.tree = u ∧ v.result =
      match ns.find? (holdsLarge u l) with
      | some n => .error (missingFault dir n)
      | none => .ok ⟨dir, ns.length, 0, [], []⟩ := by
  induction ns generalizing call with
  | nil => exact ⟨rfl, rfl⟩
  | cons n ns ih =>
    obtain ⟨task, hload⟩ := hparsed n (by simp)
    obtain ⟨hshort, c, hc, hparse⟩ := exists_file_of_load hu (hns n (by simp)) hload
    have hmove := relocate_missing hu hgone (hns n (by simp)) hshort
    have htask : holdsLarge u l n = task.isLarge := by
      simp [holdsLarge, taskAt?, hc, hparse, Except.toOption]
    obtain ⟨htree, hresult⟩ := ih (call + 1) (fun m hm => hns m (by simp [hm]))
      fun m hm => hparsed m (by simp [hm])
    rw [List.map_cons]
    simp only [passFiles, TaskSource.documents, hload]
    by_cases hlarge : task.isLarge
    · simp only [if_pos hlarge, hmove, Pass.stop, List.find?_cons_of_pos (htask.trans hlarge),
        and_self]
    · have hsmall : ¬ holdsLarge u l n := by rwa [htask]
      simp only [if_neg hlarge, Pass.after, List.find?_cons_of_neg hsmall]
      refine ⟨htree, ?_⟩
      simp only [TaskSource.documents] at hresult
      rw [hresult]
      cases ns.find? (holdsLarge u l) with
      | some n => rfl
      | none => rfl

def vanish (dir p : Path) (t : FileTree) : FileTree :=
  match t.rename (largeDirectory dir) p with
  | .ok u => u
  | .error _ => t

/-- The part of a pass before the directory for large tasks is renamed. -/
def reached (skip : Bool) (t : FileTree) (dir : Path) (before : List Name) : Pass :=
  passFiles .documents skip dir 0 (ensureDirectory t (largeDirectory dir)).tree
    (before.map dir.join)

/-- The directory for large tasks is renamed to the path `p`, at which there is nothing, when the
pass has handled the files `before` and comes to the files `rest`, of which there is at least one;
all of them hold tasks. The path leads to the place `q`, and the tree `u` is left. -/
structure Vanishes (order : Order) (skip : Bool) (t : FileTree) (dir : Path)
    (before rest : List Name) (p : Path) (q : Location) (u : FileTree) : Prop where
  made : (ensureDirectory t (largeDirectory dir)).result = .ok ()
  listed : taskFiles order .documents (ensureDirectory t (largeDirectory dir)).tree dir =
    .ok ((before ++ rest).map dir.join)
  rest_ne_nil : rest ≠ []
  parsed : ∀ n ∈ before ++ rest, ∃ task, TaskSource.loadDocument t (dir.join n) = .ok task
  handled : ∃ report, (reached skip t dir before).result = .ok report
  target : ∃ k m, (reached skip t dir before).tree.locateParent p = .ok (k, .name m) ∧
    q = k ++ [m]
  free : FileTree.entry? (reached skip t dir before).tree q = none
  renamed : (reached skip t dir before).tree.rename (largeDirectory dir) p = .ok u

def vanishedReport (t : FileTree) (dir : Path) (l : Location) (before rest : List Name) :
    Report where
  dir := dir
  total := (before ++ rest).length
  hit := (before.filter (holdsLarge t l)).length
  relocated := (before.filter (holdsLarge t l)).map (largeDirectory dir).join
  skipped := []

theorem fate_ne_skipped_of_load {task : Puzzle}
    (h : TaskSource.loadDocument t (dir.join n) = .ok task) : fate skip t dir l n ≠ .skipped := by
  rw [fate, h]
  by_cases hlarge : task.isLarge
  · cases hm : moveFault? t dir l n <;> simp [hlarge]
  · simp [hlarge]

theorem join_injective (dir : Path) : Function.Injective dir.join := by
  intro m n h
  have hbytes := congrArg Path.bytes h
  rw [Path.bytes_join, Path.bytes_join] at hbytes
  exact List.append_cancel_left hbytes

namespace Vanishes

section

variable (h : Vanishes order skip t dir before rest p q u) (hw : t.WellNamed)
  (hd : t.NamesDirectory dir l)

include h hd

theorem largeFault?_eq : largeFault? t dir l = none := by
  cases hl : largeFault? t dir l with
  | none => rfl
  | some fault =>
    have hmade := h.made
    rw [ensureDirectory_of_largeFault? hd hl] at hmade
    cases hmade

include hw

theorem listed_eq : Prune.listed order t dir l = before ++ rest := by
  obtain ⟨-, v, hmade, hv⟩ := ensureDirectory_large hd (h.largeFault?_eq hd)
  have hlisted := h.listed
  rw [hmade, taskFiles_documents hw hd hv (by rw [hmade])] at hlisted
  exact (List.map_injective_iff.mpr (join_injective dir)) (Except.ok.inj hlisted)

theorem mem_taskFileNames (hn : n ∈ before ++ rest) : n ∈ taskFileNames t dir l :=
  Prune.mem_taskFileNames order hd (h.largeFault?_eq hd) (h.listed_eq hw hd ▸ hn)

theorem proper (hn : n ∈ before ++ rest) : n.Proper ∧ n ≠ largeName :=
  proper_of_mem_taskFileNames hw (h.mem_taskFileNames hw hd hn)

theorem nodup : (before ++ rest).Nodup :=
  h.listed_eq hw hd ▸ nodup_listed order hd (h.largeFault?_eq hd)

theorem reached_tells :
    Partitioned t l (before.filter (holdsLarge t l)) (reached skip t dir before).tree ∧
      (reached skip t dir before).result = .ok (vanishedReport t dir l before []) := by
  obtain ⟨hlarge, v, hmade, hv⟩ := ensureDirectory_large hd (h.largeFault?_eq hd)
  have hnames : ∀ n ∈ before, n.Proper ∧ n ∉ [] ∧ n ≠ largeName := by
    intro n hn
    obtain ⟨hproper, hne⟩ := h.proper hw hd (List.mem_append_left rest hn)
    exact ⟨hproper, List.not_mem_nil, hne⟩
  have htells : (reached skip t dir before).Tells skip t dir l [] before := by
    rw [reached, hmade]
    exact passFiles_documents skip 0 hv hd hlarge (List.nodup_append.mp (h.nodup hw hd)).1 hnames
  have hfirst : firstFault? skip t dir l before = none := by
    obtain ⟨report, hresult⟩ := h.handled
    rw [htells.result, resultOf] at hresult
    split at hresult
    · cases hresult
    · assumption
  have hfault := List.findSome?_eq_none_iff.mp hfirst
  have hhandled : Prune.handled skip t dir l before = before := by
    rw [Prune.handled, List.takeWhile_eq_self_iff]
    intro n hn
    rw [hfault n hn]
    rfl
  have hmoved : movedNames skip t dir l before = before.filter (holdsLarge t l) :=
    movedNames_eq_filter hw hd
      (fun n hn => h.mem_taskFileNames hw hd (List.mem_append_left rest hn)) hfault
  have hskipped : skippedNames skip t dir l before = [] := by
    rw [skippedNames, List.filter_eq_nil_iff]
    intro n hn
    obtain ⟨task, hload⟩ := h.parsed n (List.mem_append_left rest hn)
    simp [fate_ne_skipped_of_load hload]
  constructor
  · have htree := htells.tree
    rwa [hhandled, hmoved, List.nil_append] at htree
  · rw [htells.result, resultOf, hfirst, reportOf, hmoved, hskipped, vanishedReport,
      List.append_nil]
    rfl

theorem entry?_eq :
    (∀ n, n ∈ before → holdsLarge t l n → u.entry? (q ++ [n]) = t.entry? (l ++ [n])) ∧
      u.entry? (l ++ [largeName]) = none ∧
      ∀ n ∈ rest, u.entry? (l ++ [n]) = t.entry? (l ++ [n]) := by
  obtain ⟨hlarge, -⟩ := ensureDirectory_large hd (h.largeFault?_eq hd)
  obtain ⟨hs, -⟩ := h.reached_tells hw hd
  obtain ⟨k, m, hk, rfl⟩ := h.target
  have hsd := hs.namesDirectory hd
  obtain ⟨rfl, hbelow⟩ :=
    FileTree.eq_move_of_rename hsd largeName_proper hs.large hk h.free h.renamed
  have hkd := FileTree.isDirectoryAt_of_locateParent hk
  have hsome : (FileTree.entry? (reached skip t dir before).tree (l ++ [largeName])).isSome := by
    rw [hs.large]
    rfl
  refine ⟨?_, ?_, ?_⟩
  · intro n hn hlarge
    rw [FileTree.entry?_move_below hsome (by simp) hkd hbelow, FileTree.append_pair]
    exact hs.arrived n (List.mem_filter.mpr ⟨hn, hlarge⟩)
  · rw [FileTree.entry?_move_free hsome (by simp) hkd hbelow h.free hsome,
      if_pos (List.prefix_refl _)]
  · intro n hn
    obtain ⟨hproper, hne⟩ := h.proper hw hd (List.mem_append_right before hn)
    obtain ⟨task, hload⟩ := h.parsed n (List.mem_append_right before hn)
    obtain ⟨-, c, hc, -⟩ := exists_file_of_load hd hproper hload
    have hnot : n ∉ before.filter (holdsLarge t l) := fun hmem =>
      (List.nodup_append.mp (h.nodup hw hd)).2.2 n (List.mem_filter.mp hmem).1 n hn rfl
    have hstays := hs.entry?_stays hnot hne
    rw [FileTree.entry?_move_free hsome (by simp) hkd hbelow h.free (by simp [hstays, hc]),
      if_neg, hstays]
    rw [List.prefix_append_right_inj]
    simpa using hne.symm

theorem passFiles_rest (hu : u.NamesDirectory dir l) (call : Nat) :
    let v := passFiles .documents skip dir call u (rest.map dir.join)
    v.tree = u ∧ v.result =
      match rest.find? (holdsLarge t l) with
      | some n => .error (missingFault dir n)
      | none => .ok ⟨dir, rest.length, 0, [], []⟩ := by
  obtain ⟨-, hgone, hstays⟩ := h.entry?_eq hw hd
  have hproper : ∀ n ∈ rest, n.Proper := fun n hn =>
    (h.proper hw hd (List.mem_append_right before hn)).1
  have hparsed : ∀ n ∈ rest, ∃ task, TaskSource.loadDocument u (dir.join n) = .ok task := by
    intro n hn
    rw [loadDocument_join hu (hproper n hn), hstays n hn, ← loadDocument_join hd (hproper n hn)]
    exact h.parsed n (List.mem_append_right before hn)
  have hlarge : rest.find? (holdsLarge u l) = rest.find? (holdsLarge t l) := by
    apply List.find?_congr
    intro n hn
    rw [holdsLarge, taskAt?, hstays n hn, ← taskAt?, holdsLarge]
  have hrest := passFiles_missing skip call hu hgone hproper hparsed
  rwa [hlarge] at hrest

end
end Vanishes

/-- If the directory for large tasks is renamed during a pass, the large tasks moved before are
where it has gone, and nothing is moved or made any more: the pass fails at the next large task, and
succeeds if there is none. Its path must not lead through the renamed directory. -/
theorem pass_vanishing (hw : t.WellNamed) (hd : t.NamesDirectory dir l)
    (h : Vanishes order skip t dir before rest p q u) (hu : u.NamesDirectory dir l) :
    let v := pass order (disturbed before.length (vanish dir p)) skip t dir
    v.tree = u ∧ u.entry? (l ++ [largeName]) = none ∧
      (∀ n ∈ before, holdsLarge t l n → u.entry? (q ++ [n]) = t.entry? (l ++ [n])) ∧
      (∀ n ∈ rest, u.entry? (l ++ [n]) = t.entry? (l ++ [n])) ∧
      v.result =
        match rest.find? (holdsLarge t l) with
        | some n => .error (missingFault dir n)
        | none => .ok (vanishedReport t dir l before rest) := by
  obtain ⟨harrived, hgone, hstays⟩ := h.entry?_eq hw hd
  obtain ⟨-, hreached⟩ := h.reached_tells hw hd
  obtain ⟨htree, hresult⟩ := h.passFiles_rest hw hd hu before.length
  have hlists : Lists order (disturbed before.length (vanish dir p)) t dir _ _ :=
    ⟨hd.isDirectory_eq, h.made, rfl, h.listed⟩
  have hbefore : passFiles (disturbed before.length (vanish dir p)) skip dir 0
      (ensureDirectory t (largeDirectory dir)).tree (before.map dir.join) =
        reached skip t dir before := by
    apply passFiles_congr
    intro i _ hi
    rw [List.length_map] at hi
    exact load_disturbed (by omega)
  have hrest : passFiles (disturbed before.length (vanish dir p)) skip dir before.length
      (reached skip t dir before).tree (rest.map dir.join) =
        passFiles .documents skip dir before.length u (rest.map dir.join) := by
    cases hr : rest with
    | nil => exact absurd hr h.rest_ne_nil
    | cons n ns =>
      rw [List.map_cons, passFiles_disturbed, vanish, h.renamed]
  rw [← hbefore] at hreached
  obtain ⟨hwhole, hwhole'⟩ := passFiles_append (rest.map dir.join) hreached
  rw [hbefore, List.length_map, Nat.zero_add, hrest] at hwhole hwhole'
  rw [pass_of_lists hlists, List.map_append]
  refine ⟨hwhole.trans htree, hgone, harrived, hstays, ?_⟩
  rw [Pass.framed]
  simp only [hwhole', hresult]
  cases rest.find? (holdsLarge t l) with
  | some n => rfl
  | none => simp [Except.map, Report.followed, vanishedReport]

def partingTree : FileTree where
  root :=
    [(ascii "d", .directory
      [(ascii "a.json", .file largeDocument),
        (ascii "b.json", .file (.bytes (ascii "[[],[]]"))),
        (ascii "g.json", .file largeDocument)])]
  workingDirectory := []

theorem pass_vanishing_parting :
    let p : Path := ⟨ascii "e"⟩
    let v := pass .kept (disturbed 1 (vanish mixedDirectory p)) false partingTree mixedDirectory
    partingTree.WellNamed ∧
      (∃ u, Vanishes .kept false partingTree mixedDirectory [ascii "a.json"]
          [ascii "b.json", ascii "g.json"] p [ascii "e"] u ∧
        u.NamesDirectory mixedDirectory [ascii "d"] ∧
        (taskAt? u [ascii "e", ascii "a.json"]).any Puzzle.isLarge) ∧
      v.result = .error (.pathNotFound ⟨ascii "d/large"⟩) := by
  intro p v
  have hw : partingTree.WellNamed := FileTree.wellNamed_of_allProper (by decide +kernel)
  have hd : partingTree.NamesDirectory mixedDirectory [ascii "d"] :=
    ⟨by decide +kernel, by decide +kernel⟩
  have hrename : ((reached false partingTree mixedDirectory [ascii "a.json"]).tree.rename
      (largeDirectory mixedDirectory) p).isOk := by
    decide +kernel
  obtain ⟨u, hu⟩ := exists_of_isOk hrename
  have hvanishes : Vanishes .kept false partingTree mixedDirectory [ascii "a.json"]
      [ascii "b.json", ascii "g.json"] p [ascii "e"] u := by
    constructor
    case made => decide +kernel
    case listed => decide +kernel
    case rest_ne_nil => simp
    case parsed =>
      have hparsed : ∀ n ∈ [ascii "a.json", ascii "b.json", ascii "g.json"],
          (TaskSource.loadDocument partingTree (mixedDirectory.join n)).isOk := by
        decide +kernel
      exact fun n hn => exists_of_isOk (hparsed n hn)
    case handled => exact exists_of_isOk (by decide +kernel)
    case target => exact ⟨[], ascii "e", by decide +kernel, rfl⟩
    case free => exact Option.isNone_iff_eq_none.mp (by decide +kernel)
    case renamed => exact hu
  have hud : u.NamesDirectory mixedDirectory [ascii "d"] := by
    have hplace : ((reached false partingTree mixedDirectory [ascii "a.json"]).tree.rename
          (largeDirectory mixedDirectory) p).map
          (fun u => (u.locate mixedDirectory, u.isDirectoryAt [ascii "d"])) =
        .ok (.ok [ascii "d"], true) := by
      decide +kernel
    rw [hu] at hplace
    obtain ⟨hlocate, hdirectory⟩ := Prod.mk.inj (Except.ok.inj hplace)
    exact ⟨hlocate, hdirectory⟩
  obtain ⟨-, -, harrived, -, hresult⟩ := pass_vanishing hw hd hvanishes hud
  refine ⟨hw, ⟨u, hvanishes, hud, ?_⟩, ?_⟩
  · have ha := harrived (ascii "a.json") (by simp) (by decide +kernel)
    rw [List.singleton_append, List.singleton_append] at ha
    rw [taskAt?, ha, ← taskAt?]
    decide +kernel
  · have hfind : [ascii "b.json", ascii "g.json"].find? (holdsLarge partingTree [ascii "d"]) =
        some (ascii "g.json") := by
      decide +kernel
    rw [hfind] at hresult
    exact hresult

def detourTree : FileTree where
  root :=
    [(ascii "d", .directory
      [(ascii "a.json", .file largeDocument), (largeName, .directory [])])]
  workingDirectory := []

/-- A path of the directory that leads through the directory for large tasks. -/
def detour : Path := ⟨ascii "d/large/.."⟩

/-- A path that leads through the directory for large tasks names nothing once that directory is
gone, and the next load fails instead of the next move. -/
theorem load_vanishing_detour :
    ¬ ∀ (order : Order) (skip : Bool) (t : FileTree) (dir : Path) (l : Location)
      (before rest : List Name) (p : Path) (q : Location) (u : FileTree),
      t.WellNamed → t.NamesDirectory dir l → Vanishes order skip t dir before rest p q u →
      rest.any (holdsLarge t l) →
      (pass order (disturbed before.length (vanish dir p)) skip t dir).result =
        .error (.pathNotFound (largeDirectory dir)) := by
  intro hclaim
  have hw : detourTree.WellNamed := FileTree.wellNamed_of_allProper (by decide +kernel)
  have hd : detourTree.NamesDirectory detour [ascii "d"] :=
    ⟨by decide +kernel, by decide +kernel⟩
  have hrename : ((reached false detourTree detour []).tree.rename (largeDirectory detour)
      ⟨ascii "e"⟩).isOk := by
    decide +kernel
  obtain ⟨u, hu⟩ := exists_of_isOk hrename
  have hvanishes :
      Vanishes .kept false detourTree detour [] [ascii "a.json"] ⟨ascii "e"⟩ [ascii "e"] u := by
    constructor
    case made => decide +kernel
    case listed => decide +kernel
    case rest_ne_nil => simp
    case parsed =>
      have hparsed : ∀ n ∈ [ascii "a.json"],
          (TaskSource.loadDocument detourTree (detour.join n)).isOk := by
        decide +kernel
      exact fun n hn => exists_of_isOk (hparsed n hn)
    case handled => exact exists_of_isOk (by decide +kernel)
    case target => exact ⟨[], ascii "e", by decide +kernel, rfl⟩
    case free => exact Option.isNone_iff_eq_none.mp (by decide +kernel)
    case renamed => exact hu
  have hresult := hclaim _ _ _ _ _ _ _ _ _ _ hw hd hvanishes (by decide +kernel)
  have hfault : (pass .kept (disturbed 0 (vanish detour ⟨ascii "e"⟩)) false detourTree
      detour).result = .error (.disk (detour.join (ascii "a.json")) .notFound) := by
    decide +kernel
  rw [List.length_nil, hfault] at hresult
  cases hresult

end Prune
end GridPuzzles
