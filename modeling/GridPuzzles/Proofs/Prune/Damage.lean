import GridPuzzles.Proofs.Json.CutRecords
import GridPuzzles.Proofs.Prune.Interference
import GridPuzzles.Proofs.Prune.Stored

/-! Damaged task files. What is left of a task file that has been cut short is no task, and neither
is a task file with anything but blanks behind it: a load of either fails, and a pass leaves it
where it is. -/
namespace GridPuzzles

open Json (Blank Cautious isBlank)

theorem Grid.cautious_reader (bs : List UInt8) : Cautious False Grid.reader.run bs :=
  Json.cautious_refine (Json.cautious_sequence
    (fun bs => (Json.cautious_sequence Json.cautious_cell bs).loosen) bs) _

theorem Example.cautious_reader (bs : List UInt8) : Cautious False Example.reader.run bs :=
  (Json.cautious_pairRecord Grid.cautious_reader Grid.cautious_reader _ _ _ bs).map _

theorem Example.cautious_sequence (bs : List UInt8) :
    Cautious False (Json.Reader.sequence Example.reader).run bs :=
  Json.cautious_sequence (fun bs => (Example.cautious_reader bs).loosen) bs

theorem Puzzle.cautious_reader (bs : List UInt8) : Cautious False Puzzle.reader.run bs :=
  (Json.cautious_pairRecord Example.cautious_sequence Example.cautious_sequence _ _ _ bs).map _

namespace TaskSource

variable {t : FileTree} {p : Path} {bytes document damaged : List UInt8} {task : Puzzle}

def Holds (t : FileTree) (p : Path) (bytes : List UInt8) : Prop :=
  ∃ c, t.inspect p = .ok (.file c) ∧ c.stored.data.toList = bytes

theorem Holds.loadDocument_eq (h : Holds t p bytes) :
    loadDocument t p = (Puzzle.reader.parse bytes).mapError (Fault.unparsable p) := by
  obtain ⟨c, hc, rfl⟩ := h
  exact loadDocument_of_file hc

theorem Holds.loadDocument_eq_ok (h : Holds t p bytes) :
    loadDocument t p = .ok task ↔ Puzzle.reader.parse bytes = .ok task := by
  rw [h.loadDocument_eq]
  cases Puzzle.reader.parse bytes <;> simp [Except.mapError]

/-- A document that has been cut short by more than the blanks at its end, or that is followed by
more than blanks. -/
inductive Damaged (document : List UInt8) : List UInt8 → Prop where
  | cut {x y : List UInt8} : document = x ++ y → ¬ Blank y → Damaged document x
  | followed {blank rest : List UInt8} {b : UInt8} : Blank blank → isBlank b = false →
      Damaged document (document ++ (blank ++ b :: rest))

theorem exists_failure_of_damaged (h : Puzzle.reader.parse document = .ok task)
    (hdamaged : Damaged document damaged) :
    ∃ failure, Puzzle.reader.parse damaged = .error failure := by
  cases hdamaged with
  | cut hcut hy =>
    obtain ⟨failure, hparse, -⟩ := Json.Reader.parse_cut Puzzle.cautious_reader h hcut hy
    exact ⟨failure, hparse⟩
  | followed hblank hb =>
    obtain ⟨position, hparse⟩ :=
      Json.Reader.parse_append_trailing Puzzle.cautious_reader h hblank hb
    exact ⟨_, hparse⟩

theorem damaged_doubled (h : Puzzle.reader.parse document = .ok task) :
    Damaged document (document ++ document) := by
  obtain ⟨w, hw, hdocument⟩ := Json.exists_blank document
  cases hs : Json.skipBlanks document with
  | nil =>
    have hrun : Puzzle.reader.run document = .failed .endInValue [] := by
      simp only [Puzzle.reader, Json.Reader.map, Json.Record.reader, hs, Json.Outcome.map]
    obtain ⟨position, hparse⟩ := Json.Reader.parse_of_failed hrun
    rw [h] at hparse
    cases hparse
  | cons b r =>
    rw [hs] at hdocument
    have hdamaged : Damaged document (document ++ (w ++ b :: r)) :=
      .followed hw (Json.isBlank_of_skipBlanks hs)
    rwa [← hdocument] at hdamaged

end TaskSource

namespace Prune

open TaskSource (Holds loadDocument)

variable {t u : FileTree} {dir : Path} {l : Location} {n : Name} {order : Order} {skip : Bool}
  {bytes : List UInt8} {failure : Json.Failure}

/-- A pass takes no file with these bytes for a task. Whoever changes the tree, a load that meets
such a file returns none, and the pass leaves it as it is. If nobody else changes the tree, such a
file of the directory stays there, and is listed as skipped if it is named as a task file. -/
structure Spares (bytes : List UInt8) : Prop where
  visited : ∀ order change skip t dir u files, Lists order (interfered change) t dir u files →
    let p := pass order (interfered change) skip t dir
    ∃ visits, Visits (interfered change) dir 0 u visits p.tree ∧
      p.loads = visits.map Visit.file ∧
      ∀ v ∈ visits, Holds v.loaded.tree v.file bytes →
        v.isUnparsable ∧ v.tree dir = v.loaded.tree
  stays : ∀ order skip t dir l n c, t.WellNamed → t.NamesDirectory dir l →
    t.entry? (l ++ [n]) = some (.file c) → c.stored.data.toList = bytes →
    let p := pass order .documents skip t dir
    p.tree.entry? (l ++ [n]) = t.entry? (l ++ [n]) ∧
      ∀ report, p.result = .ok report →
        (largeDirectory dir).join n ∉ report.relocated ∧
        (TaskSource.isTaskName n → dir.join n ∈ report.skipped)

theorem notMem_largeNames {c : Content} (hc : t.entry? (l ++ [n]) = some (.file c))
    (hparse : Puzzle.reader.parse c.stored.data.toList = .error failure) :
    n ∉ largeNames t l := by
  intro hn
  have hlarge := (List.mem_filter.mp hn).2
  simp [taskAt?, hc, hparse, Except.toOption] at hlarge

theorem entry?_of_pass {c : Content} (hw : t.WellNamed) (hd : t.NamesDirectory dir l)
    (hc : t.entry? (l ++ [n]) = some (.file c))
    (hparse : Puzzle.reader.parse c.stored.data.toList = .error failure) :
    FileTree.entry? (pass order .documents skip t dir).tree (l ++ [n]) = t.entry? (l ++ [n]) := by
  rcases exists_partitioned order skip hw hd with hsame | ⟨moved, hmoved, hu⟩
  · rw [hsame]
  · apply hu.entry?_stays
    · exact fun hn => notMem_largeNames hc hparse (hmoved n hn)
    · rintro rfl
      exact hu.vacant c hc

theorem notMem_relocated {c : Content} {report : Report} (hw : t.WellNamed)
    (hd : t.NamesDirectory dir l) (hc : t.entry? (l ++ [n]) = some (.file c))
    (hparse : Puzzle.reader.parse c.stored.data.toList = .error failure)
    (h : (pass order .documents skip t dir).result = .ok report) :
    (largeDirectory dir).join n ∉ report.relocated ∧
      (TaskSource.isTaskName n → dir.join n ∈ report.skipped) := by
  obtain ⟨l', hd', -, hagrees, -⟩ := pass_effect hw h
  obtain rfl : l' = l := Except.ok.inj (hd'.locate.symm.trans hd.locate)
  constructor
  · intro hn
    obtain ⟨m, hm, hjoin⟩ := List.mem_map.mp (hagrees.relocated_perm.mem_iff.mp hn)
    have hmproper : m.Proper := hw l' m (List.mem_filter.mp (List.mem_filter.mp hm).1).1
    have hnproper : n.Proper := hw l' n (by simp [FileTree.mem_namesAt, hc])
    rw [Path.join_injective _ hmproper hnproper hjoin] at hm
    exact notMem_largeNames hc hparse hm
  · intro hsuffix
    refine hagrees.skipped_perm.mem_iff.mpr (List.mem_map_of_mem ?_)
    rw [unparsableNames, List.mem_filter, documentNames, List.mem_filter, FileTree.mem_namesAt, hc]
    refine ⟨⟨rfl, ?_⟩, ?_⟩
    · simp [hsuffix, FileTree.isDirectoryAt, hc]
    · simp [taskAt?, hc, hparse, Except.toOption]

theorem spares_of_failure (hparse : Puzzle.reader.parse bytes = .error failure) : Spares bytes where
  visited := by
    intro order change skip t dir u files hlists p
    obtain ⟨visits, hvisits, hloads, -⟩ :=
      (pass_snapshot order (interfered change) skip t dir).1 u files hlists
    refine ⟨visits, hvisits, hloads, ?_⟩
    intro v hv hholds
    have hresult : v.loaded.result = .error (.unparsable v.file failure) := by
      rw [hvisits.loaded hv, hholds.loadDocument_eq, hparse]
      rfl
    refine ⟨by simp [Visit.isUnparsable, hresult, Fault.isUnparsable], ?_⟩
    rw [Visit.tree, if_neg (Visit.not_isLarge_of_error hresult)]
  stays := by
    rintro order skip t dir l n c hw hd hc rfl p
    exact ⟨entry?_of_pass hw hd hc hparse, fun report => notMem_relocated hw hd hc hparse⟩

end Prune

namespace TaskSource

variable {t : FileTree} {p : Path} {document : List UInt8} {task : Puzzle}

/-- A damaged task file is never mistaken for a task: cut short by more than the blanks at its end,
or with more than blanks behind it, it fails to load, and no pass takes it for a task. Only a cut
through a number that no field reads may fail for another reason than the end of the input. -/
theorem load_damaged (hholds : Holds t p document) (h : loadDocument t p = .ok task) :
    (∀ x y u q, document = x ++ y → ¬ Blank y → Holds u q x →
      ∃ failure, loadDocument u q = .error (.unparsable q failure) ∧
        (failure.category = .endOfInput ∨
          failure.reason = .badNumber ∧ Puzzle.reader.BreaksNumber task x y)) ∧
    (∀ blank u q, Blank blank → Holds u q (document ++ blank) → loadDocument u q = .ok task) ∧
    (∀ blank b rest u q, Blank blank → isBlank b = false →
      Holds u q (document ++ (blank ++ b :: rest)) →
      ∃ failure, loadDocument u q = .error (.unparsable q failure) ∧
        failure.category = .syntactic) ∧
    Damaged document (document ++ document) ∧
    ∀ damaged, Damaged document damaged → Prune.Spares damaged := by
  have hparse := hholds.loadDocument_eq_ok.mp h
  refine ⟨?_, ?_, ?_, damaged_doubled hparse, ?_⟩
  · intro x y u q hcut hy hx
    obtain ⟨failure, hfailure, hreason⟩ :=
      Json.Reader.parse_cut Puzzle.cautious_reader hparse hcut hy
    exact ⟨failure, by rw [hx.loadDocument_eq, hfailure]; rfl, hreason⟩
  · intro blank u q hblank hq
    exact hq.loadDocument_eq_ok.mpr
      (Json.Reader.parse_append_blank Puzzle.cautious_reader hparse hblank)
  · intro blank b rest u q hblank hb hq
    obtain ⟨position, hfailure⟩ :=
      Json.Reader.parse_append_trailing Puzzle.cautious_reader hparse hblank hb
    exact ⟨_, by rw [hq.loadDocument_eq, hfailure]; rfl, rfl⟩
  · intro damaged hdamaged
    obtain ⟨failure, hfailure⟩ := exists_failure_of_damaged hparse hdamaged
    exact Prune.spares_of_failure hfailure

def numberedDocument : List UInt8 := ascii "\x7b\"id\":-1,\"train\":[],\"test\":[]\x7d\n"

/-- The file of a task, what is left of it after two cuts, of which the first goes through the
number that is skipped, and the file with itself behind it. -/
def numberedTree : FileTree where
  root :=
    [(ascii "a.json", .file (.bytes numberedDocument)),
      (ascii "b.json", .file (.bytes (numberedDocument.take 7))),
      (ascii "c.json", .file (.bytes (numberedDocument.take 12))),
      (ascii "e.json", .file (.bytes (numberedDocument ++ numberedDocument)))]
  workingDirectory := []

theorem load_damaged_numbered :
    loadDocument numberedTree ⟨ascii "a.json"⟩ = .ok ⟨[], []⟩ ∧
      Puzzle.reader.BreaksNumber ⟨[], []⟩ (numberedDocument.take 7) (numberedDocument.drop 7) ∧
      (∃ failure, loadDocument numberedTree ⟨ascii "c.json"⟩ =
        .error (.unparsable ⟨ascii "c.json"⟩ failure) ∧ failure.category = .endOfInput) ∧
      (∃ failure, loadDocument numberedTree ⟨ascii "e.json"⟩ =
        .error (.unparsable ⟨ascii "e.json"⟩ failure) ∧ failure.category = .syntactic) ∧
      Prune.Spares (numberedDocument ++ numberedDocument) := by
  have hload : loadDocument numberedTree ⟨ascii "a.json"⟩ = .ok ⟨[], []⟩ := by decide +kernel
  have hbroken : loadDocument numberedTree ⟨ascii "b.json"⟩ =
      .error (.unparsable ⟨ascii "b.json"⟩ ⟨.badNumber, some ⟨1, 7⟩⟩) := by decide +kernel
  have hended : loadDocument numberedTree ⟨ascii "c.json"⟩ =
      .error (.unparsable ⟨ascii "c.json"⟩ ⟨.endInText, some ⟨1, 12⟩⟩) := by decide +kernel
  have hmore : ∀ k ≤ 12, ¬ Blank (numberedDocument.drop k) := by
    have hbracket : ∀ k ≤ 12, byte '[' ∈ numberedDocument.drop k := by decide +kernel
    exact fun k hk hblank => absurd (hblank _ (hbracket k hk)) (by decide)
  have hholds : Holds numberedTree ⟨ascii "a.json"⟩ numberedDocument := ⟨_, rfl, rfl⟩
  obtain ⟨hcut, -, hfollowed, hdoubled, hspares⟩ := load_damaged hholds hload
  refine ⟨hload, ?_, ?_, ?_, hspares _ hdoubled⟩
  · obtain ⟨failure, hfailure, hreason⟩ := hcut (numberedDocument.take 7) (numberedDocument.drop 7)
      numberedTree ⟨ascii "b.json"⟩ rfl (hmore 7 (by decide)) ⟨_, rfl, rfl⟩
    rw [hbroken] at hfailure
    cases hfailure
    rcases hreason with hcategory | ⟨-, hnumber⟩
    · cases hcategory
    · exact hnumber
  · obtain ⟨failure, hfailure, hreason⟩ := hcut (numberedDocument.take 12)
      (numberedDocument.drop 12) numberedTree ⟨ascii "c.json"⟩ rfl (hmore 12 (by decide))
      ⟨_, rfl, rfl⟩
    rw [hended] at hfailure
    cases hfailure
    rcases hreason with hcategory | ⟨hnumber, -⟩
    · exact ⟨_, hended, hcategory⟩
    · cases hnumber
  · exact hfollowed [] (byte '\x7b') (numberedDocument.drop 1) numberedTree ⟨ascii "e.json"⟩
      Json.blank_nil rfl ⟨_, rfl, rfl⟩

end TaskSource
end GridPuzzles
