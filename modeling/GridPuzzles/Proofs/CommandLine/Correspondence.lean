import GridPuzzles.Proofs.CommandLine.Numeral
import GridPuzzles.Proofs.CommandLine.Spelling

/-! Arguments and configs. A config of `prune` or of `view` is told by the clauses that the
arguments spell, in whatever way and in whatever order: by the positional arguments in turn and by
what is given once. -/
namespace GridPuzzles
namespace CommandLine

variable {args : List String} {cs : List Clause} {α β : Type}

def settings (name : String) (cs : List Clause) : List String :=
  cs.filterMap fun
    | .setting n v => if n = name then some v else none
    | _ => none

@[simp] theorem settings_word (name w : String) (cs : List Clause) :
    settings name (.word w :: cs) = settings name cs := rfl

theorem settings_same (name v : String) (cs : List Clause) :
    settings name (.setting name v :: cs) = v :: settings name cs := by
  simp [settings]

theorem settings_other {name other : String} (h : other ≠ name) (v : String) (cs : List Clause) :
    settings name (.setting other v :: cs) = settings name cs := by
  simp [settings, h]

/-- What has been given before and what is given now, which may be only one of all. -/
inductive Once (P : β → α → Prop) : (before : Option α) → List β → (after : Option α) → Prop where
  | kept (x : Option α) : Once P x [] x
  | given {v : β} {a : α} : P v a → Once P none [v] (some a)

theorem once_cons {P : β → α → Prop} {v : β} {vs : List β} {x y : Option α} :
    Once P x (v :: vs) y ↔ x = none ∧ ∃ a, P v a ∧ Once P (some a) vs y := by
  constructor
  · rintro (_ | h)
    exact ⟨rfl, _, h, .kept _⟩
  · rintro ⟨rfl, a, ha, h⟩
    cases h
    exact .given ha

theorem once_nil {P : β → α → Prop} {x y : Option α} : Once P x [] y ↔ x = y := by
  constructor
  · rintro ⟨⟩
    rfl
  · rintro rfl
    exact .kept _

theorem once_some {P : β → α → Prop} {vs : List β} {a : α} :
    Once P none vs (some a) ↔ ∃ v, vs = [v] ∧ P v a := by
  constructor
  · rintro (_ | h)
    exact ⟨_, rfl, h⟩
  · rintro ⟨v, rfl, h⟩
    exact .given h

def PathOf (v : String) (p : Path) : Prop := v ≠ "" ∧ p = Path.ofString v

theorem pathValue_eq_ok {shown v : String} {p : Path} :
    pathValue shown v = .ok p ↔ PathOf v p := by
  rw [pathValue, PathOf]
  split
  · rename_i hv
    simp [hv]
  · rename_i hv
    simp [hv, eq_comm]

theorem mapM_pathValue_eq_ok {shown : String} {vs : List String} {ps : List Path} :
    vs.mapM (pathValue shown) = .ok ps ↔ (∀ v ∈ vs, v ≠ "") ∧ ps = vs.map Path.ofString := by
  induction vs generalizing ps with
  | nil =>
    rw [List.mapM_nil, List.map_nil]
    exact ⟨fun h => ⟨by simp, (Except.ok.inj h).symm⟩, fun h => congrArg _ h.2.symm⟩
  | cons v vs ih =>
    simp only [List.mapM_cons, bind_eq_ok, pathValue_eq_ok, ih, List.forall_mem_cons]
    constructor
    · rintro ⟨p, ⟨hv, rfl⟩, ps', ⟨hvs, rfl⟩, ⟨⟩⟩
      exact ⟨⟨hv, hvs⟩, rfl⟩
    · rintro ⟨⟨hv, hvs⟩, rfl⟩
      exact ⟨_, ⟨hv, rfl⟩, _, ⟨hvs, rfl⟩, rfl⟩

/-! The grammar of `prune`. -/

theorem pruneGrammar_store {b d : PruneDraft} {vs : List String} :
    pruneGrammar.store b vs = .ok d ↔
      (∀ v ∈ vs, v ≠ "") ∧ d = { b with dirs := b.dirs ++ vs.map Path.ofString } := by
  simp only [pruneGrammar, bind_eq_ok, mapM_pathValue_eq_ok]
  constructor
  · rintro ⟨ps, ⟨hvs, rfl⟩, ⟨⟩⟩
    exact ⟨hvs, rfl⟩
  · rintro ⟨hvs, rfl⟩
    exact ⟨_, ⟨hvs, rfl⟩, rfl⟩

theorem pruneGrammar_regular : pruneGrammar.Regular := by
  constructor
  case long =>
    intro o ho
    simp only [pruneGrammar, List.mem_cons, List.not_mem_nil, or_false] at ho
    rcases ho with rfl | rfl
    · exact ⟨by decide, by decide, rfl⟩
    · exact ⟨by decide, by decide, rfl⟩
  case short =>
    intro o ho c hc
    simp only [pruneGrammar, List.mem_cons, List.not_mem_nil, or_false] at ho
    rcases ho with rfl | rfl
    · cases hc
    · cases hc
      exact ⟨by decide, rfl⟩
  case switch =>
    intro o ho hs
    simp only [pruneGrammar, List.mem_cons, List.not_mem_nil, or_false] at ho
    rcases ho with rfl | rfl
    · rfl
    · obtain ⟨set, hset⟩ := hs
      cases hset
  case store =>
    intro _ b vs w d
    simp only [pruneGrammar_store, List.forall_mem_append, List.forall_mem_singleton]
    constructor
    · rintro ⟨⟨hvs, hw⟩, rfl⟩
      exact ⟨_, ⟨hvs, rfl⟩, hw, by simp⟩
    · rintro ⟨_, ⟨hvs, rfl⟩, hw, rfl⟩
      exact ⟨⟨hvs, hw⟩, by simp⟩

theorem pruneGrammar_makes_switch {b d : PruneDraft} :
    pruneGrammar.Makes b d (.switch "skip-invalid") ↔
      b.skipInvalid = none ∧ d = { b with skipInvalid := some () } := by
  have hmakes := @Grammar.makes_switch _ pruneGrammar _ b d pruneGrammar_regular _
    List.mem_cons_self rfl
  refine hmakes.trans ?_
  simp only [bind_eq_ok, once_eq_ok]
  constructor
  · rintro ⟨_, ⟨hnone, _, -, rfl⟩, ⟨⟩⟩
    exact ⟨hnone, rfl⟩
  · rintro ⟨hnone, rfl⟩
    exact ⟨_, ⟨hnone, (), trivial, rfl⟩, rfl⟩

def PruneClause (c : Clause) : Prop := c.isWord ∨ c = .switch "skip-invalid"

theorem pruneGrammar_makesAll {b d : PruneDraft} (hcs : ∀ c ∈ cs, PruneClause c) :
    pruneGrammar.MakesAll b d cs ↔
      (∀ w ∈ words cs, w ≠ "") ∧ d.dirs = b.dirs ++ (words cs).map Path.ofString ∧
        Once (fun _ _ => True) b.skipInvalid (cs.filter (· = .switch "skip-invalid"))
          d.skipInvalid := by
  induction cs generalizing b with
  | nil =>
    obtain ⟨dirs, skip⟩ := b
    obtain ⟨dirs', skip'⟩ := d
    simp [Grammar.MakesAll, once_nil, eq_comm]
  | cons c cs ih =>
    obtain ⟨hc, hrest⟩ := List.forall_mem_cons.mp hcs
    rw [Grammar.MakesAll]
    rcases hc with hc | rfl
    · cases c with
      | word w =>
        simp only [Grammar.Makes, pruneGrammar_store, List.forall_mem_singleton]
        have hfilter : (Clause.word w :: cs).filter (· = .switch "skip-invalid") =
            cs.filter (· = .switch "skip-invalid") := List.filter_cons_of_neg (by simp)
        rw [hfilter, words_word, List.forall_mem_cons]
        constructor
        · rintro ⟨_, ⟨hw, rfl⟩, h⟩
          obtain ⟨hws, hdirs, hskip⟩ := (ih hrest).mp h
          exact ⟨⟨hw, hws⟩, by simpa using hdirs, hskip⟩
        · rintro ⟨⟨hw, hws⟩, hdirs, hskip⟩
          exact ⟨_, ⟨hw, rfl⟩, (ih hrest).mpr ⟨hws, by simpa using hdirs, hskip⟩⟩
      | _ => cases hc
    · simp only [pruneGrammar_makes_switch]
      rw [List.filter_cons_of_pos (by simp), words_switch, once_cons]
      constructor
      · rintro ⟨_, ⟨hnone, rfl⟩, h⟩
        obtain ⟨hws, hdirs, hskip⟩ := (ih hrest).mp h
        exact ⟨hws, hdirs, hnone, (), trivial, hskip⟩
      · rintro ⟨hws, hdirs, hnone, _, -, hskip⟩
        exact ⟨_, ⟨hnone, rfl⟩, (ih hrest).mpr ⟨hws, hdirs, hskip⟩⟩

theorem pruneClause_of_spelled {as : List String} (h : pruneGrammar.Spelled cs as) :
    ∀ c ∈ cs, PruneClause c := by
  intro c hc
  rcases h.known c hc with hword | ⟨o, ho, ⟨hs, rfl⟩ | ⟨⟨set, he⟩, -⟩⟩
  · exact .inl hword
  · simp only [pruneGrammar, List.mem_cons, List.not_mem_nil, or_false] at ho
    rcases ho with rfl | rfl
    · exact .inr rfl
    · obtain ⟨set, he⟩ := hs
      cases he
  · simp only [pruneGrammar, List.mem_cons, List.not_mem_nil, or_false] at ho
    rcases ho with rfl | rfl <;> cases he

/-! The grammar of `view`. -/

theorem viewGrammar_store {b d : ViewDraft} {vs : List String} :
    viewGrammar.store b vs = .ok d ↔
      (∀ v ∈ vs, v ≠ "") ∧ d = { b with task := (vs.map Path.ofString).head? } := by
  simp only [viewGrammar, bind_eq_ok, mapM_pathValue_eq_ok]
  constructor
  · rintro ⟨ps, ⟨hvs, rfl⟩, ⟨⟩⟩
    exact ⟨hvs, rfl⟩
  · rintro ⟨hvs, rfl⟩
    exact ⟨_, ⟨hvs, rfl⟩, rfl⟩

theorem viewGrammar_regular : viewGrammar.Regular := by
  constructor
  case long =>
    intro o ho
    simp only [viewGrammar, List.mem_cons, List.not_mem_nil, or_false] at ho
    rcases ho with rfl | rfl | rfl
    · exact ⟨by decide, by decide, rfl⟩
    · exact ⟨by decide, by decide, rfl⟩
    · exact ⟨by decide, by decide, rfl⟩
  case short =>
    intro o ho c hc
    simp only [viewGrammar, List.mem_cons, List.not_mem_nil, or_false] at ho
    rcases ho with rfl | rfl | rfl
    · cases hc
      exact ⟨by decide, rfl⟩
    · cases hc
    · cases hc
      exact ⟨by decide, rfl⟩
  case switch =>
    rintro o ho ⟨set, hset⟩
    simp only [viewGrammar, List.mem_cons, List.not_mem_nil, or_false] at ho
    rcases ho with rfl | rfl | rfl <;> cases hset
  case store =>
    intro hmany
    cases hmany

theorem viewGrammar_makes_output {b d : ViewDraft} {v : String} :
    viewGrammar.Makes b d (.setting "output" v) ↔
      b.output = none ∧ ∃ p, PathOf v p ∧ d = { b with output := some p } := by
  have hmakes := @Grammar.makes_setting _ viewGrammar _ v b d viewGrammar_regular _
    List.mem_cons_self rfl
  refine hmakes.trans ?_
  simp only [bind_eq_ok, once_eq_ok, pathValue_eq_ok]
  constructor
  · rintro ⟨_, ⟨hnone, p, hp, rfl⟩, ⟨⟩⟩
    exact ⟨hnone, p, hp, rfl⟩
  · rintro ⟨hnone, p, hp, rfl⟩
    exact ⟨_, ⟨hnone, p, hp, rfl⟩, rfl⟩

theorem viewGrammar_makes_cellSize {b d : ViewDraft} {v : String} :
    viewGrammar.Makes b d (.setting "cell-size" v) ↔
      b.cellSize = none ∧ ∃ n, SizeSpelled n v ∧ d = { b with cellSize := some n } := by
  have hmakes := @Grammar.makes_setting _ viewGrammar _ v b d viewGrammar_regular _
    (List.mem_cons_of_mem _ List.mem_cons_self) rfl
  refine hmakes.trans ?_
  simp only [bind_eq_ok, once_eq_ok, cellSizeValue_eq_ok]
  constructor
  · rintro ⟨_, ⟨hnone, n, hn, rfl⟩, ⟨⟩⟩
    exact ⟨hnone, n, hn, rfl⟩
  · rintro ⟨hnone, n, hn, rfl⟩
    exact ⟨_, ⟨hnone, n, hn, rfl⟩, rfl⟩

def ViewClause (c : Clause) : Prop :=
  c.isWord ∨ (∃ v, c = .setting "output" v) ∨ ∃ v, c = .setting "cell-size" v

theorem viewClause_of_spelled {as : List String} (h : viewGrammar.Spelled cs as) :
    ∀ c ∈ cs, ViewClause c := by
  intro c hc
  rcases h.known c hc with hword | ⟨o, ho, ⟨⟨set, he⟩, -⟩ | ⟨⟨set, he⟩, v, rfl⟩⟩
  · exact .inl hword
  · simp only [viewGrammar, List.mem_cons, List.not_mem_nil, or_false] at ho
    rcases ho with rfl | rfl | rfl <;> cases he
  · simp only [viewGrammar, List.mem_cons, List.not_mem_nil, or_false] at ho
    rcases ho with rfl | rfl | rfl
    · exact .inr (.inl ⟨v, rfl⟩)
    · exact .inr (.inr ⟨v, rfl⟩)
    · cases he

theorem viewGrammar_makesAll {b d : ViewDraft} (hcs : ∀ c ∈ cs, ViewClause c)
    (hwords : words cs = [] ∨ b.task = none ∧ (words cs).length = 1) :
    viewGrammar.MakesAll b d cs ↔
      Once PathOf b.task (words cs) d.task ∧
        Once PathOf b.output (settings "output" cs) d.output ∧
        Once (fun v n => SizeSpelled n v) b.cellSize (settings "cell-size" cs) d.cellSize := by
  induction cs generalizing b with
  | nil =>
    obtain ⟨task, output, cellSize⟩ := b
    obtain ⟨task', output', cellSize'⟩ := d
    simp [Grammar.MakesAll, once_nil, settings]
  | cons c cs ih =>
    obtain ⟨hc, hrest⟩ := List.forall_mem_cons.mp hcs
    rw [Grammar.MakesAll]
    rcases hc with hc | ⟨v, rfl⟩ | ⟨v, rfl⟩
    · cases c with
      | word w =>
        obtain ⟨hnone, hlength⟩ := hwords.resolve_left (by simp)
        have hnil : words cs = [] := by simpa using hlength
        simp only [Grammar.Makes, viewGrammar_store, List.forall_mem_singleton, words_word,
          settings_word, once_cons, hnil]
        constructor
        · rintro ⟨_, ⟨hw, rfl⟩, h⟩
          obtain ⟨htask, hrest⟩ := (ih hrest (.inl hnil)).mp h
          rw [hnil] at htask
          exact ⟨⟨hnone, _, ⟨hw, rfl⟩, htask⟩, hrest⟩
        · rintro ⟨⟨-, _, ⟨hw, rfl⟩, htask⟩, hother⟩
          refine ⟨_, ⟨hw, rfl⟩, (ih hrest (.inl hnil)).mpr ⟨?_, hother⟩⟩
          rwa [hnil]
      | _ => cases hc
    · simp only [viewGrammar_makes_output, words_setting, settings_same,
        settings_other (show "output" ≠ "cell-size" by decide), once_cons]
      constructor
      · rintro ⟨_, ⟨hnone, p, hp, rfl⟩, h⟩
        obtain ⟨htask, houtput, hsize⟩ := (@ih { b with output := some p } hrest hwords).mp h
        exact ⟨htask, ⟨hnone, p, hp, houtput⟩, hsize⟩
      · rintro ⟨htask, ⟨hnone, p, hp, houtput⟩, hsize⟩
        exact ⟨_, ⟨hnone, p, hp, rfl⟩,
          (@ih { b with output := some p } hrest hwords).mpr ⟨htask, houtput, hsize⟩⟩
    · simp only [viewGrammar_makes_cellSize, words_setting, settings_same,
        settings_other (show "cell-size" ≠ "output" by decide), once_cons]
      constructor
      · rintro ⟨_, ⟨hnone, n, hn, rfl⟩, h⟩
        obtain ⟨htask, houtput, hsize⟩ := (@ih { b with cellSize := some n } hrest hwords).mp h
        exact ⟨htask, houtput, hnone, n, hn, hsize⟩
      · rintro ⟨htask, houtput, hnone, n, hn, hsize⟩
        exact ⟨_, ⟨hnone, n, hn, rfl⟩,
          (@ih { b with cellSize := some n } hrest hwords).mpr ⟨htask, houtput, hsize⟩⟩

/-! Whole lists of arguments. -/

/-- The config that clauses of `prune` ask for: the directories in turn, or the usual ones. -/
structure PruneAsks (cs : List Clause) (c : Prune.Config) : Prop where
  named : ∀ w ∈ words cs, w ≠ ""
  dirs : c.dirs =
    if words cs = [] then Prune.Config.default.dirs else (words cs).map Path.ofString
  once : cs.count (.switch "skip-invalid") ≤ 1
  skipInvalid : c.skipInvalid ↔ .switch "skip-invalid" ∈ cs

/-- The config that clauses of `view` ask for. -/
structure ViewAsks (cs : List Clause) (c : View.Config) : Prop where
  task : ∃ w, words cs = [w] ∧ PathOf w c.task
  output : Once PathOf none (settings "output" cs) c.output
  cellSize : ∃ size, Once (fun v n => SizeSpelled n v) none (settings "cell-size" cs) size ∧
    c.cellSize = size.getD Preview.CellSize.default

theorem once_switch {name : String} {skip : Option Unit} :
    Once (fun _ _ => True) none (cs.filter (· = .switch name)) skip ↔
      cs.count (.switch name) ≤ 1 ∧ (skip.isSome ↔ .switch name ∈ cs) := by
  have hcount : cs.count (.switch name) = (cs.filter (· = .switch name)).length := by
    rw [List.count_eq_length_filter]
    rfl
  have hmem : .switch name ∈ cs ↔ cs.filter (· = .switch name) ≠ [] := by
    simp [List.filter_eq_nil_iff]
  rw [hcount, hmem]
  cases cs.filter (· = .switch name) with
  | nil => cases skip <;> simp [once_nil]
  | cons c cs => cases cs <;> cases skip <;> simp [once_cons, once_nil]

theorem readPrune_eq_ok {rest : List String} {c : Prune.Config} :
    readPrune rest = .ok c ↔ ∃ cs, pruneGrammar.Spelled cs rest ∧ PruneAsks cs c := by
  simp only [readPrune, bind_eq_ok, Grammar.read_eq_ok pruneGrammar_regular]
  constructor
  · rintro ⟨d, ⟨cs, hspelled, hmakes, -⟩, ⟨⟩⟩
    obtain ⟨hwords, hdirs, hskip⟩ :=
      (pruneGrammar_makesAll (pruneClause_of_spelled hspelled)).mp hmakes
    obtain ⟨honce, hskip⟩ := once_switch.mp hskip
    rw [List.nil_append] at hdirs
    exact ⟨cs, hspelled, hwords, by simp [hdirs], honce, hskip⟩
  · rintro ⟨cs, hspelled, hwords, hdirs, honce, hskip⟩
    obtain ⟨dirs, skip⟩ := c
    let d : PruneDraft := ⟨(words cs).map Path.ofString, if skip then some () else none⟩
    have hsome : d.skipInvalid.isSome = skip := by cases skip <;> rfl
    refine ⟨d, ⟨cs, hspelled, ?_, .inl rfl⟩, ?_⟩
    · refine (pruneGrammar_makesAll (pruneClause_of_spelled hspelled)).mpr ⟨hwords, rfl, ?_⟩
      exact once_switch.mpr ⟨honce, by rwa [hsome]⟩
    · simp only at hdirs
      rw [hsome, hdirs]
      simp [d, pure, Except.pure]

theorem readView_eq_ok {rest : List String} {c : View.Config} :
    readView rest = .ok c ↔ ∃ cs, viewGrammar.Spelled cs rest ∧ ViewAsks cs c := by
  simp only [readView, bind_eq_ok, Grammar.read_eq_ok viewGrammar_regular]
  constructor
  · rintro ⟨d, ⟨cs, hspelled, hmakes, hfits⟩, h⟩
    have hlength : (words cs).length ≤ 1 := hfits.resolve_left (by decide)
    have hwords : words cs = [] ∨ (none : Option Path) = none ∧ (words cs).length = 1 := by
      rcases Nat.le_one_iff_eq_zero_or_eq_one.mp hlength with hzero | hone
      · exact .inl (List.length_eq_zero_iff.mp hzero)
      · exact .inr ⟨rfl, hone⟩
    obtain ⟨htask, houtput, hsize⟩ :=
      (viewGrammar_makesAll (viewClause_of_spelled hspelled) hwords).mp hmakes
    cases hd : d.task with
    | none =>
      rw [hd] at h
      cases h
    | some task =>
      rw [hd] at h htask
      cases h
      exact ⟨cs, hspelled, once_some.mp htask, houtput, _, hsize, rfl⟩
  · rintro ⟨cs, hspelled, ⟨w, hw, htask⟩, houtput, size, hsize, hcellSize⟩
    obtain ⟨task, output, cellSize⟩ := c
    simp only at hcellSize
    subst hcellSize
    refine ⟨⟨some task, output, size⟩, ⟨cs, hspelled, ?_, .inr (by simp [hw])⟩, rfl⟩
    refine (viewGrammar_makesAll (viewClause_of_spelled hspelled) ?_).mpr ⟨?_, houtput, hsize⟩
    · exact .inr ⟨rfl, by simp [hw]⟩
    · exact once_some.mpr ⟨w, hw, htask⟩

theorem bytes_ofString_ne_nil {w : String} (h : w ≠ "") : (Path.ofString w).bytes ≠ [] := by
  intro hnil
  have hbytes : w.toUTF8 = "".toUTF8 := by
    apply ByteArray.ext
    exact Array.toList_inj.mp hnil
  exact h (String.toByteArray_inj.mp hbytes)

def Named (p : Path) : Prop := p.bytes ≠ [] ∧ ∃ v, p = Path.ofString v

theorem named_iff {p : Path} : Named p ↔ ∃ v, PathOf v p := by
  constructor
  · rintro ⟨hne, v, rfl⟩
    refine ⟨v, ?_, rfl⟩
    rintro rfl
    exact hne rfl
  · rintro ⟨v, hv, rfl⟩
    exact ⟨bytes_ofString_ne_nil hv, v, rfl⟩

theorem exists_paths {ps : List Path} (h : ∀ p ∈ ps, Named p) :
    ∃ vs : List String, (∀ v ∈ vs, v ≠ "") ∧ ps = vs.map Path.ofString := by
  induction ps with
  | nil => exact ⟨[], by simp, rfl⟩
  | cons p ps ih =>
    obtain ⟨hp, hps⟩ := List.forall_mem_cons.mp h
    obtain ⟨v, hv, rfl⟩ := named_iff.mp hp
    obtain ⟨vs, hvs, rfl⟩ := ih hps
    exact ⟨v :: vs, List.forall_mem_cons.mpr ⟨hv, hvs⟩, rfl⟩

structure PruneAskable (c : Prune.Config) : Prop where
  ne_nil : c.dirs ≠ []
  named : ∀ d ∈ c.dirs, Named d

structure ViewAskable (c : View.Config) : Prop where
  task : Named c.task
  output : ∀ p ∈ c.output, Named p
  cellSize : Accepted c.cellSize

theorem named_ofString {w : String} (h : w ≠ "") : Named (Path.ofString w) :=
  named_iff.mpr ⟨w, h, rfl⟩

theorem PruneAsks.askable {c : Prune.Config} (h : PruneAsks cs c) : PruneAskable c := by
  constructor
  case ne_nil =>
    rw [h.dirs]
    split
    · decide
    · simpa
  case named =>
    rw [h.dirs]
    split
    · intro d hd
      simp only [Prune.Config.default, List.mem_cons, List.not_mem_nil, or_false] at hd
      rcases hd with rfl | rfl
      · exact named_ofString (by decide)
      · exact named_ofString (by decide)
    · rw [List.forall_mem_map]
      exact fun w hw => named_ofString (h.named w hw)

theorem ViewAsks.askable {c : View.Config} (h : ViewAsks cs c) : ViewAskable c := by
  obtain ⟨⟨w, -, htask⟩, houtput, size, hsize, hcellSize⟩ := h
  constructor
  case task => exact named_iff.mpr ⟨w, htask⟩
  case output =>
    intro p hp
    rw [Option.mem_def.mp hp] at houtput
    obtain ⟨v, -, hv⟩ := once_some.mp houtput
    exact named_iff.mpr ⟨v, hv⟩
  case cellSize =>
    rw [hcellSize]
    cases size with
    | none => exact accepted_default
    | some n =>
      obtain ⟨v, -, hn⟩ := once_some.mp hsize
      exact hn.1

theorem spells_skipInvalid :
    pruneGrammar.Spells (.switch "skip-invalid") ["--" ++ "skip-invalid"] := by
  have hspells := @Grammar.Spells.switch _ pruneGrammar _ List.mem_cons_self ⟨_, rfl⟩
  exact hspells

theorem spells_output (v : String) :
    viewGrammar.Spells (.setting "output" v) ["--" ++ "output" ++ "=" ++ v] := by
  have hspells := @Grammar.Spells.longAttached _ viewGrammar _ v List.mem_cons_self ⟨_, rfl⟩
  exact hspells

theorem spells_cellSize (v : String) :
    viewGrammar.Spells (.setting "cell-size" v) ["--" ++ "cell-size" ++ "=" ++ v] := by
  have hspells := @Grammar.Spells.longAttached _ viewGrammar _ v
    (List.mem_cons_of_mem _ List.mem_cons_self) ⟨_, rfl⟩
  exact hspells

/-- The switch and then all directories behind two dashes. -/
theorem PruneAskable.exists_asks {c : Prune.Config} (h : PruneAskable c) :
    ∃ rest cs, pruneGrammar.Spelled cs rest ∧ PruneAsks cs c := by
  obtain ⟨dirs, skip⟩ := c
  obtain ⟨hne, hnamed⟩ := h
  obtain ⟨vs, hvs, rfl⟩ := exists_paths hnamed
  have hvs' : vs ≠ [] := by simpa using hne
  have hdashes := @Grammar.Spelled.dashes _ pruneGrammar vs
  cases skip with
  | false =>
    refine ⟨_, _, hdashes, ?_, ?_, ?_, ?_⟩
    · rwa [words_map_word]
    · rw [words_map_word, if_neg hvs']
    · simp [List.count_eq_zero.mpr]
    · simp
  | true =>
    refine ⟨_, _, .cons spells_skipInvalid hdashes, ?_, ?_, ?_, ?_⟩
    · rwa [words_switch, words_map_word]
    · rw [words_switch, words_map_word, if_neg hvs']
    · simp [List.count_eq_zero.mpr]
    · simp

theorem settings_map_word (name : String) (ws : List String) :
    settings name (ws.map .word) = [] := by
  induction ws with
  | nil => rfl
  | cons w ws ih => rw [List.map_cons, settings_word, ih]

/-- Attached values and then the task behind two dashes. -/
theorem ViewAskable.exists_asks {c : View.Config} (h : ViewAskable c) :
    ∃ rest cs, viewGrammar.Spelled cs rest ∧ ViewAsks cs c := by
  obtain ⟨task, output, cellSize⟩ := c
  obtain ⟨htask, houtput, hcellSize⟩ := h
  obtain ⟨w, hw⟩ := named_iff.mp htask
  have hsize := sizeSpelled_toString hcellSize
  have hspelled := Grammar.Spelled.cons (spells_cellSize (toString cellSize.toNat)) (.dashes [w])
  cases output with
  | none =>
    refine ⟨_, _, hspelled, ⟨w, rfl, hw⟩, ?_, some cellSize, ?_, rfl⟩
    · rw [settings_other (by decide), settings_map_word]
      exact .kept none
    · rw [settings_same, settings_map_word]
      exact .given hsize
  | some p =>
    obtain ⟨v, hv⟩ := named_iff.mp (houtput p rfl)
    refine ⟨_, _, .cons (spells_output v) hspelled, ⟨w, rfl, hw⟩, ?_, some cellSize, ?_, rfl⟩
    · rw [settings_same, settings_other (by decide), settings_map_word]
      exact .given hv
    · rw [settings_other (by decide), settings_same, settings_map_word]
      exact .given hsize

theorem PruneAsks.perm {cs' : List Clause} {c : Prune.Config} (h : PruneAsks cs c)
    (hperm : cs.Perm cs') (hwords : words cs' = words cs) : PruneAsks cs' c := by
  constructor
  case named => exact hwords ▸ h.named
  case dirs => exact hwords ▸ h.dirs
  case once => exact hperm.count_eq _ ▸ h.once
  case skipInvalid => exact h.skipInvalid.trans hperm.mem_iff

theorem Once.perm {P : β → α → Prop} {vs vs' : List β} {x y : Option α} (h : Once P x vs y)
    (hperm : vs.Perm vs') : Once P x vs' y := by
  cases h with
  | kept =>
    obtain rfl := List.nil_perm.mp hperm
    exact .kept x
  | given hv =>
    obtain rfl := List.singleton_perm.mp hperm
    exact .given hv

theorem ViewAsks.perm {cs' : List Clause} {c : View.Config} (h : ViewAsks cs c)
    (hperm : cs.Perm cs') : ViewAsks cs' c := by
  obtain ⟨⟨w, hw, htask⟩, houtput, size, hsize, hcellSize⟩ := h
  have hwords : (words cs).Perm (words cs') := hperm.filterMap _
  rw [hw] at hwords
  exact ⟨⟨w, (List.singleton_perm.mp hwords).symm, htask⟩, houtput.perm (hperm.filterMap _), size,
    hsize.perm (hperm.filterMap _), hcellSize⟩

theorem parse_prune_iff {c : Prune.Config} :
    parse args = .ok (.prune c) ↔
      ∃ rest cs, args = "prune" :: rest ∧ pruneGrammar.Spelled cs rest ∧ PruneAsks cs c := by
  simp only [parse_eq_prune, readPrune_eq_ok, exists_and_left]

theorem parse_view_iff {c : View.Config} :
    parse args = .ok (.view c) ↔
      ∃ rest cs, args = "view" :: rest ∧ viewGrammar.Spelled cs rest ∧ ViewAsks cs c := by
  simp only [parse_eq_view, readView_eq_ok, exists_and_left]

/-- Arguments are read as a config exactly if they spell clauses that ask for it, in any spelling
and any order of options. The configs that can be asked for have an accepted cell size and paths
that can be named, of directories at least one. -/
theorem parse_corresponds :
    ((∀ args c, parse args = .ok (.prune c) ↔
        ∃ rest cs, args = "prune" :: rest ∧ pruneGrammar.Spelled cs rest ∧ PruneAsks cs c) ∧
      ∀ args c, parse args = .ok (.view c) ↔
        ∃ rest cs, args = "view" :: rest ∧ viewGrammar.Spelled cs rest ∧ ViewAsks cs c) ∧
    ((∀ c, (∃ args, parse args = .ok (.prune c)) ↔ PruneAskable c) ∧
      ∀ c, (∃ args, parse args = .ok (.view c)) ↔ ViewAskable c) ∧
    ((∀ cs cs' rest c, PruneAsks cs c → cs.Perm cs' → words cs' = words cs →
        pruneGrammar.Spelled cs' rest → parse ("prune" :: rest) = .ok (.prune c)) ∧
      ∀ cs cs' rest c, ViewAsks cs c → cs.Perm cs' →
        viewGrammar.Spelled cs' rest → parse ("view" :: rest) = .ok (.view c)) := by
  refine ⟨⟨fun _ _ => parse_prune_iff, fun _ _ => parse_view_iff⟩, ⟨?_, ?_⟩, ?_, ?_⟩
  · intro c
    constructor
    · rintro ⟨args, h⟩
      obtain ⟨rest, cs, -, -, hasks⟩ := parse_prune_iff.mp h
      exact hasks.askable
    · intro h
      obtain ⟨rest, cs, hspelled, hasks⟩ := h.exists_asks
      exact ⟨_, parse_prune_iff.mpr ⟨rest, cs, rfl, hspelled, hasks⟩⟩
  · intro c
    constructor
    · rintro ⟨args, h⟩
      obtain ⟨rest, cs, -, -, hasks⟩ := parse_view_iff.mp h
      exact hasks.askable
    · intro h
      obtain ⟨rest, cs, hspelled, hasks⟩ := h.exists_asks
      exact ⟨_, parse_view_iff.mpr ⟨rest, cs, rfl, hspelled, hasks⟩⟩
  · intro cs cs' rest c h hperm hwords hspelled
    exact parse_prune_iff.mpr ⟨rest, cs', rfl, hspelled, h.perm hperm hwords⟩
  · intro cs cs' rest c h hperm hspelled
    exact parse_view_iff.mpr ⟨rest, cs', rfl, hspelled, h.perm hperm⟩

theorem parse_corresponds_reordered :
    parse ["prune", "--skip-invalid", "-", "a", "--", "--x", "view"] =
        .ok (.prune ⟨["-", "a", "--x", "view"].map Path.ofString, true⟩) ∧
      parse ["view", "--cell-size", "+08", "-ox.png", "--", "-t.json"] =
        .ok (.view ⟨Path.ofString "-t.json", some (Path.ofString "x.png"), 8⟩) := by
  obtain ⟨-, -, hprune, hview⟩ := parse_corresponds
  have hfree : ∀ w ∈ ["-", "a", "+08"], Free w := by decide
  constructor
  · refine hprune
      ([.word "-", .word "a"] ++ .switch "skip-invalid" :: [.word "--x", .word "view"])
      (.switch "skip-invalid" :: ([.word "-", .word "a"] ++ [.word "--x", .word "view"])) _ _ ?_
      List.perm_middle rfl ?_
    · exact ⟨by decide, rfl, by decide, by decide⟩
    · exact .cons spells_skipInvalid (.cons (.word (hfree _ (by decide)))
        (.cons (.word (hfree _ (by decide))) (.dashes ["--x", "view"])))
  · refine hview [.setting "output" "x.png", .setting "cell-size" "+08", .word "-t.json"]
      [.setting "cell-size" "+08", .setting "output" "x.png", .word "-t.json"] _ _ ?_
      (.swap _ _ _) ?_
    · have hsize : SizeSpelled 8 "+08" :=
        ⟨⟨by decide, by decide⟩, ['+'], ['0', '8'], .inr rfl, by decide, by simp, rfl, rfl⟩
      exact ⟨⟨_, rfl, by decide, rfl⟩, .given ⟨by decide, rfl⟩, some 8, .given hsize, rfl⟩
    · have hsize := @Grammar.Spells.long _ viewGrammar _ "+08"
        (List.mem_cons_of_mem _ List.mem_cons_self) ⟨_, rfl⟩ (hfree _ (by decide))
      have houtput := @Grammar.Spells.shortAttached _ viewGrammar _ _ "x.png"
        List.mem_cons_self ⟨_, rfl⟩ rfl (by decide) (by decide)
      exact .cons hsize (.cons houtput (.dashes ["-t.json"]))

end CommandLine
end GridPuzzles
