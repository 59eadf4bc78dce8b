import GridPuzzles.Proofs.CommandLine.Settling
import Mathlib.Data.List.TakeWhile

/-! Arguments and what they say. Arguments spell a list of clauses, each in one of several ways, and
a clause is one step from config to config. -/
namespace GridPuzzles
namespace CommandLine

/-- What arguments say: a switch, an option with its value or a positional argument. -/
inductive Clause where
  | switch (name : String)
  | setting (name value : String)
  | word (value : String)
deriving DecidableEq

variable {σ : Type}

namespace Grammar

/-- The ways to spell a clause in front of two dashes. -/
inductive Spells (g : Grammar σ) : Clause → List String → Prop where
  | switch {o : CommandOption σ} : o ∈ g.options → o.IsSwitch →
      g.Spells (.switch o.long) ["--" ++ o.long]
  | long {o : CommandOption σ} {v : String} : o ∈ g.options → o.TakesValue → Free v →
      g.Spells (.setting o.long v) ["--" ++ o.long, v]
  | longAttached {o : CommandOption σ} {v : String} : o ∈ g.options → o.TakesValue →
      g.Spells (.setting o.long v) ["--" ++ o.long ++ "=" ++ v]
  | short {o : CommandOption σ} {c : Char} {v : String} : o ∈ g.options → o.TakesValue →
      o.short = some c → Free v → g.Spells (.setting o.long v) ["-" ++ String.ofList [c], v]
  | shortAttached {o : CommandOption σ} {c : Char} {v : String} : o ∈ g.options → o.TakesValue →
      o.short = some c → v ≠ "" → v.toList.head? ≠ some '=' →
      g.Spells (.setting o.long v) ["-" ++ String.ofList [c] ++ v]
  | shortEquals {o : CommandOption σ} {c : Char} {v : String} : o ∈ g.options → o.TakesValue →
      o.short = some c → g.Spells (.setting o.long v) ["-" ++ String.ofList [c] ++ "=" ++ v]
  | word {w : String} : Free w → g.Spells (.word w) [w]

/-- What arguments say, clause by clause. After two dashes all of them are positional. -/
inductive Spelled (g : Grammar σ) : List Clause → List String → Prop where
  | nil : g.Spelled [] []
  | cons {c : Clause} {cs : List Clause} {as bs : List String} : g.Spells c as →
      g.Spelled cs bs → g.Spelled (c :: cs) (as ++ bs)
  | dashes (ws : List String) : g.Spelled (ws.map .word) ("--" :: ws)

def Makes (g : Grammar σ) (b b' : σ) : Clause → Prop
  | .switch name => ∃ o ∈ g.options, ∃ set, o.long = name ∧ o.effect = .switch set ∧ set b = .ok b'
  | .setting name v =>
    ∃ o ∈ g.options, ∃ set, o.long = name ∧ o.effect = .value set ∧ set b v = .ok b'
  | .word w => g.store b [w] = .ok b'

def MakesAll (g : Grammar σ) (b d : σ) : List Clause → Prop
  | [] => b = d
  | c :: cs => ∃ b', g.Makes b b' c ∧ g.MakesAll b' d cs

end Grammar

def Clause.isWord : Clause → Bool
  | .word _ => true
  | _ => false

def words (cs : List Clause) : List String :=
  cs.filterMap fun
    | .word w => some w
    | _ => none

@[simp] theorem words_nil : words [] = [] := rfl

@[simp] theorem words_word (w : String) (cs : List Clause) :
    words (.word w :: cs) = w :: words cs :=
  rfl

@[simp] theorem words_switch (name : String) (cs : List Clause) :
    words (.switch name :: cs) = words cs := rfl

@[simp] theorem words_setting (name v : String) (cs : List Clause) :
    words (.setting name v :: cs) = words cs := rfl

theorem words_map_word (ws : List String) : words (ws.map .word) = ws := by
  induction ws with
  | nil => rfl
  | cons w ws ih => rw [List.map_cons, words_word, ih]

variable {g : Grammar σ} {p q : Progress σ} {o : CommandOption σ} {arg v w : String}
  {as : List String} {b c d : σ} {cs : List Char} {placed : Bool}

namespace Progress

/-! The forms of options. -/

theorem splitLong_name {name : String} (h : '=' ∉ name.toList) :
    splitLong name.toList = (name, none) := by
  have htake : name.toList.takeWhile (· ≠ '=') = name.toList := by
    rw [List.takeWhile_eq_self_iff]
    intro ch hch
    exact decide_eq_true fun he => h (he ▸ hch)
  have hdrop : name.toList.dropWhile (· ≠ '=') = [] := by
    rw [List.dropWhile_eq_nil_iff]
    intro ch hch
    exact decide_eq_true fun he => h (he ▸ hch)
  simp only [splitLong, htake, hdrop, String.ofList_toList]

theorem splitLong_attached {name : String} (h : '=' ∉ name.toList) (v : String) :
    splitLong (name.toList ++ '=' :: v.toList) = (name, some v) := by
  have hall : ∀ ch ∈ name.toList, decide (ch ≠ '=') = true := fun ch hch =>
    decide_eq_true fun he => h (he ▸ hch)
  have htake : (name.toList ++ '=' :: v.toList).takeWhile (· ≠ '=') = name.toList := by
    rw [List.takeWhile_append_of_pos hall]
    simp
  have hdrop : (name.toList ++ '=' :: v.toList).dropWhile (· ≠ '=') = '=' :: v.toList := by
    rw [List.dropWhile_append_of_pos hall]
    simp
  simp only [splitLong, htake, hdrop, String.ofList_toList]

theorem splitLong_sound (cs : List Char) :
    match splitLong cs with
    | (name, none) => cs = name.toList
    | (name, some v) => cs = name.toList ++ '=' :: v.toList := by
  have happend := @List.takeWhile_append_dropWhile _ (· ≠ '=') cs
  unfold splitLong
  cases hdrop : cs.dropWhile (· ≠ '=') with
  | nil =>
    rw [hdrop, List.append_nil] at happend
    simp only [String.toList_ofList, happend]
  | cons ch v =>
    have hch : ch = '=' := by
      have hhead := List.head?_dropWhile_not (fun ch => decide (ch ≠ '=')) cs
      rw [hdrop] at hhead
      simpa using hhead
    rw [hdrop, hch] at happend
    simp only [String.toList_ofList, happend]

theorem long_name (hg : g.Regular) (ho : o ∈ g.options) :
    p.long g o.long.toList =
      match o.effect with
      | .switch set => p.switch g set
      | .value set => p.want g o set
      | .help topic => p.help g topic := by
  obtain ⟨-, hequals, hfind⟩ := hg.long o ho
  unfold long
  rw [splitLong_name hequals]
  simp only [hfind]
  cases o.effect <;> rfl

theorem long_attached (hg : g.Regular) (ho : o ∈ g.options) (v : String) :
    p.long g (o.long.toList ++ '=' :: v.toList) =
      match o.effect with
      | .value set => p.attach g set v
      | _ => .error (.unwantedValue v o.shown) := by
  obtain ⟨-, hequals, hfind⟩ := hg.long o ho
  unfold long
  rw [splitLong_attached hequals]
  simp only [hfind]
  cases o.effect <;> rfl

end Progress

namespace Grammar

theorem Spells.known {clause : Clause} (h : g.Spells clause as) :
    clause.isWord ∨ ∃ o ∈ g.options, (o.IsSwitch ∧ clause = .switch o.long) ∨
      o.TakesValue ∧ ∃ v, clause = .setting o.long v := by
  cases h with
  | switch ho hs => exact .inr ⟨_, ho, .inl ⟨hs, rfl⟩⟩
  | long ho ht _ => exact .inr ⟨_, ho, .inr ⟨ht, _, rfl⟩⟩
  | longAttached ho ht => exact .inr ⟨_, ho, .inr ⟨ht, _, rfl⟩⟩
  | short ho ht _ _ => exact .inr ⟨_, ho, .inr ⟨ht, _, rfl⟩⟩
  | shortAttached ho ht _ _ _ => exact .inr ⟨_, ho, .inr ⟨ht, _, rfl⟩⟩
  | shortEquals ho ht _ => exact .inr ⟨_, ho, .inr ⟨ht, _, rfl⟩⟩
  | word _ => exact .inl rfl

theorem Spelled.known {clauses : List Clause} (h : g.Spelled clauses as) :
    ∀ clause ∈ clauses, clause.isWord ∨ ∃ o ∈ g.options,
      (o.IsSwitch ∧ clause = .switch o.long) ∨ o.TakesValue ∧ ∃ v, clause = .setting o.long v := by
  induction h with
  | nil => simp
  | cons hspells _ ih => exact List.forall_mem_cons.mpr ⟨hspells.known, ih⟩
  | dashes ws =>
    rw [List.forall_mem_map]
    exact fun w _ => .inl rfl

theorem eq_of_long (hg : g.Regular) {o' : CommandOption σ} (ho : o ∈ g.options)
    (ho' : o' ∈ g.options) (h : o'.long = o.long) : o' = o := by
  obtain ⟨-, -, hfind⟩ := hg.long o ho
  obtain ⟨-, -, hfind'⟩ := hg.long o' ho'
  rw [h, hfind] at hfind'
  exact (Option.some.inj hfind').symm

theorem makes_switch (hg : g.Regular) {set : σ → Except Refusal σ} (ho : o ∈ g.options)
    (he : o.effect = .switch set) : g.Makes b c (.switch o.long) ↔ set b = .ok c := by
  constructor
  · rintro ⟨o', ho', set', hlong, he', h⟩
    obtain rfl := eq_of_long hg ho ho' hlong
    rw [he] at he'
    cases he'
    exact h
  · intro h
    exact ⟨o, ho, set, rfl, he, h⟩

theorem makes_setting (hg : g.Regular) {set : σ → String → Except Refusal σ} (ho : o ∈ g.options)
    (he : o.effect = .value set) : g.Makes b c (.setting o.long v) ↔ set b v = .ok c := by
  constructor
  · rintro ⟨o', ho', set', hlong, he', h⟩
    obtain rfl := eq_of_long hg ho ho' hlong
    rw [he] at he'
    cases he'
    exact h
  · intro h
    exact ⟨o, ho, set, rfl, he, h⟩

end Grammar

namespace Progress

theorem yields_attached (hg : g.Regular) {set : σ → String → Except Refusal σ}
    (ho : o ∈ g.options) (he : o.effect = .value set)
    (h : (resting b placed false).next g arg = (resting b placed false).attach g set v) :
    (resting b placed false).Yields g (arg :: as) d ↔
      ∃ b', g.Makes b b' (.setting o.long v) ∧ (resting b' placed false).Yields g as d := by
  rw [yields_of_next (h.trans attach_resting)]
  simp only [Grammar.makes_setting hg ho he]

theorem yields_separate (hg : g.Regular) {set : σ → String → Except Refusal σ}
    (ho : o ∈ g.options) (he : o.effect = .value set) (hv : Free v)
    (h : (resting b placed false).next g arg = (resting b placed false).want g o set) :
    (resting b placed false).Yields g (arg :: v :: as) d ↔
      ∃ b', g.Makes b b' (.setting o.long v) ∧ (resting b' placed false).Yields g as d := by
  rw [yields_want hg h]
  simp only [Grammar.makes_setting hg ho he]
  constructor
  · rintro ⟨_, _, b', ⟨⟩, -, hb', h⟩
    exact ⟨b', hb', h⟩
  · rintro ⟨b', hb', h⟩
    exact ⟨v, as, b', rfl, hv, hb', h⟩

theorem yields_option (hg : g.Regular) {clause : Clause} {bs : List String}
    (h : g.Spells clause as) (hclause : clause.isWord = false) :
    (resting b placed false).Yields g (as ++ bs) d ↔
      ∃ b', g.Makes b b' clause ∧ (resting b' placed false).Yields g bs d := by
  have hlong {o : CommandOption σ} (ho : o ∈ g.options) : o.long.toList ≠ [] := by
    simpa using (hg.long o ho).1
  cases h with
  | @switch o ho hs =>
    obtain ⟨set, he⟩ := hs
    have hnext : (resting b placed false).next g ("--" ++ o.long) =
        (set b).map fun b' => resting b' placed false := by
      rw [next_long rfl (hlong ho) (by simp), long_name hg ho, he]
      exact switch_resting
    simp only [List.singleton_append, yields_of_next hnext, Grammar.makes_switch hg ho he]
  | @long o v ho ht hv =>
    obtain ⟨set, he⟩ := ht
    refine yields_separate hg ho he hv ?_
    rw [next_long rfl (hlong ho) (by simp), long_name hg ho, he]
  | @longAttached o v ho ht =>
    obtain ⟨set, he⟩ := ht
    have harg : ("--" ++ o.long ++ "=" ++ v).toList =
        '-' :: '-' :: (o.long.toList ++ '=' :: v.toList) := by simp
    refine yields_attached hg ho he ?_
    rw [next_long rfl (by simp) harg, long_attached hg ho, he]
  | @short o ch v ho ht hch hv =>
    obtain ⟨set, he⟩ := ht
    obtain ⟨hdash, hfind⟩ := hg.short o ho ch hch
    have harg : ("-" ++ String.ofList [ch]).toList = ['-', ch] := by simp
    refine yields_separate hg ho he hv ?_
    rw [next_short rfl hdash harg, Progress.short, hfind]
    simp only [he]
  | @shortAttached o ch v ho ht hch hne hv =>
    obtain ⟨set, he⟩ := ht
    obtain ⟨hdash, hfind⟩ := hg.short o ho ch hch
    obtain ⟨x, xs, hx⟩ : ∃ x xs, v.toList = x :: xs :=
      List.exists_cons_of_ne_nil (by simpa using hne)
    have harg : ("-" ++ String.ofList [ch] ++ v).toList = '-' :: ch :: x :: xs := by simp [hx]
    have hofList : String.ofList (x :: xs) = v := by rw [← hx, String.ofList_toList]
    rw [hx, List.head?_cons, ne_eq, Option.some.injEq] at hv
    refine yields_attached hg ho he ?_
    rw [next_short rfl hdash harg, Progress.short, hfind]
    simp [he, hv, hofList]
  | @shortEquals o ch v ho ht hch =>
    obtain ⟨set, he⟩ := ht
    obtain ⟨hdash, hfind⟩ := hg.short o ho ch hch
    have harg : ("-" ++ String.ofList [ch] ++ "=" ++ v).toList = '-' :: ch :: '=' :: v.toList := by
      simp
    refine yields_attached hg ho he ?_
    rw [next_short rfl hdash harg, Progress.short, hfind]
    simp [he]
  | word _ => cases hclause

theorem eq_of_toList {s t : String} (hs : s.toList = cs) (ht : t.toList = cs) : s = t :=
  String.toList_inj.mp (hs.trans ht.symm)

theorem exists_value (hg : g.Regular) {set : σ → String → Except Refusal σ}
    (hq : (resting b placed false).want g o set = .ok q) (h : q.Yields g as d) :
    ∃ v rest, as = v :: rest ∧ Free v := by
  cases hq
  obtain ⟨v, rest, -, has, hv, -⟩ := (yields_wanting hg).mp h
  exact ⟨v, rest, has, hv⟩

theorem exists_spells_long (hg : g.Regular) (hcs : arg.toList = '-' :: '-' :: cs)
    (hq : (resting b placed false).long g cs = .ok q) (h : q.Yields g as d) :
    ∃ clause pre rest, arg :: as = pre ++ rest ∧ pre ≠ [] ∧ g.Spells clause pre := by
  have hsound := splitLong_sound cs
  unfold long at hq
  split at hq
  rename_i name attached hsplit
  rw [hsplit] at hsound
  split at hq
  · cases hq
  · rename_i o ho
    have hmem := List.mem_of_find?_eq_some ho
    have hname : o.long = name := by simpa using List.find?_some ho
    subst hname
    split at hq
    · rename_i set v he
      replace hsound : cs = o.long.toList ++ '=' :: v.toList := hsound
      obtain rfl := eq_of_toList (t := "--" ++ o.long ++ "=" ++ v) hcs (by simp [hsound])
      exact ⟨_, _, as, rfl, by simp, .longAttached hmem ⟨set, he⟩⟩
    · rename_i set he
      replace hsound : cs = o.long.toList := hsound
      obtain rfl := eq_of_toList (t := "--" ++ o.long) hcs (by simp [hsound])
      obtain ⟨v, rest, rfl, hv⟩ := exists_value hg hq h
      exact ⟨_, _, rest, rfl, by simp, .long hmem ⟨set, he⟩ hv⟩
    · cases hq
    · rename_i set he
      replace hsound : cs = o.long.toList := hsound
      obtain rfl := eq_of_toList (t := "--" ++ o.long) hcs (by simp [hsound])
      exact ⟨_, _, as, rfl, by simp, .switch hmem ⟨set, he⟩⟩
    · exact absurd hq (help_ne_ok _ _)

theorem exists_spells_short (hg : g.Regular) {ch : Char} (hcs : arg.toList = '-' :: ch :: cs)
    (hq : (resting b placed false).short g (ch :: cs) = .ok q) (h : q.Yields g as d) :
    ∃ clause pre rest, arg :: as = pre ++ rest ∧ pre ≠ [] ∧ g.Spells clause pre := by
  rw [Progress.short] at hq
  split at hq
  · cases hq
  · rename_i o ho
    have hmem := List.mem_of_find?_eq_some ho
    have hshort : o.short = some ch := by simpa using List.find?_some ho
    split at hq
    · rename_i set he
      have hnone := hg.switch o hmem ⟨set, he⟩
      rw [hshort] at hnone
      cases hnone
    · exact absurd hq (help_ne_ok _ _)
    · rename_i set he
      split at hq
      · obtain rfl := eq_of_toList (t := "-" ++ String.ofList [ch]) hcs (by simp)
        obtain ⟨v, rest, rfl, hv⟩ := exists_value hg hq h
        exact ⟨_, _, rest, rfl, by simp, .short hmem ⟨set, he⟩ hshort hv⟩
      · rename_i v
        obtain rfl :=
          eq_of_toList (t := "-" ++ String.ofList [ch] ++ "=" ++ String.ofList v) hcs (by simp)
        exact ⟨_, _, as, rfl, by simp, .shortEquals hmem ⟨set, he⟩ hshort⟩
      · rename_i hnil hequals
        obtain rfl :=
          eq_of_toList (t := "-" ++ String.ofList [ch] ++ String.ofList cs) hcs (by simp)
        refine ⟨_, _, as, rfl, by simp, .shortAttached hmem ⟨set, he⟩ hshort ?_ ?_⟩
        · simpa using hnil
        · rw [String.toList_ofList]
          intro hhead
          obtain ⟨v, hv⟩ := List.head?_eq_some_iff.mp hhead
          exact hequals v hv

theorem exists_spells (hg : g.Regular) (harg : arg ≠ "--")
    (h : (resting b placed false).Yields g (arg :: as) d) :
    ∃ clause pre rest, arg :: as = pre ++ rest ∧ pre ≠ [] ∧ g.Spells clause pre := by
  by_cases hfree : Free arg
  · exact ⟨_, [arg], as, rfl, by simp, .word hfree⟩
  · obtain ⟨q, hq, h⟩ := yields_cons.mp h
    rcases exists_form hfree with hdashes | ⟨cs, hne, hcs⟩ | ⟨ch, cs, hch, hcs⟩
    · exact absurd hdashes harg
    · rw [next_long rfl hne hcs] at hq
      exact exists_spells_long hg hcs hq h
    · rw [next_short rfl hch hcs] at hq
      exact exists_spells_short hg hcs hq h

end Progress

namespace Grammar

/-- Not more positional arguments than there may be; one of them may have been seen. -/
def Fits (g : Grammar σ) (placed : Bool) (clauses : List Clause) : Prop :=
  g.many ∨ (words clauses).length + placed.toNat ≤ 1

variable {clause : Clause} {clauses : List Clause}

theorem fits_nil (g : Grammar σ) (placed : Bool) : g.Fits placed [] := by
  right
  rw [words_nil, List.length_nil, Nat.zero_add]
  exact Bool.toNat_le placed

theorem fits_cons : g.Fits placed (clause :: clauses) ↔
    (clause.isWord → g.many ∨ placed = false) ∧ g.Fits (placed || clause.isWord) clauses := by
  cases clause <;> cases placed <;> cases hmany : g.many <;>
    simp [Fits, hmany, Clause.isWord]

theorem leads_cons : g.MakesAll b d (clause :: clauses) ∧ g.Fits placed (clause :: clauses) ↔
    (clause.isWord → g.many ∨ placed = false) ∧ ∃ b', g.Makes b b' clause ∧
      g.MakesAll b' d clauses ∧ g.Fits (placed || clause.isWord) clauses := by
  rw [fits_cons]
  constructor
  · rintro ⟨⟨b', hb', h⟩, hword, hfits⟩
    exact ⟨hword, b', hb', h, hfits⟩
  · rintro ⟨hword, b', hb', h, hfits⟩
    exact ⟨⟨b', hb', h⟩, hword, hfits⟩

end Grammar

namespace Progress

theorem yields_clause (hg : g.Regular) {clause : Clause} {bs : List String}
    (h : g.Spells clause as) :
    (resting b placed false).Yields g (as ++ bs) d ↔
      (clause.isWord → g.many ∨ placed = false) ∧ ∃ b', g.Makes b b' clause ∧
        (resting b' (placed || clause.isWord) false).Yields g bs d := by
  cases hclause : clause.isWord with
  | false =>
    rw [yields_option hg h hclause]
    simp
  | true =>
    cases h with
    | word hw =>
      rw [List.singleton_append, yields_word hg (.inr hw)]
      simp [Grammar.Makes]
    | _ => cases hclause

theorem yields_trailing (hg : g.Regular) :
    (resting b placed true).Yields g as d ↔
      g.MakesAll b d (as.map .word) ∧ g.Fits placed (as.map .word) := by
  induction as generalizing b placed with
  | nil =>
    rw [yields_nil, List.map_nil]
    exact ⟨fun h => ⟨h, g.fits_nil placed⟩, fun h => h.1⟩
  | cons w as ih =>
    rw [yields_word hg (.inl rfl), List.map_cons, Grammar.leads_cons]
    simp only [ih, Grammar.Makes, Clause.isWord, Bool.or_true, true_implies]

theorem exists_clauses (hg : g.Regular) (h : (resting b placed false).Yields g as d) :
    ∃ clauses, g.Spelled clauses as ∧ g.MakesAll b d clauses ∧ g.Fits placed clauses := by
  -- on the number of arguments, since a clause may take two of them
  induction hn : as.length using Nat.strongRecOn generalizing as b placed with
  | ind n ih =>
    cases as with
    | nil => exact ⟨[], .nil, yields_nil.mp h, g.fits_nil placed⟩
    | cons arg as =>
      by_cases harg : arg = "--"
      · subst harg
        obtain ⟨q, hq, h⟩ := yields_cons.mp h
        rw [next_dashes rfl] at hq
        cases hq
        exact ⟨as.map .word, .dashes as, (yields_trailing hg).mp h⟩
      · obtain ⟨clause, pre, rest, hsplit, hpre, hspells⟩ := exists_spells hg harg h
        rw [hsplit] at h hn ⊢
        obtain ⟨hword, b', hb', hrest⟩ := (yields_clause hg hspells).mp h
        have hlt : rest.length < n := by
          have hpos := List.length_pos_iff.mpr hpre
          rw [← hn, List.length_append]
          omega
        obtain ⟨clauses, hspelled, hmakes, hfits⟩ := ih _ hlt hrest rfl
        exact ⟨clause :: clauses, .cons hspells hspelled,
          Grammar.leads_cons.mpr ⟨hword, b', hb', hmakes, hfits⟩⟩

theorem yields_of_spelled (hg : g.Regular) {clauses : List Clause} (h : g.Spelled clauses as)
    (hleads : g.MakesAll b d clauses ∧ g.Fits placed clauses) :
    (resting b placed false).Yields g as d := by
  induction h generalizing b placed with
  | nil => exact yields_nil.mpr hleads.1
  | cons hspells _ ih =>
    obtain ⟨hword, b', hb', hleads⟩ := Grammar.leads_cons.mp hleads
    exact (yields_clause hg hspells).mpr ⟨hword, b', hb', ih hleads⟩
  | dashes ws =>
    rw [yields_cons, next_dashes rfl]
    exact ⟨_, rfl, (yields_trailing hg).mpr hleads⟩

end Progress

/-- Arguments are read as a config exactly if they spell clauses that lead to it, not too many of
which are positional. -/
theorem Grammar.read_eq_ok (hg : g.Regular) :
    g.read b as = .ok d ↔ ∃ clauses, g.Spelled clauses as ∧ g.MakesAll b d clauses ∧
      (g.many ∨ (words clauses).length ≤ 1) := by
  have hyields : g.read b as = .ok d ↔ (Progress.resting b false false).Yields g as d := by
    simp only [Grammar.read, Progress.Yields, bind_eq_ok]
    constructor
    · rintro ⟨q, hq, r, hr, hd⟩
      exact ⟨q, r, hq, hr, Except.ok.inj hd⟩
    · rintro ⟨q, r, hq, hr, hd⟩
      exact ⟨q, hq, r, hr, congrArg Except.ok hd⟩
  rw [hyields]
  constructor
  · exact Progress.exists_clauses hg
  · rintro ⟨clauses, hspelled, hleads⟩
    exact Progress.yields_of_spelled hg hspelled hleads

end CommandLine
end GridPuzzles