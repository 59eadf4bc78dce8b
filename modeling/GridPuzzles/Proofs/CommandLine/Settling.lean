import GridPuzzles.Proofs.CommandLine.Reading

/-! Values that are kept before they are stored. What is pending may as well be stored before the
next argument is read, so the reading of arguments goes from one place where nothing is pending to
the next. -/
namespace GridPuzzles
namespace CommandLine

/-- Nothing that begins with a dash, unless it is a dash. -/
def Free (arg : String) : Prop := arg = "-" ∨ arg.toList.head? ≠ some '-'

instance (arg : String) : Decidable (Free arg) :=
  inferInstanceAs (Decidable (arg = "-" ∨ arg.toList.head? ≠ some '-'))

variable {σ : Type}

def CommandOption.IsSwitch (o : CommandOption σ) : Prop := ∃ set, o.effect = .switch set

def CommandOption.TakesValue (o : CommandOption σ) : Prop := ∃ set, o.effect = .value set

/-- Options can be told apart by their names, only options with a value have short names, and
positional arguments may be stored one at a time. -/
structure Grammar.Regular (g : Grammar σ) : Prop where
  long : ∀ o ∈ g.options, o.long ≠ "" ∧ '=' ∉ o.long.toList ∧
    g.options.find? (fun p => p.long = o.long) = some o
  short : ∀ o ∈ g.options, ∀ c, o.short = some c → c ≠ '-' ∧
    g.options.find? (fun p => p.short = some c) = some o
  switch : ∀ o ∈ g.options, o.IsSwitch → o.short = none
  store : g.many → ∀ b vs w d,
    g.store b (vs ++ [w]) = .ok d ↔ ∃ b', g.store b vs = .ok b' ∧ g.store b' [w] = .ok d

variable {g : Grammar σ} {p q : Progress σ} {o : CommandOption σ} {arg v w : String}
  {as : List String} {b c d : σ} {cs : List Char} {placed trailing : Bool}

namespace Progress

/-- What is made of the config by storing what is pending. -/
def Owes (g : Grammar σ) (p : Progress σ) (b : σ) : Prop :=
  match p.pending with
  | .nothing => p.config = b
  | .wanting _ _ => False
  | .option set v => set p.config v = .ok b
  | .positional vs => g.store p.config vs = .ok b

def settled (p : Progress σ) (b : σ) : Progress σ := { p with config := b, pending := .nothing }

theorem settle_eq_ok : p.settle g = .ok q ↔ ∃ b, p.Owes g b ∧ q = p.settled b := by
  obtain ⟨config, pending, placed, trailing⟩ := p
  cases pending with
  | nothing => simp [settle, Owes, settled, eq_comm]
  | wanting o set => simp [settle, Owes]
  | option set v =>
    simp only [settle, Owes, settled, bind_eq_ok]
    simp [pure, Except.pure, eq_comm]
  | positional vs =>
    simp only [settle, Owes, settled, bind_eq_ok]
    simp [pure, Except.pure, eq_comm]

theorem settle_bind_eq_ok {f : Progress σ → Except Refusal (Progress σ)} :
    (p.settle g >>= f) = .ok q ↔ ∃ b, p.Owes g b ∧ ((p.settled b).settle g >>= f) = .ok q := by
  simp only [bind_eq_ok, settle_eq_ok]
  constructor
  · rintro ⟨_, ⟨b, hb, rfl⟩, h⟩
    exact ⟨b, hb, _, ⟨b, rfl, rfl⟩, h⟩
  · rintro ⟨b, hb, _, ⟨_, rfl, rfl⟩, h⟩
    exact ⟨_, ⟨b, hb, rfl⟩, h⟩

theorem long_eq_ok : p.long g cs = .ok q ↔ ∃ b, p.Owes g b ∧ (p.settled b).long g cs = .ok q := by
  unfold long
  split
  rename_i name attached _
  cases g.options.find? fun o => o.long = name with
  | none => simp
  | some o =>
    simp only
    cases o.effect with
    | switch set =>
      cases attached with
      | none => exact settle_bind_eq_ok
      | some v => simp
    | value set =>
      cases attached with
      | none => exact settle_bind_eq_ok
      | some v => exact settle_bind_eq_ok
    | help topic =>
      cases attached with
      | none => exact settle_bind_eq_ok
      | some v => simp

theorem short_eq_ok {ch : Char} :
    p.short g (ch :: cs) = .ok q ↔ ∃ b, p.Owes g b ∧ (p.settled b).short g (ch :: cs) = .ok q := by
  simp only [short]
  cases g.options.find? fun o => o.short = some ch with
  | none => simp
  | some o =>
    simp only
    cases o.effect with
    | switch set =>
      simp only [switch, bind_assoc]
      exact settle_bind_eq_ok
    | value set =>
      simp only
      split
      · exact settle_bind_eq_ok
      · exact settle_bind_eq_ok
      · exact settle_bind_eq_ok
    | help topic => exact settle_bind_eq_ok

/-! One argument, by its form. -/

def dashed (p : Progress σ) : Progress σ := { p with trailing := true }

theorem next_dashes (h : p.trailing = false) : p.next g "--" = .ok p.dashed := by
  rw [next, h]
  rfl

theorem next_long (h : p.trailing = false) (hcs : cs ≠ []) (harg : arg.toList = '-' :: '-' :: cs) :
    p.next g arg = p.long g cs := by
  obtain ⟨ch, cs, rfl⟩ := List.exists_cons_of_ne_nil hcs
  rw [next, h]
  simp [harg]

theorem next_short {ch : Char} (h : p.trailing = false) (hch : ch ≠ '-')
    (harg : arg.toList = '-' :: ch :: cs) : p.next g arg = p.short g (ch :: cs) := by
  rw [next, h]
  simp [harg, hch]

theorem next_free (h : p.trailing = false) (harg : Free arg) :
    p.next g arg =
      match p.pending with
      | .wanting _ set => .ok { p with pending := .option set arg }
      | _ => p.place g arg := by
  have hdash : arg.toList = ['-'] ∨ ∀ cs, arg.toList ≠ '-' :: cs := by
    rcases harg with rfl | hhead
    · exact .inl rfl
    · right
      rintro cs hcs
      rw [hcs] at hhead
      exact hhead rfl
  rw [next, h]
  simp only [Bool.false_eq_true, if_false]
  rcases hdash with hlone | hother
  · cases p.pending <;> simp [hlone]
  · split
    · exact absurd (by assumption) (hother _)
    · exact absurd (by assumption) (hother _)
    · exact absurd (by assumption) (hother _)
    · rfl

theorem next_word (h : p.trailing = true ∨ Free arg) (hp : ∀ o set, p.pending ≠ .wanting o set) :
    p.next g arg = p.place g arg := by
  cases ht : p.trailing with
  | true => rw [next, if_pos ht]
  | false =>
    rw [next_free ht (h.resolve_left (by simp [ht]))]
    split
    · exact absurd (by assumption) (hp _ _)
    · rfl

end Progress

/-- What is not free is two dashes, or one of the two forms of options. -/
theorem exists_form (h : ¬ Free arg) :
    arg = "--" ∨ (∃ cs, cs ≠ [] ∧ arg.toList = '-' :: '-' :: cs) ∨
      ∃ ch cs, ch ≠ '-' ∧ arg.toList = '-' :: ch :: cs := by
  rw [Free, not_or, Decidable.not_not] at h
  obtain ⟨hne, hhead⟩ := h
  obtain ⟨cs, hcs⟩ := List.head?_eq_some_iff.mp hhead
  cases cs with
  | nil => exact absurd (String.toList_inj.mp hcs) hne
  | cons ch cs =>
    by_cases hch : ch = '-'
    · subst hch
      by_cases hnil : cs = []
      · subst hnil
        exact .inl (String.toList_inj.mp hcs)
      · exact .inr (.inl ⟨cs, hnil, hcs⟩)
    · exact .inr (.inr ⟨ch, cs, hch, hcs⟩)

namespace Progress

/-- The config that a list of arguments makes from here on. -/
def Yields (g : Grammar σ) (p : Progress σ) (as : List String) (d : σ) : Prop :=
  ∃ q r, as.foldlM (Progress.next g) p = .ok q ∧ q.settle g = .ok r ∧ r.config = d

theorem yields_nil : p.Yields g [] d ↔ p.Owes g d := by
  simp only [Yields, settle_eq_ok]
  constructor
  · rintro ⟨q, r, hq, ⟨b, hb, rfl⟩, rfl⟩
    cases hq
    exact hb
  · intro h
    exact ⟨p, _, rfl, ⟨d, h, rfl⟩, rfl⟩

theorem yields_cons : p.Yields g (arg :: as) d ↔ ∃ q, p.next g arg = .ok q ∧ q.Yields g as d := by
  simp only [Yields, List.foldlM_cons, bind_eq_ok]
  constructor
  · rintro ⟨q, r, ⟨q', hq', hq⟩, hr, hd⟩
    exact ⟨q', hq', q, r, hq, hr, hd⟩
  · rintro ⟨q', hq', q, r, hq, hr, hd⟩
    exact ⟨q, r, ⟨q', hq', hq⟩, hr, hd⟩

structure Ready (p : Progress σ) : Prop where
  pending : ∀ o set, p.pending ≠ .wanting o set
  placed : ∀ vs, p.pending = .positional vs → p.placed = true

theorem settled_ready (p : Progress σ) (b : σ) : (p.settled b).Ready := by
  constructor
  · rintro o set ⟨⟩
  · rintro vs ⟨⟩

theorem owes_settled : (p.settled b).Owes g d ↔ b = d := Iff.rfl

def placing (p : Progress σ) (vs : List String) : Progress σ :=
  { p with pending := .positional vs, placed := true }

theorem placing_ready (p : Progress σ) (vs : List String) : (p.placing vs).Ready := by
  constructor
  · rintro o set ⟨⟩
  · exact fun _ _ => rfl

theorem place_positional {vs : List String} (hp : p.Ready) (hvs : p.pending = .positional vs) :
    p.place g w = .ok q ↔ g.many ∧ q = p.placing (vs ++ [w]) := by
  have hplaced := hp.placed vs hvs
  obtain ⟨config, pending, placed, trailing⟩ := p
  simp only at hvs hplaced
  subst hvs hplaced
  cases hmany : g.many <;> simp [place, hmany, placing, eq_comm]

theorem place_settled (b : σ) :
    (p.settled b).place g w = .ok q ↔
      (g.many ∨ p.placed = false) ∧ q = (p.settled b).placing [w] := by
  obtain ⟨config, pending, placed, trailing⟩ := p
  cases placed <;> cases hmany : g.many <;>
    simp [place, hmany, settled, placing, settle, bind, Except.bind, pure, Except.pure, eq_comm]

theorem place_eq_ok (hp : ∀ vs, p.pending ≠ .positional vs) :
    p.place g w = .ok q ↔ ∃ b, p.Owes g b ∧ (p.settled b).place g w = .ok q := by
  by_cases hplaced : (p.placed && !g.many) = true
  · simp [place, hplaced, settled]
  · have hsettled (b : σ) : (p.settled b).place g w =
        (p.settled b).settle g >>= fun r => .ok (r.placing [w]) := by
      have hplaced' : ¬ ((p.settled b).placed && !g.many) = true := hplaced
      rw [place, if_neg hplaced']
      rfl
    simp only [hsettled]
    rw [place, if_neg hplaced]
    split
    · exact absurd (by assumption) (hp _)
    · exact settle_bind_eq_ok

theorem yields_positional (hg : g.Regular) (hp : p.Ready) {vs : List String}
    (hvs : p.pending = .positional vs)
    (ih : ∀ {p : Progress σ}, p.Ready →
      (p.Yields g as d ↔ ∃ b, p.Owes g b ∧ (p.settled b).Yields g as d)) :
    (∃ q, p.place g w = .ok q ∧ q.Yields g as d) ↔
      ∃ b, p.Owes g b ∧ ∃ q, (p.settled b).place g w = .ok q ∧ q.Yields g as d := by
  have hplaced := hp.placed vs hvs
  have howes (b : σ) : p.Owes g b ↔ g.store p.config vs = .ok b := by rw [Owes, hvs]
  have hafter (b b' : σ) : ((p.settled b).placing [w]).settled b' =
      (p.placing (vs ++ [w])).settled b' := rfl
  simp only [place_positional hp hvs, place_settled, hplaced, Bool.true_eq_false, or_false, howes]
  constructor
  · rintro ⟨q, ⟨hmany, rfl⟩, h⟩
    obtain ⟨b', hb', h⟩ := (ih (placing_ready p _)).mp h
    obtain ⟨b, hb, hw⟩ := (hg.store hmany _ _ _ _).mp hb'
    exact ⟨b, hb, _, ⟨hmany, rfl⟩, (ih (placing_ready _ _)).mpr ⟨b', hw, h⟩⟩
  · rintro ⟨b, hb, q, ⟨hmany, rfl⟩, h⟩
    obtain ⟨b', hw, h⟩ := (ih (placing_ready _ _)).mp h
    have hb' : g.store p.config (vs ++ [w]) = .ok b' := (hg.store hmany _ _ _ _).mpr ⟨b, hb, hw⟩
    exact ⟨_, ⟨hmany, rfl⟩, (ih (placing_ready p _)).mpr ⟨b', hb', h⟩⟩

theorem yields_settled (hg : g.Regular) (hp : p.Ready) :
    p.Yields g as d ↔ ∃ b, p.Owes g b ∧ (p.settled b).Yields g as d := by
  induction as generalizing p with
  | nil =>
    simp only [yields_nil, owes_settled]
    simp
  | cons arg as ih =>
    have hstep (f : Progress σ → Except Refusal (Progress σ))
        (hf : ∀ q, f p = .ok q ↔ ∃ b, p.Owes g b ∧ f (p.settled b) = .ok q) :
        (∃ q, f p = .ok q ∧ q.Yields g as d) ↔
          ∃ b, p.Owes g b ∧ ∃ q, f (p.settled b) = .ok q ∧ q.Yields g as d := by
      simp only [hf]
      constructor
      · rintro ⟨q, ⟨b, hb, hq⟩, h⟩
        exact ⟨b, hb, q, hq, h⟩
      · rintro ⟨b, hb, q, hq, h⟩
        exact ⟨q, ⟨b, hb, hq⟩, h⟩
    simp only [yields_cons]
    by_cases hword : p.trailing = true ∨ Free arg
    · have hsettled (b : σ) : (p.settled b).next g arg = (p.settled b).place g arg :=
        next_word hword (p.settled_ready b).pending
      simp only [hsettled, next_word hword hp.pending]
      by_cases hvs : ∃ vs, p.pending = .positional vs
      · obtain ⟨vs, hvs⟩ := hvs
        exact yields_positional hg hp hvs ih
      · exact hstep (fun p => p.place g arg) fun q => place_eq_ok fun vs h => hvs ⟨vs, h⟩
    · rw [not_or, Bool.not_eq_true] at hword
      obtain ⟨ht, hfree⟩ := hword
      rcases exists_form hfree with rfl | ⟨cs, hcs, harg⟩ | ⟨ch, cs, hch, harg⟩
      · have hsettled (b : σ) : (p.settled b).next g "--" = .ok (p.dashed.settled b) :=
          next_dashes ht
        have hdashed := @ih p.dashed ⟨hp.pending, hp.placed⟩
        simp only [hsettled, next_dashes ht, Except.ok.injEq, exists_eq_left']
        exact hdashed
      · have hsettled (b : σ) : (p.settled b).next g arg = (p.settled b).long g cs :=
          next_long ht hcs harg
        simp only [hsettled, next_long ht hcs harg]
        exact hstep (fun p => p.long g cs) fun q => long_eq_ok
      · have hsettled (b : σ) : (p.settled b).next g arg = (p.settled b).short g (ch :: cs) :=
          next_short ht hch harg
        simp only [hsettled, next_short ht hch harg]
        exact hstep (fun p => p.short g (ch :: cs)) fun q => short_eq_ok

/-! From an argument to the next where nothing is pending. -/

def resting (b : σ) (placed trailing : Bool) : Progress σ := ⟨b, .nothing, placed, trailing⟩

theorem yields_word (hg : g.Regular) (h : trailing = true ∨ Free w) :
    (resting b placed trailing).Yields g (w :: as) d ↔
      (g.many ∨ placed = false) ∧
        ∃ b', g.store b [w] = .ok b' ∧ (resting b' true trailing).Yields g as d := by
  have hnext : (resting b placed trailing).next g w = (resting b placed trailing).place g w :=
    next_word h ((resting b placed trailing).settled_ready b).pending
  have hplace (q : Progress σ) : (resting b placed trailing).place g w = .ok q ↔
      (g.many ∨ placed = false) ∧ q = (resting b placed trailing).placing [w] :=
    @place_settled _ g (resting b placed trailing) q w b
  simp only [yields_cons, hnext, hplace]
  constructor
  · rintro ⟨q, ⟨hplaced, rfl⟩, h⟩
    exact ⟨hplaced, (yields_settled hg (placing_ready _ _)).mp h⟩
  · rintro ⟨hplaced, h⟩
    exact ⟨_, ⟨hplaced, rfl⟩, (yields_settled hg (placing_ready _ _)).mpr h⟩

theorem not_yields_of_wanting {set : σ → String → Except Refusal σ}
    (hp : p.pending = .wanting o set) (ht : p.trailing = true) : ¬ p.Yields g as d := by
  have howes (b : σ) : ¬ p.Owes g b := by simp [Owes, hp]
  cases as with
  | nil => rw [yields_nil]; exact howes d
  | cons arg as =>
    rw [yields_cons, next, if_pos ht]
    rintro ⟨q, hq, -⟩
    obtain ⟨b, hb, -⟩ := (place_eq_ok (by simp [hp])).mp hq
    exact howes b hb

/-- A wanted value is the next argument, if that is free. -/
theorem yields_wanting (hg : g.Regular) {set : σ → String → Except Refusal σ} :
    (⟨b, .wanting o set, placed, false⟩ : Progress σ).Yields g as d ↔
      ∃ v rest b', as = v :: rest ∧ Free v ∧ set b v = .ok b' ∧
        (resting b' placed false).Yields g rest d := by
  have howes (b' : σ) : ¬ (⟨b, .wanting o set, placed, false⟩ : Progress σ).Owes g b' := id
  cases as with
  | nil => simp [yields_nil, howes]
  | cons v rest =>
    by_cases hv : Free v
    · have hready : (⟨b, .option set v, placed, false⟩ : Progress σ).Ready := by
        constructor
        · rintro o set ⟨⟩
        · rintro vs ⟨⟩
      rw [yields_cons, next_free rfl hv]
      simp only [Except.ok.injEq, exists_eq_left']
      rw [yields_settled hg hready]
      constructor
      · rintro ⟨b', hb', h⟩
        exact ⟨v, rest, b', rfl, hv, hb', h⟩
      · rintro ⟨_, _, b', ⟨⟩, -, hb', h⟩
        exact ⟨b', hb', h⟩
    · rw [yields_cons]
      constructor
      · rintro ⟨q, hq, h⟩
        rcases exists_form hv with rfl | ⟨cs, hcs, harg⟩ | ⟨ch, cs, hch, harg⟩
        · rw [next_dashes rfl] at hq
          cases hq
          exact absurd h (not_yields_of_wanting rfl rfl)
        · rw [next_long rfl hcs harg] at hq
          obtain ⟨b', hb', -⟩ := long_eq_ok.mp hq
          exact absurd hb' (howes b')
        · rw [next_short rfl hch harg] at hq
          obtain ⟨b', hb', -⟩ := short_eq_ok.mp hq
          exact absurd hb' (howes b')
      · rintro ⟨_, _, b', ⟨⟩, hv', -⟩
        exact absurd hv' hv

theorem yields_of_next {f : Except Refusal σ}
    (h : (resting b placed false).next g arg = f.map fun b' => resting b' placed false) :
    (resting b placed false).Yields g (arg :: as) d ↔
      ∃ b', f = .ok b' ∧ (resting b' placed false).Yields g as d := by
  rw [yields_cons, h]
  cases f <;> simp [Except.map]

theorem switch_resting {set : σ → Except Refusal σ} :
    (resting b placed false).switch g set = (set b).map fun b' => resting b' placed false := by
  rw [switch]
  cases h : set b <;> simp [resting, settle, bind, Except.bind, pure, Except.pure, h, Except.map]

theorem attach_resting {set : σ → String → Except Refusal σ} :
    (resting b placed false).attach g set v = (set b v).map fun b' => resting b' placed false := by
  rw [attach]
  cases h : set b v <;> simp [resting, settle, bind, Except.bind, pure, Except.pure, h, Except.map]

theorem yields_want (hg : g.Regular) {set : σ → String → Except Refusal σ}
    (h : (resting b placed false).next g arg = (resting b placed false).want g o set) :
    (resting b placed false).Yields g (arg :: as) d ↔
      ∃ v rest b', as = v :: rest ∧ Free v ∧ set b v = .ok b' ∧
        (resting b' placed false).Yields g rest d := by
  have hwant : (resting b placed false).want g o set =
      .ok ⟨b, .wanting o set, placed, false⟩ := rfl
  rw [yields_cons, h, hwant]
  simp only [Except.ok.injEq, exists_eq_left']
  exact yields_wanting hg
end Progress
end CommandLine
end GridPuzzles
