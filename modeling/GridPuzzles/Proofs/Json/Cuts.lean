import GridPuzzles.Proofs.Json.Skip

/-! Documents that are cut short. A cautious reader has taken its bytes whole, whatever follows
them, and on a part of them it says that the input has ended. -/
namespace GridPuzzles
namespace Json

variable {α β : Type} {g g' : List UInt8 → Outcome α} {f : α → List UInt8 → Outcome β}
  {loose loose' : Prop} {bs w w₁ w₂ p q r : List UInt8} {a : α} {b : β} {c : UInt8}

def Outcome.Unfinished (o : Outcome α) : Prop := ∃ e u, o = .failed e u ∧ e.category = .endOfInput

theorem unfinished_failed {e : Reason} (he : e.category = .endOfInput) (u : List UInt8) :
    (Outcome.failed e u : Outcome α).Unfinished := ⟨e, u, rfl, he⟩

theorem Outcome.Unfinished.bind {o : Outcome α} (h : o.Unfinished)
    (f : α → List UInt8 → Outcome β) : (o.bind f).Unfinished := by
  obtain ⟨e, u, rfl, he⟩ := h
  exact ⟨e, u, rfl, he⟩

theorem Outcome.Unfinished.ne_ok {o : Outcome α} (h : o.Unfinished) : o ≠ .ok a r := by
  obtain ⟨e, u, rfl, -⟩ := h
  simp

/-- The bytes are taken whole, whatever follows them. After those of a loose reader no number may go
on. -/
def Whole (loose : Prop) (g : List UInt8 → Outcome α) (w : List UInt8) (a : α) : Prop :=
  ∀ rest, (loose → Ends rest) → g (w ++ rest) = .ok a rest

/-- The cut between `p` and `q` goes through a number that is skipped: any value might stand in its
place. -/
def Breaks (loose : Prop) (g : List UInt8 → Outcome α) (a : α) (p q : List UInt8) : Prop :=
  ∃ pre t t' post, p = pre ++ t ∧ q = t' ++ post ∧ t ≠ [] ∧ t' ≠ [] ∧ Numeral (t ++ t') ∧
    (∃ u, g p = .failed .badNumber u) ∧ ∀ v, Value v → Whole loose g (pre ++ (v ++ post)) a

inductive Cut (loose : Prop) (g : List UInt8 → Outcome α) (a : α) (p q : List UInt8) : Prop where
  | unfinished : (g p).Unfinished → Cut loose g a p q
  | breaks : Breaks loose g a p q → Cut loose g a p q
  | short : loose → (∃ a', g p = .ok a' []) → Cut loose g a p q

/-- The bytes are taken whole, and no part of them is mistaken for something else. -/
structure Takes (loose : Prop) (g : List UInt8 → Outcome α) (w : List UInt8) (a : α) : Prop where
  whole : Whole loose g w a
  cut : ∀ p q, w = p ++ q → q ≠ [] → Cut loose g a p q

def Cautious (loose : Prop) (g : List UInt8 → Outcome α) (bs : List UInt8) : Prop :=
  ∀ a r, g bs = .ok a r → (loose → Ends r) → ∃ w, bs = w ++ r ∧ Takes loose g w a

def startsNumber (b : UInt8) : Bool := b = byte '-' || isDigit b

def parts (b : UInt8) : Bool := !(continues b || startsNumber b)

/-- A reader for what comes after a number: it takes something, and what it takes is no part of a
number. -/
structure Parted (f : α → List UInt8 → Outcome β) : Prop where
  unfinished : ∀ a, (f a []).Unfinished
  parts : ∀ a bs b r, f a bs = .ok b r → ∀ c ∈ bs.head?, parts c

def Alike (p w : List UInt8) : Prop := (∃ c, p.head? = some c ∧ w.head? = some c) ∨ Begins w

theorem ends_of_parts (h : ∀ c ∈ r.head?, parts c) : Ends r := by
  intro c hc
  have hparts := h c hc
  rw [parts, Bool.not_eq_true', Bool.or_eq_false_iff] at hparts
  exact hparts.1

theorem numeral_starts (h : Numeral w) : ∃ b r, w = b :: r ∧ startsNumber b := by
  obtain ⟨sign, ds, fraction, exponent, hsign, hds, -, -, rfl⟩ := h
  rcases hsign with rfl | rfl
  · obtain ⟨d, s, rfl, hd⟩ := hds.exists_cons
    exact ⟨d, _, rfl, by simp [startsNumber, hd]⟩
  · exact ⟨byte '-', _, rfl, rfl⟩

theorem cut_cases (h : w₁ ++ w₂ = p ++ q) :
    (∃ p', p = w₁ ++ p' ∧ w₂ = p' ++ q) ∨ ∃ q', q' ≠ [] ∧ w₁ = p ++ q' ∧ q = q' ++ w₂ := by
  rcases List.append_eq_append_iff.mp h with ⟨p', hp, hw⟩ | ⟨q', hw, hq⟩
  · exact .inl ⟨p', hp, hw⟩
  · by_cases hq' : q' = []
    · subst hq'
      exact .inl ⟨[], by simpa using hw.symm, by simpa using hq.symm⟩
    · exact .inr ⟨q', hq', hw, hq⟩

theorem Whole.mono (h : Whole loose g w a) (hmono : loose → loose') : Whole loose' g w a :=
  fun rest hrest => h rest fun hloose => hrest (hmono hloose)

theorem Whole.alone (h : Whole loose g w a) : g w = .ok a [] := by
  have halone := h [] fun _ => ends_nil
  rwa [List.append_nil] at halone

theorem Whole.ne_nil (h : Whole loose g w a) (h0 : ∀ a r, g [] ≠ .ok a r) : w ≠ [] := by
  rintro rfl
  exact h0 a [] h.alone

/-- What a reader makes of a cut carries over to a reader with other bytes around those of the
first: it fails where the first one fails, and takes whole what the first one takes. -/
theorem Cut.transport {h : List UInt8 → Outcome β} (hcut : Cut loose g a p q)
    (before after : List UInt8)
    (hfailed : ∀ e u, g p = .failed e u → h (before ++ p) = .failed e u)
    (hwhole : ∀ w, Alike p w → Whole loose g w a → Whole loose' h (before ++ (w ++ after)) b)
    (hshort : ∀ a', loose → g p = .ok a' [] → Cut loose' h b (before ++ p) (q ++ after)) :
    Cut loose' h b (before ++ p) (q ++ after) := by
  cases hcut with
  | unfinished hp =>
    obtain ⟨e, u, hu, he⟩ := hp
    exact .unfinished ⟨e, u, hfailed e u hu, he⟩
  | breaks hp =>
    obtain ⟨pre, t, t', post, rfl, rfl, ht, ht', hnumeral, ⟨u, hu⟩, hany⟩ := hp
    refine .breaks ⟨before ++ pre, t, t', post ++ after, by simp, by simp, ht, ht', hnumeral,
      ⟨u, hfailed _ u hu⟩, ?_⟩
    intro v hv
    -- only a value in place of the number can change the first byte
    have halike : Alike (pre ++ t) (pre ++ (v ++ post)) := by
      cases pre with
      | cons c pre => exact .inl ⟨c, rfl, rfl⟩
      | nil =>
        obtain ⟨b, s, rfl, hb, hclose⟩ := hv.begins
        exact .inr (begins_cons hb hclose _)
    have h := hwhole _ halike (hany v hv)
    simpa only [List.append_assoc] using h
  | short hloose hp =>
    obtain ⟨a', ha'⟩ := hp
    exact hshort a' hloose ha'

theorem Cut.behind {h : List UInt8 → Outcome β} (hcut : Cut loose g a p q) (before : List UInt8)
    (hfailed : ∀ e u, g p = .failed e u → h (before ++ p) = .failed e u)
    (hwhole : ∀ w, Alike p w → Whole loose g w a → Whole loose' h (before ++ w) b)
    (hshort : ∀ a', loose → g p = .ok a' [] → Cut loose' h b (before ++ p) q) :
    Cut loose' h b (before ++ p) q := by
  have hq : q = q ++ [] := (List.append_nil q).symm
  rw [hq] at hshort ⊢
  refine hcut.transport before [] hfailed (fun w halike hw => ?_) hshort
  rw [List.append_nil]
  exact hwhole w halike hw

theorem Takes.mono (h : Takes loose g w a) (hmono : loose → loose') : Takes loose' g w a where
  whole := h.whole.mono hmono
  cut p q hw hq := (h.cut p q hw hq).behind [] (fun _ _ hu => hu) (fun _ _ hw => hw.mono hmono)
    fun a' hloose ha' => .short (hmono hloose) ⟨a', ha'⟩

theorem Cautious.mono (h : Cautious loose g bs) (hmono : loose → loose') :
    Cautious loose' g bs := by
  intro a r hrun hr
  obtain ⟨w, hbs, hw⟩ := h a r hrun fun hloose => hr (hmono hloose)
  exact ⟨w, hbs, hw.mono hmono⟩

theorem Cautious.loosen (h : Cautious False g bs) : Cautious loose g bs := h.mono False.elim

theorem Cautious.of_eq (h : Cautious loose g bs) (heq : ∀ bs, g' bs = g bs) :
    Cautious loose g' bs := by
  rw [funext heq]
  exact h

theorem cautious_of_ne_ok (h : ∀ a r, g bs ≠ .ok a r) : Cautious loose g bs :=
  fun a r hrun => absurd hrun (h a r)

theorem cautious_nil (h0 : (g []).Unfinished) : Cautious loose g [] :=
  cautious_of_ne_ok fun _ _ => h0.ne_ok

theorem cautious_failed {e : Reason} {u : List UInt8 → List UInt8} :
    Cautious loose (fun r => (.failed e (u r) : Outcome α)) bs := by
  intro a r hrun
  cases hrun

theorem cautious_unplaced {e : Reason} :
    Cautious loose (fun r => (.unplaced e r : Outcome α)) bs := by
  intro a r hrun
  cases hrun

theorem cautious_pure (loose : Prop) (a : α) (bs : List UInt8) :
    Cautious loose (fun r => .ok a r) bs := by
  intro b r hrun _
  cases hrun
  refine ⟨[], rfl, fun _ _ => rfl, ?_⟩
  intro p q hw hq
  exact absurd (List.append_eq_nil_iff.mp hw.symm).2 hq

section Bind

theorem Whole.ends (h : Whole loose' (f a) w b) (hf : Parted f) (rest : List UInt8) :
    Ends (w ++ rest) := by
  have hparts := hf.parts a w b [] h.alone
  have hne := h.ne_nil fun _ _ => (hf.unfinished a).ne_ok
  cases w with
  | nil => exact absurd rfl hne
  | cons c w => exact ends_of_parts hparts

theorem Whole.bind (h₁ : Whole loose g w₁ a) (h₂ : Whole loose' (f a) w₂ b)
    (hf : loose → Parted f) : Whole loose' (fun bs => (g bs).bind f) (w₁ ++ w₂) b := by
  intro rest hrest
  have hfirst := h₁ (w₂ ++ rest) fun hloose => h₂.ends (hf hloose) rest
  simp only [List.append_assoc, hfirst, Outcome.bind]
  exact h₂ rest hrest

/-- One reader after another. A cut goes through the bytes of the first or through those of the
second; in the first case what has been taken is a part of a number at most, and the second reader
misses its bytes. -/
theorem Takes.bind (h₁ : Takes loose g w₁ a) (h₂ : Takes loose' (f a) w₂ b)
    (hf : loose → Parted f) : Takes loose' (fun bs => (g bs).bind f) (w₁ ++ w₂) b where
  whole := h₁.whole.bind h₂.whole hf
  cut p q hw hq := by
    rcases cut_cases hw with ⟨p', rfl, rfl⟩ | ⟨q', hq', rfl, rfl⟩
    · have hfirst : g (w₁ ++ p') = .ok a p' := by
        apply h₁.whole
        intro hloose
        have hends := h₂.whole.ends (hf hloose) []
        cases p' with
        | nil => exact ends_nil
        | cons c p' => exact ends_cons (hends c rfl) p'
      refine (h₂.cut p' q rfl hq).behind w₁ ?_ (fun w _ hw => h₁.whole.bind hw hf) ?_
      · intro e u hu
        simpa only [hfirst, Outcome.bind] using hu
      · intro b' hloose hb'
        exact .short hloose ⟨b', by simpa only [hfirst, Outcome.bind] using hb'⟩
    · refine (h₁.cut p q' rfl hq').transport [] w₂ ?_ (fun w _ hw => hw.bind h₂.whole hf) ?_
      · intro e u hu
        simp only [List.nil_append, hu, Outcome.bind]
      · intro a' hloose ha'
        refine .unfinished ?_
        simpa only [List.nil_append, ha', Outcome.bind] using (hf hloose).unfinished a'

theorem Cautious.bind (h₁ : Cautious loose g bs) (hf : loose → Parted f)
    (h₂ : ∀ a r, g bs = .ok a r → Cautious loose' (f a) r) :
    Cautious loose' (fun bs => (g bs).bind f) bs := by
  intro b r hrun hr
  obtain ⟨a, s, hg, hfs⟩ := Outcome.bind_eq_ok.mp hrun
  have hs : loose → Ends s := fun hloose => ends_of_parts ((hf hloose).parts a s b r hfs)
  obtain ⟨w₁, rfl, hw₁⟩ := h₁ a s hg hs
  obtain ⟨w₂, rfl, hw₂⟩ := h₂ a s hg b r hfs hr
  exact ⟨w₁ ++ w₂, by simp, hw₁.bind hw₂ hf⟩

theorem Cautious.map (h : Cautious loose g bs) (k : α → β) :
    Cautious loose (fun bs => (g bs).map k) bs := by
  have hmap : ∀ {w a}, Whole loose g w a → Whole loose (fun bs => (g bs).map k) w (k a) := by
    intro w a hw rest hrest
    simp only [hw rest hrest, Outcome.map]
  intro b r hrun hr
  obtain ⟨a, hg, rfl⟩ := Outcome.map_eq_ok.mp hrun
  obtain ⟨w, hbs, hw⟩ := h a r hg hr
  refine ⟨w, hbs, hmap hw.whole, ?_⟩
  intro p q hpq hq
  refine (hw.cut p q hpq hq).behind [] ?_ (fun w _ hw => hmap hw) ?_
  · intro e u hu
    simp only [List.nil_append, hu, Outcome.map]
  · intro a' hloose ha'
    exact .short hloose ⟨k a', by simp only [List.nil_append, ha', Outcome.map]⟩

end Bind

/-- What is done to an outcome on the way out of a list or an object: a failure that has a place
keeps it, and one that has none stays a failure. -/
structure Leaves (k : Outcome α → Outcome β) : Prop where
  failed : ∀ e u, k (.failed e u) = .failed e u
  unplaced : ∀ e r b s, k (.unplaced e r) ≠ .ok b s

theorem Cautious.leave {γ : Type} {k : Outcome β → Outcome γ} (hk : Leaves k)
    (h : Cautious loose (fun bs => (g bs).bind fun a s => k (f a s)) bs) :
    Cautious loose (fun bs => k ((g bs).bind f)) bs := by
  have hok : ∀ {bs c s}, k ((g bs).bind f) = .ok c s ↔
      ((g bs).bind fun a s => k (f a s)) = .ok c s := by
    intro bs c s
    cases g bs with
    | ok a r => rfl
    | unplaced e r => simp [Outcome.bind, hk.unplaced]
    | failed e u => simp [Outcome.bind, hk.failed]
  have hfailed : ∀ {bs e u}, ((g bs).bind fun a s => k (f a s)) = .failed e u →
      k ((g bs).bind f) = .failed e u := by
    intro bs e u hrun
    cases hg : g bs with
    | ok a r =>
      rw [hg] at hrun
      exact hrun
    | unplaced e r =>
      rw [hg] at hrun
      cases hrun
    | failed e u =>
      rw [hg] at hrun
      cases hrun
      exact hk.failed _ _
  intro c s hrun hs
  obtain ⟨w, hbs, hw⟩ := h c s (hok.mp hrun) hs
  refine ⟨w, hbs, fun rest hrest => hok.mpr (hw.whole rest hrest), ?_⟩
  intro p q hpq hq
  exact (hw.cut p q hpq hq).behind [] (fun _ _ => hfailed)
    (fun w _ hw rest hrest => hok.mpr (hw rest hrest))
    fun c' hloose hc' => .short hloose ⟨c', hok.mpr hc'⟩

theorem Parted.of_eq {f' : α → List UInt8 → Outcome β} (hf : Parted f)
    (heq : ∀ a bs, f' a bs = f a bs) : Parted f' := by
  obtain rfl : f' = f := funext fun a => funext (heq a)
  exact hf

theorem Parted.leave {γ : Type} {k : Outcome β → Outcome γ} (hf : Parted f) (hk : Leaves k) :
    Parted fun a bs => k (f a bs) where
  unfinished a := by
    obtain ⟨e, u, hu, he⟩ := hf.unfinished a
    exact ⟨e, u, by rw [hu, hk.failed], he⟩
  parts := by
    intro a bs c r hrun
    cases hfa : f a bs with
    | ok b s => exact hf.parts a bs b s hfa
    | unplaced e s =>
      rw [hfa] at hrun
      exact absurd hrun (hk.unplaced e s c r)
    | failed e u =>
      rw [hfa, hk.failed] at hrun
      cases hrun

section First

theorem isBlank_of_skipBlanks (h : skipBlanks bs = c :: r) : isBlank c = false := by
  have hc := List.head?_dropWhile_not isBlank bs
  rw [show bs.dropWhile isBlank = c :: r from h] at hc
  simpa using hc

theorem skipBlanks_skipBlanks (bs : List UInt8) : skipBlanks (skipBlanks bs) = skipBlanks bs := by
  cases hbs : skipBlanks bs with
  | nil => rfl
  | cons c r => exact skipBlanks_cons (isBlank_of_skipBlanks hbs) r

theorem parts_of_skipBlanks (h : ∀ c r, skipBlanks bs = c :: r → parts c) :
    ∀ c ∈ bs.head?, parts c := by
  intro c hc
  cases bs with
  | nil => cases hc
  | cons b r =>
    cases hc
    by_cases hb : isBlank c
    · simp only [isBlank, Bool.or_eq_true, decide_eq_true_eq] at hb
      rcases hb with ((rfl | rfl) | rfl) | rfl <;> rfl
    · exact h c r (skipBlanks_cons (Bool.not_eq_true _ ▸ hb) r)

theorem Cautious.cons (h0 : (g []).Unfinished) (h : Cautious loose (fun r => g (c :: r)) r) :
    Cautious loose g (c :: r) := by
  intro a s hrun hs
  obtain ⟨w, rfl, hw⟩ := h a s hrun hs
  refine ⟨c :: w, rfl, fun rest hrest => hw.whole rest hrest, ?_⟩
  intro p q hpq hq
  rcases List.cons_eq_append_iff.mp hpq with ⟨rfl, -⟩ | ⟨p', rfl, rfl⟩
  · exact .unfinished h0
  · exact (hw.cut p' q rfl hq).behind [c] (fun _ _ hu => hu) (fun w _ hw => hw)
      fun a' hloose ha' => .short hloose ⟨a', ha'⟩

/-- Two readers that make the same of all bytes that begin like these ones, or with a value. -/
theorem Cautious.agree {P : UInt8 → Prop} (h : Cautious loose g (c :: r)) (hc : P c)
    (hP : ∀ c, isBlank c = false → (∀ k : Bracket, c ≠ k.closing) → P c)
    (h0 : (g' []).Unfinished) (hg : ∀ a r, g [] ≠ .ok a r)
    (hsame : ∀ c r, P c → g' (c :: r) = g (c :: r)) : Cautious loose g' (c :: r) := by
  have hwhole : ∀ {w a}, (∀ c ∈ w.head?, P c) → Whole loose g w a → Whole loose g' w a := by
    intro w a hhead hw rest hrest
    have hrun := hw rest hrest
    cases w with
    | nil => exact absurd hw.alone (hg a [])
    | cons b w => rwa [List.cons_append, hsame b _ (hhead b rfl)]
  intro a s hrun hs
  rw [hsame c r hc] at hrun
  obtain ⟨w, hbs, hw⟩ := h a s hrun hs
  have hhead : ∀ b ∈ w.head?, P b := by
    intro b hb
    cases w with
    | nil => cases hb
    | cons x w =>
      cases hb
      cases hbs
      exact hc
  refine ⟨w, hbs, hwhole hhead hw.whole, ?_⟩
  intro p q hpq hq
  cases p with
  | nil => exact .unfinished h0
  | cons b p =>
    have hb : P b := hhead b (by rw [hpq]; rfl)
    have heq := hsame b p hb
    refine (hw.cut (b :: p) q hpq hq).behind [] (fun e u hu => heq ▸ hu) ?_
      fun a' hloose ha' => .short hloose ⟨a', heq ▸ ha'⟩
    intro w hlike hw
    refine hwhole ?_ hw
    intro x hx
    rw [List.nil_append] at hx
    rcases hlike with ⟨y, hy, hwy⟩ | ⟨y, t, rfl, hblank, hclose⟩
    · cases hy
      rw [hwy] at hx
      cases hx
      exact hb
    · cases hx
      exact hP _ hblank hclose

theorem Cautious.blanks (hskip : ∀ bs, g (skipBlanks bs) = g bs) (h0 : (g []).Unfinished)
    (h : ∀ c r, skipBlanks bs = c :: r → Cautious loose g (c :: r)) : Cautious loose g bs := by
  have hblank : ∀ {w}, Blank w → ∀ r, g (w ++ r) = g r := by
    intro w hw r
    rw [← hskip, skipBlanks_append hw, hskip]
  intro a r hrun hr
  obtain ⟨before, hbefore, hbs⟩ := exists_blank bs
  cases hs : skipBlanks bs with
  | nil =>
    rw [← hskip, hs] at hrun
    exact absurd hrun h0.ne_ok
  | cons c s =>
    rw [← hskip, hs] at hrun
    obtain ⟨w, hw, htakes⟩ := h c s hs a r hrun hr
    refine ⟨before ++ w, by rw [hbs, hs, hw, List.append_assoc], ?_, ?_⟩
    · intro rest hrest
      rw [List.append_assoc, hblank hbefore]
      exact htakes.whole rest hrest
    · intro p q hpq hq
      rcases cut_cases hpq with ⟨p', rfl, rfl⟩ | ⟨q', -, rfl, rfl⟩
      · refine (htakes.cut p' q rfl hq).behind before (fun e u hu => by rwa [hblank hbefore]) ?_
          fun a' hloose ha' => .short hloose ⟨a', by rwa [hblank hbefore]⟩
        intro w _ hw rest hrest
        rw [List.append_assoc, hblank hbefore]
        exact hw rest hrest
      · have hp : Blank p := fun x hx => hbefore x (by simp [hx])
        refine .unfinished ?_
        have hnil := hblank hp []
        rw [List.append_nil] at hnil
        rwa [hnil]

theorem Cautious.mark (hskip : ∀ bs, g (skipBlanks bs) = g bs) (h0 : (g []).Unfinished)
    (h : ∀ c r, skipBlanks bs = c :: r → Cautious loose (fun r => g (c :: r)) r) :
    Cautious loose g bs :=
  Cautious.blanks hskip h0 fun c r hbs => Cautious.cons h0 (h c r hbs)

end First

end Json
end GridPuzzles
