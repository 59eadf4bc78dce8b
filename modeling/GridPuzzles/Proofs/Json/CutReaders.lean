import GridPuzzles.Proofs.Json.CutSkips
import GridPuzzles.Proofs.Json.Records

/-! Documents of lists and records that are cut short. Between the brackets of a list or an object
something is still missing, so only a number can end where it has been cut; a value in brackets is
taken whole or not at all. -/
namespace GridPuzzles
namespace Json

variable {α β : Type} {bs r p q : List UInt8} {b c : UInt8} {v : Nat} {loose : Prop}

theorem decimal_prefix (h : decimal v = p ++ q) (hp : p ≠ []) : ∃ m ≤ v, p = decimal m := by
  induction v using Nat.strongRecOn generalizing q with
  | ind v ih =>
    by_cases hq : q = []
    · exact ⟨v, Nat.le_refl v, by rw [h, hq, List.append_nil]⟩
    by_cases hlt : v < 10
    · rw [decimal_of_lt hlt] at h
      rcases List.singleton_eq_append_iff.mp h with ⟨hnil, -⟩ | ⟨-, hnil⟩
      · exact absurd hnil hp
      · exact absurd hnil hq
    · obtain ⟨hdigit, hvalue⟩ := @digit_digitChar (v % 10) (by omega)
      have hsplit := @decimal_append _ (v / 10) (by omega) hdigit
      rw [show v / 10 * 10 + digitValue (byte (v % 10).digitChar) = v by omega, h] at hsplit
      rcases cut_cases hsplit.symm with ⟨p', rfl, hlast⟩ | ⟨q', -, hw, -⟩
      · rcases List.singleton_eq_append_iff.mp hlast with ⟨rfl, -⟩ | ⟨-, hnil⟩
        · exact ⟨v / 10, Nat.div_le_self v 10, by rw [List.append_nil]⟩
        · exact absurd hnil hq
      · obtain ⟨m, hm, hpm⟩ := ih (v / 10) (by omega) hw
        exact ⟨m, by omega, hpm⟩

/-- A number that is read, cut short: a shorter one is left. -/
theorem takes_natural {largest : Nat} (hsize : largest < UInt64.size) (wanted : Wanted)
    (hv : v ≤ largest) : Takes True (Reader.natural largest wanted).run (decimal v) v := by
  have hwhole : ∀ {m}, m ≤ largest → Whole True (Reader.natural largest wanted).run (decimal m) m :=
    fun hm _ hrest => Reader.natural_complete hsize wanted hm blank_nil (hrest trivial)
  refine ⟨hwhole hv, ?_⟩
  intro p q hpq _
  by_cases hp : p = []
  · subst hp
    exact .unfinished (unfinished_failed rfl _)
  · obtain ⟨m, hm, rfl⟩ := decimal_prefix hpq hp
    exact .short trivial ⟨m, (hwhole (hm.trans hv)).alone⟩

theorem cautious_natural {largest : Nat} (hsize : largest < UInt64.size) (wanted : Wanted)
    (bs : List UInt8) : Cautious True (Reader.natural largest wanted).run bs := by
  have h0 : ((Reader.natural largest wanted).run []).Unfinished := unfinished_failed rfl _
  refine Cautious.blanks (fun bs => by simp only [Reader.natural, skipBlanks_skipBlanks]) h0 ?_
  intro b r hbs n s hrun _
  simp only [Reader.natural, skipBlanks_cons (isBlank_of_skipBlanks hbs)] at hrun
  split at hrun
  · obtain ⟨m, t, hnumber, hbounded⟩ := Outcome.bind_eq_ok.mp hrun
    obtain ⟨rfl, hn, rfl⟩ := bounded_eq_ok.mp hbounded
    exact ⟨decimal n, number_sound hnumber, takes_natural hsize wanted hn⟩
  · exact absurd hrun wrongType_ne_ok

theorem cautious_cell (bs : List UInt8) : Cautious True Reader.cell.run bs :=
  (cautious_natural (by decide) .byte bs).map UInt8.ofNat

theorem cautious_refine {p : Reader α} (hp : Cautious False p.run bs)
    (f : α → Except Reason β) : Cautious False (p.refine f).run bs := by
  refine hp.bind False.elim fun a r _ => ?_
  cases f a with
  | ok b => exact cautious_pure False b r
  | error e => exact cautious_unplaced

section List

variable {F : Bool → List UInt8 → Outcome α}

def afterComma (F : List UInt8 → Outcome α) (bs : List UInt8) : Outcome α :=
  match skipBlanks bs with
  | [] => .failed .endInValue []
  | c :: s => if c = byte ']' then .failed .trailingComma s else F (c :: s)

theorem nextElement_comma (r : List UInt8) :
    (nextElement false (byte ',' :: r)).bind F = afterComma (F true) r := by
  have hcomma : byte ',' ≠ byte ']' := by decide
  rw [nextElement, skipBlanks_cons rfl, afterComma]
  simp only [if_neg hcomma, Bool.false_eq_true, if_false, if_true]
  cases skipBlanks r with
  | nil => rfl
  | cons c s =>
    simp only
    split <;> rfl

theorem cautious_begun {G : List UInt8 → Outcome α} (hbs : isBlank c = false)
    (hc : c ≠ byte ']') (h0 : (G []).Unfinished) (hF : Cautious loose (F true) (c :: r))
    (hne : ∀ a r, F true [] ≠ .ok a r)
    (hG : ∀ c r, isBlank c = false → c ≠ byte ']' → G (c :: r) = F true (c :: r)) :
    Cautious loose G (c :: r) :=
  hF.agree (P := fun c => isBlank c = false ∧ c ≠ byte ']') ⟨hbs, hc⟩
    (fun _ hblank hclosing => ⟨hblank, hclosing .list⟩) h0 hne
    fun c r hc => hG c r hc.1 hc.2

theorem cautious_nextElement (first : Bool)
    (hclose : ∀ r, Cautious loose (fun r => F false (byte ']' :: r)) r)
    (hvalue : ∀ s : List UInt8, s.length ≤ bs.length → Cautious loose (F true) s)
    (hne : ∀ a r, F true [] ≠ .ok a r) :
    Cautious loose (fun bs => (nextElement first bs).bind F) bs := by
  have h0 : ((nextElement first []).bind F).Unfinished := unfinished_failed rfl _
  refine Cautious.blanks (fun bs => by simp only [nextElement, skipBlanks_skipBlanks]) h0 ?_
  intro b r hbs
  have hb := isBlank_of_skipBlanks hbs
  have hr := length_lt_of_skipBlanks hbs
  by_cases hbracket : b = byte ']'
  · subst hbracket
    refine Cautious.cons h0 ((hclose r).of_eq fun r => ?_)
    simp only [nextElement, skipBlanks_cons hb, if_true, Outcome.bind]
  · cases first with
    | true =>
      refine cautious_begun hb hbracket h0 (hvalue _ hr) hne ?_
      intro c r hc hbracket
      simp only [nextElement, skipBlanks_cons hc, if_neg hbracket, if_true, Outcome.bind]
    | false =>
      by_cases hcomma : b = byte ','
      · subst hcomma
        refine Cautious.cons h0 (Cautious.of_eq ?_ nextElement_comma)
        have h0 : (afterComma (F true) []).Unfinished := unfinished_failed rfl _
        refine Cautious.blanks (fun bs => by simp only [afterComma, skipBlanks_skipBlanks]) h0 ?_
        intro c s hrs
        have hc := isBlank_of_skipBlanks hrs
        have hs := length_lt_of_skipBlanks hrs
        by_cases hbracket : c = byte ']'
        · refine cautious_of_ne_ok fun a t hrun => ?_
          simp only [afterComma, skipBlanks_cons hc, if_pos hbracket, reduceCtorEq] at hrun
        · refine cautious_begun hc hbracket h0 (hvalue _ (by simp only [List.length_cons]; omega))
            hne ?_
          intro c s hc hbracket
          simp only [afterComma, skipBlanks_cons hc, if_neg hbracket]
      · refine cautious_of_ne_ok fun a s hrun => ?_
        simp only [nextElement, skipBlanks_cons hb, if_neg hbracket, Bool.false_eq_true, if_false,
          if_neg hcomma, Outcome.bind, reduceCtorEq] at hrun

/-- After an element a comma or a bracket is missing. -/
theorem parted_nextElement (F : α → Bool → List UInt8 → Outcome β) :
    Parted fun a bs => (nextElement false bs).bind (F a) where
  unfinished _ := unfinished_failed rfl _
  parts := by
    intro a bs b r hrun
    refine parts_of_skipBlanks fun c s hbs => ?_
    rw [nextElement, hbs] at hrun
    by_cases hbracket : c = byte ']'
    · rw [hbracket]
      rfl
    · by_cases hcomma : c = byte ','
      · rw [hcomma]
        rfl
      · simp only [if_neg hbracket, Bool.false_eq_true, if_false, if_neg hcomma, Outcome.bind,
          reduceCtorEq] at hrun

theorem leaves_leaveList : Leaves (leaveList (α := α)) where
  failed _ _ := rfl
  unplaced := by
    intro e r b s h
    obtain ⟨t, ht, -⟩ := leaveList_eq_ok.mp h
    cases ht

theorem cautious_leaveList (a : α) (bs : List UInt8) :
    Cautious False (fun bs => leaveList (.ok a bs)) bs := by
  have h0 : (leaveList (.ok a [])).Unfinished := unfinished_failed rfl _
  refine Cautious.mark (fun bs => by simp only [leaveList, skipBlanks_skipBlanks]) h0 ?_
  intro b r hbs
  have hb := isBlank_of_skipBlanks hbs
  by_cases hbracket : b = byte ']'
  · refine (cautious_pure False a r).of_eq fun r => ?_
    simp only [leaveList, skipBlanks_cons hb, if_pos hbracket]
  · refine cautious_of_ne_ok fun a s hrun => ?_
    obtain ⟨t, ht, hclose⟩ := leaveList_eq_ok.mp hrun
    cases ht
    rw [skipBlanks_cons hb] at hclose
    exact hbracket (List.cons.inj hclose).1

theorem cautious_elements {p : Reader α} (hp : ∀ bs, Cautious True p.run bs) (first : Bool)
    (acc : List α) (bs : List UInt8) :
    Cautious False (fun bs => leaveList (p.elements first acc bs)) bs := by
  induction hn : bs.length using Nat.strongRecOn generalizing first acc bs with
  | ind n ih =>
    refine Cautious.of_eq ?_ fun bs => congrArg leaveList (p.elements_eq first acc bs)
    refine Cautious.leave leaves_leaveList (cautious_nextElement first ?_ ?_ ?_)
    · intro r
      refine (cautious_pure False acc.reverse r).of_eq fun r => ?_
      exact leaveList_eq_ok.mpr ⟨_, rfl, skipBlanks_cons rfl r⟩
    · intro s hs
      simp only [if_true]
      refine Cautious.leave leaves_leaveList ((hp s).bind (fun _ => ?_) fun a t ht => ?_)
      · exact ((parted_nextElement _).of_eq fun a => p.elements_eq false (a :: acc)).leave
          leaves_leaveList
      · have hlt := p.takes s a t ht
        exact ih t.length (by omega) false (a :: acc) t rfl
    · intro as s hrun
      obtain ⟨t, hrun, -⟩ := leaveList_eq_ok.mp hrun
      obtain ⟨a, u, hrun, -⟩ := Outcome.bind_eq_ok.mp hrun
      exact absurd (p.takes [] a u hrun) (Nat.not_lt_zero _)

theorem cautious_sequence {p : Reader α} (hp : ∀ bs, Cautious True p.run bs)
    (bs : List UInt8) : Cautious False (Reader.sequence p).run bs := by
  have h0 : ((Reader.sequence p).run []).Unfinished := unfinished_failed rfl _
  refine Cautious.mark (fun bs => by simp only [Reader.sequence, skipBlanks_skipBlanks]) h0 ?_
  intro b r hbs
  simp only [Reader.sequence, skipBlanks_cons (isBlank_of_skipBlanks hbs)]
  split
  · exact cautious_elements hp true [] r
  · exact cautious_of_ne_ok fun _ _ => wrongType_ne_ok

end List

theorem skipBlanks_eq_nil : skipBlanks bs = [] ↔ Blank bs := List.dropWhile_eq_nil_iff

/-- The cut between `x` and `y` goes through a number that is of no account: with any value in its
place the document is read as the same. -/
def Reader.BreaksNumber (p : Reader α) (a : α) (x y : List UInt8) : Prop :=
  ∃ pre t t' post, x = pre ++ t ∧ y = t' ++ post ∧ t ≠ [] ∧ t' ≠ [] ∧ Numeral (t ++ t') ∧
    ∀ v, Value v → p.parse (pre ++ (v ++ post)) = .ok a

namespace Reader

variable {p : Reader α} {a : α} {document w blank x y rest : List UInt8}

theorem parse_of_whole (hw : Whole False p.run w a) (hblank : Blank blank) :
    p.parse (w ++ blank) = .ok a := by
  simp only [parse, hw blank False.elim, skipBlanks_eq_nil.mpr hblank]

theorem parse_of_trailing (hw : Whole False p.run w a) (hblank : Blank blank)
    (hb : isBlank b = false) :
    ∃ position, p.parse (w ++ (blank ++ b :: rest)) = .error ⟨.trailingCharacters, position⟩ := by
  simp only [parse, hw _ False.elim, skipBlanks_blank_cons hblank hb]
  exact ⟨_, rfl⟩

theorem parse_of_failed {e : Reason} {u : List UInt8} (h : p.run bs = .failed e u) :
    ∃ position, p.parse bs = .error ⟨e, position⟩ := by
  simp only [parse, h]
  exact ⟨_, rfl⟩

variable (hp : ∀ bs, Cautious False p.run bs) (h : p.parse document = .ok a)

include hp h

theorem exists_takes : ∃ w blank, document = w ++ blank ∧ Blank blank ∧ Takes False p.run w a := by
  simp only [parse] at h
  split at h
  · rename_i a' rest hrun
    split at h
    · rename_i hrest
      cases h
      obtain ⟨w, hw, htakes⟩ := hp document a rest hrun False.elim
      exact ⟨w, rest, hw, skipBlanks_eq_nil.mp hrest, htakes⟩
    · cases h
  · cases h
  · cases h

theorem parse_cut (hcut : document = x ++ y) (hy : ¬ Blank y) :
    ∃ failure, p.parse x = .error failure ∧
      (failure.category = .endOfInput ∨
        failure.reason = .badNumber ∧ p.BreaksNumber a x y) := by
  obtain ⟨w, blank, rfl, hblank, htakes⟩ := exists_takes hp h
  rcases cut_cases hcut with ⟨x', -, hx⟩ | ⟨q, hq, rfl, rfl⟩
  · refine absurd (fun b hb => hblank b ?_) hy
    rw [hx]
    exact List.mem_append_right x' hb
  cases htakes.cut x q rfl hq with
  | unfinished hx =>
    obtain ⟨e, u, hu, he⟩ := hx
    obtain ⟨position, hparse⟩ := parse_of_failed hu
    exact ⟨_, hparse, .inl he⟩
  | breaks hx =>
    obtain ⟨pre, t, t', post, hpre, rfl, ht, ht', hnumeral, ⟨u, hu⟩, hany⟩ := hx
    obtain ⟨position, hparse⟩ := parse_of_failed hu
    refine ⟨_, hparse, .inr ⟨rfl, pre, t, t', post ++ blank, hpre, by simp, ht, ht', hnumeral, ?_⟩⟩
    intro v hv
    have hwhole := parse_of_whole (hany v hv) hblank
    simpa only [List.append_assoc] using hwhole
  | short hloose _ => exact hloose.elim

theorem parse_append_blank (hblank : Blank blank) : p.parse (document ++ blank) = .ok a := by
  obtain ⟨w, blank', rfl, hblank', htakes⟩ := exists_takes hp h
  rw [List.append_assoc]
  exact parse_of_whole htakes.whole (blank_append hblank' hblank)

theorem parse_append_trailing (hblank : Blank blank) (hb : isBlank b = false) :
    ∃ position, p.parse (document ++ (blank ++ b :: rest)) =
      .error ⟨.trailingCharacters, position⟩ := by
  obtain ⟨w, blank', rfl, hblank', htakes⟩ := exists_takes hp h
  have hparse : ∃ position, p.parse (w ++ (blank' ++ blank ++ b :: rest)) = _ :=
    parse_of_trailing htakes.whole (blank_append hblank' hblank) hb
  simpa only [List.append_assoc] using hparse

end Reader

end Json
end GridPuzzles
