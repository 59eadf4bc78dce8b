import GridPuzzles.Proofs.Json.CutReaders

/-! Documents of records that are cut short. A key is open up to its closing quote. -/
namespace GridPuzzles
namespace Json

variable {α β σ : Type} {bs : List UInt8} {loose : Prop}

theorem cautious_hexDigits {f : Nat → List UInt8 → Outcome β}
    (hf : ∀ n r, Cautious False (f n) r) (bs : List UInt8) :
    Cautious False (fun bs => (hexEscape bs).bind f) bs :=
  (cautious_hexEscape bs).bind False.elim fun n r _ => hf n r

theorem cautious_secondHalf (n : Nat) (bs : List UInt8) : Cautious False (secondHalf n) bs := by
  have h0 : (secondHalf n []).Unfinished := unfinished_failed rfl _
  cases bs with
  | nil => exact cautious_nil h0
  | cons b r =>
    refine Cautious.cons h0 ?_
    by_cases hb : b = byte '\\'
    · have h0 : (secondHalf n [b]).Unfinished := by
        rw [secondHalf, if_pos hb]
        exact unfinished_failed rfl _
      cases r with
      | nil => exact cautious_nil h0
      | cons c r =>
        refine Cautious.cons h0 ?_
        simp only [secondHalf, if_pos hb]
        split
        · refine cautious_hexDigits (fun m r => ?_) r
          split
          · exact cautious_pure False _ r
          · exact cautious_failed
        · exact cautious_failed
    · simp only [secondHalf, if_neg hb]
      exact cautious_failed

theorem cautious_numericEscape (bs : List UInt8) : Cautious False numericEscape bs := by
  refine cautious_hexDigits (fun n r => ?_) bs
  split
  · exact cautious_failed
  · split
    · exact cautious_secondHalf n r
    · exact cautious_pure False _ r

theorem cautious_escape (bs : List UInt8) : Cautious False escape bs := by
  have h0 : (escape []).Unfinished := unfinished_failed rfl _
  cases bs with
  | nil => exact cautious_nil h0
  | cons b r =>
    refine Cautious.cons h0 ?_
    simp only [escape]
    split
    · exact cautious_numericEscape r
    · split
      · exact cautious_pure False _ r
      · exact cautious_failed

theorem cautious_textFrom (acc bs : List UInt8) : Cautious False (textFrom acc) bs := by
  have h0 : ∀ acc, (textFrom acc []).Unfinished := by
    intro acc
    rw [textFrom]
    exact unfinished_failed rfl _
  fun_induction textFrom acc bs with
  | case1 acc => exact cautious_nil (h0 acc)
  | case2 acc r =>
    -- a key that is not well encoded is refused only here, so a cut cannot be what makes it so
    refine Cautious.cons (h0 acc) (Cautious.of_eq ?_ (textFrom_quote acc))
    unfold closed
    split
    · exact cautious_pure False _ r
    · exact cautious_failed
  | case3 acc r x s hs _ ih =>
    refine Cautious.cons (h0 acc) (Cautious.of_eq ?_ (textFrom_backslash acc))
    refine (cautious_escape r).bind False.elim fun y t ht => ?_
    rw [hs] at ht
    cases ht
    exact ih
  | case4 acc r e s hs =>
    refine Cautious.cons (h0 acc) (Cautious.of_eq ?_ (textFrom_backslash acc))
    exact cautious_of_ne_ok (by simp [hs, Outcome.bind])
  | case5 acc r e s hs =>
    refine Cautious.cons (h0 acc) (Cautious.of_eq ?_ (textFrom_backslash acc))
    exact cautious_of_ne_ok (by simp [hs, Outcome.bind])
  | case6 acc b r hquote hback hcontrol =>
    refine cautious_of_ne_ok fun a s hrun => ?_
    rw [textFrom, if_neg hquote, if_neg hback, if_pos hcontrol] at hrun
    cases hrun
  | case7 acc b r hquote hback hcontrol ih =>
    refine Cautious.cons (h0 acc) (ih.of_eq ?_)
    exact textFrom_plain (isPlain_iff.mpr ⟨hcontrol, hquote, hback⟩) acc

section Object

variable {F : Option (List UInt8) → List UInt8 → Outcome α}

def quotedKey (F : Option (List UInt8) → List UInt8 → Outcome α) (bs : List UInt8) : Outcome α :=
  (textFrom [] bs).bind fun key r => F (some key) r

def keyAfterComma (F : Option (List UInt8) → List UInt8 → Outcome α) (bs : List UInt8) :
    Outcome α :=
  match skipBlanks bs with
  | [] => .failed .endInValue []
  | c :: s =>
    if c = byte '"' then quotedKey F s
    else .failed (if c = byte '\x7d' then .trailingComma else .keyNotText) s

theorem quotedKey_eq (r : List UInt8) :
    ((textFrom [] r).map some).bind F = quotedKey F r := by
  rw [quotedKey]
  cases textFrom [] r <;> rfl

theorem nextKey_comma (r : List UInt8) :
    (nextKey false (byte ',' :: r)).bind F = keyAfterComma F r := by
  have hcomma : byte ',' ≠ byte '\x7d' := by decide
  rw [nextKey, skipBlanks_cons rfl, keyAfterComma]
  simp only [if_neg hcomma, Bool.false_eq_true, if_false, if_true]
  cases skipBlanks r with
  | nil => rfl
  | cons c s =>
    simp only
    split
    · exact quotedKey_eq s
    · rfl

theorem cautious_nextKey (first : Bool)
    (hclose : ∀ r, Cautious loose (fun r => F none (byte '\x7d' :: r)) r)
    (hkey : ∀ key s, s.length < bs.length → Cautious loose (F (some key)) s) :
    Cautious loose (fun bs => (nextKey first bs).bind F) bs := by
  have hquoted : ∀ r : List UInt8, r.length < bs.length → Cautious loose (quotedKey F) r := by
    intro r hr
    refine (cautious_textFrom [] r).bind False.elim fun key s hs => hkey key s ?_
    exact (textFrom_below [] r _ _ hs).trans hr
  have h0 : ((nextKey first []).bind F).Unfinished := unfinished_failed rfl _
  refine Cautious.mark (fun bs => by simp only [nextKey, skipBlanks_skipBlanks]) h0 ?_
  intro b r hbs
  have hb := isBlank_of_skipBlanks hbs
  have hr := length_lt_of_skipBlanks hbs
  by_cases hbracket : b = byte '\x7d'
  · subst hbracket
    refine (hclose r).of_eq fun r => ?_
    simp only [nextKey, skipBlanks_cons hb, if_true, Outcome.bind]
  · cases first with
    | true =>
      by_cases hquote : b = byte '"'
      · refine (hquoted r hr).of_eq fun r => ?_
        simp only [nextKey, skipBlanks_cons hb, if_neg hbracket, if_true, if_pos hquote,
          quotedKey_eq]
      · refine cautious_of_ne_ok fun a s hrun => ?_
        simp only [nextKey, skipBlanks_cons hb, if_neg hbracket, if_true, if_neg hquote,
          Outcome.bind, reduceCtorEq] at hrun
    | false =>
      by_cases hcomma : b = byte ','
      · subst hcomma
        refine Cautious.of_eq ?_ nextKey_comma
        have h0 : (keyAfterComma F []).Unfinished := unfinished_failed rfl _
        refine Cautious.mark (fun bs => by simp only [keyAfterComma, skipBlanks_skipBlanks]) h0 ?_
        intro c s hrs
        have hs := length_lt_of_skipBlanks hrs
        simp only [keyAfterComma, skipBlanks_cons (isBlank_of_skipBlanks hrs)]
        split
        · exact hquoted s (hs.trans hr)
        · exact cautious_failed
      · refine cautious_of_ne_ok fun a s hrun => ?_
        simp only [nextKey, skipBlanks_cons hb, if_neg hbracket, Bool.false_eq_true, if_false,
          if_neg hcomma, Outcome.bind, reduceCtorEq] at hrun

theorem parted_nextKey (F : α → Option (List UInt8) → List UInt8 → Outcome β) :
    Parted fun a bs => (nextKey false bs).bind (F a) where
  unfinished _ := unfinished_failed rfl _
  parts := by
    intro a bs b r hrun
    refine parts_of_skipBlanks fun c s hbs => ?_
    rw [nextKey, hbs] at hrun
    by_cases hbracket : c = byte '\x7d'
    · rw [hbracket]
      rfl
    · by_cases hcomma : c = byte ','
      · rw [hcomma]
        rfl
      · simp only [if_neg hbracket, Bool.false_eq_true, if_false, if_neg hcomma, Outcome.bind,
          reduceCtorEq] at hrun

theorem leaves_leaveObject : Leaves (leaveObject (α := α)) where
  failed _ _ := rfl
  unplaced _ _ _ _ h := by cases h

end Object

namespace Record

variable {d : Record σ α}

theorem leaves_complete (d : Record σ α) {k : Outcome α → Outcome β} (hk : Leaves k) :
    Leaves fun o => k (d.complete o) where
  failed := hk.failed
  unplaced := hk.unplaced

/-- What is made of a record does not depend on the bytes behind it. -/
theorem cautious_complete (d : Record σ α) {k : Outcome α → Outcome β} (hk : Leaves k)
    (hpure : ∀ a, Cautious False (fun bs => k (.ok a bs)) bs) (s : σ) :
    Cautious False (fun bs => k (d.complete (.ok s bs))) bs := by
  simp only [complete, Outcome.bind]
  cases d.finish s with
  | ok a => exact hpure a
  | error e => exact cautious_of_ne_ok (hk.unplaced e bs)

theorem cautious_inOrder (fs : List (Field σ))
    (hfs : ∀ f ∈ fs, ∀ s bs, Cautious False (f.read s).run bs) (count : Nat) (s : σ)
    (bs : List UInt8) :
    Cautious False (fun bs => leaveList (d.complete (d.inOrder count s fs bs))) bs := by
  have hk := leaves_complete d leaves_leaveList
  induction fs generalizing count s bs with
  | nil =>
    simp only [inOrder]
    exact cautious_complete d leaves_leaveList (fun a => cautious_leaveList a bs) s
  | cons f fs ih =>
    simp only [inOrder]
    refine Cautious.leave (k := fun o => leaveList (d.complete o)) hk
      (cautious_nextElement _ ?_ ?_ ?_)
    · intro r
      exact cautious_of_ne_ok (hk.unplaced _ _)
    · intro bs _
      simp only [if_true]
      refine Cautious.leave (k := fun o => leaveList (d.complete o)) hk
        ((hfs f (by simp) s bs).bind False.elim fun t r _ => ?_)
      exact ih (fun f hf => hfs f (by simp [hf])) (count + 1) t r
    · intro a r hrun
      simp only [if_true] at hrun
      obtain ⟨t, hrun, -⟩ := leaveList_eq_ok.mp hrun
      obtain ⟨u, hrun, -⟩ := complete_eq_ok.mp hrun
      obtain ⟨u, t, hrun, -⟩ := Outcome.bind_eq_ok.mp hrun
      exact absurd ((f.read s).takes [] u t hrun) (Nat.not_lt_zero _)

theorem cautious_member (hfs : ∀ f ∈ d.fields, ∀ s bs, Cautious False (f.read s).run bs) (s : σ)
    (key bs : List UInt8) : Cautious True (d.member s key) bs := by
  unfold member
  split
  · rename_i f hf
    split
    · exact cautious_unplaced
    · refine (cautious_colon bs).bind False.elim fun _ r _ => ?_
      exact (hfs f (List.mem_of_find?_eq_some hf) s r).loosen
  · exact (cautious_colon bs).bind False.elim fun _ r _ => (cautious_skip r).map _

theorem cautious_members (hfs : ∀ f ∈ d.fields, ∀ s bs, Cautious False (f.read s).run bs)
    (first : Bool) (s : σ) (bs : List UInt8) :
    Cautious False (fun bs => leaveObject (d.complete (d.members first s bs))) bs := by
  have hk := leaves_complete d leaves_leaveObject
  induction hn : bs.length using Nat.strongRecOn generalizing first s bs with
  | ind n ih =>
    refine Cautious.of_eq ?_ fun bs =>
      congrArg (fun o => leaveObject (d.complete o)) (members_eq d first s bs)
    refine Cautious.leave (k := fun o => leaveObject (d.complete o)) hk
      (cautious_nextKey first ?_ ?_)
    · intro r
      simp only [complete, Outcome.bind]
      cases d.finish s with
      | ok a =>
        refine (cautious_pure False a r).of_eq fun r => ?_
        exact leaveObject_eq_ok.mpr ⟨_, rfl, skipBlanks_cons rfl r⟩
      | error e => exact cautious_of_ne_ok (leaves_leaveObject.unplaced e _)
    · intro key bs' hlt
      refine Cautious.leave (k := fun o => leaveObject (d.complete o)) hk
        ((cautious_member hfs s key bs').bind (fun _ => ?_) fun t r hr => ?_)
      · exact ((parted_nextKey _).of_eq (members_eq d false)).leave hk
      · have hbelow := d.member_below s key bs' t r hr
        exact ih r.length (by omega) false t r rfl

theorem cautious_reader (hfs : ∀ f ∈ d.fields, ∀ s bs, Cautious False (f.read s).run bs)
    (bs : List UInt8) : Cautious False d.reader.run bs := by
  have h0 : (d.reader.run []).Unfinished := unfinished_failed rfl _
  refine Cautious.mark (fun bs => by simp only [reader, skipBlanks_skipBlanks]) h0 ?_
  intro b r hbs
  simp only [reader, skipBlanks_cons (isBlank_of_skipBlanks hbs)]
  split
  · exact cautious_inOrder d.fields hfs 0 d.blank r
  · split
    · exact cautious_members hfs true d.blank r
    · exact cautious_of_ne_ok fun _ _ => wrongType_ne_ok

end Record

theorem cautious_pairRecord {p : Reader α} {q : Reader β} (hp : ∀ bs, Cautious False p.run bs)
    (hq : ∀ bs, Cautious False q.run bs) (title f g : String) (bs : List UInt8) :
    Cautious False (pairRecord title (f, p) (g, q)).reader.run bs := by
  apply Record.cautious_reader
  intro field hfield s bs
  simp only [pairRecord, List.mem_cons, List.not_mem_nil, or_false] at hfield
  rcases hfield with rfl | rfl
  · exact (hp bs).map _
  · exact (hq bs).map _

end Json
end GridPuzzles
