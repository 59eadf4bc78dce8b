import GridPuzzles.Text.Utf8
import Mathlib.Tactic.Common

/-! Texts as sequences of UTF-8. A byte of ASCII stands for itself wherever it occurs in a text, so
what stands before it and what comes after it are texts as well. -/
namespace GridPuzzles
namespace Utf8

variable {a b : UInt8} {bs w r : List UInt8}

inductive Sequence : List UInt8 → Prop where
  | one {a : UInt8} : a < 0x80 → Sequence [a]
  | two {a b : UInt8} : 0xc2 ≤ a → a ≤ 0xdf → isTail b → Sequence [a, b]
  | three {a b c : UInt8} : 0xe0 ≤ a → a ≤ 0xef → isSecondOfThree a b → isTail c →
      Sequence [a, b, c]
  | four {a b c d : UInt8} : 0xf0 ≤ a → a ≤ 0xf4 → isSecondOfFour a b → isTail c → isTail d →
      Sequence [a, b, c, d]

theorem sequence_of_scan {ch : Char} (h : scan bs = some (ch, r)) :
    ∃ w, Sequence w ∧ bs = w ++ r := by
  revert h
  fun_cases scan bs with
  | case2 a r ha =>
    intro h
    cases h
    exact ⟨[a], .one ha, rfl⟩
  | case3 a ha h₁ b r hb =>
    intro h
    cases h
    rw [Bool.and_eq_true, decide_eq_true_eq, decide_eq_true_eq] at h₁
    exact ⟨[a, b], .two h₁.1 h₁.2 hb, rfl⟩
  | case6 a ha h₁ h₂ b c r hbc =>
    intro h
    cases h
    rw [Bool.and_eq_true, decide_eq_true_eq, decide_eq_true_eq] at h₂
    rw [Bool.and_eq_true] at hbc
    exact ⟨[a, b, c], .three h₂.1 h₂.2 hbc.1 hbc.2, rfl⟩
  | case9 a ha h₁ h₂ h₃ b c d r hbcd =>
    intro h
    cases h
    rw [Bool.and_eq_true, decide_eq_true_eq, decide_eq_true_eq] at h₃
    rw [Bool.and_eq_true, Bool.and_eq_true] at hbcd
    exact ⟨[a, b, c, d], .four h₃.1 h₃.2 hbcd.1.1 hbcd.1.2 hbcd.2, rfl⟩
  | _ =>
    intro h
    cases h

theorem scan_append (h : Sequence w) (r : List UInt8) : (scan (w ++ r)).map Prod.snd = some r := by
  cases h with
  | one ha => simp only [List.singleton_append, scan, if_pos ha, Option.map_some]
  | @two a b h₁ h₂ hb =>
    have ha : ¬ a < 0x80 := by grind
    simp only [List.cons_append, List.nil_append, scan, if_neg ha, h₁, h₂, hb, decide_true,
      Bool.and_self, if_true, Option.map_some]
  | @three a b c h₁ h₂ hb hc =>
    have ha : ¬ a < 0x80 := by grind
    have ha' : ¬ a ≤ 0xdf := by grind
    simp only [List.cons_append, List.nil_append, scan, if_neg ha, ha', h₁, h₂, hb, hc, decide_true,
      decide_false, Bool.and_self, Bool.and_false, Bool.false_eq_true, if_true, if_false,
      Option.map_some]
  | @four a b c d h₁ h₂ hb hc hd =>
    have ha : ¬ a < 0x80 := by grind
    have ha' : ¬ a ≤ 0xdf := by grind
    have ha'' : ¬ a ≤ 0xef := by grind
    simp only [List.cons_append, List.nil_append, scan, if_neg ha, ha', ha'', h₁, h₂, hb, hc, hd,
      decide_true, decide_false, Bool.and_self, Bool.and_false, Bool.false_eq_true, if_true,
      if_false, Option.map_some]

theorem Sequence.exists_tail (h : Sequence w) : ∃ a t, w = a :: t ∧ ∀ b ∈ t, 0x80 ≤ b := by
  have htail {b : UInt8} (hb : isTail b) : 0x80 ≤ b := by
    rw [isTail, Bool.and_eq_true, decide_eq_true_eq] at hb
    exact hb.1
  have hthree {a b : UInt8} (hb : isSecondOfThree a b) : 0x80 ≤ b := by
    unfold isSecondOfThree isTail at hb
    grind
  have hfour {a b : UInt8} (hb : isSecondOfFour a b) : 0x80 ≤ b := by
    unfold isSecondOfFour isTail at hb
    grind
  cases h with
  | one ha => exact ⟨_, _, rfl, by simp⟩
  | two _ _ hb => exact ⟨_, _, rfl, by simp [htail hb]⟩
  | three _ _ hb hc => exact ⟨_, _, rfl, by simp [hthree hb, htail hc]⟩
  | four _ _ hb hc hd => exact ⟨_, _, rfl, by simp [hfour hb, htail hc, htail hd]⟩

theorem Sequence.ascii_or (h : Sequence w) : (∃ a, w = [a] ∧ a < 0x80) ∨ ∀ b ∈ w, 0x80 ≤ b := by
  have hlow {a : UInt8} (ha : 0xc2 ≤ a) : 0x80 ≤ a := UInt8.le_trans (by decide) ha
  obtain ⟨_, t, hw, ht⟩ := h.exists_tail
  cases h with
  | one ha => exact .inl ⟨_, rfl, ha⟩
  | two ha _ _ =>
    cases hw
    exact .inr (List.forall_mem_cons.mpr ⟨hlow ha, ht⟩)
  | three ha _ _ _ =>
    cases hw
    exact .inr (List.forall_mem_cons.mpr ⟨hlow (UInt8.le_trans (by decide) ha), ht⟩)
  | four ha _ _ _ _ =>
    cases hw
    exact .inr (List.forall_mem_cons.mpr ⟨hlow (UInt8.le_trans (by decide) ha), ht⟩)

theorem isText_nil : isText [] := by
  rw [isText, malformed]
  rfl

theorem isText_append_sequence (h : Sequence w) : isText (w ++ r) = isText r := by
  have hscan := scan_append h r
  have hmalformed : malformed (w ++ r) = malformed r := by
    conv_lhs => rw [malformed]
    split
    · rename_i hnone
      rw [hnone] at hscan
      cases hscan
    · rename_i ch r' hsome
      rw [hsome] at hscan
      cases hscan
      rfl
  rw [isText, hmalformed, isText]

theorem exists_sequence (h : isText bs) (hbs : bs ≠ []) :
    ∃ w r, Sequence w ∧ bs = w ++ r ∧ isText r := by
  rw [isText, malformed] at h
  split at h
  · exact absurd (List.isEmpty_iff.mp h) hbs
  · rename_i ch r hscan
    obtain ⟨w, hw, rfl⟩ := sequence_of_scan hscan
    exact ⟨w, r, hw, rfl, h⟩

theorem Sequence.length_pos (h : Sequence w) : 0 < w.length := by
  obtain ⟨a, t, rfl, -⟩ := h.exists_tail
  simp

theorem isText_append (h : isText bs) (hr : isText r) : isText (bs ++ r) := by
  induction hn : bs.length using Nat.strongRecOn generalizing bs with
  | ind n ih =>
    by_cases hbs : bs = []
    · rwa [hbs, List.nil_append]
    · obtain ⟨w, r', hw, rfl, hr'⟩ := exists_sequence h hbs
      have hpos := hw.length_pos
      rw [List.length_append] at hn
      rw [List.append_assoc, isText_append_sequence hw]
      exact ih r'.length (by omega) hr' rfl

theorem isText_of_ascii (h : ∀ b ∈ bs, b < 0x80) : isText bs := by
  induction bs with
  | nil => exact isText_nil
  | cons a bs ih =>
    obtain ⟨ha, hbs⟩ := List.forall_mem_cons.mp h
    rw [← List.singleton_append, isText_append_sequence (.one ha)]
    exact ih hbs

/-- A text stays one if each byte of ASCII is replaced by a text. -/
theorem isText_flatMap {f : UInt8 → List UInt8} (hascii : ∀ b < 0x80, isText (f b))
    (hother : ∀ b, 0x80 ≤ b → f b = [b]) (h : isText bs) : isText (bs.flatMap f) := by
  induction hn : bs.length using Nat.strongRecOn generalizing bs with
  | ind n ih =>
    by_cases hbs : bs = []
    · rw [hbs]
      exact isText_nil
    · obtain ⟨w, r, hw, rfl, hr⟩ := exists_sequence h hbs
      have hpos := hw.length_pos
      rw [List.length_append] at hn
      have hrest : isText (r.flatMap f) := ih r.length (by omega) hr rfl
      rw [List.flatMap_append]
      rcases hw.ascii_or with ⟨a, rfl, ha⟩ | hhigh
      · rw [List.flatMap_singleton]
        exact isText_append (hascii a ha) hrest
      · have hsame : w.flatMap f = w := by
          rw [List.flatMap_def, List.map_congr_left fun b hb => hother b (hhigh b hb),
            ← List.flatMap_def, List.flatMap_singleton']
        rwa [hsame, isText_append_sequence hw]

/-- A byte of ASCII ends the text before it and begins no sequence but its own. -/
theorem isText_split (hb : b < 0x80) (h : isText (bs ++ b :: r)) : isText bs ∧ isText r := by
  induction hn : bs.length using Nat.strongRecOn generalizing bs with
  | ind n ih =>
    cases bs with
    | nil =>
      rw [List.nil_append, ← List.singleton_append, isText_append_sequence (.one hb)] at h
      exact ⟨isText_nil, h⟩
    | cons x xs =>
      obtain ⟨w, r', hw, hwr, hr'⟩ := exists_sequence h (by simp)
      obtain ⟨a, t, rfl, ht⟩ := hw.exists_tail
      rw [List.cons_append, List.cons_append, List.cons.injEq] at hwr
      obtain ⟨rfl, hrest⟩ := hwr
      -- the sequence ends before the byte, since it goes on with other bytes only
      obtain ⟨c, rfl, rfl⟩ : ∃ c, xs = t ++ c ∧ r' = c ++ b :: r := by
        rcases List.append_eq_append_iff.mp hrest with ⟨c, rfl, hc⟩ | ⟨c, rfl, hr⟩
        · cases c with
          | nil => exact ⟨[], by simp, by simpa using hc.symm⟩
          | cons d c =>
            rw [List.cons_append, List.cons.injEq] at hc
            exact absurd hb (UInt8.not_lt.mpr (ht b (by simp [hc.1])))
        · exact ⟨c, rfl, hr⟩
      have hlen : c.length < n := by
        rw [← hn, List.length_cons, List.length_append]
        omega
      obtain ⟨hc, hr⟩ := ih c.length hlen hr' rfl
      rw [← List.cons_append, isText_append_sequence hw]
      exact ⟨hc, hr⟩

theorem le_ofNat {n : Nat} (h : a.toNat ≤ n) (hn : n < 0x100) : a ≤ UInt8.ofNat n := by
  rw [UInt8.le_iff_toNat_le, UInt8.toNat_ofNat', Nat.mod_eq_of_lt hn]
  exact h

theorem ofNat_le {n : Nat} (h : n ≤ a.toNat) : UInt8.ofNat n ≤ a := by
  rw [UInt8.le_iff_toNat_le, UInt8.toNat_ofNat']
  exact Nat.le_trans (Nat.mod_le _ _) h

theorem isTail_ofNat (n : Nat) : isTail (UInt8.ofNat (n % 64 + 128)) := by
  rw [isTail, Bool.and_eq_true, decide_eq_true_eq, decide_eq_true_eq]
  exact ⟨le_ofNat (Nat.le_add_left _ _) (by omega), ofNat_le (show _ ≤ 0xbf by omega)⟩

/-- No second byte belongs to an overlong form or to a surrogate. -/
theorem isSecondOfThree_ofNat {n : Nat} (h : 0x800 ≤ n) (hn : n < 0x10000)
    (hs : n < 0xd800 ∨ 0xdfff < n) :
    isSecondOfThree (UInt8.ofNat (n / 4096 % 16 + 224)) (UInt8.ofNat (n / 64 % 64 + 128)) := by
  simp only [isSecondOfThree, isTail, UInt8.le_iff_toNat_le, UInt8.toNat_ofNat',
    UInt8.reduceToNat, ← UInt8.toNat_inj]
  split
  · simp only [Bool.and_eq_true, decide_eq_true_eq]
    omega
  · split <;> simp only [Bool.and_eq_true, decide_eq_true_eq] <;> omega

theorem isSecondOfFour_ofNat {n : Nat} (h : 0x10000 ≤ n) (hn : n < 0x110000) :
    isSecondOfFour (UInt8.ofNat (n / 262144 % 8 + 240)) (UInt8.ofNat (n / 4096 % 64 + 128)) := by
  simp only [isSecondOfFour, isTail, UInt8.le_iff_toNat_le, UInt8.toNat_ofNat',
    UInt8.reduceToNat, ← UInt8.toNat_inj]
  split
  · simp only [Bool.and_eq_true, decide_eq_true_eq]
    omega
  · split <;> simp only [Bool.and_eq_true, decide_eq_true_eq] <;> omega

theorem sequence_utf8EncodeChar (ch : Char) : Sequence (String.utf8EncodeChar ch) := by
  have hvalid : ch.val.toNat < 0xd800 ∨ (0xdfff < ch.val.toNat ∧ ch.val.toNat < 0x110000) :=
    ch.valid
  rw [String.utf8EncodeChar]
  generalize ch.val.toNat = n at hvalid
  by_cases h₁ : n ≤ 0x7f
  · rw [if_pos h₁]
    apply Sequence.one
    rw [UInt8.lt_iff_toNat_lt, UInt8.toNat_ofNat', Nat.mod_eq_of_lt (by omega)]
    exact Nat.lt_succ_of_le h₁
  · rw [if_neg h₁]
    by_cases h₂ : n ≤ 0x7ff
    · rw [if_pos h₂]
      exact .two (le_ofNat (show 0xc2 ≤ _ by omega) (by omega)) (ofNat_le (show _ ≤ 0xdf by omega))
        (isTail_ofNat n)
    · rw [if_neg h₂]
      by_cases h₃ : n ≤ 0xffff
      · rw [if_pos h₃]
        exact .three (le_ofNat (Nat.le_add_left _ _) (by omega))
          (ofNat_le (show _ ≤ 0xef by omega))
          (isSecondOfThree_ofNat (by omega) (by omega) (by omega)) (isTail_ofNat n)
      · rw [if_neg h₃]
        exact .four (le_ofNat (Nat.le_add_left _ _) (by omega)) (ofNat_le (show _ ≤ 0xf4 by omega))
          (isSecondOfFour_ofNat (by omega) (by omega)) (isTail_ofNat (n / 64)) (isTail_ofNat n)

/-- The end of a text: with some bytes before it, it is one. -/
def Ending (bs : List UInt8) : Prop := ∃ before, isText (before ++ bs)

theorem Ending.of_append (h : Ending (w ++ r)) : Ending r := by
  obtain ⟨before, h⟩ := h
  exact ⟨before ++ w, by rwa [List.append_assoc]⟩

theorem Ending.isText_of_cons (hb : b < 0x80) (h : Ending (b :: r)) : isText r := by
  obtain ⟨before, h⟩ := h
  exact (isText_split hb h).2

end Utf8
end GridPuzzles
