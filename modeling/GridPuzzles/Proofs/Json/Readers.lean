import GridPuzzles.Json.Record
import GridPuzzles.Proofs.Json.Number

/-! Readers and what they read. A reader reads the spellings that `P` gives if each of its successes
has taken a spelling, and each spelling that ends where a number would end is taken whole. -/
namespace GridPuzzles
namespace Json

variable {α β : Type} {bs rest r w v z : List UInt8} {es : List (List UInt8)} {first : Bool}

/-- The reader takes what `P` spells, after any blanks. -/
structure Reader.Reads (p : Reader α) (P : α → List UInt8 → Prop) : Prop where
  begins : ∀ {a v}, P a v → Begins v
  sound : ∀ {bs a rest}, p.run bs = .ok a rest →
    ∃ w v, Blank w ∧ P a v ∧ bs = w ++ (v ++ rest)
  complete : ∀ {a v w rest}, P a v → Blank w → Ends rest → Utf8.Ending (v ++ rest) →
    p.run (w ++ (v ++ rest)) = .ok a rest

theorem wrongType_ne_ok {wanted : Wanted} {a : α} : wrongType wanted bs ≠ .ok a rest := by
  intro h
  exact absurd (wrongType_below wanted bs 0 a rest h) (Nat.not_lt_zero _)

theorem bounded_eq_ok {largest n : Nat} {wanted : Wanted} {m : Number} :
    bounded largest wanted m r = .ok n rest ↔ m = .natural n ∧ n ≤ largest ∧ r = rest := by
  cases m with
  | natural v =>
    rw [bounded]
    split
    · rename_i hv
      rw [Outcome.ok.injEq, Number.natural.injEq]
      constructor
      · rintro ⟨rfl, rfl⟩
        exact ⟨rfl, hv, rfl⟩
      · rintro ⟨rfl, -, rfl⟩
        exact ⟨rfl, rfl⟩
    · rename_i hv
      simp only [reduceCtorEq, Number.natural.injEq, false_iff]
      rintro ⟨rfl, hle, -⟩
      exact hv hle
  | negative v => simp [bounded]
  | floating x => simp [bounded]

namespace Reader

variable {p : Reader α} {P Q : α → List UInt8 → Prop}

theorem Reads.congr (h : p.Reads P) (hPQ : ∀ a v, P a v ↔ Q a v) : p.Reads Q := by
  obtain rfl : P = Q := funext fun a => funext fun v => propext (hPQ a v)
  exact h

theorem Reads.map (h : p.Reads P) (f : α → β) :
    (p.map f).Reads fun b v => ∃ a, P a v ∧ f a = b where
  begins := by
    rintro b v ⟨a, ha, -⟩
    exact h.begins ha
  sound := by
    intro bs b rest hrun
    obtain ⟨a, ha, hb⟩ := Outcome.map_eq_ok.mp hrun
    obtain ⟨w, v, hw, hv, hbs⟩ := h.sound ha
    exact ⟨w, v, hw, ⟨a, hv, hb⟩, hbs⟩
  complete := by
    rintro b v w rest ⟨a, ha, hb⟩ hw hr hend
    exact Outcome.map_eq_ok.mpr ⟨a, h.complete ha hw hr hend, hb⟩

theorem Reads.refine (h : p.Reads P) (f : α → Except Reason β) :
    (p.refine f).Reads fun b v => ∃ a, P a v ∧ f a = .ok b where
  begins := by
    rintro b v ⟨a, ha, -⟩
    exact h.begins ha
  sound := by
    intro bs b rest hrun
    obtain ⟨a, s, ha, hb⟩ := Outcome.bind_eq_ok.mp hrun
    split at hb
    · rename_i hf
      cases hb
      obtain ⟨w, v, hw, hv, hbs⟩ := h.sound ha
      exact ⟨w, v, hw, ⟨a, hv, hf⟩, hbs⟩
    · cases hb
  complete := by
    rintro b v w rest ⟨a, ha, hb⟩ hw hr hend
    refine Outcome.bind_eq_ok.mpr ⟨a, rest, h.complete ha hw hr hend, ?_⟩
    rw [hb]

theorem natural_complete {largest n : Nat} (hsize : largest < UInt64.size) (wanted : Wanted)
    (hn : n ≤ largest) (hw : Blank w) (hr : Ends rest) :
    (natural largest wanted).run (w ++ (decimal n ++ rest)) = .ok n rest := by
  have hlt := Nat.lt_of_le_of_lt hn hsize
  have hnumber := number_complete hlt hr
  obtain ⟨d, ds, hdecimal, hd⟩ := exists_decimal_digit hlt
  rw [hdecimal, List.cons_append] at hnumber ⊢
  rw [natural]
  simp only [skipBlanks_blank_cons hw (isBlank_of_isDigit hd), hd, Bool.or_true, if_true, hnumber]
  exact bounded_eq_ok.mpr ⟨rfl, hn, rfl⟩

theorem natural_reads {largest : Nat} (hsize : largest < UInt64.size) (wanted : Wanted) :
    (natural largest wanted).Reads fun n v => v = decimal n ∧ n ≤ largest where
  begins := by
    rintro n v ⟨rfl, hn⟩
    obtain ⟨d, ds, hdecimal, hd⟩ := exists_decimal_digit (Nat.lt_of_le_of_lt hn hsize)
    rw [hdecimal]
    exact begins_digit hd ds
  sound := by
    intro bs n rest hrun
    rw [natural] at hrun
    simp only at hrun
    split at hrun
    · cases hrun
    · rename_i b r hbs
      obtain ⟨w, hw, rfl⟩ := exists_blank_of_cons hbs
      split at hrun
      · obtain ⟨m, s, hnumber, hbounded⟩ := Outcome.bind_eq_ok.mp hrun
        obtain ⟨rfl, hn, rfl⟩ := bounded_eq_ok.mp hbounded
        exact ⟨w, decimal n, hw, ⟨rfl, hn⟩, by rw [number_sound hnumber]⟩
      · exact absurd hrun wrongType_ne_ok
  complete := by
    rintro n v w rest ⟨rfl, hn⟩ hw hr -
    exact natural_complete hsize wanted hn hw hr

theorem natural_map_reads {largest : Nat} (hsize : largest < UInt64.size) (wanted : Wanted)
    {f : Nat → β} {g : β → Nat} (hbound : ∀ b, g b ≤ largest) (hfg : ∀ b, f (g b) = b)
    (hgf : ∀ n ≤ largest, g (f n) = n) :
    ((natural largest wanted).map f).Reads fun b v => v = decimal (g b) := by
  refine ((natural_reads hsize wanted).map f).congr ?_
  intro b v
  constructor
  · rintro ⟨n, ⟨rfl, hn⟩, rfl⟩
    rw [hgf n hn]
  · rintro rfl
    exact ⟨g b, ⟨rfl, hbound b⟩, hfg b⟩

theorem cell_reads : cell.Reads fun c v => v = decimal c.toNat := by
  refine natural_map_reads (by decide) .byte (fun c => Nat.le_of_lt_succ c.toNat_lt)
    (fun c => UInt8.ofNat_toNat) ?_
  intro n hn
  rw [UInt8.toNat_ofNat', Nat.mod_eq_of_lt (Nat.lt_succ_of_le hn)]

theorem cellSize_reads : cellSize.Reads fun c v => v = decimal c.toNat := by
  refine natural_map_reads (by decide) .word (fun c => Nat.le_of_lt_succ c.toNat_lt)
    (fun c => UInt32.ofNat_toNat) ?_
  intro n hn
  exact UInt32.toNat_ofNat_of_lt (Nat.lt_succ_of_le hn)

theorem boolean_reads : boolean.Reads fun b v => v = ascii (if b then "true" else "false") where
  begins := by
    rintro b v rfl
    apply Value.begins
    cases b with
    | true => exact .word (.inr (.inl rfl))
    | false => exact .word (.inr (.inr rfl))
  sound := by
    intro bs b rest hrun
    rw [boolean] at hrun
    simp only at hrun
    split at hrun
    · cases hrun
    · rename_i c r hbs
      obtain ⟨w, hw, rfl⟩ := exists_blank_of_cons hbs
      split at hrun
      · rename_i hc
        obtain ⟨_, hword, rfl⟩ := Outcome.map_eq_ok.mp hrun
        exact ⟨w, _, hw, rfl, by rw [hc, word_eq_ok.mp hword]; rfl⟩
      · split at hrun
        · rename_i hc
          obtain ⟨_, hword, rfl⟩ := Outcome.map_eq_ok.mp hrun
          exact ⟨w, _, hw, rfl, by rw [hc, word_eq_ok.mp hword]; rfl⟩
        · exact absurd hrun wrongType_ne_ok
  complete := by
    rintro b v w rest rfl hw - -
    rw [boolean]
    cases b with
    | true =>
      have hskip : skipBlanks (w ++ (ascii "true" ++ rest)) = byte 't' :: (ascii "rue" ++ rest) :=
        skipBlanks_blank_cons hw rfl _
      have hword : word (ascii "rue") (ascii "rue" ++ rest) = .ok () rest := word_eq_ok.mpr rfl
      simp only [if_true, hskip, hword, Outcome.map]
    | false =>
      have hskip : skipBlanks (w ++ (ascii "false" ++ rest)) =
          byte 'f' :: (ascii "alse" ++ rest) := skipBlanks_blank_cons hw rfl _
      have hword : word (ascii "alse") (ascii "alse" ++ rest) = .ok () rest := word_eq_ok.mpr rfl
      have hne : byte 'f' ≠ byte 't' := by decide
      simp only [Bool.false_eq_true, if_false, hskip, if_neg hne, if_true, hword, Outcome.map]

theorem text_reads (wanted : Wanted) :
    (text wanted).Reads fun bytes v => ∃ raw, Names raw bytes ∧ v = quoted raw where
  begins := by
    rintro bytes v ⟨raw, -, rfl⟩
    exact begins_quoted raw
  sound := by
    intro bs bytes rest hrun
    rw [text] at hrun
    simp only at hrun
    split at hrun
    · cases hrun
    · rename_i b r hbs
      obtain ⟨w, hw, rfl⟩ := exists_blank_of_cons hbs
      split at hrun
      · rename_i hb
        obtain ⟨raw, name, hnames, rfl, rfl⟩ := textFrom_sound hrun
        exact ⟨w, quoted raw, hw, ⟨raw, hnames, rfl⟩, by simp [quoted, hb]⟩
      · exact absurd hrun wrongType_ne_ok
  complete := by
    rintro bytes v w rest ⟨raw, hnames, rfl⟩ hw - hend
    have hbs : quoted raw ++ rest = byte '"' :: (raw ++ byte '"' :: rest) := by simp [quoted]
    rw [hbs] at hend ⊢
    have hblank : isBlank (byte '"') = false := rfl
    rw [text]
    simp only [skipBlanks_blank_cons hw hblank, if_true]
    exact textFrom_of_names hnames hend

theorem Reads.optional (h : p.Reads P) (hnull : ∀ {a v}, P a v → v.head? ≠ some (byte 'n')) :
    p.optional.Reads (OrNull P) where
  begins := by
    rintro (_ | a) v hv
    · rw [hv]
      exact Value.begins (.word (.inl rfl))
    · exact h.begins hv
  sound := by
    intro bs o rest hrun
    rw [Reader.optional] at hrun
    simp only at hrun
    split at hrun
    · obtain ⟨a, ha, -⟩ := Outcome.map_eq_ok.mp hrun
      exact absurd (p.takes [] a rest ha) (Nat.not_lt_zero _)
    · rename_i b r hbs
      obtain ⟨w, hw, rfl⟩ := exists_blank_of_cons hbs
      split at hrun
      · rename_i hb
        obtain ⟨_, hword, rfl⟩ := Outcome.map_eq_ok.mp hrun
        exact ⟨w, ascii "null", hw, rfl, by rw [hb, word_eq_ok.mp hword]; rfl⟩
      · obtain ⟨a, ha, rfl⟩ := Outcome.map_eq_ok.mp hrun
        obtain ⟨w', v, hw', hv, hr⟩ := h.sound ha
        exact ⟨w ++ w', v, blank_append hw hw', hv, by rw [hr, List.append_assoc]⟩
  complete := by
    rintro (_ | a) v w rest hv hw hr hend
    · obtain rfl : v = ascii "null" := hv
      have hskip : skipBlanks (w ++ (ascii "null" ++ rest)) = byte 'n' :: (ascii "ull" ++ rest) :=
        skipBlanks_blank_cons hw rfl _
      have hword : word (ascii "ull") (ascii "ull" ++ rest) = .ok () rest := word_eq_ok.mpr rfl
      rw [Reader.optional]
      simp only [hskip, if_true, hword, Outcome.map]
    · have hrun := h.complete hv blank_nil hr hend
      have hhead := hnull hv
      obtain ⟨b, s, rfl, hb, -⟩ := h.begins hv
      rw [List.nil_append, List.cons_append] at hrun
      have hne : b ≠ byte 'n' := fun hb => hhead (congrArg some hb)
      rw [Reader.optional, List.cons_append]
      simp only [skipBlanks_blank_cons hw hb, if_neg hne, hrun, Outcome.map]

end Reader

theorem Separator.append (h : Separator first w) (hr : Blank r) : Separator first (w ++ r) := by
  cases first with
  | true => exact blank_append h hr
  | false =>
    obtain ⟨w₁, w₂, hw₁, hw₂, rfl⟩ := h
    exact ⟨w₁, w₂ ++ r, hw₁, blank_append hw₂ hr, by simp⟩

theorem nextElement_false (h : nextElement first bs = .ok false rest) :
    ∃ w r, Blank w ∧ rest = byte ']' :: r ∧ bs = w ++ byte ']' :: r := by
  rw [nextElement] at h
  split at h
  · cases h
  · rename_i b r hbs
    obtain ⟨w, hw, rfl⟩ := exists_blank_of_cons hbs
    split at h
    · rename_i hb
      cases h
      exact ⟨w, r, hw, by rw [hb], by rw [hb]⟩
    · split at h
      · cases h
      · split at h
        · split at h
          · cases h
          · split at h
            · cases h
            · cases h
        · cases h

theorem nextElement_true (h : nextElement first bs = .ok true rest) :
    ∃ w, Separator first w ∧ bs = w ++ rest := by
  rw [nextElement] at h
  split at h
  · cases h
  · rename_i b r hbs
    obtain ⟨w, hw, rfl⟩ := exists_blank_of_cons hbs
    split at h
    · cases h
    · split at h
      · rename_i hfirst
        cases h
        subst hfirst
        exact ⟨w, hw, rfl⟩
      · rename_i hfirst
        split at h
        · rename_i hb
          split at h
          · cases h
          · rename_i c s hr
            obtain ⟨w', hw', rfl⟩ := exists_blank_of_cons hr
            split at h
            · cases h
            · cases h
              rw [Bool.not_eq_true] at hfirst
              subst hfirst
              exact ⟨w ++ b :: w', ⟨w, w', hw, hw', by rw [hb]⟩, by simp⟩
        · cases h

theorem nextElement_close (hw : Blank w) (first : Bool) (r : List UInt8) :
    nextElement first (w ++ byte ']' :: r) = .ok false (byte ']' :: r) := by
  rw [nextElement, skipBlanks_blank_cons hw rfl]
  simp only [if_true]

theorem nextElement_begins (hw : Separator first w) (hv : Begins v) (r : List UInt8) :
    nextElement first (w ++ (v ++ r)) = .ok true (v ++ r) := by
  obtain ⟨b, s, rfl, hb, hclose⟩ := hv
  have hne : b ≠ byte ']' := hclose .list
  rw [List.cons_append]
  cases first with
  | true =>
    rw [nextElement, skipBlanks_blank_cons hw hb]
    simp only [if_neg hne, if_true]
  | false =>
    obtain ⟨w₁, w₂, hw₁, hw₂, rfl⟩ := hw
    have hcomma : byte ',' ≠ byte ']' := by decide
    rw [nextElement, List.append_assoc, List.cons_append, skipBlanks_blank_cons hw₁ rfl]
    simp only [if_neg hcomma, Bool.false_eq_true, if_false, if_true, skipBlanks_blank_cons hw₂ hb,
      if_neg hne]

theorem leaveList_eq_ok {o : Outcome α} {a : α} :
    leaveList o = .ok a rest ↔ ∃ s, o = .ok a s ∧ skipBlanks s = byte ']' :: rest := by
  cases o with
  | ok b s =>
    rw [leaveList]
    constructor
    · intro h
      split at h
      · cases h
      · rename_i c r hs
        split at h
        · rename_i hc
          cases h
          exact ⟨s, rfl, by rw [hs, hc]⟩
        · split at h
          · split at h
            · cases h
            · cases h
          · cases h
    · rintro ⟨_, ⟨⟩, hs⟩
      rw [hs]
      simp only [if_true]
  | unplaced e s =>
    simp only [leaveList, reduceCtorEq, false_and, exists_false, iff_false]
    split <;> simp
  | failed e s => simp [leaveList]

theorem leaveObject_eq_ok {o : Outcome α} {a : α} :
    leaveObject o = .ok a rest ↔ ∃ s, o = .ok a s ∧ skipBlanks s = byte '\x7d' :: rest := by
  cases o with
  | ok b s =>
    rw [leaveObject]
    constructor
    · intro h
      split at h
      · cases h
      · rename_i c r hs
        split at h
        · rename_i hc
          cases h
          exact ⟨s, rfl, by rw [hs, hc]⟩
        · cases h
    · rintro ⟨_, ⟨⟩, hs⟩
      rw [hs]
      simp only [if_true]
  | unplaced e s => simp [leaveObject]
  | failed e s => simp [leaveObject]

namespace Reader

variable {p : Reader α} {P : α → List UInt8 → Prop} {acc as : List α}

theorem elements_sound (hp : p.Reads P) (h : elements p first acc bs = .ok as rest) :
    ∃ bs' es z r, as = acc.reverse ++ bs' ∧ List.Forall₂ P bs' es ∧ Inside (byte ']') first es z ∧
      rest = byte ']' :: r ∧ bs = z ++ r := by
  fun_induction elements p first acc bs with
  | case1 first acc bs s hn =>
    cases h
    obtain ⟨w, r, hw, rfl, rfl⟩ := nextElement_false hn
    exact ⟨[], [], w ++ [byte ']'], r, by simp, .nil, .close hw, rfl, by simp⟩
  | case2 first acc bs s hn a t hrun ih =>
    obtain ⟨w, hw, rfl⟩ := nextElement_true hn
    obtain ⟨w', v, hw', hv, rfl⟩ := hp.sound hrun
    obtain ⟨bs', es, z, r, rfl, hes, hz, rfl, rfl⟩ := ih h
    refine ⟨a :: bs', v :: es, w ++ w' ++ (v ++ z), r, by simp, .cons hv hes,
      .cons (hw.append hw') hz, rfl, by simp⟩
  | case3 => cases h
  | case4 => cases h
  | case5 => cases h
  | case6 => cases h

theorem elements_eq (p : Reader α) (first : Bool) (acc : List α) (bs : List UInt8) :
    elements p first acc bs =
      (nextElement first bs).bind fun more rest =>
        if more then (p.run rest).bind fun a s => elements p false (a :: acc) s
        else .ok acc.reverse rest := by
  rw [elements]
  split
  · rename_i hn
    rw [hn]
    rfl
  · rename_i hn
    rw [hn]
    simp only [Outcome.bind, if_true]
    split
    all_goals
      rename_i hrun
      rw [hrun]
  all_goals
    rename_i hn
    rw [hn]
    rfl

theorem elements_complete (hp : p.Reads P) (hes : List.Forall₂ P as es)
    (hz : Inside (byte ']') first es z) (acc : List α) (hend : Utf8.Ending (z ++ r)) :
    elements p first acc (z ++ r) = .ok (acc.reverse ++ as) (byte ']' :: r) := by
  induction hes generalizing first z acc with
  | nil =>
    cases hz with
    | close hw =>
      rw [List.append_assoc, List.singleton_append, elements_eq, nextElement_close hw,
        List.append_nil]
      rfl
  | @cons a v as es hv _ ih =>
    cases hz with
    | @cons _ w _ z' _ hw hz' =>
      simp only [List.append_assoc] at hend ⊢
      have hendv := hend.of_append
      have hrun := hp.complete hv blank_nil (@Inside.ends _ .list _ hz' r) hendv
      rw [List.nil_append] at hrun
      rw [elements_eq, nextElement_begins hw (hp.begins hv)]
      simp only [Outcome.bind, if_true, hrun, ih hz' _ hendv.of_append]
      simp

theorem Reads.sequence (hp : p.Reads P) : (sequence p).Reads (ListOf P) where
  begins := by
    rintro as v ⟨es, -, z, -, rfl⟩
    exact begins_opening .list z
  sound := by
    intro bs as rest hrun
    rw [Reader.sequence] at hrun
    simp only at hrun
    split at hrun
    · cases hrun
    · rename_i b r hbs
      obtain ⟨w, hw, rfl⟩ := exists_blank_of_cons hbs
      split at hrun
      · rename_i hb
        obtain ⟨s, hs, hclose⟩ := leaveList_eq_ok.mp hrun
        obtain ⟨as', es, z, r, rfl, hes, hz, rfl, rfl⟩ := elements_sound hp hs
        rw [skipBlanks_cons rfl, List.cons.injEq] at hclose
        obtain ⟨-, rfl⟩ := hclose
        exact ⟨w, byte '[' :: z, hw, ⟨es, hes, z, hz, rfl⟩, by rw [hb]; rfl⟩
      · exact absurd hrun wrongType_ne_ok
  complete := by
    rintro as v w rest ⟨es, hes, z, hz, rfl⟩ hw - hend
    have hend' : Utf8.Ending (z ++ rest) := @Utf8.Ending.of_append [_] _ hend
    have hrun := elements_complete hp hes hz [] hend'
    rw [Reader.sequence, List.cons_append]
    simp only [skipBlanks_blank_cons hw (show isBlank Bracket.list.opening = false from rfl)]
    exact leaveList_eq_ok.mpr ⟨_, hrun, skipBlanks_cons rfl rest⟩

/-- A text is read whole exactly if it is a spelling with blanks around it. -/
theorem Reads.parse_eq_ok {a : α} (hp : p.Reads P) (htext : Utf8.isText bs) :
    p.parse bs = .ok a ↔
      ∃ before v after, Blank before ∧ Blank after ∧ P a v ∧ bs = before ++ (v ++ after) := by
  simp only [parse]
  constructor
  · intro h
    split at h
    · rename_i a' rest hrun
      split at h
      · rename_i hrest
        cases h
        obtain ⟨before, v, hbefore, hv, hbs⟩ := hp.sound hrun
        obtain ⟨after, hafter, hrest'⟩ := exists_blank rest
        rw [hrest, List.append_nil] at hrest'
        exact ⟨before, v, after, hbefore, hafter, hv, by rw [hbs, hrest']⟩
      · cases h
    · cases h
    · cases h
  · rintro ⟨before, v, after, hbefore, hafter, hv, rfl⟩
    have hends : Ends after := List.append_nil after ▸ ends_blank hafter ends_nil
    have hblank : skipBlanks after = [] := by
      have hnil := skipBlanks_append hafter []
      rwa [List.append_nil] at hnil
    have hrun := hp.complete hv hbefore hends ⟨before, htext⟩
    simp only [hrun, hblank]

theorem parse_of_run {a : α} (h : p.run bs = .ok a []) : p.parse bs = .ok a := by
  simp only [parse, h]
  rfl

end Reader
end Json
end GridPuzzles
