import GridPuzzles.Proofs.Json.Records

/-! Records of two fields. While the members of an object are read, each field is filled by the one
member of its name; a second one of that name is refused, and all others are skipped. -/
namespace GridPuzzles
namespace Json

variable {α β : Type} {bs rest r w v z c raw name key : List UInt8} {es : List (List UInt8)}
  {ms : List (List UInt8 × List UInt8)} {m : List UInt8 × List UInt8} {first : Bool}

/-- A field before and after some members, at most one of which has its name. -/
inductive Slot (name : List UInt8) (P : α → List UInt8 → Prop) :
    (before : Option α) → List (List UInt8 × List UInt8) → (after : Option α) → Prop where
  | nil (x : Option α) : Slot name P x [] x
  | other {m : List UInt8 × List UInt8} {ms : List (List UInt8 × List UInt8)} {x y : Option α} :
      m.1 ≠ name → Slot name P x ms y → Slot name P x (m :: ms) y
  | here {m : List UInt8 × List UInt8} {ms : List (List UInt8 × List UInt8)} {a : α}
      {y : Option α} : m.1 = name → P a m.2 → Slot name P (some a) ms y →
      Slot name P none (m :: ms) y

section Slot

variable {P : α → List UInt8 → Prop} {a b : α}

theorem slot_some : Slot name P (some a) ms (some b) ↔ a = b ∧ ∀ m ∈ ms, m.1 ≠ name := by
  induction ms with
  | nil =>
    constructor
    · rintro ⟨⟩
      simp
    · rintro ⟨rfl, -⟩
      exact .nil _
  | cons m ms ih =>
    rw [List.forall_mem_cons]
    constructor
    · intro h
      cases h with
      | other hm hs =>
        obtain ⟨hab, hms⟩ := ih.mp hs
        exact ⟨hab, hm, hms⟩
    · rintro ⟨hab, hm, hms⟩
      exact .other hm (ih.mpr ⟨hab, hms⟩)

theorem slot_none : Slot name P none ms (some a) ↔ ∃ v, Only name v ms ∧ P a v := by
  induction ms with
  | nil =>
    constructor
    · rintro ⟨⟩
    · rintro ⟨v, h, -⟩
      cases h
  | cons m ms ih =>
    by_cases hm : m.1 = name
    · have honly (v : List UInt8) :
          Only name v (m :: ms) ↔ m.2 = v ∧ ∀ m' ∈ ms, m'.1 ≠ name := by
        rw [Only, List.filter_cons_of_pos (by simpa using hm), List.cons.injEq,
          List.filter_eq_nil_iff, Prod.ext_iff]
        simp [hm]
      simp only [honly]
      constructor
      · intro h
        cases h with
        | other hm' _ => exact absurd hm hm'
        | here _ ha hs =>
          obtain ⟨rfl, hms⟩ := slot_some.mp hs
          exact ⟨m.2, ⟨rfl, hms⟩, ha⟩
      · rintro ⟨v, ⟨rfl, hms⟩, ha⟩
        exact .here hm ha (slot_some.mpr ⟨rfl, hms⟩)
    · have honly (v : List UInt8) : Only name v (m :: ms) ↔ Only name v ms := by
        rw [Only, Only, List.filter_cons_of_neg (by simpa using hm)]
      simp only [honly]
      rw [← ih]
      constructor
      · intro h
        cases h with
        | other _ hs => exact hs
        | here hm' _ _ => exact absurd hm' hm
      · exact .other hm

end Slot

section Pair

variable {f g : String} {p : Reader α} {q : Reader β} {P : α → List UInt8 → Prop}
  {Q : β → List UInt8 → Prop} {a : α} {b : β} {x : Option α} {y : Option β}
  {s t : Option α × Option β} {title : String}

theorem pairRecord_finish : (pairRecord title (f, p) (g, q)).finish s = .ok (a, b) ↔
    s = (some a, some b) := by
  obtain ⟨x, y⟩ := s
  cases x with
  | none => simp [pairRecord]
  | some a' =>
    cases y with
    | none => simp [pairRecord]
    | some b' => simp [pairRecord]

theorem pairRecord_member_first : (pairRecord title (f, p) (g, q)).member s (ascii f) bs =
    if s.1.isSome then .unplaced (.repeatedField f) bs
    else (colon bs).bind fun _ r => (p.run r).map fun a => (some a, s.2) := by
  simp [Record.member, pairRecord, firstField, Reader.map]

theorem pairRecord_member_second (hne : ascii f ≠ ascii g) :
    (pairRecord title (f, p) (g, q)).member s (ascii g) bs =
      if s.2.isSome then .unplaced (.repeatedField g) bs
      else (colon bs).bind fun _ r => (q.run r).map fun b => (s.1, some b) := by
  simp [Record.member, pairRecord, firstField, secondField, Reader.map, hne]

theorem pairRecord_member_other (hf : key ≠ ascii f) (hg : key ≠ ascii g) :
    (pairRecord title (f, p) (g, q)).member s key bs =
      (colon bs).bind fun _ r => (skip.run r).map fun _ => s := by
  simp [Record.member, pairRecord, firstField, secondField, hf.symm, hg.symm]

/-- The fields before and after some members, the others of which have values of any kind. -/
def Fills (f g : String) (P : α → List UInt8 → Prop) (Q : β → List UInt8 → Prop)
    (s : Option α × Option β) (ms : List (List UInt8 × List UInt8)) (t : Option α × Option β) :
    Prop :=
  Slot (ascii f) P s.1 ms t.1 ∧ Slot (ascii g) Q s.2 ms t.2 ∧
    ∀ m ∈ ms, m.1 ≠ ascii f → m.1 ≠ ascii g → Value m.2

theorem fills_nil (s : Option α × Option β) : Fills f g P Q s [] s :=
  ⟨.nil _, .nil _, by simp⟩

theorem pairRecord_member_sound (hp : p.Reads P) (hq : q.Reads Q) (hne : ascii f ≠ ascii g)
    (h : (pairRecord title (f, p) (g, q)).member s key bs = .ok t rest) :
    ∃ c v, Mark (byte ':') c ∧ bs = c ++ (v ++ rest) ∧
      ∀ ms u, Fills f g P Q t ms u → Fills f g P Q s ((key, v) :: ms) u := by
  obtain ⟨x, y⟩ := s
  by_cases hf : key = ascii f
  · subst hf
    rw [pairRecord_member_first] at h
    split at h
    · cases h
    · rename_i hx
      obtain rfl : x = none := by simpa using hx
      obtain ⟨c, v, a, hc, hv, rfl, hbs⟩ := hp.member_sound h
      refine ⟨c, v, hc, hbs, ?_⟩
      rintro ms u ⟨hfirst, hsecond, hothers⟩
      refine ⟨.here rfl hv hfirst, .other hne hsecond, ?_⟩
      exact List.forall_mem_cons.mpr ⟨fun hne => absurd rfl hne, hothers⟩
  · by_cases hg : key = ascii g
    · subst hg
      rw [pairRecord_member_second hne] at h
      split at h
      · cases h
      · rename_i hy
        obtain rfl : y = none := by simpa using hy
        obtain ⟨c, v, b, hc, hv, rfl, hbs⟩ := hq.member_sound h
        refine ⟨c, v, hc, hbs, ?_⟩
        rintro ms u ⟨hfirst, hsecond, hothers⟩
        refine ⟨.other hf hfirst, .here rfl hv hsecond, ?_⟩
        exact List.forall_mem_cons.mpr ⟨fun _ hne => absurd rfl hne, hothers⟩
    · rw [pairRecord_member_other hf hg] at h
      obtain ⟨c, v, _, hc, hv, rfl, hbs⟩ := skip_reads.member_sound h
      refine ⟨c, v, hc, hbs, ?_⟩
      rintro ms u ⟨hfirst, hsecond, hothers⟩
      refine ⟨.other hf hfirst, .other hg hsecond, ?_⟩
      exact List.forall_mem_cons.mpr ⟨fun _ _ => hv, hothers⟩

theorem pairRecord_steps (hp : p.Reads P) (hq : q.Reads Q) (hne : ascii f ≠ ascii g)
    (h : Fills f g P Q s ms t) (title : String) :
    (pairRecord title (f, p) (g, q)).Steps s ms t := by
  induction ms generalizing s with
  | nil =>
    obtain ⟨x, y⟩ := s
    obtain ⟨x', y'⟩ := t
    obtain ⟨⟨⟩, ⟨⟩, -⟩ := h
    exact .nil _
  | cons m ms ih =>
    obtain ⟨key, v⟩ := m
    obtain ⟨x, y⟩ := s
    obtain ⟨hfirst, hsecond, hvalues⟩ := h
    obtain ⟨hother, hothers⟩ := List.forall_mem_cons.mp hvalues
    cases hfirst with
    | @here _ _ a _ hf hv hfirst =>
      subst hf
      cases hsecond with
      | here hg _ _ => exact absurd hg hne
      | other _ hsecond =>
        refine .cons ?_ (@ih (some a, y) ⟨hfirst, hsecond, hothers⟩)
        intro c r hc hr hend
        rw [pairRecord_member_first]
        exact hp.member_complete hc a hv hr hend fun a => (some a, y)
    | other hf hfirst =>
      cases hsecond with
      | @here _ _ b _ hg hv hsecond =>
        subst hg
        refine .cons ?_ (@ih (x, some b) ⟨hfirst, hsecond, hothers⟩)
        intro c r hc hr hend
        rw [pairRecord_member_second hne]
        exact hq.member_complete hc b hv hr hend fun b => (x, some b)
      | other hg hsecond =>
        refine .cons ?_ (@ih (x, y) ⟨hfirst, hsecond, hothers⟩)
        intro c r hc hr hend
        rw [pairRecord_member_other hf hg]
        exact skip_reads.member_complete hc () (hother hf hg) hr hend fun _ => (x, y)

theorem pairRecord_members_sound (hp : p.Reads P) (hq : q.Reads Q) (hne : ascii f ≠ ascii g)
    (h : (pairRecord title (f, p) (g, q)).members first s bs = .ok t rest) :
    ∃ ms es z r, Fills f g P Q s ms t ∧ List.Forall₂ Member ms es ∧
      Inside (byte '\x7d') first es z ∧ rest = byte '\x7d' :: r ∧ bs = z ++ r := by
  fun_induction (pairRecord title (f, p) (g, q)).members first s bs with
  | case1 first s bs r hk =>
    cases h
    obtain ⟨w, r, hw, rfl, rfl⟩ := nextKey_none hk
    exact ⟨[], [], w ++ [byte '\x7d'], r, fills_nil _, .nil, .close hw, rfl, by simp⟩
  | case2 first s bs key s' hk t' r hm ih =>
    obtain ⟨w, raw, hw, hnames, rfl⟩ := nextKey_some hk
    obtain ⟨c, v, hc, rfl, hfills⟩ := pairRecord_member_sound hp hq hne hm
    obtain ⟨ms, es, z, r, hms, hes, hz, rfl, rfl⟩ := ih h
    refine ⟨(key, v) :: ms, (quoted raw ++ (c ++ v)) :: es, w ++ (quoted raw ++ (c ++ v) ++ z), r,
      hfills ms t hms, .cons ⟨raw, c, hnames, hc, rfl⟩ hes, .cons hw hz, rfl, by simp⟩
  | case3 => cases h
  | case4 => cases h
  | case5 => cases h
  | case6 => cases h

/-- The two fields of a list, up to what follows the second. -/
theorem pairRecord_inOrder_sound (hp : p.Reads P) (hq : q.Reads Q)
    (h : (pairRecord title (f, p) (g, q)).inOrder 0 (none, none)
      (pairRecord title (f, p) (g, q)).fields bs = .ok s rest) :
    ∃ a b w₁ v₁ w₂ v₂, s = (some a, some b) ∧ Blank w₁ ∧ P a v₁ ∧ Mark (byte ',') w₂ ∧ Q b v₂ ∧
      bs = w₁ ++ (v₁ ++ (w₂ ++ (v₂ ++ rest))) := by
  obtain ⟨r₁, u₁, r₁', hmore₁, hread₁, h⟩ := Record.inOrder_cons_eq_ok.mp h
  obtain ⟨r₂, u₂, r₂', hmore₂, hread₂, h⟩ := Record.inOrder_cons_eq_ok.mp h
  cases h
  obtain ⟨a, ha, rfl⟩ := Outcome.map_eq_ok.mp hread₁
  obtain ⟨b, hb, rfl⟩ := Outcome.map_eq_ok.mp hread₂
  obtain ⟨w₁, hw₁, rfl⟩ := nextElement_true hmore₁
  obtain ⟨w₁', v₁, hw₁', hv₁, rfl⟩ := hp.sound ha
  obtain ⟨w₂, hw₂, rfl⟩ := nextElement_true hmore₂
  obtain ⟨w₂', v₂, hw₂', hv₂, rfl⟩ := hq.sound hb
  have hmark : Separator false (w₂ ++ w₂') := Separator.append hw₂ hw₂'
  exact ⟨a, b, w₁ ++ w₁', v₁, w₂ ++ w₂', v₂, rfl, blank_append hw₁ hw₁', hv₁, hmark, hv₂, by simp⟩

theorem pairRecord_inOrder_complete (hp : p.Reads P) (hq : q.Reads Q) (hw : Blank w)
    (hv : P a v) (hz : Mark (byte ',') z) {v' : List UInt8} (hv' : Q b v') (hr : Ends r)
    (hend : Utf8.Ending (v ++ (z ++ (v' ++ r)))) (title f g : String) :
    (pairRecord title (f, p) (g, q)).inOrder 0 (none, none)
      (pairRecord title (f, p) (g, q)).fields (w ++ (v ++ (z ++ (v' ++ r)))) =
        .ok (some a, some b) r := by
  have hends : Ends (z ++ (v' ++ r)) := by
    obtain ⟨w₁, w₂, hw₁, -, rfl⟩ := hz
    rw [List.append_assoc]
    exact ends_blank hw₁ (ends_cons rfl _)
  have hread := hp.complete hv blank_nil hends hend
  have hread' := hq.complete hv' blank_nil hr hend.of_append.of_append
  refine Record.inOrder_cons_eq_ok.mpr ⟨_, (some a, none), _,
    @nextElement_begins _ _ true hw (hp.begins hv) _, Outcome.map_eq_ok.mpr ⟨a, hread, rfl⟩, ?_⟩
  exact Record.inOrder_cons_eq_ok.mpr ⟨_, (some a, some b), r,
    @nextElement_begins _ _ false hz (hq.begins hv') _, Outcome.map_eq_ok.mpr ⟨b, hread', rfl⟩, rfl⟩

theorem pairRecord_list_sound (hp : p.Reads P) (hq : q.Reads Q)
    (h : leaveList ((pairRecord title (f, p) (g, q)).complete
      ((pairRecord title (f, p) (g, q)).inOrder 0 (none, none)
        (pairRecord title (f, p) (g, q)).fields bs)) = .ok (a, b) rest) :
    ∃ v w z, P a v ∧ Q b w ∧ Inside (byte ']') true [v, w] z ∧ bs = z ++ rest := by
  obtain ⟨s, hs, hclose⟩ := leaveList_eq_ok.mp h
  obtain ⟨t, ht, hfinish⟩ := Record.complete_eq_ok.mp hs
  obtain ⟨a', b', w₁, v₁, w₂, v₂, rfl, hw₁, hv₁, hw₂, hv₂, rfl⟩ := pairRecord_inOrder_sound hp hq ht
  cases pairRecord_finish.mp hfinish
  obtain ⟨w₃, hw₃, rfl⟩ := exists_blank_of_cons hclose
  exact ⟨v₁, v₂, _, hv₁, hv₂, .cons hw₁ (.cons hw₂ (.close hw₃)), by simp⟩

theorem pairRecord_list_complete (hp : p.Reads P) (hq : q.Reads Q) (hv : P a v) (hw : Q b w)
    (hz : Inside (byte ']') true [v, w] z) (hend : Utf8.Ending (z ++ rest))
    (title f g : String) :
    leaveList ((pairRecord title (f, p) (g, q)).complete
      ((pairRecord title (f, p) (g, q)).inOrder 0 (none, none)
        (pairRecord title (f, p) (g, q)).fields (z ++ rest))) = .ok (a, b) rest := by
  cases hz with
  | cons hw₁ hz =>
    cases hz with
    | cons hw₂ hz =>
      cases hz with
      | close hw₃ =>
        simp only [List.append_assoc, List.singleton_append] at hend ⊢
        have hends : Ends (_ ++ byte ']' :: rest) := ends_blank hw₃ (ends_cons rfl rest)
        have hfields := pairRecord_inOrder_complete hp hq hw₁ hv hw₂ hw hends hend.of_append
          title f g
        exact leaveList_eq_ok.mpr ⟨_, Record.complete_eq_ok.mpr ⟨_, hfields,
          pairRecord_finish.mpr rfl⟩, skipBlanks_blank_cons hw₃ rfl rest⟩

theorem pairRecord_object_sound (hp : p.Reads P) (hq : q.Reads Q) (hne : ascii f ≠ ascii g)
    (h : leaveObject ((pairRecord title (f, p) (g, q)).complete
      ((pairRecord title (f, p) (g, q)).members true (none, none) bs)) = .ok (a, b) rest) :
    ∃ ms es z, Fills f g P Q (none, none) ms (some a, some b) ∧ List.Forall₂ Member ms es ∧
      Inside (byte '\x7d') true es z ∧ bs = z ++ rest := by
  obtain ⟨s, hs, hclose⟩ := leaveObject_eq_ok.mp h
  obtain ⟨t, ht, hfinish⟩ := Record.complete_eq_ok.mp hs
  cases pairRecord_finish.mp hfinish
  obtain ⟨ms, es, z, r, hfills, hes, hz, rfl, rfl⟩ := pairRecord_members_sound hp hq hne ht
  rw [skipBlanks_cons rfl, List.cons.injEq] at hclose
  obtain ⟨-, rfl⟩ := hclose
  exact ⟨ms, es, z, hfills, hes, hz, rfl⟩

theorem pairRecord_reads (hp : p.Reads P) (hq : q.Reads Q) (hne : ascii f ≠ ascii g)
    (title : String) : (pairRecord title (f, p) (g, q)).reader.Reads
      fun ab v => PairOf (ascii f) (ascii g) P Q ab.1 ab.2 v where
  begins := by
    rintro ab v (⟨_, _, z, _, rfl⟩ | ⟨_, _, _, _, _, _, z, _, rfl⟩)
    · exact begins_opening .list z
    · exact begins_opening .object z
  sound := by
    rintro bs ⟨a, b⟩ rest hrun
    rw [Record.reader] at hrun
    simp only at hrun
    split at hrun
    · cases hrun
    · rename_i d r hbs
      obtain ⟨w, hw, rfl⟩ := exists_blank_of_cons hbs
      split at hrun
      · rename_i hd
        obtain ⟨v₁, v₂, z, hv₁, hv₂, hz, rfl⟩ := pairRecord_list_sound hp hq hrun
        exact ⟨w, byte '[' :: z, hw, .list hv₁ hv₂ ⟨z, hz, rfl⟩, by rw [hd]; rfl⟩
      · split at hrun
        · rename_i hd
          obtain ⟨ms, es, z, ⟨hfirst, hsecond, hothers⟩, hes, hz, rfl⟩ :=
            pairRecord_object_sound hp hq hne hrun
          obtain ⟨v₁, hv₁, ha⟩ := slot_none.mp hfirst
          obtain ⟨v₂, hv₂, hb⟩ := slot_none.mp hsecond
          exact ⟨w, byte '\x7b' :: z, hw, .object hv₁ ha hv₂ hb hothers hes ⟨z, hz, rfl⟩,
            by rw [hd]; rfl⟩
        · exact absurd hrun wrongType_ne_ok
  complete := by
    rintro ⟨a, b⟩ v w rest hpair hw - hend
    cases hpair with
    | list hv₁ hv₂ hbs =>
      obtain ⟨z, hz, rfl⟩ := hbs
      rw [List.cons_append] at hend ⊢
      have hend' : Utf8.Ending (z ++ rest) := @Utf8.Ending.of_append [_] _ hend
      have hblank : isBlank Bracket.list.opening = false := rfl
      rw [Record.reader]
      simp only [skipBlanks_blank_cons hw hblank]
      exact pairRecord_list_complete hp hq hv₁ hv₂ hz hend' title f g
    | object hv₁ ha hv₂ hb hothers hes hbs =>
      have hfills : Fills f g P Q (none, none) _ (some a, some b) :=
        ⟨slot_none.mpr ⟨_, hv₁, ha⟩, slot_none.mpr ⟨_, hv₂, hb⟩, hothers⟩
      exact Record.object_complete (pairRecord_steps hp hq hne hfills title)
        (pairRecord_finish.mpr rfl) hes hbs hw hend

end Pair

end Json
end GridPuzzles
