import GridPuzzles.Proofs.Json.Readers

/-! Records in general. A record is read from an object member by member: each key takes the record
from one state to the next, and what has been read in the end is asked for the fields needed. -/
namespace GridPuzzles
namespace Json

variable {α β σ : Type} {bs rest r w v z c raw key : List UInt8} {es : List (List UInt8)}
  {ms : List (List UInt8 × List UInt8)} {first : Bool}

theorem nextKey_none (h : nextKey first bs = .ok none rest) :
    ∃ w r, Blank w ∧ rest = byte '\x7d' :: r ∧ bs = w ++ byte '\x7d' :: r := by
  rw [nextKey] at h
  split at h
  · cases h
  · rename_i b r hbs
    obtain ⟨w, hw, rfl⟩ := exists_blank_of_cons hbs
    split at h
    · rename_i hb
      cases h
      exact ⟨w, r, hw, by rw [hb], by rw [hb]⟩
    · split at h
      · split at h
        · obtain ⟨_, _, hnone⟩ := Outcome.map_eq_ok.mp h
          cases hnone
        · cases h
      · split at h
        · split at h
          · cases h
          · split at h
            · obtain ⟨_, _, hnone⟩ := Outcome.map_eq_ok.mp h
              cases hnone
            · cases h
        · cases h

theorem nextKey_some (h : nextKey first bs = .ok (some key) rest) :
    ∃ w raw, Separator first w ∧ Names raw key ∧ bs = w ++ (quoted raw ++ rest) := by
  have hkey {s : List UInt8} (hs : (textFrom [] s).map some = .ok (some key) rest) :
      ∃ raw, Names raw key ∧ s = raw ++ byte '"' :: rest := by
    obtain ⟨x, hx, hsome⟩ := Outcome.map_eq_ok.mp hs
    cases hsome
    obtain ⟨raw, name, hnames, hraw, rfl⟩ := textFrom_sound hx
    exact ⟨raw, hnames, hraw⟩
  rw [nextKey] at h
  split at h
  · cases h
  · rename_i b r hbs
    obtain ⟨w, hw, rfl⟩ := exists_blank_of_cons hbs
    split at h
    · cases h
    · split at h
      · rename_i hfirst
        subst hfirst
        split at h
        · rename_i hb
          obtain ⟨raw, hnames, rfl⟩ := hkey h
          exact ⟨w, raw, hw, hnames, by simp [quoted, hb]⟩
        · cases h
      · rename_i hfirst
        rw [Bool.not_eq_true] at hfirst
        subst hfirst
        split at h
        · rename_i hb
          split at h
          · cases h
          · rename_i d s hr
            obtain ⟨w', hw', rfl⟩ := exists_blank_of_cons hr
            split at h
            · rename_i hd
              obtain ⟨raw, hnames, rfl⟩ := hkey h
              exact ⟨w ++ b :: w', raw, ⟨w, w', hw, hw', by rw [hb]⟩, hnames,
                by simp [quoted, hd]⟩
            · cases h
        · cases h

theorem nextKey_close (hw : Blank w) (first : Bool) (r : List UInt8) :
    nextKey first (w ++ byte '\x7d' :: r) = .ok none (byte '\x7d' :: r) := by
  rw [nextKey, skipBlanks_blank_cons hw rfl]
  simp only [if_true]

theorem nextKey_quoted (hw : Separator first w) (hnames : Names raw key)
    (hend : Utf8.Ending (quoted raw ++ r)) :
    nextKey first (w ++ (quoted raw ++ r)) = .ok (some key) r := by
  have hbs : quoted raw ++ r = byte '"' :: (raw ++ byte '"' :: r) := by simp [quoted]
  rw [hbs] at hend ⊢
  have htext := textFrom_of_names hnames hend
  have hquote : byte '"' ≠ byte '\x7d' := by decide
  cases first with
  | true =>
    rw [nextKey, skipBlanks_blank_cons hw rfl]
    simp only [if_neg hquote, if_true, htext, Outcome.map]
  | false =>
    obtain ⟨w₁, w₂, hw₁, hw₂, rfl⟩ := hw
    have hcomma : byte ',' ≠ byte '\x7d' := by decide
    rw [nextKey, List.append_assoc, List.cons_append, skipBlanks_blank_cons hw₁ rfl]
    simp only [if_neg hcomma, Bool.false_eq_true, if_false, if_true, htext, Outcome.map,
      skipBlanks_blank_cons hw₂ (show isBlank (byte '"') = false from rfl)]

theorem Record.complete_eq_ok {d : Record σ α} {o : Outcome σ} {a : α} :
    d.complete o = .ok a rest ↔ ∃ s, o = .ok s rest ∧ d.finish s = .ok a := by
  rw [Record.complete, Outcome.bind_eq_ok]
  constructor
  · rintro ⟨s, r, ho, hs⟩
    split at hs
    · cases hs
      exact ⟨s, ho, by assumption⟩
    · cases hs
  · rintro ⟨s, ho, hs⟩
    exact ⟨s, rest, ho, by rw [hs]⟩

theorem Record.inOrder_cons_eq_ok {d : Record σ α} {count : Nat} {s t : σ}
    {f : Field σ} {fs : List (Field σ)} :
    d.inOrder count s (f :: fs) bs = .ok t rest ↔
      ∃ r u r', nextElement (count = 0) bs = .ok true r ∧ (f.read s).run r = .ok u r' ∧
        d.inOrder (count + 1) u fs r' = .ok t rest := by
  rw [Record.inOrder, Outcome.bind_eq_ok]
  constructor
  · rintro ⟨more, r, hmore, h⟩
    split at h
    · rename_i htrue
      subst htrue
      obtain ⟨u, r', hu, h⟩ := Outcome.bind_eq_ok.mp h
      exact ⟨r, u, r', hmore, hu, h⟩
    · cases h
  · rintro ⟨r, u, r', hmore, hu, h⟩
    refine ⟨true, r, hmore, ?_⟩
    rw [if_pos rfl]
    exact Outcome.bind_eq_ok.mpr ⟨u, r', hu, h⟩

theorem skip_reads : skip.Reads fun _ => Value where
  begins := Value.begins
  sound := skip_run_sound
  complete hv hw hr _ := skip_run_complete hv hw hr

theorem Reader.Reads.member_sound {p : Reader α} {P : α → List UInt8 → Prop} (hp : p.Reads P)
    {t : β} {k : α → β} (h : ((colon bs).bind fun _ r => (p.run r).map k) = .ok t rest) :
    ∃ c v a, Mark (byte ':') c ∧ P a v ∧ k a = t ∧ bs = c ++ (v ++ rest) := by
  obtain ⟨_, r, hcolon, hr⟩ := Outcome.bind_eq_ok.mp h
  obtain ⟨a, ha, ht⟩ := Outcome.map_eq_ok.mp hr
  obtain ⟨w₁, hw₁, rfl⟩ := colon_eq_ok.mp hcolon
  obtain ⟨w₂, v, hw₂, hv, rfl⟩ := hp.sound ha
  exact ⟨w₁ ++ byte ':' :: w₂, v, a, ⟨w₁, w₂, hw₁, hw₂, rfl⟩, hv, ht, by simp⟩

theorem Reader.Reads.member_complete {p : Reader α} {P : α → List UInt8 → Prop}
    (hp : p.Reads P) (hc : Mark (byte ':') c) (a : α) (hv : P a v) (hr : Ends r)
    (hend : Utf8.Ending (v ++ r)) (k : α → β) :
    ((colon (c ++ (v ++ r))).bind fun _ r => (p.run r).map k) = .ok (k a) r := by
  obtain ⟨w₁, w₂, hw₁, hw₂, rfl⟩ := hc
  have hcolon : colon (w₁ ++ byte ':' :: w₂ ++ (v ++ r)) = .ok () (w₂ ++ (v ++ r)) :=
    colon_eq_ok.mpr ⟨w₁, hw₁, by simp⟩
  rw [hcolon, Outcome.bind, hp.complete hv hw₂ hr hend, Outcome.map]

theorem Record.members_eq (d : Record σ α) (first : Bool) (s : σ) (bs : List UInt8) :
    d.members first s bs =
      (nextKey first bs).bind fun key? rest =>
        match key? with
        | some key => (d.member s key rest).bind fun t r => d.members false t r
        | none => .ok s rest := by
  rw [members]
  split
  · rename_i hk
    rw [hk]
    rfl
  · rename_i hk
    rw [hk]
    simp only [Outcome.bind]
    split
    all_goals
      rename_i hm
      rw [hm]
  all_goals
    rename_i hk
    rw [hk]
    rfl

namespace Record

variable {d : Record σ α} {s t u : σ} {a : α}

/-- Members that take a record from one state to another, whatever comes after each of them. -/
inductive Steps (d : Record σ α) : σ → List (List UInt8 × List UInt8) → σ → Prop where
  | nil (s : σ) : d.Steps s [] s
  | cons {s t u : σ} {key v : List UInt8} {ms : List (List UInt8 × List UInt8)} :
      (∀ {c r}, Mark (byte ':') c → Ends r → Utf8.Ending (v ++ r) →
        d.member s key (c ++ (v ++ r)) = .ok t r) →
      d.Steps t ms u → d.Steps s ((key, v) :: ms) u

theorem Steps.field {p : Reader β} {P : β → List UInt8 → Prop} {b : β} {k : β → σ} {f : Field σ}
    (hf : d.fields.find? (fun f => ascii f.name = key) = some f) (hgiven : f.given s = false)
    (hread : f.read s = p.map k) (hp : p.Reads P) (hv : P b v) (h : d.Steps (k b) ms u) :
    d.Steps s ((key, v) :: ms) u := by
  refine .cons ?_ h
  intro c r hc hr hend
  rw [member, hf]
  simp only [hgiven, Bool.false_eq_true, if_false, hread]
  exact hp.member_complete hc b hv hr hend k

theorem members_complete (h : d.Steps s ms t) (hms : List.Forall₂ Member ms es)
    (hz : Inside (byte '\x7d') first es z) (hend : Utf8.Ending (z ++ r)) :
    d.members first s (z ++ r) = .ok t (byte '\x7d' :: r) := by
  induction h generalizing first es z with
  | nil s =>
    cases hms
    cases hz with
    | close hw =>
      rw [List.append_assoc, List.singleton_append, members_eq, nextKey_close hw]
      rfl
  | @cons s t u key v ms hm _ ih =>
    cases hms with
    | cons hmember hms =>
      obtain ⟨raw, c, hnames, hc, rfl⟩ := hmember
      cases hz with
      | @cons _ w _ z' _ hw hz' =>
        simp only [List.append_assoc] at hend ⊢
        have hkey := nextKey_quoted hw hnames hend.of_append
        have hendv := hend.of_append.of_append.of_append
        rw [members_eq, hkey]
        simp only [Outcome.bind, hm hc (@Inside.ends _ .object _ hz' r) hendv]
        exact ih hms hz' hendv.of_append

theorem object_complete (h : d.Steps d.blank ms s) (hfinish : d.finish s = .ok a)
    (hms : List.Forall₂ Member ms es) (hv : Enclosed .object es v) (hw : Blank w)
    (hend : Utf8.Ending (v ++ rest)) : d.reader.run (w ++ (v ++ rest)) = .ok a rest := by
  obtain ⟨z, hz, rfl⟩ := hv
  rw [List.cons_append] at hend ⊢
  have hend' : Utf8.Ending (z ++ rest) := @Utf8.Ending.of_append [_] _ hend
  have hblank : isBlank Bracket.object.opening = false := rfl
  have hbracket : Bracket.object.opening ≠ byte '[' := by decide
  have hmembers := members_complete h hms hz hend'
  rw [reader]
  simp only [skipBlanks_blank_cons hw hblank, if_neg hbracket]
  exact leaveObject_eq_ok.mpr
    ⟨_, complete_eq_ok.mpr ⟨_, hmembers, hfinish⟩, skipBlanks_cons rfl rest⟩

end Record
end Json
end GridPuzzles
