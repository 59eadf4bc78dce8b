import GridPuzzles.Proofs.Path.Join
import Mathlib.Data.List.Infix
import Mathlib.Data.List.TakeWhile

/-! The components of a path and its last name. What is trimmed off the end of a path has no
components, so those of a path with a last name are those of what stands before the name, and then
the name. -/
namespace GridPuzzles
namespace Path

variable {p : Path} {n ext : Name} {c : Component} {b x y body : List UInt8}

theorem components_append_slash (a x : List UInt8) :
    components ⟨a ++ slash :: x⟩ =
      components ⟨a ++ [slash]⟩ ++ (split x).filterMap component? := by
  have habsolute : isAbsolute ⟨a ++ slash :: x⟩ = isAbsolute ⟨a ++ [slash]⟩ := by
    cases a <;> rfl
  have hhead : (split (a ++ slash :: x)).head? = (split (a ++ [slash])).head? := by
    rw [split_append_slash, split_append_slash, List.head?_append_of_ne_nil _ (split_ne_nil a),
      List.head?_append_of_ne_nil _ (split_ne_nil a)]
  have hothers : (split (a ++ slash :: x)).filterMap component? =
      (split (a ++ [slash])).filterMap component? ++ (split x).filterMap component? := by
    rw [split_append_slash, split_append_slash, List.filterMap_append, List.filterMap_append,
      List.append_assoc]
    rfl
  simp only [components, habsolute, hhead, hothers]
  split
  · rfl
  · split <;> rfl

theorem components_append_last (hb : b ≠ []) : components ⟨b ++ [slash]⟩ = components ⟨b⟩ := by
  have habsolute : isAbsolute ⟨b ++ [slash]⟩ = isAbsolute ⟨b⟩ := by
    cases b with
    | nil => exact absurd rfl hb
    | cons c b => rfl
  have hhead : (split (b ++ [slash])).head? = (split b).head? := by
    rw [split_append_slash, List.head?_append_of_ne_nil _ (split_ne_nil b)]
  have hothers : (split (b ++ [slash])).filterMap component? =
      (split b).filterMap component? := by
    rw [split_append_slash, List.filterMap_append]
    exact List.append_nil _
  simp only [components, habsolute, hhead, hothers]

theorem components_trimEnd (bs : List UInt8) :
    components ⟨(trimEnd bs).reverse⟩ = components ⟨bs.reverse⟩ := by
  fun_induction trimEnd bs with
  | case1 b c r hb ih =>
    rw [ih]
    have hne : (c :: r).reverse ≠ [] := by simp
    rcases hb with rfl | ⟨rfl, rfl⟩
    · have hbytes : (slash :: c :: r).reverse = (c :: r).reverse ++ [slash] := List.reverse_cons
      rw [hbytes, components_append_last hne]
    · have hbytes : (dot :: slash :: r).reverse = r.reverse ++ slash :: [dot] := by simp
      rw [hbytes, components_append_slash, List.reverse_cons]
      exact (List.append_nil _).symm
  | case2 => rfl
  | case3 => rfl

theorem eq_false_of_dropWhile {f : UInt8 → Bool} {bs r : List UInt8} {c : UInt8}
    (h : bs.dropWhile f = c :: r) : f c = false := by
  have hhead := List.head?_dropWhile_not f bs
  rwa [h] at hhead

/-- What can stand before a name: nothing, or what ends in a slash. -/
def Leads (b : List UInt8) : Prop := b = [] ∨ ∃ a, b = a ++ [slash]

theorem leads_lead (p : Path) : Leads p.lead := by
  rcases lead_cases p with ⟨-, h⟩ | ⟨a, h, -, -⟩
  · exact .inl h
  · exact .inr ⟨a, h⟩

theorem leads_beforeName (p : Path) : Leads p.beforeName := by
  rw [beforeName]
  cases h : p.reversedBody.dropWhile (· ≠ slash) with
  | nil => exact .inl rfl
  | cons c r =>
    have hc : c = slash := by simpa using eq_false_of_dropWhile h
    exact .inr ⟨r.reverse, by rw [hc, List.reverse_cons]⟩

theorem component?_eq_name (hne : n ≠ []) (hhere : n ≠ here) (hup : n ≠ up) :
    component? n = some (.name n) := by
  simp [component?, hne, hhere, hup]

theorem ne_nil_of_component? (h : component? n = some c) : n ≠ [] := by
  rintro rfl
  cases h

theorem ne_here_of_component? (h : component? n = some c) : n ≠ here := by
  rintro rfl
  cases h

theorem components_append_part (hb : Leads b) (hfree : slash ∉ n) (hc : component? n = some c) :
    components ⟨b ++ n⟩ = components ⟨b⟩ ++ [c] := by
  rcases hb with rfl | ⟨a, rfl⟩
  · have habsolute : isAbsolute ⟨n⟩ = false := by
      rw [isAbsolute, decide_eq_false_iff_not]
      intro hhead
      exact hfree (List.mem_of_mem_head? hhead)
    have hhere := ne_here_of_component? hc
    rw [List.nil_append, components, habsolute, split_of_notMem hfree]
    simp [hhere, hc]
    rfl
  · rw [List.append_assoc, List.singleton_append, components_append_slash,
      split_of_notMem hfree]
    simp [hc]

theorem reversedBody_append (hfree : slash ∉ n) (hc : component? n = some c) :
    reversedBody ⟨b ++ n⟩ = n.reverse ++ b.reverse := by
  rw [reversedBody, List.reverse_append,
    trimEnd_part (ne_nil_of_component? hc) hfree (ne_here_of_component? hc)]

theorem name_and_before (hb : Leads b) (hfree : slash ∉ n)
    (hbody : p.reversedBody = n.reverse ++ b.reverse) :
    (p.reversedBody.takeWhile (· ≠ slash)).reverse = n ∧ p.beforeName = b := by
  have hslash : ∀ x ∈ n.reverse, x ≠ slash := fun x hx e => hfree (e ▸ List.mem_reverse.mp hx)
  rw [beforeName, hbody, List.takeWhile_append_of_pos (by simpa using hslash),
    List.dropWhile_append_of_pos (by simpa using hslash)]
  rcases hb with rfl | ⟨a, rfl⟩ <;> simp

theorem fileName?_of_body (hb : Leads b) (hfree : slash ∉ n) (hne : n ≠ []) (hhere : n ≠ here)
    (hup : n ≠ up) (hbody : p.reversedBody = n.reverse ++ b.reverse) : p.fileName? = some n := by
  have hname := (name_and_before hb hfree hbody).1
  simp only [fileName?]
  rw [hname, if_neg]
  rintro (h | h | h)
  · exact hne h
  · exact hhere h
  · exact hup h

theorem fileName?_eq_none_of_body (hb : Leads b)
    (hbody : p.reversedBody = up.reverse ++ b.reverse) :
    p.fileName? = none := by
  have hname := (name_and_before hb (by decide) hbody).1
  simp only [fileName?]
  rw [hname, if_pos (.inr (.inr rfl))]

/-- A path with a last name, up to the end of that name. -/
structure Named (p : Path) (n : Name) : Prop where
  slash_notMem : slash ∉ n
  ne_nil : n ≠ []
  ne_here : n ≠ here
  ne_up : n ≠ up
  body : p.reversedBody = n.reverse ++ p.beforeName.reverse

theorem named_of_fileName? (h : p.fileName? = some n) : Named p n := by
  rw [fileName?] at h
  split at h
  · cases h
  · rename_i hn
    rw [Option.some.injEq] at h
    rw [h] at hn
    obtain ⟨hne, hhere, hup⟩ : n ≠ [] ∧ n ≠ here ∧ n ≠ up := by simpa using hn
    refine ⟨?_, hne, hhere, hup, ?_⟩
    · intro hmem
      rw [← h, List.mem_reverse] at hmem
      simpa using List.mem_takeWhile_imp hmem
    · rw [← h, beforeName, List.reverse_reverse, List.reverse_reverse,
        List.takeWhile_append_dropWhile]

theorem components_of_fileName? (h : p.fileName? = some n) :
    p.components = components ⟨p.beforeName⟩ ++ [.name n] := by
  have hnamed := named_of_fileName? h
  have hcomponents := components_trimEnd p.bytes.reverse
  have hbytes : (trimEnd p.bytes.reverse).reverse = p.beforeName ++ n := by
    rw [← reversedBody, hnamed.body]
    simp
  rw [List.reverse_reverse, hbytes] at hcomponents
  rw [← hcomponents]
  exact components_append_part (leads_beforeName p) hnamed.slash_notMem
    (component?_eq_name hnamed.ne_nil hnamed.ne_here hnamed.ne_up)

theorem trimEnd_of_suffix (hx : trimEnd x = body) (hy : y <:+ x) (hlen : body.length ≤ y.length) :
    trimEnd y = body := by
  fun_induction trimEnd x with
  | case1 b c r hb ih =>
    rcases List.suffix_cons_iff.mp hy with rfl | hy
    · rw [trimEnd, if_pos hb, hx]
    · exact ih hx hy
  | case2 b c r hb =>
    subst hx
    rw [hy.eq_of_length_le hlen, trimEnd, if_neg hb]
  | case3 r hr =>
    subst hx
    rw [hy.eq_of_length_le hlen]
    exact trimEnd.eq_2 r hr

theorem trimEnd_suffix (bs : List UInt8) : trimEnd bs <:+ bs := by
  fun_induction trimEnd bs with
  | case1 b c r _ ih => exact ih.trans (List.suffix_cons b (c :: r))
  | case2 => exact List.suffix_refl _
  | case3 => exact List.suffix_refl _

/-- A path with a last name ends in that name and what is trimmed off. -/
theorem exists_bytes_eq (h : p.fileName? = some n) :
    ∃ trail, p.bytes = p.beforeName ++ n ++ trail := by
  obtain ⟨trail, htrail⟩ := trimEnd_suffix p.bytes.reverse
  refine ⟨trail.reverse, ?_⟩
  rw [← reversedBody, (named_of_fileName? h).body] at htrail
  have hbytes := congrArg List.reverse htrail
  simpa using hbytes.symm

theorem splitName_cases (n : Name) :
    splitName n = (n, none) ∨
      ∃ stem e, n = stem ++ dot :: e ∧ stem ≠ [] ∧ dot ∉ e ∧ splitName n = (stem, some e) := by
  rw [splitName]
  split
  · exact .inl rfl
  · exact .inl rfl
  · rename_i c stem hstem hdrop
    have hc : c = dot := by simpa using eq_false_of_dropWhile hdrop
    refine .inr ⟨stem.reverse, (n.reverse.takeWhile (· ≠ dot)).reverse, ?_, ?_, ?_, rfl⟩
    · have hrev : n.reverse.takeWhile (· ≠ dot) ++ dot :: stem = n.reverse := by
        rw [← hc, ← hdrop, hc, List.takeWhile_append_dropWhile]
      calc n = (n.reverse.takeWhile (· ≠ dot) ++ dot :: stem).reverse := by
              rw [hrev, List.reverse_reverse]
        _ = stem.reverse ++ dot :: (n.reverse.takeWhile (· ≠ dot)).reverse := by
              rw [List.reverse_append, List.reverse_cons, List.append_assoc]
              rfl
    · intro h0
      exact hstem (List.reverse_eq_nil_iff.mp h0)
    · intro hmem
      rw [List.mem_reverse] at hmem
      simpa using List.mem_takeWhile_imp hmem

theorem splitName_append {stem e : Name} (hstem : stem ≠ []) (he : dot ∉ e) :
    splitName (stem ++ dot :: e) = (stem, some e) := by
  have hdot : ∀ x ∈ e.reverse, x ≠ dot := fun x hx h => he (h ▸ List.mem_reverse.mp hx)
  have hrev : (stem ++ dot :: e).reverse = e.reverse ++ dot :: stem.reverse := by simp
  rw [splitName, hrev, List.dropWhile_append_of_pos (by simpa using hdot),
    List.takeWhile_append_of_pos (by simpa using hdot)]
  cases hs : stem.reverse with
  | nil => exact absurd (List.reverse_eq_nil_iff.mp hs) hstem
  | cons c r =>
    have hcr : (c :: r).reverse = stem := by rw [← hs, List.reverse_reverse]
    simp [hcr]

def cut (p : Path) : Path := ⟨p.bytes.take (p.bytes.length - p.extension.length)⟩

theorem withExtension_eq (p : Path) (ext : Name) :
    p.withExtension ext =
      match p.cut.stem? with
      | none => p.cut
      | some stem => ⟨p.cut.beforeName ++ stem ++ dot :: ext⟩ := rfl

theorem withExtension_of_cut {m : Name} (hname : p.cut.fileName? = some m)
    (hbefore : p.cut.beforeName = p.beforeName) :
    p.withExtension ext = ⟨p.beforeName ++ ((splitName m).1 ++ dot :: ext)⟩ := by
  rw [withExtension_eq, stem?, hname, hbefore, Option.map_some, ← List.append_assoc]

theorem withExtension_of_cut_none (h : p.cut.fileName? = none) : p.withExtension ext = p.cut := by
  rw [withExtension_eq, stem?, h, Option.map_none]

theorem withExtension_of_none (h : p.fileName? = none) : p.withExtension ext = p := by
  have hextension : p.extension = [] := by rw [extension, h]; rfl
  have hcut : p.cut = p := by
    rw [cut, hextension, List.length_nil, Nat.sub_zero, List.take_length]
  rw [withExtension_of_cut_none (by rw [hcut, h]), hcut]

/-- What the last name of a path becomes with another extension. Of a stem that is a dot, with
nothing behind the name, only the dot and the next one are left, and they are no name. -/
def withStem (p : Path) (n ext : Name) : Name :=
  if (splitName n).1 = here ∧ p.bytes = p.beforeName ++ n then up
  else (splitName n).1 ++ dot :: ext

theorem stem_ne {stem x : Name} (hstem : stem ≠ []) (h : stem ≠ here ∨ x ≠ []) :
    stem ++ dot :: x ≠ [] ∧ stem ++ dot :: x ≠ here ∧ stem ++ dot :: x ≠ up := by
  cases stem with
  | nil => exact absurd rfl hstem
  | cons c stem =>
    refine ⟨by simp, by simp [here], ?_⟩
    intro hup
    rw [up, List.cons_append, List.cons.injEq] at hup
    obtain ⟨rfl, htail⟩ := hup
    cases stem with
    | nil =>
      rcases h with h | h
      · exact h rfl
      · exact h (by simpa using htail)
    | cons d stem => simp at htail

section Cut

variable {stem e trail : List UInt8}

theorem reversedBody_cut (h : p.fileName? = some n) (hbytes : p.bytes = p.beforeName ++ n ++ trail)
    (hextension : p.extension = e) (hlen : e.length ≤ trail.length) :
    p.cut.reversedBody = n.reverse ++ p.beforeName.reverse := by
  have hbody := (named_of_fileName? h).body
  rw [← hbody]
  apply trimEnd_of_suffix (x := p.bytes.reverse) rfl
  · exact List.reverse_suffix.mpr (List.take_prefix _ _)
  · change p.reversedBody.length ≤ _
    rw [hbody, cut, hextension, hbytes]
    simp only [List.length_append, List.length_reverse, List.length_take]
    omega

theorem cut_eq (hbytes : p.bytes = p.beforeName ++ (stem ++ dot :: e) ++ trail)
    (hextension : p.extension = e) (hlen : trail.length ≤ e.length) :
    p.cut = ⟨p.beforeName ++ (stem ++ dot :: e.take trail.length)⟩ := by
  have hsplit : p.bytes = p.beforeName ++ (stem ++ [dot]) ++ (e ++ trail) := by
    rw [hbytes]
    simp
  have hlength : p.bytes.length - e.length =
      (p.beforeName ++ (stem ++ [dot])).length + trail.length := by
    rw [hsplit]
    simp only [List.length_append]
    omega
  rw [cut, hextension, hlength, hsplit, List.take_length_add_append,
    List.take_append_of_le_length hlen]
  simp

theorem withExtension_of_whole (h : p.fileName? = some n)
    (hbytes : p.bytes = p.beforeName ++ n ++ trail) (hextension : p.extension = e)
    (hlen : e.length ≤ trail.length) :
    p.withExtension ext = ⟨p.beforeName ++ ((splitName n).1 ++ dot :: ext)⟩ := by
  have hnamed := named_of_fileName? h
  have hleads := leads_beforeName p
  have hbody := reversedBody_cut h hbytes hextension hlen
  have hname := fileName?_of_body hleads hnamed.slash_notMem hnamed.ne_nil hnamed.ne_here
    hnamed.ne_up hbody
  have hbefore := (name_and_before hleads hnamed.slash_notMem hbody).2
  exact withExtension_of_cut hname hbefore

theorem withExtension_of_within (hfree : slash ∉ stem ++ dot :: e) (hstem : stem ≠ [])
    (he : dot ∉ e) (hbytes : p.bytes = p.beforeName ++ (stem ++ dot :: e) ++ trail)
    (hextension : p.extension = e) (hlen : trail.length < e.length) :
    p.withExtension ext =
      ⟨p.beforeName ++ if stem = here ∧ trail = [] then up else stem ++ dot :: ext⟩ := by
  have hleads := leads_beforeName p
  have hcut := cut_eq hbytes hextension hlen.le
  have hfree' : slash ∉ stem ++ dot :: e.take trail.length := by
    intro hmem
    rcases List.mem_append.mp hmem with hmem | hmem
    · exact hfree (List.mem_append_left _ hmem)
    · exact hfree (List.mem_append_right _
        (List.cons_subset_cons dot (List.take_subset _ _) hmem))
  by_cases hup : stem = here ∧ trail = []
  · -- what is left of the last name is two dots
    obtain ⟨rfl, rfl⟩ := hup
    have hbody : p.cut.reversedBody = up.reverse ++ p.beforeName.reverse := by
      rw [hcut]
      exact reversedBody_append hfree' (c := .up) rfl
    rw [withExtension_of_cut_none (fileName?_eq_none_of_body hleads hbody), hcut,
      if_pos ⟨rfl, rfl⟩]
    rfl
  · have htake : stem ≠ here ∨ e.take trail.length ≠ [] := by
      by_contra hnot
      obtain ⟨hhere, hnil⟩ : stem = here ∧ e.take trail.length = [] := by
        simpa only [not_or, not_not] using hnot
      have hlength := congrArg List.length hnil
      rw [List.length_take, Nat.min_eq_left hlen.le] at hlength
      exact hup ⟨hhere, List.eq_nil_of_length_eq_zero hlength⟩
    obtain ⟨hne, hhere, hnotup⟩ := stem_ne hstem htake
    have hbody : p.cut.reversedBody =
        (stem ++ dot :: e.take trail.length).reverse ++ p.beforeName.reverse := by
      rw [hcut]
      exact reversedBody_append hfree' (component?_eq_name hne hhere hnotup)
    have hname := fileName?_of_body hleads hfree' hne hhere hnotup hbody
    have hbefore := (name_and_before hleads hfree' hbody).2
    have hdot : dot ∉ e.take trail.length := fun hmem => he (List.mem_of_mem_take hmem)
    rw [withExtension_of_cut hname hbefore, splitName_append hstem hdot, if_neg hup]

end Cut

theorem withExtension_of_fileName? (h : p.fileName? = some n) :
    p.withExtension ext = ⟨p.beforeName ++ p.withStem n ext⟩ := by
  have hnamed := named_of_fileName? h
  obtain ⟨trail, hbytes⟩ := exists_bytes_eq h
  have hend : p.bytes = p.beforeName ++ n ↔ trail = [] := by
    rw [hbytes]
    exact List.append_right_eq_self
  have hextension : p.extension = (splitName n).2.getD [] := by
    rw [extension, h, Option.bind_some]
  rw [withStem]
  simp only [hend]
  rcases splitName_cases n with hsplit | ⟨stem, e, hn, hstem, he, hsplit⟩
  · rw [hsplit] at hextension
    rw [withExtension_of_whole h hbytes hextension (Nat.zero_le _), hsplit,
      if_neg fun hc => hnamed.ne_here hc.1]
  · rw [hsplit] at hextension
    rcases Nat.lt_or_ge trail.length e.length with hlen | hlen
    · rw [hsplit]
      exact withExtension_of_within (hn ▸ hnamed.slash_notMem) hstem he (hn ▸ hbytes) hextension
        hlen
    · rw [withExtension_of_whole h hbytes hextension hlen, hsplit, if_neg]
      rintro ⟨rfl, rfl⟩
      apply hnamed.ne_up
      rw [hn, List.eq_nil_of_length_eq_zero (Nat.le_zero.mp hlen)]
      rfl

theorem splitName_fst (hne : n ≠ []) : (splitName n).1 ≠ [] ∧ (splitName n).1 ⊆ n := by
  rcases splitName_cases n with hsplit | ⟨stem, e, rfl, hstem, -, hsplit⟩
  · rw [hsplit]
    exact ⟨hne, List.Subset.refl n⟩
  · rw [hsplit]
    exact ⟨hstem, List.subset_append_left stem _⟩

theorem withStem_part (ext : Name) (h : p.fileName? = some n) (hext : slash ∉ ext)
    (hne : ext ≠ []) :
    slash ∉ p.withStem n ext ∧ ∃ c, component? (p.withStem n ext) = some c := by
  have hnamed := named_of_fileName? h
  obtain ⟨hstem, hsubset⟩ := splitName_fst hnamed.ne_nil
  rw [withStem]
  split
  · exact ⟨by decide, .up, rfl⟩
  · obtain ⟨hnil, hhere, hup⟩ := stem_ne hstem (.inr hne)
    refine ⟨?_, _, component?_eq_name hnil hhere hup⟩
    intro hmem
    rcases List.mem_append.mp hmem with hmem | hmem
    · exact hnamed.slash_notMem (hsubset hmem)
    · exact hext ((List.mem_cons.mp hmem).resolve_left (by decide))

/-- With another extension, the last component of a path is another name, or leads up. -/
theorem components_withExtension (ext : Name) (h : p.fileName? = some n) (hext : slash ∉ ext)
    (hne : ext ≠ []) :
    ∃ c, component? (p.withStem n ext) = some c ∧
      (p.withExtension ext).components = components ⟨p.beforeName⟩ ++ [c] := by
  obtain ⟨hfree, c, hc⟩ := withStem_part ext h hext hne
  refine ⟨c, hc, ?_⟩
  rw [withExtension_of_fileName? h]
  exact components_append_part (leads_beforeName p) hfree hc

theorem beforeName_join (q : Path) (hn : n.Proper) : (q.join n).beforeName = q.lead := by
  have hbody : (q.join n).reversedBody = n.reverse ++ q.lead.reverse := by
    rw [reversedBody, bytes_join, List.reverse_append, trimEnd_name hn]
  exact (name_and_before (leads_lead q) hn.slash_notMem hbody).2

theorem component?_injective {m : Name} (hn : component? n = some c) (hm : component? m = some c) :
    n = m := by
  rw [component?] at hn hm
  split at hn
  · cases hn
  · split at hm
    · cases hm
    · split at hn <;> split at hm <;> cases hn <;> cases hm <;> simp_all

end Path
end GridPuzzles
