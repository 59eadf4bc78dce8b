import GridPuzzles.Proofs.Path.Components

/-! The parent of a path, which is a leading part of it, and the stem of its last name. -/
namespace GridPuzzles
namespace Path

variable {p q : Path} {n m : Name} {c : Component}

theorem components_join_part (q : Path) (hfree : slash ∉ m) (hc : component? m = some c) :
    (q.join m).components = q.components ++ [c] := by
  have hlead : components ⟨q.lead⟩ = q.components := by
    rw [lead]
    split
    · rename_i h0
      rw [← h0]
    · rename_i h0
      split
      · rfl
      · exact components_append_last h0
  have hbytes : q.join m = ⟨q.lead ++ m⟩ := congrArg Path.mk (bytes_join q m)
  rw [hbytes, components_append_part (leads_lead q) hfree hc, hlead]

/-- The parent of a path that ends in a name is what stands before the name, trimmed. -/
theorem parent?_of_fileName? (h : p.fileName? = some n) :
    p.parent? = some ⟨(trimEnd p.beforeName.reverse).reverse⟩ := by
  have hnamed := named_of_fileName? h
  have hdrop : p.reversedBody.dropWhile (· ≠ slash) = p.beforeName.reverse := by
    rw [beforeName, List.reverse_reverse]
  have hne : n.reverse ≠ [] := by simpa using hnamed.ne_nil
  rw [parent?]
  split
  · rename_i hbody
    rw [hnamed.body] at hbody
    exact absurd (List.append_eq_nil_iff.mp hbody).1 hne
  · rename_i b hbody
    obtain ⟨hname, hbefore⟩ : n.reverse = [b] ∧ p.beforeName.reverse = [] := by
      rw [hnamed.body] at hbody
      rcases List.append_eq_singleton_iff.mp hbody with ⟨hnil, -⟩ | hsplit
      · exact absurd hnil hne
      · exact hsplit
    have hb : b ≠ slash := by
      rintro rfl
      exact hnamed.slash_notMem
        (List.mem_reverse.mp (by rw [hname]; exact List.mem_singleton_self _))
    rw [if_neg hb, hbefore]
    rfl
  · rw [hdrop]

theorem trimEnd_eq_self_or (bs : List UInt8) :
    trimEnd bs = bs ∨ [slash] <+: bs ∨ [dot, slash] <+: bs := by
  fun_cases trimEnd bs with
  | case1 b c r hb =>
    right
    rcases hb with rfl | ⟨rfl, rfl⟩
    · exact .inl (by simp)
    · exact .inr (by simp)
  | case2 => exact .inl rfl
  | case3 => exact .inl rfl

theorem prefix_of_prefix_slash {a r : List UInt8} (hfree : slash ∉ n) (h : n <+: a ++ slash :: r) :
    n <+: a := by
  have hslash : a ++ [slash] <+: a ++ slash :: r := ⟨r, by simp⟩
  rcases List.prefix_or_prefix_of_prefix h hslash with hn | hn
  · rcases List.prefix_concat_iff.mp hn with rfl | hn
    · exact absurd (by simp) hfree
    · exact hn
  · exact absurd (hn.subset (by simp)) hfree

/-- A path that ends in the bytes of its last name has nothing behind that name. -/
theorem suffix_bytes_iff (h : p.fileName? = some n) :
    n <:+ p.bytes ↔ p.bytes = p.beforeName ++ n := by
  have hnamed := named_of_fileName? h
  constructor
  · intro hsuffix
    have hprefix : n.reverse <+: p.bytes.reverse := List.reverse_prefix.mpr hsuffix
    have hfree : slash ∉ n.reverse := fun hmem => hnamed.slash_notMem (List.mem_reverse.mp hmem)
    have hnil : n.reverse ≠ [] := by simpa using hnamed.ne_nil
    rcases trimEnd_eq_self_or p.bytes.reverse with hself | ⟨r, hr⟩ | ⟨r, hr⟩
    · rw [← reversedBody, hnamed.body] at hself
      have hbytes := congrArg List.reverse hself
      simpa using hbytes.symm
    · rw [← hr] at hprefix
      exact absurd (List.prefix_nil.mp (prefix_of_prefix_slash (a := []) hfree hprefix)) hnil
    · rw [← hr] at hprefix
      have hdot := prefix_of_prefix_slash (a := [dot]) hfree hprefix
      rcases List.prefix_cons_iff.mp hdot with hn | ⟨m, hn, hm⟩
      · exact absurd hn hnil
      · rw [List.prefix_nil.mp hm] at hn
        exact absurd (List.reverse_eq_iff.mp hn) hnamed.ne_here
  · intro hbytes
    rw [hbytes]
    exact List.suffix_append _ _

/-- The stem of a name: all of it, if it has no dot behind its first byte, and else what stands
before its last dot. -/
def IsStem (n stem : Name) : Prop :=
  n = stem ∧ dot ∉ n.tail ∨ ∃ ext, n = stem ++ dot :: ext ∧ stem ≠ [] ∧ dot ∉ ext

theorem isStem_splitName (n : Name) : IsStem n (splitName n).1 := by
  by_cases hmem : dot ∈ n.tail
  · right
    cases n with
    | nil => cases hmem
    | cons b r =>
      obtain ⟨ext, front, hrev, hext⟩ := List.eq_append_cons_of_mem (List.mem_reverse.mpr hmem)
      have hr : r = front.reverse ++ dot :: ext.reverse := by
        have hr := congrArg List.reverse hrev
        simpa using hr
      have hdot : dot ∉ ext.reverse := fun h => hext (List.mem_reverse.mp h)
      have hstem : b :: front.reverse ≠ [] := List.cons_ne_nil _ _
      have hname : b :: r = (b :: front.reverse) ++ dot :: ext.reverse := by rw [hr]; rfl
      rw [hname, splitName_append hstem hdot]
      exact ⟨_, rfl, hstem, hdot⟩
  · rcases splitName_cases n with hsplit | ⟨stem, ext, hn, hstem, hext, hsplit⟩
    · exact .inl ⟨by rw [hsplit], hmem⟩
    · exact .inr ⟨ext, by rw [hsplit]; exact hn, by rw [hsplit]; exact hstem, hext⟩

theorem components_prefix_append {b : List UInt8} (hb : Leads b) (x : List UInt8) :
    components ⟨b⟩ <+: components ⟨b ++ x⟩ := by
  rcases hb with rfl | ⟨a, rfl⟩
  · exact List.nil_prefix
  · rw [List.append_assoc, List.singleton_append, components_append_slash a x]
    exact List.prefix_append _ _

theorem components_reversedBody (p : Path) :
    components ⟨p.reversedBody.reverse⟩ = p.components := by
  rw [reversedBody, components_trimEnd, List.reverse_reverse]

theorem components_parent?_prefix (h : p.parent? = some q) : q.components <+: p.components := by
  have hbody : p.beforeName ++ (p.reversedBody.takeWhile (· ≠ slash)).reverse =
      p.reversedBody.reverse := by
    rw [beforeName, ← List.reverse_append, List.takeWhile_append_dropWhile]
  rw [← components_reversedBody p, ← hbody]
  rw [parent?] at h
  split at h
  · cases h
  · split at h
    · cases h
    · cases h
      exact List.nil_prefix
  · cases h
    rw [components_trimEnd]
    exact components_prefix_append (leads_beforeName p) _

theorem ne_nil_of_trimEnd {bs : List UInt8} (h : bs ≠ []) : trimEnd bs ≠ [] := by
  fun_induction trimEnd bs with
  | case1 b c r _ ih => exact ih (List.cons_ne_nil c r)
  | case2 => exact List.cons_ne_nil _ _
  | case3 => exact h

theorem reversedBody_of_parent?_eq_none (h0 : p.bytes ≠ []) (h : p.parent? = none) :
    p.reversedBody = [slash] := by
  have hne : p.reversedBody ≠ [] := ne_nil_of_trimEnd (by simpa using h0)
  rw [parent?] at h
  split at h
  · rename_i hbody
    exact absurd hbody hne
  · rename_i b hbody
    split at h
    · rename_i hb
      rw [hbody, hb]
    · cases h
  · cases h

theorem mem_trimEnd {bs : List UInt8} {b : UInt8} (hs : b ≠ slash) (hd : b ≠ dot) (h : b ∈ bs) :
    b ∈ trimEnd bs := by
  fun_induction trimEnd bs with
  | case1 a c r ha ih =>
    rcases List.mem_cons.mp h with rfl | h
    · rcases ha with rfl | ⟨rfl, -⟩
      · exact absurd rfl hs
      · exact absurd rfl hd
    · exact ih h
  | case2 => exact h
  | case3 => exact h

theorem components_of_parent?_eq_none (h0 : p.bytes ≠ []) (h : p.parent? = none) :
    p.components = [.root] := by
  rw [← components_reversedBody, reversedBody_of_parent?_eq_none h0 h]
  decide

theorem above_of_parent?_eq_none (h : p.parent? = none) : p.above = [] := by
  rw [Path.above]
  split
  · rfl
  · rename_i q hq
    rw [h] at hq
    cases hq

theorem above_of_parent? (h : p.parent? = some q) :
    p.above = if q.parent? = none then [] else q :: q.above := by
  rw [Path.above]
  split
  · rename_i hnone
    rw [h] at hnone
    cases hnone
  · rename_i r hr
    rw [h, Option.some.injEq] at hr
    rw [hr]

end Path
end GridPuzzles
