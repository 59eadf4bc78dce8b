import GridPuzzles.FileTree.Access
import Mathlib.Data.List.Nodup
import Mathlib.Tactic.Common

/-! Names of directory entries, and the paths that a directory gives them: the steps of the
directory and then the name, which is also the last name of the path. -/
namespace GridPuzzles

/-- What an entry of a directory can be called. -/
structure Name.Proper (n : Name) : Prop where
  ne_nil : n ≠ []
  slash_notMem : Path.slash ∉ n
  zero_notMem : 0 ∉ n
  ne_here : n ≠ Path.here
  ne_up : n ≠ Path.up
  length_le : n.length ≤ FileTree.nameLimit

instance (n : Name) : Decidable n.Proper :=
  decidable_of_iff (n ≠ [] ∧ Path.slash ∉ n ∧ 0 ∉ n ∧ n ≠ Path.here ∧ n ≠ Path.up ∧
      n.length ≤ FileTree.nameLimit)
    ⟨fun ⟨h₁, h₂, h₃, h₄, h₅, h₆⟩ => ⟨h₁, h₂, h₃, h₄, h₅, h₆⟩,
      fun ⟨h₁, h₂, h₃, h₄, h₅, h₆⟩ => ⟨h₁, h₂, h₃, h₄, h₅, h₆⟩⟩

namespace Path

variable {n m : Name}

theorem split_of_notMem (h : slash ∉ n) : split n = [n] := by
  induction n with
  | nil => rfl
  | cons b n ih =>
    have hb : b ≠ slash := fun e => h (by simp [e])
    have hn : slash ∉ n := fun e => h (by simp [e])
    rw [split, if_neg hb, ih hn]

theorem split_ne_nil (bs : List UInt8) : split bs ≠ [] := by
  cases bs with
  | nil => simp [split]
  | cons b r =>
    rw [split]
    by_cases hb : b = slash
    · simp [hb]
    · rw [if_neg hb]
      cases split r <;> simp

theorem split_append_slash (a b : List UInt8) :
    split (a ++ slash :: b) = split a ++ split b := by
  induction a with
  | nil => simp [split]
  | cons c a ih =>
    rw [List.cons_append]
    by_cases hc : c = slash
    · rw [split, if_pos hc, split, if_pos hc, ih, List.cons_append]
    · rw [split, if_neg hc, ih, split, if_neg hc]
      cases ha : split a with
      | nil => exact absurd ha (split_ne_nil a)
      | cons n ns => rfl

/-- What stands before the name in the path of an entry: the directory and a slash, unless it
ends in one already. -/
def lead (p : Path) : List UInt8 :=
  if p.bytes = [] then [] else if p.endsInSlash then p.bytes else p.bytes ++ [slash]

theorem bytes_join (p : Path) (n : Name) : (p.join n).bytes = p.lead ++ n := by
  rw [join, lead]
  split
  · rfl
  · split <;> simp

theorem length_add_le_length_join (p : Path) (n : Name) :
    p.bytes.length + n.length ≤ (p.join n).bytes.length := by
  rw [bytes_join, List.length_append, lead]
  split
  · rename_i h0
    simp [h0]
  · split <;> simp

theorem lead_cases (p : Path) :
    p.bytes = [] ∧ p.lead = [] ∨
      ∃ a, p.lead = a ++ [slash] ∧ (split a).filter (· ≠ []) = p.steps ∧
        p.lead.head? = p.bytes.head? := by
  rw [lead]
  by_cases h0 : p.bytes = []
  · exact Or.inl ⟨h0, if_pos h0⟩
  · right
    rw [if_neg h0]
    by_cases hs : p.endsInSlash
    · rw [if_pos hs]
      have hl : p.bytes.getLast? = some slash := by simpa [endsInSlash] using hs
      obtain ⟨a, ha⟩ := List.getLast?_eq_some_iff.mp hl
      refine ⟨a, ha, ?_, rfl⟩
      rw [steps, ha, split_append_slash]
      simp [split]
    · rw [if_neg hs]
      refine ⟨p.bytes, rfl, rfl, ?_⟩
      cases hb : p.bytes with
      | nil => exact absurd hb h0
      | cons b r => rfl

theorem steps_join (p : Path) (hn : n.Proper) : (p.join n).steps = p.steps ++ [n] := by
  rw [steps, bytes_join]
  rcases lead_cases p with ⟨h0, hl⟩ | ⟨a, hl, hsteps, -⟩
  · rw [hl, List.nil_append, split_of_notMem hn.slash_notMem, steps, h0]
    simp [split, hn.ne_nil]
  · rw [hl, List.append_assoc, List.singleton_append, split_append_slash, List.filter_append,
      hsteps, split_of_notMem hn.slash_notMem]
    simp [hn.ne_nil]

theorem isAbsolute_join (p : Path) (hn : n.Proper) : (p.join n).isAbsolute = p.isAbsolute := by
  rw [isAbsolute, bytes_join, isAbsolute]
  rcases lead_cases p with ⟨h0, hl⟩ | ⟨a, hl, -, hhead⟩
  · rw [hl, h0, List.nil_append]
    cases hb : n with
    | nil => rfl
    | cons b r =>
      have hne : b ≠ slash := fun e => hn.slash_notMem (by simp [hb, e])
      simp [hne]
  · rw [← hhead, hl]
    cases a <;> rfl

theorem endsInSlash_join (p : Path) (hn : n.Proper) : (p.join n).endsInSlash = false := by
  rw [endsInSlash, bytes_join, List.getLast?_append, decide_eq_false_iff_not]
  cases hb : n.getLast? with
  | none => exact absurd (List.getLast?_eq_none_iff.mp hb) hn.ne_nil
  | some b =>
    intro h
    rw [Option.some_or, Option.some.injEq] at h
    exact hn.slash_notMem (h ▸ List.mem_of_getLast? hb)

theorem zero_mem_join (p : Path) (hn : n.Proper) : 0 ∈ (p.join n).bytes ↔ 0 ∈ p.bytes := by
  have hs : (0 : UInt8) ≠ slash := by decide
  rw [bytes_join, lead]
  split
  · rename_i h0
    simp [h0, hn.zero_notMem]
  · split <;> simp [hn.zero_notMem, hs]

theorem bytes_join_ne_nil (p : Path) (hn : n.Proper) : (p.join n).bytes ≠ [] := by
  rw [bytes_join]
  simp [hn.ne_nil]

theorem trimEnd_part (hne : n ≠ []) (hfree : slash ∉ n) (hhere : n ≠ here) (r : List UInt8) :
    trimEnd (n.reverse ++ r) = n.reverse ++ r := by
  have hslash : ∀ b ∈ n.reverse, b ≠ slash :=
    fun b hb e => hfree (e ▸ List.mem_reverse.mp hb)
  cases hrev : n.reverse with
  | nil => exact absurd (List.reverse_eq_nil_iff.mp hrev) hne
  | cons b tail =>
    rw [hrev] at hslash
    have hb : b ≠ slash := hslash b (by simp)
    cases tail with
    | nil =>
      have hdot : b ≠ dot := by
        intro e
        apply hhere
        rw [← List.reverse_reverse n, hrev, e]
        rfl
      cases r with
      | nil => rfl
      | cons c r => simp [trimEnd, hb, hdot]
    | cons c tail =>
      have hc : c ≠ slash := hslash c (by simp)
      simp [trimEnd, hb, hc]

theorem trimEnd_name (hn : n.Proper) (r : List UInt8) :
    trimEnd (n.reverse ++ r) = n.reverse ++ r :=
  trimEnd_part hn.ne_nil hn.slash_notMem hn.ne_here r

theorem fileName?_join (p : Path) (hn : n.Proper) : (p.join n).fileName? = some n := by
  have hslash : ∀ b ∈ n.reverse, b ≠ slash :=
    fun b hb e => hn.slash_notMem (e ▸ List.mem_reverse.mp hb)
  have htake : (n.reverse ++ p.lead.reverse).takeWhile (· ≠ slash) = n.reverse := by
    rw [List.takeWhile_append_of_pos (by simpa using hslash)]
    rcases lead_cases p with ⟨-, hl⟩ | ⟨a, hl, -, -⟩ <;> simp [hl]
  rw [fileName?, reversedBody, bytes_join, List.reverse_append, trimEnd_name hn, htake,
    List.reverse_reverse, if_neg]
  rintro (h | h | h)
  · exact hn.ne_nil h
  · exact hn.ne_here h
  · exact hn.ne_up h

theorem join_injective (p : Path) (hn : n.Proper) (hm : m.Proper) (h : p.join n = p.join m) :
    n = m := by
  have hname := fileName?_join p hn
  rw [h, fileName?_join p hm] at hname
  exact (Option.some.inj hname).symm

/-- A directory gives different names different paths. -/
theorem nodup_map_join {ns : List Name} (p : Path) (hns : ∀ n ∈ ns, n.Proper) (h : ns.Nodup) :
    (ns.map p.join).Nodup := by
  apply List.Nodup.map_on _ h
  intro n hn m hm he
  exact join_injective p (hns n hn) (hns m hm) he

theorem last_step_of_lastOf {p : Path} (h : FileTree.lastOf p = .name n) :
    p.steps.getLast? = some n ∧ n ≠ here ∧ n ≠ up := by
  rw [FileTree.lastOf] at h
  split at h
  · cases h
  · rename_i m hm
    split at h
    · cases h
    · rename_i hdots
      cases h
      exact ⟨hm, not_or.mp hdots⟩

end Path
end GridPuzzles
