import GridPuzzles.FileTree.Basic
import Mathlib.Tactic.Common

/-! What the changes to a tree do to the entry at each place. Below, a tree is only looked at
through the entries at its places, and the names in a directory are the places below it. -/
namespace GridPuzzles

def Node.find? : Node → Location → Option Node
  | node, [] => some node
  | .directory d, n :: l => Directory.find? d (n :: l)
  | .file _, _ :: _ => none

def Node.entry? (node : Node) (l : Location) : Option Entry := (node.find? l).map Node.entry

@[simp] theorem Node.find?_nil (node : Node) : node.find? [] = some node := by cases node <;> rfl

@[simp] theorem Node.find?_directory (d : Directory) (l : Location) :
    (Node.directory d).find? l = Directory.find? d l := by
  cases l <;> rfl

@[simp] theorem Node.entry?_nil (node : Node) : node.entry? [] = some node.entry := by
  simp [Node.entry?]

@[simp] theorem Node.entry?_file_cons (c : Content) (n : Name) (l : Location) :
    Node.entry? (.file c) (n :: l) = none := rfl

namespace Directory

def entry? (d : Directory) (l : Location) : Option Entry := (d.find? l).map Node.entry

@[simp] theorem entry?_nil (d : Directory) : d.entry? [] = some .directory := rfl

theorem find?_cons (d : Directory) (n : Name) (l : Location) :
    d.find? (n :: l) = (d.lookup n).bind fun node => node.find? l := by
  rw [find?]
  cases d.lookup n with
  | none => rfl
  | some node =>
    cases node with
    | directory e => simp
    | file c => cases l <;> rfl

theorem find?_append (d : Directory) (l k : Location) :
    d.find? (l ++ k) = (d.find? l).bind fun node => node.find? k := by
  induction l generalizing d with
  | nil => simp [find?]
  | cons n l ih =>
    rw [List.cons_append, find?_cons, find?_cons, Option.bind_assoc]
    congr 1
    funext node
    cases node with
    | directory e => simp [ih e]
    | file c =>
      cases l with
      | nil => simp
      | cons m l => rfl

theorem entry?_cons (d : Directory) (n : Name) (l : Location) :
    d.entry? (n :: l) = (d.lookup n).bind fun node => node.entry? l := by
  rw [Directory.entry?, find?_cons, Option.map_bind]
  rfl

theorem lookup_cons_eq (d : Directory) (n m : Name) (node : Node) :
    List.lookup m ((n, node) :: d) = if m = n then some node else d.lookup m := by
  rw [List.lookup_cons]
  by_cases h : m = n
  · subst h
    simp
  · simp [h, beq_false_of_ne h]

theorem lookup_without (d : Directory) (n m : Name) :
    (d.without n).lookup m = if m = n then none else d.lookup m := by
  induction d with
  | nil => simp [without]
  | cons e d ih =>
    obtain ⟨k, node⟩ := e
    by_cases hk : k = n
    · subst hk
      have hw : without ((k, node) :: d) k = without d k := by simp [without]
      rw [hw, ih, lookup_cons_eq]
      by_cases hm : m = k <;> simp [hm]
    · have hw : without ((k, node) :: d) n = (k, node) :: without d n := by simp [without, hk]
      rw [hw, lookup_cons_eq, lookup_cons_eq, ih]
      by_cases hm : m = k
      · simp [hm, hk]
      · simp [hm]

theorem lookup_set (d : Directory) (n m : Name) (node : Node) :
    List.lookup m ((n, node) :: d.without n) = if m = n then some node else d.lookup m := by
  rw [lookup_cons_eq, lookup_without]
  by_cases h : m = n <;> simp [h]

theorem entry?_put {d : Directory} {node : Node} {l : Location} (hl : l ≠ [])
    (h : d.entry? l.dropLast = some .directory) (k : Location) :
    entry? (d.put node l) k =
      if l <+: k then node.entry? (k.drop l.length) else d.entry? k := by
  induction l generalizing d k with
  | nil => exact absurd rfl hl
  | cons n l ih =>
    cases k with
    | nil => simp
    | cons m k =>
      by_cases h0 : l = []
      · subst h0
        rw [put, if_pos rfl, entry?_cons, lookup_set, entry?_cons]
        by_cases hm : m = n
        · simp [hm]
        · simp [hm, Ne.symm hm]
      · rw [List.dropLast_cons_of_ne_nil h0, entry?_cons] at h
        obtain ⟨below, hlook, hbelow⟩ := Option.bind_eq_some_iff.mp h
        cases below with
        | file c =>
          cases hd : l.dropLast <;> simp [hd, Node.entry] at hbelow
        | directory e =>
          have hput : put d node (n :: l) = (n, .directory (put e node l)) :: without d n := by
            rw [put, if_neg h0, hlook]
          rw [hput, entry?_cons, lookup_set, entry?_cons]
          by_cases hm : m = n
          · subst hm
            have hi := ih h0 (by simpa [Node.entry?, entry?] using hbelow) k
            simpa [hlook, Node.entry?, entry?] using hi
          · simp [hm, Ne.symm hm]

theorem entry?_erase {d : Directory} {l : Location} (hl : l ≠ []) (k : Location) :
    entry? (d.erase l) k = if l <+: k then none else d.entry? k := by
  induction l generalizing d k with
  | nil => exact absurd rfl hl
  | cons n l ih =>
    cases k with
    | nil => simp
    | cons m k =>
      by_cases h0 : l = []
      · subst h0
        rw [erase, if_pos rfl, entry?_cons, lookup_without, entry?_cons]
        by_cases hm : m = n
        · simp [hm]
        · simp [hm, Ne.symm hm]
      · rw [erase, if_neg h0]
        split
        · rename_i e hlook
          rw [entry?_cons, lookup_set, entry?_cons]
          by_cases hm : m = n
          · subst hm
            have hi := ih (d := e) h0 k
            simpa [hlook, Node.entry?, entry?] using hi
          · simp [hm, Ne.symm hm]
        · rename_i hlook
          by_cases hp : n :: l <+: m :: k
          · rw [if_pos hp, entry?_cons]
            obtain ⟨rfl, hlk⟩ := List.cons_prefix_cons.mp hp
            cases hn : List.lookup n d with
            | none => rfl
            | some node =>
              cases node with
              | directory e => exact absurd hn (hlook e)
              | file c =>
                cases k with
                | nil => exact absurd (List.prefix_nil.mp hlk) h0
                | cons m k => rfl
          · rw [if_neg hp]

theorem mem_names {d : Directory} {n : Name} : n ∈ names d ↔ (d.lookup n).isSome := by
  induction d with
  | nil => simp [names]
  | cons e d ih =>
    obtain ⟨m, node⟩ := e
    rw [names, List.mem_cons, List.mem_filter, lookup_cons_eq, ih]
    by_cases h : n = m <;> simp [h]

theorem nodup_names (d : Directory) : (names d).Nodup := by
  induction d with
  | nil => simp [names]
  | cons e d ih =>
    obtain ⟨m, node⟩ := e
    rw [names, List.nodup_cons]
    exact ⟨by simp, ih.filter _⟩

end Directory

namespace FileTree

variable {t : FileTree} {l k : Location} {n : Name}

theorem entry?_eq (t : FileTree) (l : Location) : t.entry? l = t.root.entry? l := rfl

@[simp] theorem entry?_root (t : FileTree) : t.entry? [] = some .directory := rfl

theorem isDirectoryAt_iff : t.isDirectoryAt l ↔ t.entry? l = some .directory := by
  rw [isDirectoryAt]
  split
  · rename_i h
    simp [h]
  · rename_i h
    simpa using h

theorem mem_namesAt : n ∈ t.namesAt l ↔ (t.entry? (l ++ [n])).isSome := by
  rw [namesAt]
  rw [entry?_eq, Directory.entry?, Directory.find?_append]
  split
  · rename_i d hd
    rw [Directory.mem_names, hd]
    cases hn : List.lookup n d <;> simp [Directory.find?_cons, hn]
  · rename_i hd
    cases hf : t.root.find? l with
    | none => simp
    | some node =>
      cases node with
      | directory e => exact absurd hf (hd e)
      | file c => simp [Node.find?]

theorem nodup_namesAt (t : FileTree) (l : Location) : (t.namesAt l).Nodup := by
  rw [namesAt]
  split
  · exact Directory.nodup_names _
  · exact List.nodup_nil

theorem entry?_below (h : ¬ t.isDirectoryAt l) (hk : k ≠ []) : t.entry? (l ++ k) = none := by
  rw [isDirectoryAt_iff, entry?_eq, Directory.entry?] at h
  rw [entry?_eq, Directory.entry?, Directory.find?_append]
  cases hf : t.root.find? l with
  | none => rfl
  | some node =>
    cases node with
    | directory e => exact absurd (congrArg (Option.map Node.entry) hf) h
    | file c =>
      cases k with
      | nil => exact absurd rfl hk
      | cons n k => rfl

/-- At or below a place without a directory there is only what is at the place. -/
theorem eq_or_none_below (h : ¬ t.isDirectoryAt l) (hp : l <+: k) :
    k = l ∨ t.entry? k = none := by
  obtain ⟨i, rfl⟩ := hp
  by_cases hi : i = []
  · exact .inl (by rw [hi, List.append_nil])
  · exact .inr (entry?_below h hi)

theorem not_isDirectoryAt_of_file {c : Content} (h : t.entry? l = some (.file c)) :
    ¬ t.isDirectoryAt l := by
  rw [isDirectoryAt_iff, h]
  simp

theorem not_prefix_of_file {c : Content} (h : t.entry? l = some (.file c))
    (hk : t.isDirectoryAt k) : ¬ l <+: k := by
  rintro ⟨j, rfl⟩
  rw [isDirectoryAt_iff] at hk
  by_cases h0 : j = []
  · rw [h0, List.append_nil, h] at hk
    cases hk
  · rw [entry?_below (not_isDirectoryAt_of_file h) h0] at hk
    cases hk

theorem entry?_put {node : Node} (hl : l ≠ []) (h : t.isDirectoryAt l.dropLast)
    (k : Location) :
    entry? (t.put l node) k = if l <+: k then node.entry? (k.drop l.length) else t.entry? k :=
  Directory.entry?_put hl (isDirectoryAt_iff.mp h) k

theorem entry?_put_leaf {node : Node} (hleaf : ∀ n j, node.entry? (n :: j) = none)
    (hk : t.isDirectoryAt k) (hd : ¬ t.isDirectoryAt (k ++ [n])) (j : Location) :
    entry? (t.put (k ++ [n]) node) j =
      if j = k ++ [n] then some node.entry else t.entry? j := by
  rw [entry?_put (by simp) (by rwa [List.dropLast_concat])]
  by_cases hj : j = k ++ [n]
  · rw [if_pos hj, hj, if_pos (List.prefix_refl _), List.drop_length, Node.entry?_nil]
  · rw [if_neg hj]
    by_cases hpre : k ++ [n] <+: j
    · obtain ⟨i, rfl⟩ := hpre
      have hi : i ≠ [] := fun e => hj (by simp [e])
      rw [if_pos (List.prefix_append _ _), List.drop_left, entry?_below hd hi]
      cases i with
      | nil => exact absurd rfl hi
      | cons m i => exact hleaf m i
    · rw [if_neg hpre]

/-- Moving a node moves all that lies at or below its place, and drops what was at or below the
place it goes to. -/
theorem entry?_move {source target : Location} (hs : (t.entry? source).isSome)
    (hs0 : source ≠ []) (ht0 : target ≠ []) (hd : t.isDirectoryAt target.dropLast)
    (hb : ¬ source <+: target.dropLast) (k : Location) :
    entry? (t.move source target) k =
      if target <+: k then t.entry? (source ++ k.drop target.length)
      else if source <+: k then none else t.entry? k := by
  rw [entry?_eq, Directory.entry?, Option.isSome_map] at hs
  obtain ⟨node, hnode⟩ := Option.isSome_iff_exists.mp hs
  have hparent : Directory.entry? (t.root.erase source) target.dropLast = some .directory := by
    rw [Directory.entry?_erase hs0, if_neg hb]
    exact isDirectoryAt_iff.mp hd
  have hmove : (t.move source target).root = (t.root.erase source).put node target := by
    rw [move, hnode]
  rw [entry?_eq, hmove, Directory.entry?_put ht0 hparent, Directory.entry?_erase hs0]
  congr 1
  rw [entry?_eq, Directory.entry?, Directory.find?_append, hnode]
  rfl

theorem workingDirectory_move {source target : Location}
    (h : ¬ source <+: t.workingDirectory) :
    (t.move source target).workingDirectory = t.workingDirectory := by
  have hp : source.isPrefixOf t.workingDirectory = false := by
    rwa [Bool.eq_false_iff, ne_eq, List.isPrefixOf_iff_prefix]
  rw [move]
  split
  · rfl
  · simp [relocated, hp]

end FileTree
end GridPuzzles
