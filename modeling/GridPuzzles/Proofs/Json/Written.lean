import GridPuzzles.Json.Written
import GridPuzzles.Proofs.Json.Readers

/-! The written form of values. It is a text of UTF-8, and by the grammar of documents it spells
what it has been written from. -/
namespace GridPuzzles
namespace Json

variable {α β : Type} {a : α} {b : β} {bytes raw name v w : List UInt8} {items : List (List UInt8)}

theorem codePoint_of_lt (n : Nat) (h : n < 0x20) : codePoint n = [UInt8.ofNat n] := by
  revert n
  decide

theorem hexQuad?_control (n : Nat) (h : n < 0x20) :
    hexQuad? (byte '0') (byte '0') (byte (Nat.digitChar (n / 16)))
      (byte (Nat.digitChar (n % 16))) = some n := by
  revert n
  decide

theorem names_writeTextByte (b : UInt8) (h : Names raw name) :
    Names (writeTextByte b ++ raw) (b :: name) := by
  unfold writeTextByte
  split
  · exact .letter (by simp_all [letterEscape?]) h
  split
  · exact .letter (by simp_all [letterEscape?]) h
  iterate 5
    split
    · subst_vars
      exact .letter rfl h
  rename_i hquote hback _ _ _ _ _
  split
  · rename_i hcontrol
    have hlt : b.toNat < 0x20 := UInt8.lt_iff_toNat_lt.mp hcontrol
    have hleading : ¬ isLeadingSurrogate b.toNat := by
      rw [isLeadingSurrogate, Bool.and_eq_true, decide_eq_true_eq, decide_eq_true_eq]
      omega
    have htrailing : ¬ isTrailingSurrogate b.toNat := by
      rw [isTrailingSurrogate, Bool.and_eq_true, decide_eq_true_eq, decide_eq_true_eq]
      omega
    have hnames := Names.numeric (hexQuad?_control _ hlt) hleading htrailing h
    rwa [codePoint_of_lt _ hlt, UInt8.ofNat_toNat] at hnames
  · rename_i hcontrol
    exact .plain (isPlain_iff.mpr ⟨hcontrol, hquote, hback⟩) h

theorem names_written (bytes : List UInt8) : Names (bytes.flatMap writeTextByte) bytes := by
  induction bytes with
  | nil => exact .nil
  | cons b bytes ih => exact names_writeTextByte b ih

theorem writeText_eq (bytes : List UInt8) :
    writeText bytes = quoted (bytes.flatMap writeTextByte) := rfl

theorem isText_writeText (h : Utf8.isText bytes) : Utf8.isText (writeText bytes) := by
  have hascii (b : UInt8) (hb : b < 0x80) : Utf8.isText (writeTextByte b) := by
    refine Utf8.isText_of_ascii ?_
    have hall : ∀ n < 0x80, ∀ x ∈ writeTextByte (UInt8.ofNat n), x < 0x80 := by decide +kernel
    have hbyte := hall b.toNat (UInt8.lt_iff_toNat_lt.mp hb)
    rwa [UInt8.ofNat_toNat] at hbyte
  have hother (b : UInt8) (hb : 0x80 ≤ b) : writeTextByte b = [b] := by
    have hall : ∀ n < 0x100, 0x80 ≤ n → writeTextByte (UInt8.ofNat n) = [UInt8.ofNat n] := by
      decide +kernel
    have hbyte := hall b.toNat b.toNat_lt (UInt8.le_iff_toNat_le.mp hb)
    rwa [UInt8.ofNat_toNat] at hbyte
  have hquote : Utf8.isText [byte '"'] := by decide +kernel
  have hbody := Utf8.isText_flatMap hascii hother h
  rw [writeText_eq, quoted, ← List.singleton_append]
  exact Utf8.isText_append hquote (Utf8.isText_append hbody hquote)

theorem isText_decimal (n : Nat) : Utf8.isText (decimal n) := by
  refine Utf8.isText_of_ascii ?_
  intro d hd
  obtain ⟨c, hc, rfl⟩ := List.mem_map.mp hd
  have hdigit := Nat.isDigit_of_mem_toDigits (by decide) (by decide) hc
  rw [Char.isDigit, Bool.and_eq_true, decide_eq_true_eq, decide_eq_true_eq] at hdigit
  have hlt : c.toNat < 0x80 := Nat.lt_of_le_of_lt (UInt32.le_iff_toNat_le.mp hdigit.2) (by decide)
  rw [UInt8.lt_iff_toNat_lt, UInt8.toNat_ofNat']
  exact Nat.lt_of_le_of_lt (Nat.mod_le _ _) hlt

theorem inside_intercalate {first : Bool} (close : UInt8) (hitems : items ≠ [])
    (hw : Separator first w) :
    Inside close first items (w ++ (List.intercalate [byte ','] items ++ [close])) := by
  induction items generalizing first w with
  | nil => exact absurd rfl hitems
  | cons e items ih =>
    cases items with
    | nil =>
      rw [List.intercalate_singleton]
      exact .cons hw (.close blank_nil)
    | cons e' items =>
      have hcomma : Separator false [byte ','] := ⟨[], [], blank_nil, blank_nil, rfl⟩
      rw [List.intercalate_cons_cons, List.append_assoc, List.append_assoc]
      exact .cons hw (ih (by simp) hcomma)

theorem inside_written (close : UInt8) (items : List (List UInt8)) :
    Inside close true items (List.intercalate [byte ','] items ++ [close]) := by
  by_cases hitems : items = []
  · rw [hitems]
    exact .close blank_nil
  · have hfirst : Separator true [] := blank_nil
    exact inside_intercalate close hitems hfirst

theorem isText_enclose {opening closing : Char} (ho : byte opening < 0x80)
    (hc : byte closing < 0x80) (h : ∀ e ∈ items, Utf8.isText e) :
    Utf8.isText (enclose opening closing items) := by
  have hone {c : UInt8} (hc : c < 0x80) : Utf8.isText [c] :=
    Utf8.isText_of_ascii (List.forall_mem_singleton.mpr hc)
  have hitems : Utf8.isText (List.intercalate [byte ','] items) := by
    induction items with
    | nil => exact Utf8.isText_nil
    | cons e items ih =>
      obtain ⟨he, hrest⟩ := List.forall_mem_cons.mp h
      cases items with
      | nil => rwa [List.intercalate_singleton]
      | cons e' items =>
        rw [List.intercalate_cons_cons]
        exact Utf8.isText_append (Utf8.isText_append he (hone (by decide))) (ih hrest)
  rw [enclose, ← List.singleton_append]
  exact Utf8.isText_append (Utf8.isText_append (hone ho) hitems) (hone hc)

theorem isText_writeList (h : ∀ e ∈ items, Utf8.isText e) : Utf8.isText (writeList items) :=
  isText_enclose (by decide) (by decide) h

theorem isText_writeObject {members : List (String × List UInt8)}
    (h : ∀ m ∈ members, Utf8.isText (ascii m.1) ∧ Utf8.isText m.2) :
    Utf8.isText (writeObject members) := by
  refine isText_enclose (by decide) (by decide) ?_
  intro e he
  obtain ⟨⟨name, value⟩, hm, rfl⟩ := List.mem_map.mp he
  obtain ⟨hname, hvalue⟩ := h _ hm
  have hcolon : Utf8.isText [byte ':'] := by decide +kernel
  simp only
  rw [← List.singleton_append]
  exact Utf8.isText_append (isText_writeText hname) (Utf8.isText_append hcolon hvalue)

theorem listOf_written {P : α → List UInt8 → Prop} {write : α → List UInt8}
    (h : ∀ a, P a (write a)) (as : List α) : ListOf P as (writeList (as.map write)) := by
  refine ⟨as.map write, ?_, _, inside_written _ _, rfl⟩
  rw [List.forall₂_map_right_iff, List.forall₂_same]
  exact fun a _ => h a

theorem members_written (members : List (String × List UInt8)) :
    ∃ es, List.Forall₂ Member (members.map fun m => (ascii m.1, m.2)) es ∧
      Enclosed .object es (writeObject members) := by
  refine ⟨_, ?_, _, inside_written _ _, rfl⟩
  rw [List.forall₂_map_left_iff, List.forall₂_map_right_iff, List.forall₂_same]
  intro m _
  exact ⟨_, [byte ':'], names_written _, ⟨[], [], blank_nil, blank_nil, rfl⟩, rfl⟩

theorem pairOf_written {P : α → List UInt8 → Prop} {Q : β → List UInt8 → Prop} {f g : String}
    (hne : ascii f ≠ ascii g) (hv : P a v) (hw : Q b w) :
    PairOf (ascii f) (ascii g) P Q a b (writeObject [(f, v), (g, w)]) := by
  obtain ⟨es, hes, hobject⟩ := members_written [(f, v), (g, w)]
  refine .object (by simp [Only, hne.symm]) hv (by simp [Only, hne]) hw ?_ hes hobject
  simp

namespace Reader

variable {p : Reader α} {P : α → List UInt8 → Prop}

theorem Reads.parse_spelled (hp : p.Reads P) (hv : P a v) (htext : Utf8.isText v) :
    p.parse v = .ok a := by
  have hend : Utf8.Ending (v ++ []) := ⟨[], by rwa [List.append_nil]⟩
  have hrun := hp.complete hv blank_nil ends_nil hend
  rw [List.nil_append, List.append_nil] at hrun
  exact parse_of_run hrun

end Reader
end Json
end GridPuzzles
