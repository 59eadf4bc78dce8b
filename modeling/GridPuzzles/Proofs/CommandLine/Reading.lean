import GridPuzzles.CommandLine.Command
import GridPuzzles.Proofs.Fallible

/-! What the arguments of a command make of its config. A property of configs that each option and
the positional argument keep is kept by every list of arguments: one argument stores what is
pending before it, and leaves at most one value pending that will be stored in the same way. -/
namespace GridPuzzles
namespace CommandLine

variable {σ : Type} {g : Grammar σ} {P : σ → Prop} {p q : Progress σ} {o : CommandOption σ}
  {arg value : String} {args : List String}

/-- All arguments of a command keep a property of its config. -/
structure Grammar.Keeps (g : Grammar σ) (P : σ → Prop) : Prop where
  switch : ∀ o ∈ g.options, ∀ set, o.effect = .switch set →
    ∀ c c', P c → set c = .ok c' → P c'
  value : ∀ o ∈ g.options, ∀ set, o.effect = .value set →
    ∀ v c c', P c → set c v = .ok c' → P c'
  store : ∀ vs c c', P c → g.store c vs = .ok c' → P c'

def Pending.set? : Pending σ → Option (σ → String → Except Refusal σ)
  | wanting _ set | option set _ => some set
  | nothing | positional _ => none

structure Progress.Keeps (p : Progress σ) (P : σ → Prop) : Prop where
  config : P p.config
  pending : ∀ set, p.pending.set? = some set → ∀ v c c', P c → set c v = .ok c' → P c'

namespace Progress

theorem Keeps.begin {config : σ} (h : P config) : (Progress.begin config).Keeps P :=
  ⟨h, by simp [Progress.begin, Pending.set?]⟩

theorem settle_keeps (hg : g.Keeps P) (hp : p.Keeps P) (h : p.settle g = .ok q) : q.Keeps P := by
  rw [settle] at h
  split at h
  · cases h
    exact hp
  · cases h
  · rename_i set value hpending
    obtain ⟨c, hc, h⟩ := bind_eq_ok.mp h
    cases h
    exact ⟨hp.pending set (by rw [hpending]; rfl) value _ c hp.config hc, by simp [Pending.set?]⟩
  · rename_i values hpending
    obtain ⟨c, hc, h⟩ := bind_eq_ok.mp h
    cases h
    exact ⟨hg.store values _ c hp.config hc, by simp [Pending.set?]⟩

theorem attach_keeps (hg : g.Keeps P) (hp : p.Keeps P) {set : σ → String → Except Refusal σ}
    (hset : ∀ v c c', P c → set c v = .ok c' → P c') (h : p.attach g set value = .ok q) :
    q.Keeps P := by
  obtain ⟨r, hr, h⟩ := bind_eq_ok.mp h
  obtain ⟨c, hc, h⟩ := bind_eq_ok.mp h
  cases h
  have hkeeps := settle_keeps hg hp hr
  exact ⟨hset value _ c hkeeps.config hc, hkeeps.pending⟩

theorem switch_keeps (hg : g.Keeps P) (hp : p.Keeps P) {set : σ → Except Refusal σ}
    (hset : ∀ c c', P c → set c = .ok c' → P c') (h : p.switch g set = .ok q) : q.Keeps P := by
  obtain ⟨r, hr, h⟩ := bind_eq_ok.mp h
  obtain ⟨c, hc, h⟩ := bind_eq_ok.mp h
  cases h
  have hkeeps := settle_keeps hg hp hr
  exact ⟨hset _ c hkeeps.config hc, hkeeps.pending⟩

theorem want_keeps (hg : g.Keeps P) (hp : p.Keeps P) {set : σ → String → Except Refusal σ}
    (hset : ∀ v c c', P c → set c v = .ok c' → P c') (h : p.want g o set = .ok q) :
    q.Keeps P := by
  obtain ⟨r, hr, h⟩ := bind_eq_ok.mp h
  cases h
  refine ⟨(settle_keeps hg hp hr).config, ?_⟩
  intro set' hset'
  cases hset'
  exact hset

theorem help_ne_ok (p : Progress σ) (topic : Topic) : p.help g topic ≠ .ok q := by
  intro h
  obtain ⟨r, -, h⟩ := bind_eq_ok.mp h
  cases h

theorem long_keeps (hg : g.Keeps P) (hp : p.Keeps P) {cs : List Char}
    (h : p.long g cs = .ok q) : q.Keeps P := by
  rw [long] at h
  split at h
  rename_i name attached _
  split at h
  · cases h
  · rename_i o ho
    have hmem := List.mem_of_find?_eq_some ho
    split at h
    · rename_i set v he _
      exact attach_keeps hg hp (hg.value o hmem set he) h
    · rename_i set he _
      exact want_keeps hg hp (hg.value o hmem set he) h
    · cases h
    · rename_i set he _
      exact switch_keeps hg hp (hg.switch o hmem set he) h
    · exact absurd h (help_ne_ok p _)

theorem short_keeps (hg : g.Keeps P) (hp : p.Keeps P) {cs : List Char}
    (h : p.short g cs = .ok q) : q.Keeps P := by
  induction cs generalizing p with
  | nil =>
    cases h
    exact hp
  | cons c cs ih =>
    rw [short] at h
    split at h
    · cases h
    · rename_i o ho
      have hmem := List.mem_of_find?_eq_some ho
      split at h
      · rename_i set he
        obtain ⟨r, hr, h⟩ := bind_eq_ok.mp h
        exact ih (switch_keeps hg hp (hg.switch o hmem set he) hr) h
      · exact absurd h (help_ne_ok p _)
      · rename_i set he
        have hset := hg.value o hmem set he
        split at h
        · exact want_keeps hg hp hset h
        · exact attach_keeps hg hp hset h
        · exact attach_keeps hg hp hset h

theorem place_keeps (hg : g.Keeps P) (hp : p.Keeps P) (h : p.place g arg = .ok q) :
    q.Keeps P := by
  rw [place] at h
  split at h
  · cases h
  · split at h
    · cases h
      exact ⟨hp.config, by simp [Pending.set?]⟩
    · obtain ⟨r, hr, h⟩ := bind_eq_ok.mp h
      cases h
      exact ⟨(settle_keeps hg hp hr).config, by simp [Pending.set?]⟩

theorem next_keeps (hg : g.Keeps P) (hp : p.Keeps P) (h : p.next g arg = .ok q) : q.Keeps P := by
  rw [next] at h
  split at h
  · exact place_keeps hg hp h
  · split at h
    · cases h
      exact ⟨hp.config, hp.pending⟩
    · exact long_keeps hg hp h
    · exact short_keeps hg hp h
    · split at h
      · rename_i o set hpending
        cases h
        refine ⟨hp.config, ?_⟩
        intro set' hset'
        cases hset'
        exact hp.pending set (by rw [hpending]; rfl)
      · exact place_keeps hg hp h

end Progress

/-- What all arguments keep is true of the config that a list of arguments makes. -/
theorem Grammar.Keeps.read (hg : g.Keeps P) {blank c : σ} (hblank : P blank)
    (h : g.read blank args = .ok c) : P c := by
  obtain ⟨p, hp, h⟩ := bind_eq_ok.mp h
  obtain ⟨q, hq, h⟩ := bind_eq_ok.mp h
  cases h
  have hkeeps : p.Keeps P :=
    foldlM_keeps (fun _ _ _ hr h => Progress.next_keeps hg hr h) (.begin hblank) hp
  exact (Progress.settle_keeps hg hkeeps hq).config

def Accepted (cellSize : UInt32) : Prop :=
  1 ≤ cellSize.toNat ∧ cellSize.toNat ≤ Preview.CellSize.largest.toNat

theorem accepted_default : Accepted Preview.CellSize.default := ⟨by decide, by decide⟩

theorem accepted_of_cellSizeValue {shown : String} {n : UInt32}
    (h : cellSizeValue shown value = .ok n) : Accepted n := by
  rw [cellSizeValue] at h
  split at h
  · cases h
  · rename_i i _
    split at h
    · rename_i hrange
      cases h
      have hlargest : Preview.CellSize.largest.toNat = 256 := rfl
      rw [Accepted, hlargest]
      rw [hlargest] at hrange
      have hfit : i.toNat < UInt32.size := by
        simp only [UInt32.size]
        omega
      rw [UInt32.toNat_ofNat_of_lt' hfit]
      omega
    · cases h

theorem once_eq_ok {α : Type} {shown : String} {given : Option α} {v : Except Refusal α}
    {r : Option α} :
    once shown given v = .ok r ↔ given = none ∧ ∃ a, v = .ok a ∧ r = some a := by
  cases given with
  | some _ => simp [once]
  | none =>
    rw [once, map_eq_ok]
    simp [eq_comm]

theorem viewGrammar_keeps :
    viewGrammar.Keeps fun d => ∀ n, d.cellSize = some n → Accepted n := by
  constructor
  case store =>
    intro vs d d' hd h
    obtain ⟨paths, -, h⟩ := bind_eq_ok.mp h
    cases h
    exact hd
  case switch =>
    intro o ho set he
    simp only [viewGrammar, List.mem_cons, List.not_mem_nil, or_false] at ho
    rcases ho with rfl | rfl | rfl <;> cases he
  case value =>
    intro o ho set he v d d' hd h
    simp only [viewGrammar, List.mem_cons, List.not_mem_nil, or_false] at ho
    rcases ho with rfl | rfl | rfl
    · cases he
      obtain ⟨output, -, h⟩ := bind_eq_ok.mp h
      cases h
      exact hd
    · cases he
      obtain ⟨cellSize, hcellSize, h⟩ := bind_eq_ok.mp h
      cases h
      obtain ⟨-, n, hn, rfl⟩ := once_eq_ok.mp hcellSize
      intro m hm
      cases hm
      exact accepted_of_cellSizeValue hn
    · cases he

theorem parse_eq_ok {c : Command} :
    parse args = .ok c ↔
      (∃ rest config, args = "prune" :: rest ∧ readPrune rest = .ok config ∧ c = .prune config) ∨
        ∃ rest config, args = "view" :: rest ∧ readView rest = .ok config ∧ c = .view config := by
  constructor
  · intro h
    cases args with
    | nil => cases h
    | cons arg rest =>
      rw [parse] at h
      split at h
      · rename_i harg
        obtain ⟨config, hconfig, hc⟩ := map_eq_ok.mp h
        exact .inl ⟨rest, config, by rw [harg], hconfig, hc.symm⟩
      · split at h
        · rename_i harg
          obtain ⟨config, hconfig, hc⟩ := map_eq_ok.mp h
          exact .inr ⟨rest, config, by rw [harg], hconfig, hc.symm⟩
        · split at h
          · cases h
          · split at h <;> cases h
  · rintro (⟨rest, config, rfl, h, rfl⟩ | ⟨rest, config, rfl, h, rfl⟩)
    · rw [parse, if_pos rfl, h]
      rfl
    · have hne : "view" ≠ "prune" := by decide
      rw [parse, if_neg hne, if_pos rfl, h]
      rfl

theorem parse_eq_prune {c : Prune.Config} :
    parse args = .ok (.prune c) ↔ ∃ rest, args = "prune" :: rest ∧ readPrune rest = .ok c := by
  simp [parse_eq_ok]

theorem parse_eq_view {c : View.Config} :
    parse args = .ok (.view c) ↔ ∃ rest, args = "view" :: rest ∧ readView rest = .ok c := by
  simp [parse_eq_ok]

theorem accepted_of_parse {c : View.Config} (h : parse args = .ok (.view c)) :
    Accepted c.cellSize := by
  obtain ⟨rest, -, h⟩ := parse_eq_view.mp h
  obtain ⟨d, hd, h⟩ := bind_eq_ok.mp h
  have hkeeps := viewGrammar_keeps.read (by simp) hd
  split at h
  · cases h
  · cases h
    cases hcellSize : d.cellSize with
    | none =>
      rw [Option.getD_none]
      exact accepted_default
    | some n =>
      rw [Option.getD_some]
      exact hkeeps n hcellSize

end CommandLine
end GridPuzzles
