import GridPuzzles.Proofs.CommandLine.Correspondence

/-! Requests for help and for the version. The reading of arguments ends with an answer only at an
argument that asks for one: options and positional arguments may refuse a value, but they answer
nothing, and that goes for a value which is still pending as well. -/
namespace GridPuzzles
namespace CommandLine

variable {σ α β : Type}

def Silent (x : Except Refusal α) : Prop := ∀ r, x = .error r → r.isAnswer = false

theorem silent_ok (a : α) : Silent (.ok a) := by
  intro r h
  cases h

theorem silent_error {r : Refusal} (h : r.isAnswer = false) :
    Silent (.error r : Except Refusal α) := by
  intro r' h'
  cases h'
  exact h

theorem Silent.bind {x : Except Refusal α} {f : α → Except Refusal β} (hx : Silent x)
    (hf : ∀ a, x = .ok a → Silent (f a)) : Silent (x >>= f) := by
  intro r h
  rcases bind_eq_error.mp h with h | ⟨a, ha, h⟩
  · exact hx r h
  · exact hf a ha r h

def AsksForAnswer (arg : String) : Prop :=
  arg ∈ ["help", "--help", "--version"] ∨ ['-', 'h'] <+: arg.toList ∨ ['-', 'V'] <+: arg.toList

/-- Nothing but the help option of a command answers. -/
structure Grammar.Quiet (g : Grammar σ) : Prop where
  switch : ∀ o ∈ g.options, ∀ set, o.effect = .switch set → ∀ b, Silent (set b)
  value : ∀ o ∈ g.options, ∀ set, o.effect = .value set → ∀ b v, Silent (set b v)
  help : ∀ o ∈ g.options, ∀ topic, o.effect = .help topic → o.long = "help" ∧ o.short = some 'h'
  store : ∀ b vs, Silent (g.store b vs)

variable {g : Grammar σ} {p q : Progress σ} {o : CommandOption σ} {arg : String}
  {args : List String} {b : σ} {cs : List Char} {r : Refusal}

namespace Progress

def Quiet (p : Progress σ) : Prop :=
  ∀ set, p.pending.set? = some set → ∀ b v, Silent (set b v)

/-- A step that does not answer anything, now or when what it leaves pending is stored. -/
structure Fair (x : Except Refusal (Progress σ)) : Prop where
  silent : Silent x
  quiet : ∀ q, x = .ok q → q.Quiet

theorem fair_ok (h : p.Quiet) : Fair (.ok p) := by
  refine ⟨silent_ok p, ?_⟩
  rintro q ⟨⟩
  exact h

theorem fair_error (h : r.isAnswer = false) : Fair (.error r : Except Refusal (Progress σ)) := by
  refine ⟨silent_error h, ?_⟩
  rintro q ⟨⟩

theorem quiet_settled (p : Progress σ) (b : σ) : (p.settled b).Quiet := by
  intro set hset
  cases hset

theorem settle_silent (hg : g.Quiet) (hp : p.Quiet) : Silent (p.settle g) := by
  obtain ⟨config, pending, placed, trailing⟩ := p
  cases pending with
  | nothing => exact silent_ok _
  | wanting o set => exact silent_error rfl
  | option set v => exact (hp set rfl config v).bind fun _ _ => silent_ok _
  | positional vs => exact (hg.store config vs).bind fun _ _ => silent_ok _

theorem fair_settle_bind {f : Progress σ → Except Refusal (Progress σ)} (hg : g.Quiet)
    (hp : p.Quiet) (hf : ∀ b, Fair (f (p.settled b))) : Fair (p.settle g >>= f) := by
  constructor
  case silent =>
    refine (settle_silent hg hp).bind ?_
    intro q hq
    obtain ⟨b, -, rfl⟩ := settle_eq_ok.mp hq
    exact (hf b).silent
  case quiet =>
    intro q h
    obtain ⟨r, hr, h⟩ := bind_eq_ok.mp h
    obtain ⟨b, -, rfl⟩ := settle_eq_ok.mp hr
    exact (hf b).quiet q h

theorem fair_config {x : Except Refusal σ} (hx : Silent x) (p : Progress σ) (b : σ) :
    Fair (x >>= fun c => pure { p.settled b with config := c }) := by
  refine ⟨hx.bind fun _ _ => silent_ok _, ?_⟩
  intro q h
  obtain ⟨c, -, h⟩ := bind_eq_ok.mp h
  cases h
  exact p.quiet_settled c

theorem switch_fair (hg : g.Quiet) (hp : p.Quiet) {set : σ → Except Refusal σ}
    (hset : ∀ b, Silent (set b)) : Fair (p.switch g set) :=
  fair_settle_bind hg hp fun b => fair_config (hset b) p b

theorem attach_fair (hg : g.Quiet) (hp : p.Quiet) {set : σ → String → Except Refusal σ}
    (hset : ∀ b v, Silent (set b v)) (v : String) : Fair (p.attach g set v) :=
  fair_settle_bind hg hp fun b => fair_config (hset b v) p b

theorem want_fair (hg : g.Quiet) (hp : p.Quiet) {set : σ → String → Except Refusal σ}
    (hset : ∀ b v, Silent (set b v)) (o : CommandOption σ) : Fair (p.want g o set) := by
  refine fair_settle_bind hg hp fun b => fair_ok ?_
  rintro set' ⟨⟩
  exact hset

theorem place_fair (hg : g.Quiet) (hp : p.Quiet) (arg : String) : Fair (p.place g arg) := by
  rw [place]
  split
  · exact fair_error rfl
  · split
    · refine fair_ok ?_
      rintro set ⟨⟩
    · refine fair_settle_bind hg hp fun b => fair_ok ?_
      rintro set ⟨⟩

theorem long_fair (hg : g.Quiet) (hp : p.Quiet) (harg : arg.toList = '-' :: '-' :: cs) :
    AsksForAnswer arg ∨ Fair (p.long g cs) := by
  have hsound := splitLong_sound cs
  unfold long
  split
  rename_i name attached hsplit
  rw [hsplit] at hsound
  split
  · exact .inr (fair_error rfl)
  · rename_i o ho
    have hmem := List.mem_of_find?_eq_some ho
    have hname : o.long = name := by simpa using List.find?_some ho
    split
    · rename_i set v he
      exact .inr (attach_fair hg hp (hg.value o hmem set he) v)
    · rename_i set he
      exact .inr (want_fair hg hp (hg.value o hmem set he) o)
    · exact .inr (fair_error rfl)
    · rename_i set he
      exact .inr (switch_fair hg hp (hg.switch o hmem set he))
    · rename_i topic he
      have hhelp : name = "help" := hname.symm.trans (hg.help o hmem topic he).1
      replace hsound : cs = name.toList := hsound
      obtain rfl := eq_of_toList (t := "--help") harg (by rw [hsound, hhelp]; rfl)
      exact .inl (.inl (by simp))

theorem short_fair (hr : g.Regular) (hg : g.Quiet) (hp : p.Quiet) {ch : Char}
    (harg : arg.toList = '-' :: ch :: cs) : AsksForAnswer arg ∨ Fair (p.short g (ch :: cs)) := by
  rw [Progress.short]
  split
  · exact .inr (fair_error rfl)
  · rename_i o ho
    have hmem := List.mem_of_find?_eq_some ho
    have hshort : o.short = some ch := by simpa using List.find?_some ho
    split
    · rename_i set he
      have hnone := hr.switch o hmem ⟨set, he⟩
      rw [hshort] at hnone
      cases hnone
    · rename_i topic he
      have hhelp : some ch = some 'h' := hshort.symm.trans (hg.help o hmem topic he).2
      cases hhelp
      exact .inl (.inr (.inl ⟨cs, harg.symm⟩))
    · rename_i set he
      have hset := hg.value o hmem set he
      right
      split
      · exact want_fair hg hp hset o
      · exact attach_fair hg hp hset _
      · exact attach_fair hg hp hset _

theorem next_fair (hr : g.Regular) (hg : g.Quiet) (hp : p.Quiet) (arg : String) :
    AsksForAnswer arg ∨ Fair (p.next g arg) := by
  rw [next]
  split
  · exact .inr (place_fair hg hp arg)
  · split
    · exact .inr (fair_ok hp)
    · rename_i harg
      exact long_fair hg hp harg
    · rename_i harg
      exact short_fair hr hg hp harg
    · right
      split
      · rename_i o set hpending
        refine fair_ok ?_
        rintro set' ⟨⟩
        exact hp set (by rw [hpending]; rfl)
      · exact place_fair hg hp arg

theorem foldlM_fair (hr : g.Regular) (hg : g.Quiet) (hp : p.Quiet) (args : List String) :
    (∃ arg ∈ args, AsksForAnswer arg) ∨ Fair (args.foldlM (Progress.next g) p) := by
  induction args generalizing p with
  | nil => exact .inr (fair_ok hp)
  | cons arg args ih =>
    rcases next_fair hr hg hp arg with hask | hfair
    · exact .inl ⟨arg, List.mem_cons_self, hask⟩
    · rw [List.foldlM_cons]
      cases hnext : p.next g arg with
      | error r => exact .inr (fair_error (hfair.silent r hnext))
      | ok q =>
        rcases ih (hfair.quiet q hnext) with ⟨other, hmem, hask⟩ | hrest
        · exact .inl ⟨other, List.mem_cons_of_mem _ hmem, hask⟩
        · exact .inr hrest

end Progress

theorem Grammar.Quiet.exists_asks (hg : g.Quiet) (hr : g.Regular)
    (h : g.read b args = .error r) (hanswer : r.isAnswer) : ∃ arg ∈ args, AsksForAnswer arg := by
  have hbegin : (Progress.begin b).Quiet := by
    rintro set ⟨⟩
  rcases Progress.foldlM_fair hr hg hbegin args with hask | hfair
  · exact hask
  · have hsilent : Silent (g.read b args) := hfair.silent.bind fun p hp =>
      (Progress.settle_silent hg (hfair.quiet p hp)).bind fun _ _ => silent_ok _
    rw [hsilent r h] at hanswer
    cases hanswer

/-! The grammars of the commands. -/

end CommandLine
end GridPuzzles
