import GridPuzzles.Json.Skip

/-! Readers of single values and of lists of values of one type. -/
namespace GridPuzzles
namespace Json

/-- The failure for a value of the wrong type. Scalars are read in full first; of a list or an
object only the bracket is looked at. -/
def wrongType {α : Type} (wanted : Wanted) : List UInt8 → Outcome α
  | [] => .failed .endInValue []
  | b :: r =>
    let scalar (found : Found) (letters : List UInt8) : Outcome α :=
      (word letters r).bind fun _ rest => .failed (.wrongType found wanted) rest
    if b = byte 'n' then scalar .null (ascii "ull")
    else if b = byte 't' then scalar (.boolean true) (ascii "rue")
    else if b = byte 'f' then scalar (.boolean false) (ascii "alse")
    else if b = byte '-' || isDigit b then
      (number (b :: r)).bind fun n rest => .failed (.wrongType n.found wanted) (rest.drop 1)
    else if b = byte '"' then
      (textFrom [] r).bind fun bytes rest => .failed (.wrongType (.text bytes) wanted) rest
    else if b = byte '[' then .failed (.wrongType .sequence wanted) r
    else if b = byte '\x7b' then .failed (.wrongType .map wanted) r
    else .failed .expectedValue r

@[simp] theorem wrongType_below {α : Type} (wanted : Wanted) (bs : List UInt8) (n : Nat) :
    (wrongType wanted bs : Outcome α).Below n := by
  have hb : ∀ {β : Type} (o : Outcome β) (f : β → List UInt8 → Outcome α),
      (∀ b r, (f b r).Below n) → (o.bind f).Below n := by
    intro β o f h; cases o <;> simp_all [Outcome.bind]
  unfold wrongType
  split
  · simp
  · simp only
    repeat' split
    all_goals first | exact hb _ _ (by simp) | simp

def bounded (largest : Nat) (wanted : Wanted) (n : Number) (rest : List UInt8) : Outcome Nat :=
  match n with
  | .natural v =>
    if v ≤ largest then .ok v rest else .failed (.outOfRange v wanted) (rest.drop 1)
  | .negative v => .failed (.outOfRange (-v) wanted) (rest.drop 1)
  | .floating bits => .failed (.wrongType (.floating bits) wanted) (rest.drop 1)

namespace Reader

def natural (largest : Nat) (wanted : Wanted) : Reader Nat where
  run bs :=
    match skipBlanks bs with
    | [] => .failed .endInValue []
    | b :: r =>
      if b = byte '-' || isDigit b then (number (b :: r)).bind (bounded largest wanted)
      else wrongType wanted (b :: r)
  takes bs := by
    split
    · simp
    · rename_i b r h
      have := length_skipBlanks_le bs
      rw [h] at this
      split
      · refine ((number_below _).bind fun n s hs => ?_).mono this
        unfold bounded; split
        · split
          · simpa using hs
          · simp
        · simp
        · simp
      · simp

def cell : Reader UInt8 := (natural 255 .byte).map UInt8.ofNat

def cellSize : Reader UInt32 := (natural (UInt32.size - 1) .word).map UInt32.ofNat

def boolean : Reader Bool where
  run bs :=
    match skipBlanks bs with
    | [] => .failed .endInValue []
    | b :: r =>
      if b = byte 't' then (word (ascii "rue") r).map fun _ => true
      else if b = byte 'f' then (word (ascii "alse") r).map fun _ => false
      else wrongType .boolean (b :: r)
  takes bs := by
    split
    · simp
    · rename_i b r h
      have hr := length_lt_of_skipBlanks h
      split
      · exact ((word_within _ r).below hr).map _
      · split
        · exact ((word_within _ r).below hr).map _
        · simp

def text (wanted : Wanted) : Reader (List UInt8) where
  run bs :=
    match skipBlanks bs with
    | [] => .failed .endInValue []
    | b :: r => if b = byte '"' then textFrom [] r else wrongType wanted (b :: r)
  takes bs := by
    split
    · simp
    · rename_i b r h
      split
      · exact (textFrom_below [] r).mono (Nat.le_of_lt (length_lt_of_skipBlanks h))
      · simp

def optional (p : Reader α) : Reader (Option α) where
  run bs :=
    match skipBlanks bs with
    | [] => (p.run []).map some
    | b :: r =>
      if b = byte 'n' then (word (ascii "ull") r).map fun _ => none
      else (p.run (b :: r)).map some
  takes bs := by
    split
    · exact ((p.takes []).map _).mono (by simp)
    · rename_i b r h
      split
      · exact ((word_within _ r).below (length_lt_of_skipBlanks h)).map _
      · have := length_skipBlanks_le bs
        rw [h] at this
        exact ((p.takes _).map _).mono this

end Reader

/-- Finds the next element of a list: true before an element, false before the bracket that
closes the list. `first` if no element has been read yet. -/
def nextElement (first : Bool) (bs : List UInt8) : Outcome Bool :=
  match skipBlanks bs with
  | [] => .failed .endInList []
  | b :: r =>
    if b = byte ']' then .ok false (b :: r)
    else if first then .ok true (b :: r)
    else if b = byte ',' then
      match skipBlanks r with
      | [] => .failed .endInValue []
      | c :: s => if c = byte ']' then .failed .trailingComma s else .ok true (c :: s)
    else .failed .expectedListEnd r

theorem nextElement_within (first : Bool) (bs : List UInt8) :
    (nextElement first bs).Within bs.length := by
  have hb := length_skipBlanks_le bs
  unfold nextElement
  split
  · simp
  · rename_i b r h
    rw [h] at hb
    split
    · simpa using hb
    · split
      · simpa using hb
      · split
        · split
          · simp
          · rename_i c s hs
            have := length_skipBlanks_le r
            rw [hs] at this
            split
            · simp
            · simp at hb this ⊢; omega
        · simp

/-- Leaves a list: takes its closing bracket, and gives an unplaced failure its place. After a
comma one more byte is looked at. -/
def leaveList {α : Type} : Outcome α → Outcome α
  | .ok a rest =>
    match skipBlanks rest with
    | [] => .failed .endInList []
    | b :: r =>
      if b = byte ']' then .ok a r
      else if b = byte ',' then
        match skipBlanks r with
        | [] => .failed .trailingCharacters []
        | c :: s =>
          .failed (if c = byte ']' then .trailingComma else .trailingCharacters) s
      else .failed .trailingCharacters r
  | .unplaced e rest =>
    match skipBlanks rest with
    | [] => .failed e []
    | b :: r => .failed e (if b = byte ',' then (skipBlanks r).drop 1 else r)
  | .failed e unseen => .failed e unseen

theorem leaveList_below {α : Type} {o : Outcome α} {n : Nat} (h : o.Within n) :
    (leaveList o).Below n := by
  cases o with
  | ok a rest =>
    have hr : rest.length ≤ n := by simpa using h
    simp only [leaveList]
    split
    · simp
    · rename_i b r hb
      have := length_lt_of_skipBlanks hb
      split
      · simp; omega
      · split
        · split <;> simp
        · simp
  | unplaced e rest => simp only [leaveList]; split <;> simp
  | failed e u => simp [leaveList]

namespace Reader

def elements (p : Reader α) (first : Bool) (acc : List α) (bs : List UInt8) :
    Outcome (List α) :=
  match _hn : nextElement first bs with
  | .ok false rest => .ok acc.reverse rest
  | .ok true rest =>
    match _hp : p.run rest with
    | .ok a s => elements p false (a :: acc) s
    | .unplaced e s => .unplaced e s
    | .failed e u => .failed e u
  | .unplaced e rest => .unplaced e rest
  | .failed e u => .failed e u
termination_by bs.length
decreasing_by
  have h₁ := nextElement_within first bs _ _ _hn
  have h₂ := p.takes rest _ _ _hp
  omega

theorem elements_within (p : Reader α) (first : Bool) (acc : List α) (bs : List UInt8) :
    (elements p first acc bs).Within bs.length := by
  fun_induction elements p first acc bs with
  | case1 first acc bs rest hn => simpa using nextElement_within _ _ _ _ hn
  | case2 first acc bs rest hn a s hp ih =>
    have h₁ := nextElement_within _ _ _ _ hn
    have h₂ := p.takes rest _ _ hp
    exact fun b t e => Nat.le_trans (ih b t e) (by omega)
  | case3 => simp
  | case4 => simp
  | case5 => simp
  | case6 => simp

def sequence (p : Reader α) : Reader (List α) where
  run bs :=
    match skipBlanks bs with
    | [] => .failed .endInValue []
    | b :: r =>
      if b = byte '[' then leaveList (elements p true [] r)
      else wrongType .sequence (b :: r)
  takes bs := by
    split
    · simp
    · rename_i b r h
      split
      · exact (leaveList_below (elements_within p true [] r)).mono
          (Nat.le_of_lt (length_lt_of_skipBlanks h))
      · simp

end Reader
end Json
end GridPuzzles
