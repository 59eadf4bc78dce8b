import GridPuzzles.Json.Value

/-! Records. A record is read from an object, whose other members are skipped, or from a list
of its fields in order. -/
namespace GridPuzzles
namespace Json

structure Field (σ : Type) where
  name : String
  given : σ → Bool
  read : σ → Reader σ

/-- A record: `blank` has no field, and `finish` asks for those that are needed. -/
structure Record (σ α : Type) where
  name : String
  fields : List (Field σ)
  blank : σ
  finish : σ → Except Reason α

/-- Finds the next key of an object; none before the bracket that closes the object. `first` if
no member has been read yet. -/
def nextKey (first : Bool) (bs : List UInt8) : Outcome (Option (List UInt8)) :=
  match skipBlanks bs with
  | [] => .failed .endInObject []
  | b :: r =>
    if b = byte '\x7d' then .ok none (b :: r)
    else if first then
      if b = byte '"' then (textFrom [] r).map some else .failed .keyNotText r
    else if b = byte ',' then
      match skipBlanks r with
      | [] => .failed .endInValue []
      | c :: s =>
        if c = byte '"' then (textFrom [] s).map some
        else .failed (if c = byte '\x7d' then .trailingComma else .keyNotText) s
    else .failed .expectedObjectEnd r

theorem nextKey_within (first : Bool) (bs : List UInt8) :
    (nextKey first bs).Within bs.length := by
  unfold nextKey
  split
  · simp
  · rename_i b r h
    have hr := length_lt_of_skipBlanks h
    split
    · simpa using Nat.succ_le_of_lt hr
    · split
      · split
        · exact (((textFrom_below [] r).map _).mono (Nat.le_of_lt hr)).within
        · simp
      · split
        · split
          · simp
          · rename_i c s hs
            have := length_lt_of_skipBlanks hs
            split
            · exact (((textFrom_below [] s).map _).mono (by omega)).within
            · simp
        · simp

/-- Leaves an object: takes its closing bracket, and gives an unplaced failure its place. -/
def leaveObject {α : Type} : Outcome α → Outcome α
  | .ok a rest =>
    match skipBlanks rest with
    | [] => .failed .endInObject []
    | b :: r =>
      if b = byte '\x7d' then .ok a r
      else .failed (if b = byte ',' then .trailingComma else .trailingCharacters) r
  | .unplaced e rest => .failed e ((skipBlanks rest).drop 1)
  | .failed e unseen => .failed e unseen

theorem leaveObject_below {α : Type} {o : Outcome α} {n : Nat} (h : o.Within n) :
    (leaveObject o).Below n := by
  cases o with
  | ok a rest =>
    have hr : rest.length ≤ n := by simpa using h
    simp only [leaveObject]
    split
    · simp
    · rename_i b r hb
      have := length_lt_of_skipBlanks hb
      split
      · simp; omega
      · simp
  | unplaced e rest => simp [leaveObject]
  | failed e u => simp [leaveObject]

namespace Record

def member (d : Record σ α) (s : σ) (key rest : List UInt8) : Outcome σ :=
  match d.fields.find? fun f => ascii f.name = key with
  | some f =>
    if f.given s then .unplaced (.repeatedField f.name) rest
    else (colon rest).bind fun _ r => (f.read s).run r
  | none => (colon rest).bind fun _ r => (skip.run r).map fun _ => s

theorem member_below (d : Record σ α) (s : σ) (key rest : List UInt8) :
    (d.member s key rest).Below rest.length := by
  unfold member
  split
  · split
    · simp
    · exact (colon_below rest).bind fun _ r h => ((Reader.takes _ r).mono (Nat.le_of_lt h))
  · exact (colon_below rest).bind fun _ r h => (((skip.takes r).map _).mono (Nat.le_of_lt h))

def members (d : Record σ α) (first : Bool) (s : σ) (bs : List UInt8) : Outcome σ :=
  match _hk : nextKey first bs with
  | .ok none rest => .ok s rest
  | .ok (some key) rest =>
    match _hm : d.member s key rest with
    | .ok t r => d.members false t r
    | .unplaced e r => .unplaced e r
    | .failed e u => .failed e u
  | .unplaced e rest => .unplaced e rest
  | .failed e u => .failed e u
termination_by bs.length
decreasing_by
  have h₁ := nextKey_within first bs _ _ _hk
  have h₂ := d.member_below s key rest _ _ _hm
  omega

theorem members_within (d : Record σ α) (first : Bool) (s : σ) (bs : List UInt8) :
    (d.members first s bs).Within bs.length := by
  fun_induction members d first s bs with
  | case1 first s bs rest hk => simpa using nextKey_within _ _ _ _ hk
  | case2 first s bs key rest hk t r hm ih =>
    have h₁ := nextKey_within _ _ _ _ hk
    have h₂ := d.member_below s key rest _ _ hm
    exact fun b u e => Nat.le_trans (ih b u e) (by omega)
  | case3 => simp
  | case4 => simp
  | case5 => simp
  | case6 => simp

def inOrder (d : Record σ α) (count : Nat) (s : σ) : List (Field σ) → List UInt8 → Outcome σ
  | [], bs => .ok s bs
  | f :: fs, bs =>
    (nextElement (count = 0) bs).bind fun more r =>
      if more then ((f.read s).run r).bind fun t r => d.inOrder (count + 1) t fs r
      else .unplaced (.tooFewFields count d.name d.fields.length) r

theorem inOrder_within (d : Record σ α) (count : Nat) (s : σ) (fs : List (Field σ))
    (bs : List UInt8) : (d.inOrder count s fs bs).Within bs.length := by
  induction fs generalizing count s bs with
  | nil => simp [inOrder]
  | cons f fs ih =>
    intro a u
    simp only [inOrder]
    cases hn : nextElement (count = 0) bs with
    | ok more r =>
      have hr := nextElement_within _ _ _ _ hn
      cases more with
      | false => simp [Outcome.bind]
      | true =>
        simp only [Outcome.bind, if_true]
        cases hf : (f.read s).run r with
        | ok t v =>
          have hv := (f.read s).takes r _ _ hf
          exact fun e => Nat.le_trans (ih _ _ _ a u e) (by omega)
        | unplaced e v => simp
        | failed e v => simp
    | unplaced e r => simp [Outcome.bind]
    | failed e r => simp [Outcome.bind]

def complete (d : Record σ α) (o : Outcome σ) : Outcome α :=
  o.bind fun s r =>
    match d.finish s with
    | .ok a => .ok a r
    | .error e => .unplaced e r

theorem complete_within (d : Record σ α) {o : Outcome σ} {n : Nat} (h : o.Within n) :
    (d.complete o).Within n := by
  cases o with
  | ok s r =>
    have hr : r.length ≤ n := by simpa using h
    simp only [complete, Outcome.bind]
    split <;> simp [hr]
  | unplaced e r => simp [complete, Outcome.bind]
  | failed e u => simp [complete, Outcome.bind]

def reader (d : Record σ α) : Reader α where
  run bs :=
    match skipBlanks bs with
    | [] => .failed .endInValue []
    | b :: r =>
      if b = byte '[' then leaveList (d.complete (d.inOrder 0 d.blank d.fields r))
      else if b = byte '\x7b' then leaveObject (d.complete (d.members true d.blank r))
      else wrongType (.record d.name) (b :: r)
  takes bs := by
    split
    · simp
    · rename_i b r h
      have hr := Nat.le_of_lt (length_lt_of_skipBlanks h)
      split
      · exact (leaveList_below (d.complete_within (d.inOrder_within _ _ _ _))).mono hr
      · split
        · exact (leaveObject_below (d.complete_within (d.members_within _ _ _))).mono hr
        · simp

end Record

def firstField (name : String) (p : Reader α) : Field (Option α × Option β) where
  name := name
  given s := s.1.isSome
  read s := p.map fun a => (some a, s.2)

def secondField (name : String) (p : Reader β) : Field (Option α × Option β) where
  name := name
  given s := s.2.isSome
  read s := p.map fun b => (s.1, some b)

/-- A record of two fields, both needed; the first is asked for first. -/
def pairRecord (name : String) (first : String × Reader α) (second : String × Reader β) :
    Record (Option α × Option β) (α × β) where
  name := name
  fields := [firstField first.1 first.2, secondField second.1 second.2]
  blank := (none, none)
  finish
    | (some a, some b) => .ok (a, b)
    | (none, _) => .error (.missingField first.1)
    | (_, none) => .error (.missingField second.1)

end Json
end GridPuzzles
