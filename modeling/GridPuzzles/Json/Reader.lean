import GridPuzzles.Json.Failure
import GridPuzzles.Text.Ascii

/-! Readers over the bytes of a document. A reader works on the bytes not yet taken. A failure
that knows its place keeps the bytes that were never looked at; one that does not is placed by
the innermost list or object around it, on the way out. -/
namespace GridPuzzles
namespace Json

inductive Outcome (α : Type) where
  | ok (value : α) (rest : List UInt8)
  /-- A failure still without a place, found before `rest`. -/
  | unplaced (reason : Reason) (rest : List UInt8)
  /-- A failure found when only `unseen` had not been looked at. -/
  | failed (reason : Reason) (unseen : List UInt8)
deriving DecidableEq

namespace Outcome

def map (f : α → β) : Outcome α → Outcome β
  | ok a r => ok (f a) r
  | unplaced e r => unplaced e r
  | failed e u => failed e u

def bind (o : Outcome α) (f : α → List UInt8 → Outcome β) : Outcome β :=
  match o with
  | ok a r => f a r
  | unplaced e r => unplaced e r
  | failed e u => failed e u

def Below (o : Outcome α) (n : Nat) : Prop := ∀ a r, o = ok a r → r.length < n

def Within (o : Outcome α) (n : Nat) : Prop := ∀ a r, o = ok a r → r.length ≤ n

theorem Below.within {o : Outcome α} {n : Nat} (h : o.Below n) : o.Within n :=
  fun a r e => Nat.le_of_lt (h a r e)

theorem Within.below {o : Outcome α} {m n : Nat} (h : o.Within m) (hn : m < n) : o.Below n :=
  fun a r e => Nat.lt_of_le_of_lt (h a r e) hn

theorem Below.mono {o : Outcome α} {m n : Nat} (h : o.Below m) (hn : m ≤ n) : o.Below n :=
  fun a r e => Nat.lt_of_lt_of_le (h a r e) hn

@[simp] theorem below_ok (a : α) (r : List UInt8) (n : Nat) :
    (ok a r).Below n ↔ r.length < n :=
  ⟨fun h => h a r rfl, fun h _ _ e => by cases e; exact h⟩

@[simp] theorem below_unplaced (e : Reason) (r : List UInt8) (n : Nat) :
    (unplaced e r : Outcome α).Below n := fun _ _ h => by cases h

@[simp] theorem below_failed (e : Reason) (u : List UInt8) (n : Nat) :
    (failed e u : Outcome α).Below n := fun _ _ h => by cases h

@[simp] theorem within_ok (a : α) (r : List UInt8) (n : Nat) :
    (ok a r).Within n ↔ r.length ≤ n :=
  ⟨fun h => h a r rfl, fun h _ _ e => by cases e; exact h⟩

@[simp] theorem within_unplaced (e : Reason) (r : List UInt8) (n : Nat) :
    (unplaced e r : Outcome α).Within n := fun _ _ h => by cases h

@[simp] theorem within_failed (e : Reason) (u : List UInt8) (n : Nat) :
    (failed e u : Outcome α).Within n := fun _ _ h => by cases h

theorem Below.map {o : Outcome α} {n : Nat} (f : α → β) (h : o.Below n) : (o.map f).Below n := by
  cases o <;> simp_all [Outcome.map]

theorem Below.bind {o : Outcome α} {f : α → List UInt8 → Outcome β} {n : Nat}
    (h : o.Below n) (hf : ∀ a r, r.length < n → (f a r).Below n) : (o.bind f).Below n := by
  cases o <;> simp_all [Outcome.bind]

end Outcome

/-- A reader takes at least one byte when it succeeds. -/
structure Reader (α : Type) where
  run : List UInt8 → Outcome α
  takes : ∀ bs, (run bs).Below bs.length

def isBlank (b : UInt8) : Bool := b = 0x20 || b = 0x0a || b = 0x09 || b = 0x0d

def skipBlanks (bs : List UInt8) : List UInt8 := bs.dropWhile isBlank

theorem length_skipBlanks_le (bs : List UInt8) : (skipBlanks bs).length ≤ bs.length :=
  (List.dropWhile_sublist _).length_le

theorem length_lt_of_skipBlanks {bs r : List UInt8} {b : UInt8} (h : skipBlanks bs = b :: r) :
    r.length < bs.length := by
  have := length_skipBlanks_le bs
  rw [h] at this
  exact this

/-- Looks for the remaining letters of a word; each letter compared is taken. -/
def word : List UInt8 → List UInt8 → Outcome Unit
  | [], bs => .ok () bs
  | _ :: _, [] => .failed .endInValue []
  | w :: ws, b :: bs => if b = w then word ws bs else .failed .expectedWord bs

theorem word_within (ws bs : List UInt8) : (word ws bs).Within bs.length := by
  induction ws generalizing bs with
  | nil => simp [word]
  | cons w ws ih =>
    cases bs with
    | nil => simp [word]
    | cons b bs =>
      simp only [word]
      split
      · exact fun a r h => Nat.le_succ_of_le (ih bs a r h)
      · simp

namespace Reader

def map (f : α → β) (p : Reader α) : Reader β where
  run bs := (p.run bs).map f
  takes bs := (p.takes bs).map f

/-- Checks a value after it has been read; a refusal has no place yet. -/
def refine (p : Reader α) (f : α → Except Reason β) : Reader β where
  run bs := (p.run bs).bind fun a r =>
    match f a with
    | .ok b => .ok b r
    | .error e => .unplaced e r
  takes bs := (p.takes bs).bind fun a r h => by
    cases f a <;> simp [h]

def parse (p : Reader α) (document : List UInt8) : Except Failure α :=
  let at? (unseen : List UInt8) : Option Position :=
    some (Position.after (document.take (document.length - unseen.length)))
  match p.run document with
  | .ok a rest =>
    match skipBlanks rest with
    | [] => .ok a
    | _ :: unseen => .error ⟨.trailingCharacters, at? unseen⟩
  | .unplaced e _ => .error ⟨e, none⟩
  | .failed e unseen => .error ⟨e, at? unseen⟩

end Reader
end Json
end GridPuzzles
