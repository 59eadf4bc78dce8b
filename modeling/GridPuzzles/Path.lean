import GridPuzzles.Text.Ascii
import GridPuzzles.Text.Utf8

/-! File paths as they are written: bytes with slashes between names. Repeated slashes, a dot
between slashes and slashes or dots at the end name nothing of their own. -/
namespace GridPuzzles

abbrev Name := List UInt8

structure Path where
  bytes : List UInt8
deriving DecidableEq, Inhabited, Repr

namespace Path

def slash : UInt8 := byte '/'

def dot : UInt8 := byte '.'

def here : Name := [dot]

def up : Name := [dot, dot]

def ofString (s : String) : Path := ⟨Utf8.encode s⟩

def text (p : Path) : String := String.ofList (Utf8.decode p.bytes)

def split : List UInt8 → List Name
  | [] => [[]]
  | b :: r =>
    if b = slash then [] :: split r
    else
      match split r with
      | [] => [[b]]
      | n :: ns => (b :: n) :: ns

def isAbsolute (p : Path) : Bool := p.bytes.head? = some slash

def endsInSlash (p : Path) : Bool := p.bytes.getLast? = some slash

def steps (p : Path) : List Name := (split p.bytes).filter (· ≠ [])

/-- The parts by which paths are compared. -/
inductive Component where
  | root
  | here
  | up
  | name (n : Name)
deriving DecidableEq, Repr

def component? (n : Name) : Option Component :=
  if n = [] ∨ n = here then none else if n = up then some .up else some (.name n)

def components (p : Path) : List Component :=
  let parts := split p.bytes
  let others := parts.filterMap component?
  if p.isAbsolute then .root :: others
  else if parts.head? = some here then .here :: others
  else others

def sameAs (p q : Path) : Bool := p.components = q.components

/-- Drops slashes, and dots after slashes, from the front of the reversed bytes of a path; a
slash that is all there is stays. -/
def trimEnd : List UInt8 → List UInt8
  | b :: c :: r =>
    if b = slash ∨ (b = dot ∧ c = slash) then trimEnd (c :: r) else b :: c :: r
  | r => r

/-- The reversed bytes up to the end of the last name. -/
def reversedBody (p : Path) : List UInt8 := trimEnd p.bytes.reverse

/-- The last name; none if the path is empty, a slash or a dot, or ends in two dots. -/
def fileName? (p : Path) : Option Name :=
  let n := (p.reversedBody.takeWhile (· ≠ slash)).reverse
  if n = [] ∨ n = here ∨ n = up then none else some n

def beforeName (p : Path) : List UInt8 := (p.reversedBody.dropWhile (· ≠ slash)).reverse

/-- The path without its last component; none for a slash or nothing. -/
def parent? (p : Path) : Option Path :=
  match p.reversedBody with
  | [] => none
  | [b] => if b = slash then none else some ⟨[]⟩
  | body => some ⟨(trimEnd (body.dropWhile (· ≠ slash))).reverse⟩

theorem length_trimEnd_le (bs : List UInt8) : (trimEnd bs).length ≤ bs.length := by
  fun_induction trimEnd bs with
  | case1 b c r _ ih => exact Nat.le_succ_of_le ih
  | case2 => exact Nat.le_refl _
  | case3 => exact Nat.le_refl _

theorem trimEnd_ne_slash (bs r : List UInt8) (h : trimEnd bs = slash :: r) : r = [] := by
  fun_induction trimEnd bs with
  | case1 b c r' _ ih => exact ih h
  | case2 b c r' hb => simp_all
  | case3 bs hbs =>
    cases r with
    | nil => rfl
    | cons c r => exact absurd h (fun e => hbs _ _ _ e)

theorem length_parent?_lt {p q : Path} (h : p.parent? = some q) :
    q.bytes.length < p.bytes.length := by
  have hp : p.reversedBody.length ≤ p.bytes.length := by
    simpa [reversedBody] using length_trimEnd_le p.bytes.reverse
  unfold parent? at h
  split at h
  · simp at h
  · rename_i b hb
    rw [hb] at hp
    split at h
    · simp at h
    · cases h; simpa using Nat.lt_of_succ_le hp
  · rename_i hn hs
    cases h
    cases hb : p.reversedBody with
    | nil => exact absurd hb hn
    | cons b r =>
      have hbs : b ≠ slash := by
        intro e
        subst e
        have := trimEnd_ne_slash _ _ hb
        subst this
        exact hs _ hb
      have h₁ := length_trimEnd_le (r.dropWhile (· ≠ slash))
      have h₂ : (r.dropWhile (· ≠ slash)).length ≤ r.length :=
        (List.dropWhile_sublist _).length_le
      rw [hb] at hp
      simp [hbs] at h₁ h₂ hp ⊢
      omega

/-- The leading parts of a path that name places of their own, the longest first. -/
def above (p : Path) : List Path :=
  match _h : p.parent? with
  | none => []
  | some q => if q.parent? = none then [] else q :: above q
termination_by p.bytes.length
decreasing_by exact length_parent?_lt _h

def join (p : Path) (n : Name) : Path :=
  if p.bytes = [] then ⟨n⟩
  else if p.endsInSlash then ⟨p.bytes ++ n⟩
  else ⟨p.bytes ++ slash :: n⟩

/-- A name as stem and extension: the parts before and after its last dot, unless that dot is
its first byte or there is none. -/
def splitName (n : Name) : Name × Option Name :=
  match n.reverse.dropWhile (· ≠ dot) with
  | [] => (n, none)
  | [_] => (n, none)
  | _ :: stem => (stem.reverse, some (n.reverse.takeWhile (· ≠ dot)).reverse)

def stem? (p : Path) : Option Name := p.fileName?.map fun n => (splitName n).1

def extension (p : Path) : Name := (p.fileName?.bind fun n => (splitName n).2).getD []

/-- Cuts as many bytes off the end of the path as its extension has, and then replaces all that
follows the stem of the last name. -/
def withExtension (p : Path) (ext : Name) : Path :=
  let cut : Path := ⟨p.bytes.take (p.bytes.length - p.extension.length)⟩
  match cut.stem? with
  | none => cut
  | some stem => ⟨cut.beforeName ++ stem ++ dot :: ext⟩

end Path
end GridPuzzles
