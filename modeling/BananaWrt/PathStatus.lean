import BananaWrt.Lib.Run
import BananaWrt.ModemRegistry
import Mathlib.Logic.Function.Basic

/-!
# The statuses of device paths

A status is kept in a line `path,status` of a text file. `m_del_physical_path_status` has `sed`
delete the lines that a path is found in, `m_get_physical_path_status` has `awk` print the second
field of those lines, and `m_set_physical_path_status` deletes the lines and appends a new one. For
both tools the path is a regular expression, basic for the one and extended for the other.
-/

namespace BananaWrt

namespace PathStatus

open Regex (Re found)
open Registry (agree)

/-- A field of a line. -/
structure Text where
  chars : List Char
  no_comma : ',' ∉ chars
  no_newline : '\n' ∉ chars
  deriving DecidableEq

/-- The path of a device. -/
abbrev Path := Text

abbrev Status := Text

/-- Letters, digits and signs of which the dot alone is special in a regular expression. -/
def Plain (t : Text) : Prop := ∀ c ∈ t.chars, c.isAlphanum ∨ c ∈ ['/', ':', '.', '-', '_']

instance (t : Text) : Decidable (Plain t) := inferInstanceAs (Decidable (∀ c ∈ t.chars, _))

/-- `s/[\/&]/\\&/g` -/
def escape (chars : List Char) : List Char :=
  chars.flatMap fun c => if c = '/' ∨ c = '&' then ['\\', c] else [c]

/-- `sed p l` says that `/p/` selects the line `l`, and `awk p l` that `$0 ~ p` holds of it. In a
pattern of plain characters a dot stands for any character, and the others for themselves. -/
structure Tools where
  sed : List Char → List Char → Bool
  awk : List Char → List Char → Bool
  sed_plain : ∀ (p : Path) (line : List Char), Plain p →
    sed (escape p.chars) line = found (.lit agree p.chars) line
  awk_plain : ∀ (p : Path) (line : List Char), Plain p →
    awk p.chars line = found (.lit agree p.chars) line

/-- A line of the file. -/
structure Rec where
  path : Path
  status : Status
  deriving DecidableEq

def Rec.line (r : Rec) : List Char := r.path.chars ++ ',' :: r.status.chars

section Operations

variable (t : Tools) (cache : List Rec)

/-- `sed` selects the line when it is given the path. -/
def SedFinds (p : Path) (r : Rec) : Prop := t.sed (escape p.chars) r.line

/-- The line is not a comment, and the path is found in it. -/
def AwkFinds (p : Path) (r : Rec) : Prop := ¬ ['#'] <+: r.line ∧ t.awk p.chars r.line

instance (p : Path) (r : Rec) : Decidable (SedFinds t p r) := inferInstanceAs (Decidable (_ = _))

instance (p : Path) (r : Rec) : Decidable (AwkFinds t p r) := inferInstanceAs (Decidable (_ ∧ _))

def mDelPhysicalPathStatus (p : Path) : List Rec := cache.filter fun r => ¬ SedFinds t p r

/-- The lines that are printed: `$2` of each line that is found. -/
def mGetPhysicalPathStatus (p : Path) : List (List Char) :=
  (cache.filter fun r => AwkFinds t p r).map fun r => (r.line.splitOn ',').getD 1 []

def mSetPhysicalPathStatus (p : Path) (status : Status) : List Rec :=
  mDelPhysicalPathStatus t cache p ++ [⟨p, status⟩]

end Operations

inductive Input where
  | set (p : Path) (status : Status)
  | del (p : Path)
  | get (p : Path)
  deriving DecidableEq

def Input.path : Input → Path
  | .set p _ => p
  | .del p => p
  | .get p => p

/-- `expected p` is the status that was last set for `p` and not deleted since. -/
structure St where
  cache : List Rec
  expected : Path → Option Status

/-- Without a file. -/
def St.start : St where
  cache := []
  expected := fun _ => none

def step (t : Tools) (s : St) : Input → Option St
  | .set p status => some
    { cache := mSetPhysicalPathStatus t s.cache p status
      expected := Function.update s.expected p (some status) }
  | .del p => some
    { cache := mDelPhysicalPathStatus t s.cache p
      expected := Function.update s.expected p none }
  | .get _ => some s

/-- A path gets its own status on a line, and what is done to it leaves what the other paths in `ps`
get. -/
def Right (t : Tools) (ps : List Path) (s : St) : Input → Prop
  | .get p => mGetPhysicalPathStatus t s.cache p = ((s.expected p).map Text.chars).toList
  | .set p status => ∀ q ∈ ps, q ≠ p →
    mGetPhysicalPathStatus t (mSetPhysicalPathStatus t s.cache p status) q
      = mGetPhysicalPathStatus t s.cache q
  | .del p => ∀ q ∈ ps, q ≠ p →
    mGetPhysicalPathStatus t (mDelPhysicalPathStatus t s.cache p) q
      = mGetPhysicalPathStatus t s.cache q

/-- With the path that is set or deleted `sed` selects the line of that path and no other, and of
the paths in `ps` a new line is found by `awk` with its own and no other. -/
def Apart (t : Tools) (ps : List Path) (s : St) : Input → Prop
  | .get _ => True
  | .set p status => (∀ r ∈ s.cache, SedFinds t p r ↔ r.path = p)
    ∧ ∀ q ∈ ps, AwkFinds t q ⟨p, status⟩ ↔ q = p
  | .del p => ∀ r ∈ s.cache, SedFinds t p r ↔ r.path = p

instance (t : Tools) (ps : List Path) (s : St) : ∀ i, Decidable (Right t ps s i)
  | .get p => inferInstanceAs
    (Decidable (mGetPhysicalPathStatus t s.cache p = ((s.expected p).map Text.chars).toList))
  | .set p _ => inferInstanceAs (Decidable (∀ q ∈ ps, q ≠ p → _ = _))
  | .del p => inferInstanceAs (Decidable (∀ q ∈ ps, q ≠ p → _ = _))

instance (t : Tools) (ps : List Path) (s : St) : ∀ i, Decidable (Apart t ps s i)
  | .get _ => .isTrue trivial
  | .set p status => inferInstanceAs (Decidable ((∀ r ∈ s.cache, SedFinds t p r ↔ r.path = p)
    ∧ ∀ q ∈ ps, AwkFinds t q ⟨p, status⟩ ↔ q = p))
  | .del p => inferInstanceAs (Decidable (∀ r ∈ s.cache, SedFinds t p r ↔ r.path = p))

end PathStatus

end BananaWrt
