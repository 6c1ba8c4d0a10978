import BananaWrt.UpdateChangelog

/-!
# Commits merged into a section

What `update_changelog` does when the section of the release is there, with each line of the result
told apart by where it comes from, and what it is to do: every bullet under the header of its
category, in the section of the release.
-/

namespace BananaWrt

namespace UpdateChangelog

open Regex

variable (py : Python)

/-- A line was there before, is put around new bullets, or is a new bullet of a category. -/
inductive Origin
  | old
  | frame
  | bullet (category : String)
  deriving DecidableEq, Repr

abbrev Entry := Str × Origin

def texts (es : List Entry) : List Str := es.map Prod.fst

def releaseHeader (releaseDate : Str) : Str := "## [".toList ++ releaseDate ++ "]".toList

def categoryHeader (name : String) : Str := "### ".toList ++ name.toList

/-- Where the bullets of a category go, and whether its header is put before them. -/
def placing (releaseSection : Str) (name : String) (lines : List Str) : Bool × ℕ :=
  let σ := scan py releaseSection (categoryHeader name) 0 ⟨none, none, none, none⟩ lines
  let sectionEnd := σ.sectionEnd.or (lastRule py σ.sectionStart lines)
  match σ.categoryStart with
  | none =>
    let sectionEnd := sectionEnd.getD lines.length
    let sectionFirst := (σ.sectionStart.map (· + 1)).getD 0
    let rule := (List.range sectionEnd).find? fun i =>
      sectionFirst ≤ i ∧ isRule py (lines.getD i [])
    (true, rule.getD sectionEnd)
  | some _ => (false, σ.categoryEnd.getD (sectionEnd.getD lines.length))

def newEntries (header : Bool) (name : String) (bullets : List Str) : List Entry :=
  let new := bullets.map fun b => (b, Origin.bullet name)
  if header then [(categoryHeader name, .frame), ([], .frame)] ++ new ++ [([], .frame)] else new

/-- `mergeCategory` on lines told apart. -/
def mergeEntries (releaseSection : Str) (name : String) (bullets : List Str) (es : List Entry) :
    List Entry :=
  if bullets = [] then es
  else
    let p := placing py releaseSection name (texts es)
    es.take p.2 ++ newEntries p.1 name bullets ++ es.drop p.2

/-- The lines of the file after the merge, `assign` being the new commits of each category. -/
def merged (releaseDate : Str) (assign : String → List Str) (content : Str) : List Entry :=
  categories.foldl
    (fun es name => mergeEntries py (releaseHeader releaseDate) name ((assign name).map bullet) es)
    ((content.splitOn '\n').map fun l => (l, .old))

/-- A line that begins a section of a release, or closes one. -/
def closes (line : Str) : Bool := "## [".toList.isPrefixOf line || isRule py line

def marks (line : Str) : Bool := closes py line || "### ".toList.isPrefixOf line

/-- The last section that begins or ends before a line is the release's, which begins, and the last
header is the category's. -/
structure Inside (releaseSection header : Str) (before : List Str) : Prop where
  release : (before.filter (closes py)).getLast? = some releaseSection
  category : (before.filter (marks py)).getLast? = some header

/-- The lines `s` are those of one section of the release. -/
def IsSection (releaseSection : Str) (es s : List Entry) : Prop :=
  ∃ x r y, es = x ++ r :: (s ++ y) ∧ r.1 = releaseSection ∧ (∀ e ∈ s, closes py e.1 = false)
    ∧ ∀ e ∈ y.head?, closes py e.1 = true

structure PureInsertion (releaseSection : Str) (assign : String → List Str) (lines : List Str)
    (es : List Entry) : Prop where
  /-- The lines that were there are kept in order. -/
  kept : texts (es.filter fun e => e.2 = .old) = lines
  /-- Each bullet is put in once. -/
  once : ∀ name ∈ categories,
    texts (es.filter fun e => e.2 = .bullet name) = (assign name).map bullet
  /-- Each is in the section and under the header of its category. -/
  inside : ∀ name x b y, es = x ++ (b, .bullet name) :: y →
    Inside py releaseSection (categoryHeader name) (texts x)
  /-- That header is there once in the section, if there were no two before. -/
  header : ∀ name s, IsSection py releaseSection es s → (∃ e ∈ s, e.2 = .bullet name) →
    (texts (s.filter fun e => e.2 = .old)).count (categoryHeader name) ≤ 1 →
      (texts s).count (categoryHeader name) = 1

/-- The lines are still there, but for the text in them that tells the date of the release. -/
def KeptButDate (content updated : Str) : Prop :=
  ∃ f : Str → Str, (∀ l, found datePattern l = false → f l = l)
    ∧ ((content.splitOn '\n').map f).Sublist (updated.splitOn '\n')

/-- The lines behind the first header of the release, as far as the next release's. -/
def window (releaseSection : Str) (lines : List Str) : List Str :=
  ((lines.dropWhile (· ≠ releaseSection)).drop 1).takeWhile fun l =>
    l = releaseSection || !"## [".toList.isPrefixOf l

/-- What is read of them on behalf of a category whose header is there: as far as the next category
or rule behind that header. -/
def reading (releaseSection header : Str) (window : List Str) : List Str :=
  window.takeWhile (· ≠ header) ++ (window.dropWhile (· ≠ header)).takeWhile fun l =>
    l = releaseSection || l = header || !("### ".toList.isPrefixOf l || isRule py l)

/-- The release has a header of its own, and if the category has one before the next release's, it
is behind the last of the release's that is read, with no rule between them. -/
structure Placeable (releaseSection header : Str) (lines : List Str) : Prop where
  release : releaseSection ∈ lines
  category : header ∈ window releaseSection lines →
    header ∈ (reading py releaseSection header (window releaseSection lines)).rtakeWhile
        (· ≠ releaseSection)
      ∧ ∀ l ∈ (reading py releaseSection header (window releaseSection lines)).rtakeWhile
        (· ≠ releaseSection), isRule py l = false

end UpdateChangelog

end BananaWrt
