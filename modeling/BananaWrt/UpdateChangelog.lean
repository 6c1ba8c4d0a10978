import BananaWrt.Lib.Regex
import Mathlib.Data.List.DropRight
import Mathlib.Data.List.Infix

/-!
# The changelog

`update_changelog.py` adds the commits since the last release to `CHANGELOG.md`, each as a bullet in
the section of the release. A commit whose signature is that of a bullet in the file is left out;
the signature is made of the first line of the message and of the author's name on one side, of the
bullet's text on the other.
-/

namespace BananaWrt

namespace UpdateChangelog

open Regex Regex.Re

abbrev Str := List Char

/-- What Python knows of a character: `\w`, `\s` and `\d` of `re`, the lower case, what decides
about the form of a final sigma, and which characters a literal stands for where case is ignored. -/
structure Unicode where
  word : Char → Bool
  space : Char → Bool
  digit : Char → Bool
  lowerChar : Char → Str
  cased : Char → Bool
  caseIgnorable : Char → Bool
  agree : Char → Char → Bool
  blank : ∀ c ∈ [' ', '\n', '\r'], space c = true ∧ word c = false ∧ lowerChar c = [c]
  upper : word 'R' = true ∧ ∀ d, 'R' ∉ lowerChar d ∧ 'Σ' ∉ lowerChar d
  mark : ∀ c ∈ ['\n', '\r', '`'], ∀ d, c ∈ lowerChar d ↔ d = c

structure EmojiMatch where
  matchStart : ℕ
  matchEnd : ℕ
  emoji : Str
  deriving DecidableEq, Repr

/-- Python with the `emoji` package, none of whose emoji holds a line end or an `R`. -/
structure Python extends Unicode where
  emojiList : Str → List EmojiMatch
  plain : ∀ s, ∀ e ∈ emojiList s, ∀ c ∈ ['\n', '\r', 'R'], c ∉ e.emoji

variable (py : Python)

/-- The sigma between `b`, read backwards, and `a` is the last letter of a word. -/
def finalSigma (b a : Str) : Bool :=
  (b.dropWhile py.caseIgnorable).head?.any py.cased
    && !(a.dropWhile py.caseIgnorable).head?.any py.cased

def lowerFrom : Str → Str → Str
  | _, [] => []
  | b, c :: a =>
    (if c = 'Σ' then [if finalSigma py b a then 'ς' else 'σ'] else py.lowerChar c)
      ++ lowerFrom (c :: b) a

def lower (s : Str) : Str := lowerFrom py [] s

def strip (s : Str) : Str := (s.dropWhile py.space).rdropWhile py.space

/-- A literal of a pattern. -/
def lit (w : String) : Re Char := Re.lit (fun c d => c = d) w.toList

/-- A literal of a pattern that ignores case. -/
def iLit (w : String) : Re Char := Re.lit py.agree w.toList

def dot (c : Char) : Bool := c ≠ '\n'

/-- The characters that `[^\w\s`-]` leaves. -/
def kept (c : Char) : Bool := py.word c || py.space c || c = '`' || c = '-'

def dropMarks (s : Str) : Str := sub (one fun c => !kept py c) [] s

def normalized (s : Str) : Str :=
  sub (plus true py.space) [' '] (lower py (strip py (dropMarks py s)))

def firstLine (message : Str) : Str := strip py ((message.splitOn '\n').headD [])

def safeAuthor (author : Str) : Str :=
  if author ≠ [] ∧ author ≠ "GitHub Actions".toList then author else "SuperKali".toList

def createCommitSignature (message author : Str) : Str :=
  normalized py (firstLine py message) ++ '|' :: lower py (safeAuthor author)

/-- `- (.+?) by @(\w+)` -/
def bulletPattern : Re Char :=
  seq (lit "- ") (seq (group (plus false dot)) (seq (lit " by @") (group (plus true py.word))))

def lineSignature (line : Str) : Option Str :=
  match first (bulletPattern py) line with
  | some ⟨_, _, [author, commitMsg]⟩ =>
    some (normalized py commitMsg ++ '|' :: lower py author)
  | _ => none

/-- The pattern matches from the beginning of a line and no part of it matches a newline, so each
line is matched for itself. -/
def extractCommitSignatures (content : Str) : List Str :=
  (content.splitOn '\n').filterMap (lineSignature py)

def emojiMap : List (String × String) :=
  [("fix", "🐛"), ("bug", "🐛"), ("feature", "✨"), ("add", "➕"), ("update", "🔄"),
    ("upgrade", "🔼"), ("bump", "🔼"), ("improve", "🌟"), ("enhance", "🌟"), ("optimize", "⚡"),
    ("refactor", "♻️"), ("docs", "📝"), ("doc", "📝"), ("style", "🎨"), ("perf", "⚡"),
    ("test", "🧪"), ("build", "🏗️"), ("ci", "🔄"), ("chore", "🧹"), ("revert", "⏪"),
    ("security", "🔒"), ("remove", "🗑️"), ("config", "⚙️"), ("package", "📦"), ("ui", "💅"),
    ("misc", "🛠️"), ("fan", "🌬️"), ("temp", "🌡️"), ("warning", "⚠️"), ("translation", "🌐"),
    ("network", "🔌"), ("core", "🍌"), ("info", "ℹ️"), ("utils", "🛠️"), ("cleanup", "🧹"),
    ("support", "📢"), ("align", "♻️")]

def leadingEmoji (s : Str) : Option EmojiMatch :=
  (py.emojiList s).head?.filter fun e => e.matchStart = 0

/-- `r` between two word boundaries. -/
def wholeWord (r : Re Char) : Re Char := seq (boundary py.word) (seq r (boundary py.word))

def getEmojiForCommit (commitMsg : Str) : Str :=
  if commitMsg = [] then "🛠️".toList
  else
    match leadingEmoji py commitMsg with
    | some e => e.emoji
    | none =>
      let commitMsgLower := strip py (lower py commitMsg)
      match emojiMap.find? fun k => found (wholeWord py (lit k.1)) commitMsgLower with
      | some k => k.2.toList
      | none => "🛠️".toList

/-- `luci-app-\w+` -/
def luciApp : Re Char := seq (iLit py "luci-app-") (plus true py.word)

def prefixesToRemove : List (Re Char) :=
  [seq start (seq (oneOf [iLit py "package", luciApp py, iLit py "banana-utils",
      iLit py "linkup-optimization", iLit py "modemband"]) (seq (lit ":") (many true py.space))),
    seq start (seq (oneOf [iLit py "fix", iLit py "feat", iLit py "feature", iLit py "add",
      iLit py "update", iLit py "bump", iLit py "improve"]) (seq (lit ":") (many true py.space))),
    seq start (plus true fun c => c = ':' || c = '-' || py.space c)]

def packagePatterns : List (Re Char) :=
  [seq (lit "`") (seq (group (plus true fun c => c ≠ '`')) (lit "`")),
    wholeWord py (group (oneOf [luciApp py, seq (plus true py.word) (iLit py "-utils"),
      iLit py "modemband", iLit py "linkup-optimization", iLit py "sms-tool",
      iLit py "banana-utils"]))]

def packageName (originalMessage : Str) : Option Str :=
  (packagePatterns py).findSome? fun r =>
    (search r [] originalMessage).bind fun m => m.groups.head?

/-- The message without its leading emoji. -/
def afterEmoji (originalMessage : Str) : Str :=
  match leadingEmoji py originalMessage with
  | some e => strip py (originalMessage.drop e.matchEnd)
  | none => originalMessage

def unprefixed (originalMessage : Str) : Str :=
  (prefixesToRemove py).foldl (fun m r => strip py (sub r [] m)) (afterEmoji py originalMessage)

/-- What is left without the emoji and the prefixes, unless it is nothing. -/
def shown (originalMessage : Str) : Str :=
  if unprefixed py originalMessage = [] then originalMessage else unprefixed py originalMessage

/-- The name of a package is set in back-ticks, if there are none yet. -/
def quotePackage (originalMessage message : Str) : Str :=
  match packageName py originalMessage with
  | none => message
  | some name =>
    if name = [] ∨ '`' ∈ message then message
    else if lower py name <:+: lower py message then
      sub (wholeWord py (Re.lit py.agree (lower py name))) ('`' :: name ++ ['`']) message
    else '`' :: name ++ "`: ".toList ++ message

def byAuthor (author : Str) : Str := " by @".toList ++ author

def formatCommitMessage (commitMessage author : Str) : Str :=
  if commitMessage = [] then "🛠️ unknown commit".toList ++ byAuthor author
  else
    let message := firstLine py commitMessage
    if message = [] then "🛠️ empty commit message".toList ++ byAuthor author
    else
      getEmojiForCommit py message
        ++ ' ' :: quotePackage py message (lower py (shown py message))
        ++ byAuthor (safeAuthor author)

structure Commit where
  message : Str
  author : Option Str
  parents : ℕ
  deriving DecidableEq, Repr

def Commit.authorName (c : Commit) : Str :=
  let author := match c.author with
    | some name => if name = [] then "Unknown".toList else name
    | none => "Unknown".toList
  if author = "GitHub Actions".toList then "SuperKali".toList else author

def skipPatterns : List (Re Char) :=
  ["merge", "typo", "readme", "whitespace", "spacing", "indent"].map (fun w => wholeWord py (lit w))
    ++ [seq start (seq (lit "merge") (plus true py.space)),
      seq start (seq (many true py.space) stop)]

def shouldSkipCommit (commitMessage : Str) : Bool :=
  commitMessage = [] ∨ (skipPatterns py).any fun r => found r (strip py (lower py commitMessage))

/-- The commit is neither a merge nor one of those that are skipped. -/
def Commit.listed (c : Commit) : Bool := c.parents ≤ 1 && !shouldSkipCommit py c.message

def Commit.signature (c : Commit) : Str := createCommitSignature py c.message c.authorName

def Commit.formatted (c : Commit) : Str := formatCommitMessage py c.message c.authorName

def getRecentCommits (existingSignatures : List Str) (visible : List Commit) : List Commit :=
  visible.filter fun c => c.listed py && c.signature py ∉ existingSignatures

/-! ## The file -/

def bullet (formatted : Str) : Str := "- ".toList ++ formatted ++ "  ".toList

def join (lines : List Str) : Str := ['\n'].intercalate lines

def insertAt (i : ℕ) (block lines : List Str) : List Str := lines.take i ++ block ++ lines.drop i

def isRule (line : Str) : Bool := strip py line = "---".toList

/-- `section_start`, `section_end`, `category_start` and `category_end`. -/
structure Scan where
  sectionStart : Option ℕ
  sectionEnd : Option ℕ
  categoryStart : Option ℕ
  categoryEnd : Option ℕ
  deriving DecidableEq, Repr

/-- The loop over the lines that looks for the section and the category. -/
def scan (releaseSection header : Str) : ℕ → Scan → List Str → Scan
  | _, σ, [] => σ
  | i, σ, line :: lines =>
    if line = releaseSection then
      scan releaseSection header (i + 1) { σ with sectionStart := some i } lines
    else if σ.sectionStart.isSome ∧ "## [".toList <+: line then { σ with sectionEnd := some i }
    else if σ.sectionStart.isSome ∧ line = header then
      scan releaseSection header (i + 1) { σ with categoryStart := some i } lines
    else if σ.categoryStart.isSome ∧
        ("### ".toList <+: line ∨ "## [".toList <+: line ∨ isRule py line) then
      { σ with categoryEnd := some i }
    else scan releaseSection header (i + 1) σ lines

/-- The last rule after the beginning of the section. -/
def lastRule (sectionStart : Option ℕ) (lines : List Str) : Option ℕ :=
  (List.range lines.length).reverse.find? fun i =>
    isRule py (lines.getD i []) && sectionStart.all (· < i)

/-- The bullets of one category go into the section of the release. -/
def mergeCategory (releaseSection : Str) (name : String) (bullets lines : List Str) : List Str :=
  if bullets = [] then lines
  else
    let header := "### ".toList ++ name.toList
    let σ := scan py releaseSection header 0 ⟨none, none, none, none⟩ lines
    let sectionEnd := σ.sectionEnd.or (lastRule py σ.sectionStart lines)
    match σ.categoryStart with
    | none =>
      let sectionEnd := sectionEnd.getD lines.length
      let sectionFirst := (σ.sectionStart.map (· + 1)).getD 0
      let rule := (List.range sectionEnd).find? fun i =>
        sectionFirst ≤ i ∧ isRule py (lines.getD i [])
      insertAt (rule.getD sectionEnd) ([header, []] ++ bullets ++ [[]]) lines
    | some _ => insertAt (σ.categoryEnd.getD (sectionEnd.getD lines.length)) bullets lines

/-- `CATEGORIES`; a commit of the package feed goes into the first, one of the main repository into
the second. -/
def categories : List String := ["🧩 Additional Packages", "🍌 BananaWRT Core"]

def createNewChangelogEntry (categorized : List (String × List Str)) (releaseDate : Str) : Str :=
  let entries := categorized.flatMap fun k =>
    if k.2 = [] then []
    else ["### ".toList ++ k.1.toList ++ ['\n']] ++ k.2 ++ [[]]
  join ([("## [".toList ++ releaseDate ++ "]\n".toList)] ++ entries ++ ["---\n".toList])

/-- `## \[\d{4}-\d{2}-\d{2}\]` -/
def sectionPattern : Re Char :=
  let d := one py.digit
  seq (lit "## [") (seq d (seq d (seq d (seq d (seq (lit "-") (seq d (seq d (seq (lit "-")
    (seq d (seq d (lit "]")))))))))))

/-- Where the section of a new release goes. -/
def insertIndex (lines : List Str) : Option ℕ :=
  (((List.range lines.length).find? fun i => 0 < i ∧ isRule py (lines.getD i [])).map (· + 1)).or
    (lines.findIdx? fun line => (first (sectionPattern py) line).isSome)

def datePattern : Re Char :=
  seq (lit "📅 Release date: **") (seq (many false dot) (lit "**"))

def newDateLine (date : Str) : Str := "📅 Release date: **".toList ++ date ++ "**".toList

/-- `update_release_date`; `formattedDate` is what `strptime` and `strftime` make of the date. No
part of the pattern matches a newline, so each line is searched for itself. -/
def updateReleaseDate (formattedDate : Option Str) (content : Str) : Str :=
  match formattedDate with
  | none => content
  | some date =>
    let lines := content.splitOn '\n'
    if lines.any (found datePattern) then join (lines.map (sub datePattern (newDateLine date)))
    else
      let content := if content.getLast? = some '\n' then content else content ++ ['\n']
      content ++ newDateLine date ++ ['\n']

/-- A text file is read with every line end as a newline. -/
def readText : Str → Str
  | [] => []
  | '\r' :: '\n' :: s => '\n' :: readText s
  | '\r' :: s => '\n' :: readText s
  | c :: s => c :: readText s

/-- `RELEASE_DATE`, and what the two repositories show. -/
structure Release where
  releaseDate : Str
  formattedDate : Option Str
  mainCommits : List Commit
  packagesCommits : List Commit

def addCommits (rel : Release) (categorized : List (String × List Str)) (content : Str) : Str :=
  let releaseSection := "## [".toList ++ rel.releaseDate ++ "]".toList
  let lines := content.splitOn '\n'
  if releaseSection <:+: content then
    join (categorized.foldl (fun lines k => mergeCategory py releaseSection k.1 k.2 lines) lines)
  else
    let newEntry := createNewChangelogEntry categorized rel.releaseDate
    match insertIndex py lines with
    | none => content ++ '\n' :: newEntry
    | some i => join (insertAt i [newEntry] lines)

/-- `update_changelog`: what the file holds afterwards. -/
def updateChangelog (rel : Release) (file : Str) : Str :=
  let content := readText file
  let existing := extractCommitSignatures py content
  let mainCommits := getRecentCommits py existing rel.mainCommits
  let packagesCommits := getRecentCommits py existing rel.packagesCommits
  if mainCommits ++ packagesCommits = [] then file
  else
    let categorized := categories.zip
      [packagesCommits.map fun c => bullet (c.formatted py),
        mainCommits.map fun c => bullet (c.formatted py)]
    updateReleaseDate rel.formattedDate (addCommits py rel categorized content)

/-! ## What can be read back -/

/-- What else is known of the tables and of the package: white space is its own lower case and no
other character's, and separates words for the final sigma; a text begins with the emoji that is
found at its beginning. -/
structure Documented : Prop where
  colon : py.word ':' = false
  sigma : py.space 'Σ' = false ∧
    ∀ c ∈ ['σ', 'ς'], py.word c = py.word 'Σ' ∧ py.space c = false ∧ py.lowerChar c = [c]
  space : ∀ c, py.space c = true →
    py.lowerChar c = [c] ∧ py.cased c = false ∧ py.caseIgnorable c = false
  lowerChar : ∀ c, py.lowerChar c ≠ [] ∧ ∀ d ∈ py.lowerChar c, py.space d = true → py.space c = true
  emoji : ∀ s, ∀ e ∈ py.emojiList s,
    ' ' ∉ e.emoji ∧ (e.matchStart = 0 → s = e.emoji ++ s.drop e.matchEnd)

/-- It is the same whether the lower case of the character is taken before or after the marks are
dropped. -/
def Steady (c : Char) : Prop :=
  (dropMarks py (py.lowerChar c)).flatMap py.lowerChar = if kept py c then py.lowerChar c else []

instance : DecidablePred (Steady py) := fun _ => inferInstanceAs (Decidable (_ = _))

/-- The form of a sigma, which goes by the letters around it, is the same, too. -/
def SigmaSteady (s : Str) : Prop :=
  ∀ b a, s = b ++ 'Σ' :: a →
    finalSigma py b.reverse a = finalSigma py (dropMarks py b).reverse (dropMarks py a)

def colonOrSpace (c : Char) : Bool := c = ':' || py.space c

/-- The text has neither of the first two prefixes, and nothing of the third but colons and white
space. -/
def Bare (s : Str) : Prop :=
  (∀ r ∈ (prefixesToRemove py).take 2, found r s = false)
    ∧ (s.dropWhile (colonOrSpace py)).head? ≠ some '-'

instance : DecidablePred (Bare py) := fun _ => inferInstanceAs (Decidable (_ ∧ _))

/-- The message behind its leading emoji, colons and white space, and the whole of one that is
nothing but emoji and prefixes. -/
def remainder (message : Str) : Str :=
  if unprefixed py message = [] then message
  else strip py ((afterEmoji py message).dropWhile (colonOrSpace py))

/-- The first line of a message can be read back from its bullet, with its author. -/
structure Readable (message author : Str) : Prop where
  nonempty : message ≠ []
  /-- No prefix is lost. -/
  bare : unprefixed py message = [] ∨ Bare py (afterEmoji py message)
  /-- The emoji holds nothing that a signature keeps, or it is the message's own, and is set off by
  white space there as it is in the bullet. -/
  emoji : dropMarks py (getEmojiForCommit py message) = [] ∨
    unprefixed py message ≠ [] ∧ ∃ e ∈ leadingEmoji py message,
      ∀ c ∈ (dropMarks py (message.drop e.matchEnd)).head?, py.space c = true
  oneLine : '\r' ∉ remainder py message
  steady : ∀ c ∈ remainder py message, c ≠ 'Σ' → Steady py c
  sigma : SigmaSteady py (remainder py message)
  /-- No package is set in back-ticks. -/
  package : packageName py message = none ∨ '`' ∈ remainder py message
  /-- The text does not look as if it named its author. -/
  mention : found (seq (lit " by @") (one py.word)) (' ' :: lower py (remainder py message)) = false
  author : ∀ c ∈ author, py.word c = true

def Commit.Recoverable (c : Commit) : Prop :=
  Readable py (firstLine py c.message) (safeAuthor c.authorName)

/-- The commits that an update adds. -/
def added (rel : Release) (file : Str) : List Commit :=
  getRecentCommits py (extractCommitSignatures py (readText file))
    (rel.mainCommits ++ rel.packagesCommits)

/-- Each commit that the file has already has a bullet that can still be read when the date of the
release that it tells is replaced. -/
def DatesApart (rel : Release) (date file : Str) : Prop :=
  ∀ c ∈ rel.mainCommits ++ rel.packagesCommits, c.listed py →
    c.signature py ∈ extractCommitSignatures py (readText file) →
      ∃ line ∈ (readText file).splitOn '\n',
        lineSignature py (sub datePattern (newDateLine date) line) = some (c.signature py)
          ∧ ∀ d ∈ sub datePattern (newDateLine date) line, d ≠ '\n' ∧ d ≠ '\r'

end UpdateChangelog

end BananaWrt
