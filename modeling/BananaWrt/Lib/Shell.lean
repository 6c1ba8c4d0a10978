import Mathlib.Data.List.Flatten
import Mathlib.Data.List.ReduceOption
import Mathlib.Tactic.Common
import Mathlib.Tactic.SplitIfs

/-!
# Lines of a shell

A line is read character by character into words and operators (`step`, `tokens`): a backslash, an
apostrophe and a quotation mark quote, a dollar and a backquote begin expansions, and what ends a
word is a blank or an operator. `commands` are the words of the simple commands of the line. The
words are expanded to fields (`fields`): the home directory for a tilde, the values of the
expansions, which are split at blanks, and the names of the files that a field with `*`, `?` or `[`
finds.

How far an expansion in braces, in parentheses or in backquotes goes is found by counting (`nest`).
A backslash at the end of the line, and a dollar that begins no expansion, stand for themselves.
Here-documents, reserved words and assignments are not treated.
-/

namespace Shell

/-- A piece of a word. `null` stands where a quotation begins, so that an empty one is not lost. The
text of an expansion is all that stands for it. -/
inductive Part where
  | char (c : Char)
  | quoted (c : Char)
  | null
  | expansion (inQuotes : Bool) (text : List Char)
  deriving DecidableEq

/-- A redirection may have a number before it. -/
inductive Token where
  | word (parts : List Part)
  | operator (number : List Part) (chars : List Char)
  deriving DecidableEq

/-- What is open within an expansion. -/
inductive Open where
  | brace
  | paren
  | backquote
  | single
  | double
  | escape
  | dollar
  deriving DecidableEq

/-- What the next character belongs to. -/
inductive Mode where
  | between
  | word
  | escape
  | dollar
  | single
  | double
  | doubleEscape
  | doubleDollar
  | name (inQuotes : Bool) (text : List Char)
  | nested (inQuotes : Bool) (text : List Char) (stack : List Open)
  | comment
  | operator (chars : List Char)
  deriving DecidableEq

/-- `parts` are those of the word that is being read. -/
structure State where
  mode : Mode
  parts : List Part
  tokens : List Token
  deriving DecidableEq

def start : State where
  mode := .between
  parts := []
  tokens := []

def isBlank (c : Char) : Bool := c = ' ' || c = '\t'

def isOperator (c : Char) : Bool := c ∈ ['&', '|', ';', '<', '>', '(', ')', '\n']

/-- The operators of more than one character. -/
def longOperators : List (List Char) :=
  [['&', '&'], ['|', '|'], [';', ';'], ['<', '<'], ['>', '>'], ['<', '&'], ['>', '&'], ['<', '>'],
    ['>', '|'], ['<', '<', '-']]

def isName (c : Char) : Bool := c.isAlphanum || c = '_'

/-- The parameters of one character: the digits and the special ones. -/
def isSpecial (c : Char) : Bool := c.isDigit || c ∈ ['@', '*', '#', '?', '-', '$', '!']

/-- Whether a dollar before the character begins an expansion. -/
def beginsExpansion (c : Char) : Bool := isName c || isSpecial c || c = '{' || c = '('

/-- The character after what is open, the innermost first. -/
def inner (stack : List Open) (c : Char) : List Open :=
  if c = '\\' then .escape :: stack
  else if c = '$' then .dollar :: stack
  else match stack with
    | .double :: rest =>
      if c = '"' then rest else if c = '`' then .backquote :: stack else stack
    | top :: rest =>
      if top = .brace ∧ c = '}' ∨ top = .paren ∧ c = ')' ∨ top = .backquote ∧ c = '`' then rest
      else if c = '"' then .double :: stack
      else if c = '\'' then .single :: stack
      else if c = '`' then .backquote :: stack
      else if top = .paren ∧ c = '(' then .paren :: stack
      else stack
    | [] => []

def nest (stack : List Open) (c : Char) : List Open :=
  match stack with
  | .escape :: rest => rest
  | .single :: rest => if c = '\'' then rest else stack
  | .dollar :: rest =>
    if c = '{' then .brace :: rest else if c = '(' then .paren :: rest else inner rest c
  | stack => inner stack c

namespace State

variable (s : State)

def emit (mode : Mode) (parts : List Part) : State :=
  { s with mode := mode, parts := s.parts ++ parts }

/-- The end of a word. -/
def endWord (mode : Mode) : State where
  mode := mode
  parts := []
  tokens := s.tokens ++ [.word s.parts]

def endOperator (chars : List Char) : State where
  mode := .between
  parts := []
  tokens := s.tokens ++ [.operator s.parts chars]

/-- The end of an expansion. -/
def endExpansion (inQuotes : Bool) (text : List Char) : State :=
  s.emit (if inQuotes then .double else .word) [.expansion inQuotes text]

/-- A character of a word that no quotation is open in. -/
def stepWord (c : Char) : State :=
  if c = '\\' then { s with mode := .escape }
  else if c = '$' then { s with mode := .dollar }
  else if c = '`' then { s with mode := .nested false ['`'] [.backquote] }
  else if c = '\'' then s.emit .single [.null]
  else if c = '"' then s.emit .double [.null]
  else s.emit .word [.char c]

/-- The first character of a token. -/
def stepBetween (c : Char) : State :=
  if isBlank c then s
  else if isOperator c then { s with mode := .operator [c] }
  else if c = '#' then { s with mode := .comment }
  else s.stepWord c

def isNumber : Bool :=
  s.parts ≠ [] && s.parts.all fun p => match p with
    | .char c => c.isDigit
    | _ => false

/-- A later one. A number before a redirection belongs to the operator. -/
def stepInWord (c : Char) : State :=
  if isBlank c then s.endWord .between
  else if isOperator c then
    if (c = '<' ∨ c = '>') ∧ s.isNumber then { s with mode := .operator [c] }
    else s.endWord (.operator [c])
  else s.stepWord c

def stepDouble (c : Char) : State :=
  if c = '\\' then { s with mode := .doubleEscape }
  else if c = '$' then { s with mode := .doubleDollar }
  else if c = '`' then { s with mode := .nested true ['`'] [.backquote] }
  else if c = '"' then { s with mode := .word }
  else s.emit .double [.quoted c]

/-- The character after a dollar that begins an expansion. -/
def stepExpansion (inQuotes : Bool) (c : Char) : State :=
  if c = '{' then { s with mode := .nested inQuotes ['$', '{'] [.brace] }
  else if c = '(' then { s with mode := .nested inQuotes ['$', '('] [.paren] }
  else if isSpecial c then s.endExpansion inQuotes ['$', c]
  else { s with mode := .name inQuotes ['$', c] }

end State

def step (s : State) (c : Char) : State :=
  match s.mode with
  | .between => s.stepBetween c
  | .word => s.stepInWord c
  | .escape =>
    if c = '\n' then { s with mode := if s.parts = [] then .between else .word }
    else s.emit .word [.quoted c]
  | .dollar =>
    if beginsExpansion c then s.stepExpansion false c else (s.emit .word [.char '$']).stepInWord c
  | .single => if c = '\'' then { s with mode := .word } else s.emit .single [.quoted c]
  | .double => s.stepDouble c
  | .doubleEscape =>
    if c = '\n' then { s with mode := .double }
    else if c ∈ ['$', '`', '"', '\\'] then s.emit .double [.quoted c]
    else s.emit .double [.quoted '\\', .quoted c]
  | .doubleDollar =>
    if beginsExpansion c then s.stepExpansion true c
    else (s.emit .double [.quoted '$']).stepDouble c
  | .name inQuotes text =>
    if isName c then { s with mode := .name inQuotes (text ++ [c]) }
    else
      let s := s.endExpansion inQuotes text
      if inQuotes then s.stepDouble c else s.stepInWord c
  | .nested inQuotes text stack =>
    let stack := nest stack c
    if stack = [] then s.endExpansion inQuotes (text ++ [c])
    else { s with mode := .nested inQuotes (text ++ [c]) stack }
  | .comment => if c = '\n' then { s with mode := .operator [c] } else s
  | .operator chars =>
    if longOperators.contains (chars ++ [c]) then { s with mode := .operator (chars ++ [c]) }
    else (s.endOperator chars).stepBetween c

/-- The tokens at the end of the line, `none` if a quotation or an expansion is not closed. -/
def finish (s : State) : Option (List Token) :=
  match s.mode with
  | .between | .comment => some s.tokens
  | .word => some (s.endWord .between).tokens
  | .escape => some ((s.emit .word [.quoted '\\']).endWord .between).tokens
  | .dollar => some ((s.emit .word [.char '$']).endWord .between).tokens
  | .name false text => some ((s.endExpansion false text).endWord .between).tokens
  | .operator chars => some (s.endOperator chars).tokens
  | _ => none

def tokens (line : List Char) : Option (List Token) := finish (line.foldl step start)

/-! ## Commands -/

def isRedirection (operator : List Char) : Bool := operator.head? ∈ [some '<', some '>']

/-- The words between the operators; those that a redirection names are left out. -/
def commandsFrom (words : List (List Part)) : List Token → List (List (List Part))
  | [] => [words]
  | .word parts :: rest => commandsFrom (words ++ [parts]) rest
  | .operator _ chars :: rest =>
    if isRedirection chars then
      match rest with
      | .word _ :: rest => commandsFrom words rest
      | rest => commandsFrom words rest
    else words :: commandsFrom [] rest

/-- The simple commands of a line. -/
def commands (tokens : List Token) : List (List (List Part)) :=
  (commandsFrom [] tokens).filter (· ≠ [])

/-- What a line finds: the home directory of a login name, `[]` for the one whose shell it is; the
value of an expansion; the files that are found. -/
structure Env where
  home : List Char → Option (List Char)
  value : List Char → List Char
  glob : List Part → List (List Char)

/-- Whether a command is run for the value of the expansion. -/
def runsCommand (text : List Char) : Bool :=
  text.head? = some '`' || ("$(".toList.isPrefixOf text && !"$((".toList.isPrefixOf text)

def Part.text : Part → List Char
  | .char c | .quoted c => [c]
  | .null | .expansion _ _ => []

/-- The text without the quotation marks. -/
def text (parts : List Part) : List Char := parts.flatMap Part.text

def Part.isChar : Part → Bool
  | .char _ => true
  | _ => false

/-- The login name after a tilde at the front of a word, if no character of it is quoted. -/
def loginName (parts : List Part) : Option (List Char) :=
  let name := parts.tail.takeWhile (· ≠ .char '/')
  if .char '~' ∈ parts.head? ∧ name.all Part.isChar then some (text name) else none

def expandTilde (env : Env) (parts : List Part) : List Part :=
  match loginName parts with
  | none => parts
  | some name =>
    match env.home name with
    | none => parts
    | some dir => dir.map .quoted ++ parts.drop (name.length + 1)

/-- Whether the shell looks for files. -/
def IsPattern (parts : List Part) : Prop :=
  .char '*' ∈ parts ∨ .char '?' ∈ parts ∨ [.char '[', .char ']'].Sublist parts

instance (parts : List Part) : Decidable (IsPattern parts) :=
  inferInstanceAs (Decidable (_ ∨ _ ∨ _))

/-- A piece of an expanded word, `none` where it is split. -/
def expandPart (env : Env) : Part → List (Option Part)
  | .expansion true text => (env.value text).map fun c => some (.quoted c)
  | .expansion false text =>
    (env.value text).map fun c => if isBlank c || c = '\n' then none else some (.char c)
  | p => [some p]

/-- The names that the field finds, or else its text. -/
def expandField (env : Env) (parts : List Part) : List (List Char) :=
  if IsPattern parts ∧ env.glob parts ≠ [] then env.glob parts else [text parts]

/-- The fields of a word. -/
def fields (env : Env) (parts : List Part) : List (List Char) :=
  let pieces := (expandTilde env parts).flatMap (expandPart env)
  (((pieces.splitOn none).map List.reduceOption).filter (· ≠ [])).flatMap (expandField env)

def Token.text : Token → List Char
  | .word parts => Shell.text parts
  | .operator number _ => Shell.text number

/-- What has been read, without the quotation marks, the operators and the expansions. -/
def State.emitted (s : State) : List Char := s.tokens.flatMap Token.text ++ text s.parts

/-- A character that has been read and stands for itself at the end of the line. -/
def Mode.pending : Mode → List Char
  | .escape | .doubleEscape => ['\\']
  | .dollar | .doubleDollar => ['$']
  | _ => []

variable {s s' : State} {c : Char}

theorem text_append (ps qs : List Part) : text (ps ++ qs) = text ps ++ text qs :=
  List.flatMap_append

@[simp] theorem emitted_emit (mode : Mode) (ps : List Part) :
    (s.emit mode ps).emitted = s.emitted ++ text ps := by
  unfold State.emitted State.emit
  dsimp only
  rw [text_append, List.append_assoc]

@[simp] theorem emitted_endWord (mode : Mode) : (s.endWord mode).emitted = s.emitted := by
  unfold State.emitted State.endWord
  dsimp only
  rw [List.flatMap_append, List.flatMap_singleton]
  exact List.append_nil _

@[simp] theorem emitted_endOperator (chars : List Char) :
    (s.endOperator chars).emitted = s.emitted := by
  unfold State.emitted State.endOperator
  dsimp only
  rw [List.flatMap_append, List.flatMap_singleton]
  exact List.append_nil _

/-- From `s` to `s'` no more is emitted than `l`, and what is pending then is within it too. -/
def Emits (s s' : State) (l : List Char) : Prop :=
  ∃ e, s'.emitted = s.emitted ++ e ∧ (e ++ s'.mode.pending).Sublist l

theorem Emits.of_mode {mode : Mode} {l : List Char} (h : mode.pending.Sublist l) :
    Emits s { s with mode := mode } l :=
  ⟨[], (List.append_nil _).symm, h⟩

theorem Emits.of_emit {mode : Mode} {ps : List Part} {l : List Char}
    (h : (text ps ++ mode.pending).Sublist l) : Emits s (s.emit mode ps) l :=
  ⟨text ps, emitted_emit mode ps, h⟩

theorem Emits.of_endWord {mode : Mode} {l : List Char} (h : mode.pending.Sublist l) :
    Emits s (s.endWord mode) l :=
  ⟨[], by rw [emitted_endWord, List.append_nil], h⟩

theorem Emits.of_eq {s₁ : State} {l : List Char} (heq : s₁.emitted = s.emitted)
    (h : Emits s₁ s' l) : Emits s s' l := by
  obtain ⟨e, he, hsub⟩ := h
  exact ⟨e, by rw [he, heq], hsub⟩

/-- What is emitted first, and what after it. -/
theorem Emits.append {s₁ : State} {e l : List Char} (heq : s₁.emitted = s.emitted ++ e)
    (h : Emits s₁ s' l) : Emits s s' (e ++ l) := by
  obtain ⟨e', he, hsub⟩ := h
  refine ⟨e ++ e', by rw [he, heq, List.append_assoc], ?_⟩
  rw [List.append_assoc]
  exact hsub.append_left e

theorem Emits.mono {l l' : List Char} (h : Emits s s' l) (hsub : l.Sublist l') : Emits s s' l' := by
  obtain ⟨e, he, hl⟩ := h
  exact ⟨e, he, hl.trans hsub⟩

/-! A character is all that is emitted for it. -/

theorem emits_stepWord : Emits s (s.stepWord c) [c] := by
  unfold State.stepWord
  split_ifs with h1 h2 h3 h4 h5
  · exact .of_mode (by rw [h1]; exact .refl _)
  · exact .of_mode (by rw [h2]; exact .refl _)
  · exact .of_mode (List.nil_sublist _)
  · exact .of_emit (List.nil_sublist _)
  · exact .of_emit (List.nil_sublist _)
  · exact .of_emit (.refl _)

theorem emits_stepBetween (h : s.mode.pending = []) : Emits s (s.stepBetween c) [c] := by
  unfold State.stepBetween
  split_ifs
  · exact ⟨[], (List.append_nil _).symm, by rw [h]; exact List.nil_sublist _⟩
  · exact .of_mode (List.nil_sublist _)
  · exact .of_mode (List.nil_sublist _)
  · exact emits_stepWord

theorem emits_stepInWord : Emits s (s.stepInWord c) [c] := by
  unfold State.stepInWord
  split_ifs
  · exact .of_endWord (List.nil_sublist _)
  · exact .of_mode (List.nil_sublist _)
  · exact .of_endWord (List.nil_sublist _)
  · exact emits_stepWord

theorem emits_stepDouble : Emits s (s.stepDouble c) [c] := by
  unfold State.stepDouble
  split_ifs with h1 h2 h3 h4
  · exact .of_mode (by rw [h1]; exact .refl _)
  · exact .of_mode (by rw [h2]; exact .refl _)
  · exact .of_mode (List.nil_sublist _)
  · exact .of_mode (List.nil_sublist _)
  · exact .of_emit (.refl _)

theorem emits_endExpansion (b : Bool) (t : List Char) : Emits s (s.endExpansion b t) [] := by
  cases b <;> exact .of_emit (.refl _)

theorem emits_stepExpansion (b : Bool) : Emits s (s.stepExpansion b c) [] := by
  unfold State.stepExpansion
  split_ifs
  · exact .of_mode (.refl _)
  · exact .of_mode (.refl _)
  · exact emits_endExpansion _ _
  · exact .of_mode (.refl _)

theorem emits_step : Emits s (step s c) (s.mode.pending ++ [c]) := by
  have hadd : List.Sublist [c] (s.mode.pending ++ [c]) := List.sublist_append_right _ _
  unfold step
  rcases hmode : s.mode with _ | _ | _ | _ | _ | _ | _ | _ | ⟨b, t⟩ | ⟨b, t, stack⟩ | _ | chars
  case between => exact emits_stepBetween (by rw [hmode]; rfl)
  case word => exact emits_stepInWord
  case escape =>
    dsimp only
    split_ifs
    · exact .of_mode (List.nil_sublist _)
    · exact .of_mode (List.nil_sublist _)
    · exact .of_emit (List.sublist_append_right _ _)
  case dollar =>
    dsimp only
    split_ifs
    · exact (emits_stepExpansion _).mono (List.nil_sublist _)
    · exact emits_stepInWord.append (emitted_emit _ _)
  case single =>
    dsimp only
    split_ifs
    · exact .of_mode (List.nil_sublist _)
    · exact .of_emit (.refl _)
  case double => exact emits_stepDouble
  case doubleEscape =>
    dsimp only
    split_ifs
    · exact .of_mode (List.nil_sublist _)
    · exact .of_emit (List.sublist_append_right _ _)
    · exact .of_emit (.refl _)
  case doubleDollar =>
    dsimp only
    split_ifs
    · exact (emits_stepExpansion _).mono (List.nil_sublist _)
    · exact emits_stepDouble.append (emitted_emit _ _)
  case name =>
    dsimp only
    have hend : (s.endExpansion b t).emitted = s.emitted ++ [] := emitted_emit _ _
    split_ifs
    · exact .of_mode (List.nil_sublist _)
    · exact emits_stepDouble.append hend
    · exact emits_stepInWord.append hend
  case nested =>
    dsimp only
    split_ifs
    · exact (emits_endExpansion _ _).mono (List.nil_sublist _)
    · exact .of_mode (List.nil_sublist _)
  case comment =>
    dsimp only
    split_ifs
    · exact .of_mode (List.nil_sublist _)
    · exact ⟨[], (List.append_nil _).symm, by rw [hmode]; exact List.nil_sublist _⟩
  case operator =>
    dsimp only
    split_ifs
    · exact .of_mode (List.nil_sublist _)
    · exact (emits_stepBetween rfl).of_eq (emitted_endOperator chars)

/-- No more is emitted than what is read. -/
theorem emits_foldl : ∀ (l : List Char) (s : State),
    Emits s (l.foldl step s) (s.mode.pending ++ l)
  | [], s => ⟨[], (List.append_nil _).symm, by simp⟩
  | c :: l, s => by
    obtain ⟨e, he, hsub⟩ := emits_step (s := s) (c := c)
    refine ((emits_foldl l (step s c)).append he).mono ?_
    rw [← List.append_assoc, List.append_cons]
    exact hsub.append_right l

/-- The text of all words. -/
def textOf (tokens : List Token) : List Char := tokens.flatMap Token.text

theorem textOf_sublist : (textOf s.tokens).Sublist s.emitted := List.sublist_append_left _ _

theorem textOf_finish {toks : List Token} (h : finish s = some toks) :
    (textOf toks).Sublist (s.emitted ++ s.mode.pending) := by
  have hend : ∀ s₁ : State, s₁.emitted = s.emitted ++ s.mode.pending →
      (textOf s₁.tokens).Sublist (s.emitted ++ s.mode.pending) := by
    intro s₁ h₁
    rw [← h₁]
    exact textOf_sublist
  unfold finish at h
  split at h
  case h_1 =>
    cases h
    exact textOf_sublist.trans (List.sublist_append_left _ _)
  case h_2 =>
    cases h
    exact textOf_sublist.trans (List.sublist_append_left _ _)
  case h_3 hmode =>
    cases h
    exact hend _ (by rw [emitted_endWord, hmode]; exact (List.append_nil _).symm)
  case h_4 hmode =>
    cases h
    exact hend _ (by rw [emitted_endWord, emitted_emit, hmode]; rfl)
  case h_5 hmode =>
    cases h
    exact hend _ (by rw [emitted_endWord, emitted_emit, hmode]; rfl)
  case h_6 hmode =>
    cases h
    refine hend _ ?_
    rw [emitted_endWord, hmode]
    exact emitted_emit _ _
  case h_7 hmode =>
    cases h
    exact hend _ (by rw [emitted_endOperator, hmode]; exact (List.append_nil _).symm)
  case h_8 => cases h

/-- The words have no more text than what was emitted before and what is read. -/
theorem textOf_foldl {l : List Char} {toks : List Token} (h : finish (l.foldl step s) = some toks) :
    ∃ e, (textOf toks).Sublist (s.emitted ++ e) ∧ e.Sublist (s.mode.pending ++ l) := by
  obtain ⟨e, he, hsub⟩ := emits_foldl l s
  have hfin := textOf_finish h
  rw [he, List.append_assoc] at hfin
  exact ⟨_, hfin, hsub⟩

/-- Where nothing is split, a word is one field, or none. -/
theorem fields_of_notMem {env : Env} {parts : List Part}
    (h : none ∉ (expandTilde env parts).flatMap (expandPart env)) :
    fields env parts =
      let field := ((expandTilde env parts).flatMap (expandPart env)).reduceOption
      if field = [] then [] else expandField env field := by
  unfold fields
  dsimp only
  rw [List.splitOn_eq_singleton h, List.map_singleton]
  split_ifs with hnil
  · rw [hnil]
    rfl
  · rw [List.filter_cons_of_pos (by simpa using hnil), List.filter_nil, List.flatMap_singleton]

/-- A word without expansions is its text, or the files that it finds. -/
theorem fields_of_plain {env : Env} {parts : List Part} (htilde : loginName parts = none)
    (hexp : ∀ p ∈ parts, expandPart env p = [some p]) (hne : parts ≠ []) :
    fields env parts = expandField env parts := by
  have hparts : (expandTilde env parts).flatMap (expandPart env) = parts.map some := by
    unfold expandTilde
    rw [htilde]
    dsimp only
    rw [List.flatMap_congr hexp, List.map_eq_flatMap]
  have hfield : (parts.map some).reduceOption = parts := by
    unfold List.reduceOption
    rw [List.filterMap_map]
    exact List.filterMap_some
  rw [fields_of_notMem, hparts, hfield]
  · dsimp only
    rw [if_neg hne]
  · rw [hparts]
    simp

theorem text_chars (l : List Char) : text (l.map .char) = l := by
  unfold text
  rw [List.flatMap_map]
  exact List.flatMap_singleton' l

theorem char_mem_map {l : List Char} {c : Char} : .char c ∈ l.map Part.char ↔ c ∈ l :=
  List.mem_map_of_injective fun _ _ => Part.char.inj

/-- A word of characters that are not special. -/
theorem fields_chars {env : Env} {l : List Char} (hne : l ≠ []) (htilde : '~' ∉ l) (hstar : '*' ∉ l)
    (hquestion : '?' ∉ l) (hbracket : '[' ∉ l) : fields env (l.map .char) = [l] := by
  have hlogin : loginName (l.map .char) = none := by
    refine if_neg fun h => htilde (char_mem_map.1 ?_)
    exact List.mem_of_mem_head? h.1
  have hplain : ¬ IsPattern (l.map .char) := by
    rintro (h | h | h)
    · exact hstar (char_mem_map.1 h)
    · exact hquestion (char_mem_map.1 h)
    · exact hbracket (char_mem_map.1 (h.subset List.mem_cons_self))
  rw [fields_of_plain hlogin _ (by simpa using hne)]
  · unfold expandField
    rw [if_neg fun h => hplain h.1, text_chars]
  · intro p hp
    obtain ⟨c, -, rfl⟩ := List.mem_map.1 hp
    rfl

/-- Nothing is set, and there are no files. -/
def Env.empty : Env where
  home := fun _ => some []
  value := fun _ => []
  glob := fun _ => []

theorem text_pieces : ∀ parts : List Part,
    text ((parts.flatMap (expandPart .empty)).reduceOption) = text parts
  | [] => rfl
  | p :: parts => by
    have ih := text_pieces parts
    rw [List.flatMap_cons, List.reduceOption_append, text_append, ih]
    cases p with
    | expansion b t => cases b <;> rfl
    | _ => rfl

/-- With nothing set, the fields of a word have no more than its text. -/
theorem fields_empty (parts : List Part) :
    fields .empty parts = [text (expandTilde .empty parts)] ∨ fields .empty parts = [] := by
  have hpieces : none ∉ (expandTilde .empty parts).flatMap (expandPart .empty) := by
    intro hmem
    obtain ⟨p, -, hp⟩ := List.mem_flatMap.1 hmem
    cases p with
    | expansion b t => cases b <;> exact absurd hp List.not_mem_nil
    | _ => exact absurd (List.mem_singleton.1 hp) nofun
  rw [fields_of_notMem hpieces]
  dsimp only
  split_ifs
  · exact .inr rfl
  · left
    unfold expandField
    rw [if_neg (fun h => h.2 rfl), text_pieces]

theorem flatten_fields_sublist (parts : List Part) :
    (fields .empty parts).flatten.Sublist (text parts) := by
  have htilde : (text (expandTilde .empty parts)).Sublist (text parts) := by
    unfold expandTilde
    rcases loginName parts with _ | name
    · exact .refl _
    · exact (List.drop_sublist _ parts).flatMap _
  rcases fields_empty parts with h | h
  · rw [h, List.flatten_singleton]
    exact htilde
  · rw [h]
    exact List.nil_sublist _

/-- The words of the commands are among the words of the line. -/
theorem commandsFrom_sublist (words : List (List Part)) (tokens : List Token) :
    (((commandsFrom words tokens).flatten).flatMap text).Sublist
      (words.flatMap text ++ textOf tokens) := by
  fun_induction commandsFrom words tokens with
  | case1 words => simp [textOf]
  | case2 words parts rest ih =>
    rw [List.flatMap_append, List.flatMap_singleton, List.append_assoc] at ih
    exact ih
  | case3 words number chars hred parts rest ih =>
    refine ih.trans (List.Sublist.append_left ?_ _)
    exact (List.sublist_append_right _ _).trans (List.sublist_append_right _ _)
  | case4 words number chars rest hred hrest ih =>
    exact ih.trans (List.Sublist.append_left (List.sublist_append_right _ _) _)
  | case5 words number chars rest hred ih =>
    rw [List.flatten_cons, List.flatMap_append]
    exact List.Sublist.append_left (ih.trans (List.sublist_append_right _ _)) _

theorem commands_sublist (tokens : List Token) :
    (((commands tokens).flatten).flatMap text).Sublist (textOf tokens) := by
  have hfilter : (commands tokens).flatten.Sublist (commandsFrom [] tokens).flatten :=
    List.Sublist.flatten List.filter_sublist
  exact (hfilter.flatMap _).trans (commandsFrom_sublist [] tokens)

theorem flatten_flatten_map (f : List Part → List (List Char)) :
    ∀ commands : List (List (List Part)),
      (commands.map fun words => words.flatMap f).flatten.flatten
        = commands.flatten.flatMap fun parts => (f parts).flatten
  | [] => rfl
  | words :: commands => by
    have hwords : (words.flatMap f).flatten = words.flatMap fun parts => (f parts).flatten := by
      rw [← List.flatMap_id, List.flatMap_assoc]
      exact List.flatMap_congr fun parts _ => List.flatMap_id
    rw [List.map_cons, List.flatten_cons, List.flatten_append, flatten_flatten_map f commands,
      List.flatten_cons, List.flatMap_append, hwords]

/-- With nothing set, the commands are called with no more than the text of the words. -/
theorem calls_sublist (tokens : List Token) :
    ((commands tokens).map fun words => words.flatMap (fields .empty)).flatten.flatten.Sublist
      (textOf tokens) := by
  rw [flatten_flatten_map]
  refine .trans ?_ (commands_sublist tokens)
  exact List.Sublist.flatMap_right _ fun parts _ => flatten_fields_sublist parts

end Shell
