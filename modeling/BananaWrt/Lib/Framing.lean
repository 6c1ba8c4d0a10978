import Mathlib.Data.List.Basic

/-!
# The lines of a stream that comes in chunks

A stream is cut into lines at its separators, and empty lines do not count. A prompt is a line that
no separator ends: it is over where the chunk ends that brings it. `feed` takes one chunk after what
is there of a line, `lines` takes the stream at once. They agree where no chunk goes on behind a
prompt (`feedAll_eq_lines`), so the lines do not depend on how such a stream is cut into chunks.
-/

namespace Framing

variable {α : Type*} (sep : α → Bool)

/-- The lines that end in a chunk; `line` is what was there of the first of them. -/
def complete : List α → List α → List (List α)
  | _, [] => []
  | line, a :: l =>
    if sep a then (if line.isEmpty then [] else [line]) ++ complete [] l
    else complete (line ++ [a]) l

/-- What is there of the next line after a chunk. -/
def rest : List α → List α → List α
  | line, [] => line
  | line, a :: l => if sep a then rest [] l else rest (line ++ [a]) l

theorem complete_append : ∀ line l l' : List α,
    complete sep line (l ++ l') = complete sep line l ++ complete sep (rest sep line l) l'
  | _, [], _ => rfl
  | line, a :: l, l' => by
    unfold rest
    rw [List.cons_append, complete, complete]
    split_ifs
    all_goals rw [complete_append _ l l']
    all_goals simp only [List.append_assoc]

theorem rest_append : ∀ line l l' : List α,
    rest sep line (l ++ l') = rest sep (rest sep line l) l'
  | _, [], _ => rfl
  | line, a :: l, l' => by
    rw [List.cons_append, rest, rest]
    split_ifs
    · exact rest_append [] l l'
    · exact rest_append (line ++ [a]) l l'

variable {sep}

/-- Without a separator the line goes on. -/
theorem complete_open : ∀ {line l : List α}, (∀ a ∈ l, ¬ sep a) →
    complete sep line l = [] ∧ rest sep line l = line ++ l
  | line, [], _ => ⟨rfl, (List.append_nil line).symm⟩
  | line, a :: l, h => by
    obtain ⟨ha, hl⟩ := List.forall_mem_cons.1 h
    obtain ⟨hc, hr⟩ : complete sep (line ++ [a]) l = []
        ∧ rest sep (line ++ [a]) l = line ++ [a] ++ l := complete_open hl
    unfold complete rest
    rw [if_neg ha, if_neg ha]
    exact ⟨hc, hr.trans (List.append_assoc line [a] l)⟩

/-- Separators alone make no line. -/
theorem complete_seps : ∀ {l : List α}, (∀ a ∈ l, sep a) →
    complete sep [] l = [] ∧ rest sep [] l = []
  | [], _ => ⟨rfl, rfl⟩
  | a :: l, h => by
    obtain ⟨ha, hl⟩ := List.forall_mem_cons.1 h
    unfold complete rest
    rw [if_pos ha, if_pos ha]
    exact complete_seps hl

variable [DecidableEq α] (sep) (prompt : List α)

/-- The lines that a chunk brings and what is there of the next one. -/
def feed (line chunk : List α) : List (List α) × List α :=
  if rest sep line chunk = prompt then (complete sep line chunk ++ [prompt], [])
  else (complete sep line chunk, rest sep line chunk)

def feedAll : List α → List (List α) → List (List α) × List α
  | line, [] => ([], line)
  | line, c :: cs =>
    let r := feed sep prompt line c
    let t := feedAll r.2 cs
    (r.1 ++ t.1, t.2)

/-- The lines of a stream. A prompt is one that no separator follows. -/
def lines : List α → List α → List (List α)
  | line, [] => if line = prompt then [prompt] else []
  | line, a :: l =>
    if sep a then (if line.isEmpty then [] else [line]) ++ lines [] l
    else if line = prompt then prompt :: lines [a] l
    else lines (line ++ [a]) l

/-- The chunk does not go on behind a prompt. -/
def PromptLast : List α → List α → Prop
  | _, [] => True
  | line, a :: l =>
    if sep a then PromptLast [] l else line ≠ prompt ∧ PromptLast (line ++ [a]) l

instance decidablePromptLast : ∀ line l : List α, Decidable (PromptLast sep prompt line l)
  | _, [] => .isTrue trivial
  | line, a :: l =>
    have := decidablePromptLast [] l
    have := decidablePromptLast (line ++ [a]) l
    inferInstanceAs (Decidable (if sep a then _ else _ ∧ _))

/-- Prompts are the last thing in a chunk. -/
def PromptsLast : List α → List (List α) → Prop
  | _, [] => True
  | line, c :: cs => PromptLast sep prompt line c ∧ PromptsLast (feed sep prompt line c).2 cs

instance decidablePromptsLast :
    ∀ (line : List α) (cs : List (List α)), Decidable (PromptsLast sep prompt line cs)
  | _, [] => .isTrue trivial
  | line, c :: cs =>
    have := decidablePromptsLast (feed sep prompt line c).2 cs
    inferInstanceAs (Decidable (_ ∧ _))

variable {sep prompt}

theorem feed_cons_sep {a : α} (ha : sep a) (line l : List α) :
    feed sep prompt line (a :: l) = ((if line.isEmpty then [] else [line])
      ++ (feed sep prompt [] l).1, (feed sep prompt [] l).2) := by
  unfold feed
  rw [complete, rest, if_pos ha, if_pos ha]
  split_ifs
  all_goals simp only [List.append_assoc]

theorem feed_cons {a : α} (ha : ¬ sep a) (line l : List α) :
    feed sep prompt line (a :: l) = feed sep prompt (line ++ [a]) l := by
  unfold feed
  rw [complete, rest, if_neg ha, if_neg ha]

/-- What is there of a line may as well come with the chunk. -/
theorem feed_append {line : List α} (h : ∀ a ∈ line, ¬ sep a) (chunk : List α) :
    feed sep prompt [] (line ++ chunk) = feed sep prompt line chunk := by
  obtain ⟨hc, hr⟩ : complete sep [] line = [] ∧ rest sep [] line = line := complete_open h
  unfold feed
  rw [complete_append, rest_append, hc, hr]
  rfl

theorem feed_open {line : List α} (h : ∀ a ∈ line, ¬ sep a) (hp : line ≠ prompt) :
    feed sep prompt [] line = ([], line) := by
  obtain ⟨hc, hr⟩ : complete sep [] line = [] ∧ rest sep [] line = line := complete_open h
  unfold feed
  rw [hc, hr, if_neg hp]

theorem feed_prompt (h : ∀ a ∈ prompt, ¬ sep a) : feed sep prompt [] prompt = ([prompt], []) := by
  obtain ⟨hc, hr⟩ : complete sep [] prompt = [] ∧ rest sep [] prompt = prompt := complete_open h
  unfold feed
  rw [hc, hr, if_pos rfl, List.nil_append]

theorem feed_seps {l : List α} (h : ∀ a ∈ l, sep a) (chunk : List α) :
    feed sep prompt [] (l ++ chunk) = feed sep prompt [] chunk := by
  obtain ⟨hc, hr⟩ := complete_seps h
  unfold feed
  rw [complete_append, rest_append, hc, hr]
  rfl

/-- A line that ends at a separator is the first of those that come. -/
theorem feed_line {line : List α} {a : α} (h : ∀ a ∈ line, ¬ sep a) (hne : line ≠ [])
    (ha : sep a) (chunk : List α) : feed sep prompt [] (line ++ a :: chunk)
      = (line :: (feed sep prompt [] chunk).1, (feed sep prompt [] chunk).2) := by
  have hempty : ¬ line.isEmpty := by simpa using hne
  rw [feed_append h, feed_cons_sep ha, if_neg hempty]
  rfl

theorem feedAll_concat : ∀ (line : List α) (cs : List (List α)) (c : List α),
    feedAll sep prompt line (cs ++ [c])
      = ((feedAll sep prompt line cs).1 ++ (feed sep prompt (feedAll sep prompt line cs).2 c).1,
        (feed sep prompt (feedAll sep prompt line cs).2 c).2)
  | line, [], c => by
    simp only [feedAll, List.nil_append, List.append_nil]
  | line, d :: cs, c => by
    have ih := feedAll_concat (feed sep prompt line d).2 cs c
    simp only [feedAll, List.cons_append, ih, List.append_assoc]

/-- The lines of a stream are those of its first chunk and those that follow. -/
theorem lines_append (hne : prompt ≠ []) : ∀ {line chunk : List α},
    PromptLast sep prompt line chunk → ∀ more : List α, lines sep prompt line (chunk ++ more)
      = (feed sep prompt line chunk).1 ++ lines sep prompt (feed sep prompt line chunk).2 more
  | line, [], _, more => by
    unfold feed complete rest
    split_ifs with hp
    · subst hp
      rcases more with _ | ⟨a, l⟩
      · simp [lines, hne.symm]
      · by_cases ha : sep a
        · simp [lines, ha, hne]
        · simp [lines, ha, hne.symm]
    · rfl
  | line, a :: l, h, more => by
    unfold PromptLast at h
    rw [List.cons_append, lines]
    by_cases ha : sep a
    · rw [if_pos ha] at h
      rw [if_pos ha, feed_cons_sep ha, lines_append hne h, List.append_assoc]
    · rw [if_neg ha] at h
      rw [if_neg ha, if_neg h.1, feed_cons ha, lines_append hne h.2]

/-- Where no chunk goes on behind a prompt, the lines that the chunks bring are those of the
stream. -/
theorem feedAll_eq_lines (hne : prompt ≠ []) : ∀ {line : List α} {cs : List (List α)},
    line ≠ prompt → PromptsLast sep prompt line cs →
      (feedAll sep prompt line cs).1 = lines sep prompt line cs.flatten
  | line, [], hline, _ => by
    simp [feedAll, lines, hline]
  | line, c :: cs, hline, h => by
    have hnext : (feed sep prompt line c).2 ≠ prompt := by
      unfold feed
      split_ifs with hr
      · exact hne.symm
      · exact hr
    rw [List.flatten_cons, lines_append hne h.1, ← feedAll_eq_lines hne hnext h.2]
    rfl

end Framing
