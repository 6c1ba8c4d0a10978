import BananaWrt.ModemDebug

/-!
# A command is sent as it was typed as long as the shell takes its characters as they are

The characters of a plain command are read one by one into one word (`finish_plain`). Where a
command is not plain, the first character that is not taken as it is is lost, and no other one is
gained: the words of the line have no more than the characters that come after it
(`plainChars_of_sublist`).
-/

namespace BananaWrt

namespace ModemDebug

open Shell

variable {s : State} {c d : Char} {cs : List Char}

theorem escape_cons_of_ne (h : c ≠ '"') (cs : List Char) : escape (c :: cs) = c :: escape cs := by
  unfold escape
  rw [List.flatMap_cons, if_neg h]
  rfl

theorem escape_cons_quote (cs : List Char) : escape ('"' :: cs) = '\\' :: '"' :: escape cs := rfl

theorem filter_escape : ∀ cs : List Char,
    ((escape cs).filter fun c => c ≠ '\\') = cs.filter fun c => c ≠ '\\'
  | [] => rfl
  | c :: cs => by
    have ih := filter_escape cs
    by_cases hc : c = '"'
    · subst hc
      rw [escape_cons_quote, List.filter_cons_of_neg (by simp), List.filter_cons_of_pos (by simp),
        List.filter_cons_of_pos (by simp), ih]
    · rw [escape_cons_of_ne hc, List.filter_cons, List.filter_cons, ih]

/-- What is emitted for the rest of a command is not more than the rest. -/
theorem not_sublist_escape {e pre : List Char} (hc : c ≠ '\\') (he : e.Sublist (escape cs)) :
    ¬ (pre ++ c :: cs).Sublist e := by
  intro h
  have hsub := ((List.sublist_append_right pre (c :: cs)).trans (h.trans he)).filter
    (fun c => c ≠ '\\')
  rw [filter_escape, List.filter_cons_of_pos (by simpa using hc)] at hsub
  have hlen := hsub.length_le
  rw [List.length_cons] at hlen
  exact absurd hlen (Nat.not_succ_le_self _)

/-- The character may stand in a word. -/
def InWord (c : Char) : Prop := ¬ isBlank c ∧ ¬ isOperator c ∧ c ≠ '\'' ∧ c ≠ '`'

instance (c : Char) : Decidable (InWord c) := inferInstanceAs (Decidable (_ ∧ _))

theorem ne_of_not_inWord (hc : ¬ InWord c) (hd : InWord d) : c ≠ d := by
  rintro rfl
  exact hc hd

theorem step_word (h : s.mode = .word) : step s c = s.stepInWord c := by
  unfold step
  rw [h]

theorem stepInWord_of_inWord (hc : InWord c) : s.stepInWord c = s.stepWord c := by
  unfold State.stepInWord
  rw [if_neg hc.1, if_neg hc.2.1]

theorem step_plain (h : s.mode = .word) (hc : InWord c) (hq : c ≠ '"') (hb : c ≠ '\\')
    (hd : c ≠ '$') : step s c = s.emit .word [.char c] := by
  rw [step_word h, stepInWord_of_inWord hc]
  unfold State.stepWord
  rw [if_neg hb, if_neg hd, if_neg hc.2.2.2, if_neg hc.2.2.1, if_neg hq]

theorem step_backslash (h : s.mode = .word) : step s '\\' = { s with mode := .escape } := by
  rw [step_word h]
  rfl

theorem step_dollar (h : s.mode = .word) : step s '$' = { s with mode := .dollar } := by
  rw [step_word h]
  rfl

theorem step_quote (h : s.mode = .word) :
    step (step s '\\') '"' = s.emit .word [.quoted '"'] := by
  rw [step_backslash h]
  rfl

/-- A dollar that begins no expansion is a character of the word. -/
theorem step_step_dollar (h : s.mode = .word) (hd : ¬ beginsExpansion d) :
    step (step s '$') d = step (s.emit .word [.char '$']) d := by
  rw [step_dollar h]
  unfold step
  dsimp only [State.emit]
  rw [if_neg hd]

theorem foldl_quote (h : s.mode = .word) (cs : List Char) :
    (escape ('"' :: cs)).foldl step s = (escape cs).foldl step (s.emit .word [.quoted '"']) := by
  rw [escape_cons_quote, List.foldl_cons, List.foldl_cons, step_quote h]

theorem foldl_dollar (h : s.mode = .word) (hd : ¬ beginsExpansion d) (cs : List Char) :
    (escape ('$' :: d :: cs)).foldl step s
      = (escape (d :: cs)).foldl step (s.emit .word [.char '$']) := by
  rw [escape_cons_of_ne (by decide), List.foldl_cons]
  by_cases hq : d = '"'
  · subst hq
    rw [escape_cons_quote, List.foldl_cons, step_step_dollar h (by decide)]
    rfl
  · rw [escape_cons_of_ne hq, List.foldl_cons, step_step_dollar h hd]
    rfl

theorem foldl_plain (h : s.mode = .word) (hc : InWord c) (hq : c ≠ '"') (hb : c ≠ '\\')
    (hd : c ≠ '$') (cs : List Char) :
    (escape (c :: cs)).foldl step s = (escape cs).foldl step (s.emit .word [.char c]) := by
  rw [escape_cons_of_ne hq, List.foldl_cons, step_plain h hc hq hb hd]

theorem PlainChars.tail (h : PlainChars (c :: cs)) : PlainChars cs where
  plain := fun d hd => h.plain d (List.mem_cons_of_mem c hd)
  next := List.isChain_of_isChain_cons h.next

theorem PlainChars.cons (hc : InWord c) (h : PlainChars cs)
    (hnext : ∀ d ∈ cs.head?, c ≠ '\\' ∧ ¬ (c = '$' ∧ beginsExpansion d)) :
    PlainChars (c :: cs) where
  plain := List.forall_mem_cons.2 ⟨hc, h.plain⟩
  next := by
    cases cs with
    | nil => exact .singleton c
    | cons d cs => exact .cons_cons (hnext d rfl) h.next

theorem finish_emit (p : Part) (ps : List Part) {r : Option (List Token)}
    (h : r = some ((s.emit .word [p]).tokens ++ [.word ((s.emit .word [p]).parts ++ ps)])) :
    r = some (s.tokens ++ [.word (s.parts ++ p :: ps)]) := by
  rw [h]
  change some (s.tokens ++ [.word (s.parts ++ [p] ++ ps)]) = _
  rw [List.append_assoc]
  rfl

/-- A plain command is one word. -/
theorem finish_plain : ∀ {cs : List Char} {s : State}, s.mode = .word → PlainChars cs →
    finish ((escape cs).foldl step s) = some (s.tokens ++ [.word (s.parts ++ wordOf cs)])
  | [], s, h, _ => by
    unfold finish
    rw [show (escape []).foldl step s = s from rfl, h]
    unfold wordOf
    rw [List.map_nil, List.append_nil]
    rfl
  | c :: cs, s, h, hp => by
    by_cases hq : c = '"'
    · subst hq
      rw [foldl_quote h]
      exact finish_emit _ _ (finish_plain rfl hp.tail)
    by_cases hb : c = '\\'
    · subst hb
      cases cs with
      | nil =>
        rw [show (escape ['\\']).foldl step s = step s '\\' from rfl, step_backslash h]
        rfl
      | cons d cs => exact absurd rfl (List.isChain_cons_cons.1 hp.next).1.1
    by_cases hd : c = '$'
    · subst hd
      cases cs with
      | nil =>
        rw [show (escape ['$']).foldl step s = step s '$' from rfl, step_dollar h]
        rfl
      | cons d cs =>
        have hbegins : ¬ beginsExpansion d := fun hd =>
          (List.isChain_cons_cons.1 hp.next).1.2 ⟨rfl, hd⟩
        rw [foldl_dollar h hbegins]
        exact finish_emit _ _ (finish_plain rfl hp.tail)
    · rw [foldl_plain h (hp.plain c List.mem_cons_self) hq hb hd]
      have hpart : partOf c = .char c := if_neg (not_or_intro hq hb)
      rw [show wordOf (c :: cs) = .char c :: wordOf cs by rw [← hpart]; rfl]
      exact finish_emit _ _ (finish_plain rfl hp.tail)

/-- Where the rest of the command is read from a state in which nothing is pending, no more of it is
emitted than it has. -/
theorem textOf_rest {toks : List Token} (h : finish ((escape cs).foldl step s) = some toks)
    (hs : s.mode.pending = []) :
    ∃ e, (textOf toks).Sublist (s.emitted ++ e) ∧ e.Sublist (escape cs) := by
  obtain ⟨e, htoks, he⟩ := textOf_foldl h
  rw [hs] at he
  exact ⟨e, htoks, he⟩

/-- Nothing is emitted for the character, and nothing is pending after it. -/
def Lost (s s' : State) : Prop := s'.mode.pending = [] ∧ s'.emitted = s.emitted

/-- A character that is lost is missed in the words. -/
theorem Lost.not_sublist {s₁ : State} {toks : List Token} (hs : Lost s s₁) (hc : c ≠ '\\')
    (h : finish ((escape cs).foldl step s₁) = some toks) (pre : List Char) :
    ¬ (s.emitted ++ (pre ++ c :: cs)).Sublist (textOf toks) := by
  obtain ⟨e, htoks, he⟩ := textOf_rest h hs.1
  intro hsub
  rw [hs.2] at htoks
  have hsub' := (List.append_sublist_append_left _).1 (hsub.trans htoks)
  exact not_sublist_escape hc he hsub'

theorem lost_stepWord (hc : c = '\'' ∨ c = '`') : Lost s (s.stepWord c) := by
  rcases hc with rfl | rfl
  · exact ⟨rfl, (emitted_emit (s := s) .single [.null]).trans (List.append_nil _)⟩
  · exact ⟨rfl, rfl⟩

theorem quotes_of_not_inWord (hc : ¬ InWord c) (hblank : ¬ isBlank c) (hop : ¬ isOperator c) :
    c = '\'' ∨ c = '`' := by
  by_contra hne
  rw [not_or] at hne
  exact hc ⟨hblank, hop, hne⟩

theorem lost_step (h : s.mode = .word) (hc : ¬ InWord c) : Lost s (step s c) := by
  rw [step_word h]
  unfold State.stepInWord
  split_ifs with hblank hop hnum
  · exact ⟨rfl, emitted_endWord _⟩
  · exact ⟨rfl, rfl⟩
  · exact ⟨rfl, emitted_endWord _⟩
  · exact lost_stepWord (quotes_of_not_inWord hc hblank hop)

/-- At the front of a word a number sign is lost too. -/
theorem lost_between (h : s.mode = .between) (hc : ¬ InWord c ∨ c = '#') : Lost s (step s c) := by
  unfold step
  rw [h]
  dsimp only
  unfold State.stepBetween
  split_ifs with hblank hop hn
  · exact ⟨by rw [h]; rfl, rfl⟩
  · exact ⟨rfl, rfl⟩
  · exact ⟨rfl, rfl⟩
  · exact lost_stepWord (quotes_of_not_inWord (hc.resolve_right hn) hblank hop)

theorem lost_stepExpansion (b : Bool) : Lost s (s.stepExpansion b c) := by
  unfold State.stepExpansion
  split_ifs
  · exact ⟨rfl, rfl⟩
  · exact ⟨rfl, rfl⟩
  · refine ⟨by cases b <;> rfl, ?_⟩
    exact (emitted_emit _ _).trans (List.append_nil _)
  · exact ⟨rfl, rfl⟩

/-- No backslash is gained before a character that is kept. -/
theorem not_gained {s₁ : State} {toks : List Token} {k : ℕ} (hc : c ≠ '\\')
    (h : finish ((escape cs).foldl step s₁) = some toks) (hpend : s₁.mode.pending = [])
    (hs : s₁.emitted = s.emitted ++ [c])
    (hsub : (s.emitted ++ (List.replicate k '\\' ++ c :: cs)).Sublist (textOf toks)) : k = 0 := by
  obtain ⟨e, htoks, he⟩ := textOf_rest h hpend
  rw [hs, List.append_assoc] at htoks
  have hsub' := (List.append_sublist_append_left _).1 (hsub.trans htoks)
  cases k with
  | zero => rfl
  | succ k =>
    rw [List.replicate_succ, List.cons_append, List.singleton_append,
      List.sublist_cons_iff] at hsub'
    rcases hsub' with hsub' | ⟨r, hr, -⟩
    · rw [← List.cons_append] at hsub'
      exact absurd hsub' (not_sublist_escape hc he)
    · exact absurd (List.cons.inj hr).1.symm hc

theorem replicate_append_cons (k : ℕ) (l : List Char) :
    List.replicate k '\\' ++ '\\' :: l = '\\' :: (List.replicate k '\\' ++ l) := by
  rw [List.append_cons, ← List.replicate_succ', List.replicate_succ, List.cons_append]

theorem replicate_succ_append (k : ℕ) (l : List Char) :
    List.replicate (k + 1) '\\' ++ l = List.replicate k '\\' ++ '\\' :: l := by
  rw [List.replicate_succ', List.append_assoc, List.singleton_append]

/-- A backslash before another character is lost. -/
theorem not_backslash {toks : List Token} {k : ℕ} (h : s.mode = .word) (hd : d ≠ '\\')
    (hf : finish ((escape ('\\' :: d :: cs)).foldl step s) = some toks) :
    ¬ (s.emitted ++ (List.replicate k '\\' ++ '\\' :: d :: cs)).Sublist (textOf toks) := by
  rw [escape_cons_of_ne (by decide), List.foldl_cons, step_backslash h] at hf
  by_cases hq : d = '"'
  · -- it quotes the backslash that the page has put before the quotation mark
    subst hq
    rw [escape_cons_quote, List.foldl_cons, List.foldl_cons] at hf
    intro hsub
    rw [replicate_append_cons, List.append_cons] at hsub
    have hlost : Lost (s.emit .word [.quoted '\\'])
        ((s.emit .word [.quoted '\\']).emit .double [.null]) :=
      ⟨rfl, (emitted_emit _ _).trans (List.append_nil _)⟩
    rw [← show (s.emit .word [.quoted '\\']).emitted = s.emitted ++ ['\\'] from emitted_emit _ _]
      at hsub
    exact hlost.not_sublist hd hf _ hsub
  rw [escape_cons_of_ne hq, List.foldl_cons] at hf
  rw [← replicate_succ_append]
  by_cases hn : d = '\n'
  · subst hn
    have hlost : Lost s (step { s with mode := .escape } '\n') := by
      refine ⟨?_, rfl⟩
      unfold step
      dsimp only
      split_ifs <;> rfl
    exact hlost.not_sublist hd hf _
  · intro hsub
    have hstep : step { s with mode := .escape } d = s.emit .word [.quoted d] := if_neg hn
    rw [hstep] at hf
    exact absurd (not_gained hd hf rfl (emitted_emit _ _) hsub) (Nat.succ_ne_zero k)

/-- An expansion is lost. -/
theorem not_expansion {toks : List Token} {pre : List Char} (h : s.mode = .word)
    (hd : beginsExpansion d) (hf : finish ((escape ('$' :: d :: cs)).foldl step s) = some toks) :
    ¬ (s.emitted ++ (pre ++ '$' :: d :: cs)).Sublist (textOf toks) := by
  have hq : d ≠ '"' := by
    rintro rfl
    exact absurd hd (by decide)
  have hb : d ≠ '\\' := by
    rintro rfl
    exact absurd hd (by decide)
  rw [escape_cons_of_ne (by decide), escape_cons_of_ne hq, List.foldl_cons, List.foldl_cons,
    step_dollar h] at hf
  have hstep : step { s with mode := .dollar } d
      = State.stepExpansion { s with mode := .dollar } false d := if_pos hd
  rw [hstep] at hf
  have hlost : Lost s (State.stepExpansion { s with mode := .dollar } false d) :=
    lost_stepExpansion (s := { s with mode := .dollar }) false
  rw [List.append_cons]
  exact hlost.not_sublist hb hf _

/-- At the end of the command nothing is gained. -/
theorem eq_zero_of_length {toks : List Token} {k : ℕ} (h : s.mode = .word)
    (hf : finish ((escape cs).foldl step s) = some toks) (hlen : (escape cs).length ≤ cs.length)
    (hsub : (s.emitted ++ (List.replicate k '\\' ++ cs)).Sublist (textOf toks)) : k = 0 := by
  obtain ⟨e, htoks, he⟩ := textOf_rest hf (by rw [h]; rfl)
  have hle := ((List.append_sublist_append_left _).1 (hsub.trans htoks)).length_le
  rw [List.length_append, List.length_replicate] at hle
  have hlen' := he.length_le
  omega

/-- If the words have the characters of the command, and `k` backslashes more before them, the
command is plain, and `k` is zero. -/
theorem plainChars_of_sublist : ∀ {cs : List Char} {s : State} {toks : List Token} (k : ℕ),
    s.mode = .word → finish ((escape cs).foldl step s) = some toks →
      (s.emitted ++ (List.replicate k '\\' ++ cs)).Sublist (textOf toks) →
      k = 0 ∧ PlainChars cs
  | [], s, toks, k, h, hf, hsub => by
    exact ⟨eq_zero_of_length h hf (Nat.le_refl _) hsub, nofun, .nil⟩
  | c :: cs, s, toks, k, h, hf, hsub => by
    -- a character that is kept: the rest is read from the state `s₁`
    have hkept : ∀ s₁ : State, s₁.mode = .word → s₁.emitted = s.emitted ++ [c] →
        finish ((escape cs).foldl step s₁) = some toks → c ≠ '\\' → k = 0 ∧ PlainChars cs := by
      intro s₁ h₁ hs₁ hf₁ hc
      obtain rfl := not_gained hc hf₁ (by rw [h₁]; rfl) hs₁ hsub
      refine plainChars_of_sublist 0 h₁ hf₁ ?_
      rw [hs₁, List.append_assoc]
      exact hsub
    by_cases hin : InWord c
    swap
    · rw [escape_cons_of_ne (ne_of_not_inWord hin (by decide)), List.foldl_cons] at hf
      have hb : c ≠ '\\' := ne_of_not_inWord hin (by decide)
      exact absurd hsub ((lost_step h hin).not_sublist hb hf _)
    by_cases hq : c = '"'
    · subst hq
      rw [foldl_quote h] at hf
      obtain ⟨hk, hcs⟩ := hkept _ rfl (emitted_emit _ _) hf (by decide)
      exact ⟨hk, hcs.cons hin fun d _ => ⟨by decide, fun hd => absurd hd.1 (by decide)⟩⟩
    by_cases hb : c = '\\'
    · subst hb
      cases cs with
      | nil =>
        have hk := eq_zero_of_length h hf (Nat.le_refl _) hsub
        exact ⟨hk, .cons hin ⟨nofun, .nil⟩ nofun⟩
      | cons d cs =>
        by_cases hd : d = '\\'
        · subst hd
          -- one of the two is lost, and counts from now on
          have hf₁ : finish ((escape cs).foldl step (s.emit .word [.quoted '\\'])) = some toks := by
            rw [escape_cons_of_ne (by decide), escape_cons_of_ne (by decide), List.foldl_cons,
              List.foldl_cons, step_backslash h] at hf
            exact hf
          have hsub₁ := plainChars_of_sublist (k + 1) rfl hf₁ (by
            rw [emitted_emit, List.append_assoc, replicate_succ_append]
            rw [replicate_append_cons] at hsub
            exact hsub)
          exact absurd hsub₁.1 (Nat.succ_ne_zero k)
        · exact absurd hsub (not_backslash h hd hf)
    by_cases hd : c = '$'
    · subst hd
      cases cs with
      | nil =>
        have hk := eq_zero_of_length h hf (Nat.le_refl _) hsub
        exact ⟨hk, .cons hin ⟨nofun, .nil⟩ nofun⟩
      | cons d cs =>
        by_cases hbegins : beginsExpansion d
        · exact absurd hsub (not_expansion h hbegins hf)
        · rw [foldl_dollar h hbegins] at hf
          obtain ⟨hk, hcs⟩ := hkept _ rfl (emitted_emit _ _) hf hb
          refine ⟨hk, hcs.cons hin fun e he => ⟨hb, fun h => hbegins ?_⟩⟩
          obtain rfl := Option.mem_some.1 he
          exact h.2
    · rw [foldl_plain h hin hq hb hd] at hf
      obtain ⟨hk, hcs⟩ := hkept _ rfl (emitted_emit _ _) hf hb
      exact ⟨hk, hcs.cons hin fun _ _ => ⟨hb, fun h => hd h.1⟩⟩

/-! ## The line -/

def sourceWords : List (List Char) :=
  ["source".toList, scriptPath ++ "modem_debug.sh".toList]

/-- The state before the port. -/
def portStart : State where
  mode := .between
  parts := []
  tokens := sourceWords.map (fun w => .word (w.map .char))
    ++ [.operator [] ['&', '&'], .word ("at".toList.map .char)]

/-- The state before the command. -/
def commandStart (atPort : Port) : State where
  mode := .between
  parts := []
  tokens := portStart.tokens ++ [.word (atPort.chars.map .char)]

theorem foldl_prefix : ("source ".toList ++ scriptPath ++ "modem_debug.sh && at ".toList).foldl step
    start = portStart := by
  decide +kernel

/-- A character that begins a word is read as within one. -/
theorem step_between (h : s.mode = .between) (hc : InWord c) (hn : c ≠ '#') :
    step s c = step { s with mode := .word } c := by
  have hword : step { s with mode := .word } c = State.stepWord { s with mode := .word } c :=
    (step_word rfl).trans (stepInWord_of_inWord hc)
  rw [hword]
  unfold step State.stepBetween
  rw [h]
  dsimp only
  rw [if_neg hc.1, if_neg hc.2.1, if_neg hn]
  rfl

/-- What a character of a port is not. -/
theorem ne_of_plain {x : Char} (h : c.isAlphanum ∨ c = '/') (hx : ¬ (x.isAlphanum ∨ x = '/')) :
    c ≠ x := by
  rintro rfl
  exact hx h

theorem inWord_of_plain (h : c.isAlphanum ∨ c = '/') : InWord c := by
  have hne : ∀ x ∈ [' ', '\t', '&', '|', ';', '<', '>', '(', ')', '\n', '\'', '`'], c ≠ x := by
    intro x hx
    refine ne_of_plain h ?_
    revert x
    simp
  refine ⟨?_, ?_, hne _ (by decide), hne _ (by decide)⟩
  · rw [isBlank, Bool.or_eq_true, decide_eq_true_iff, decide_eq_true_iff]
    exact not_or_intro (hne _ (by decide)) (hne _ (by decide))
  · intro hop
    refine hne c ?_ rfl
    exact List.mem_append_left ['\'', '`'] (List.mem_cons_of_mem _ (List.mem_cons_of_mem _
      (of_decide_eq_true hop)))

theorem step_port (hs : s.mode = .word) (h : c.isAlphanum ∨ c = '/') :
    step s c = s.emit .word [.char c] :=
  step_plain hs (inWord_of_plain h) (ne_of_plain h (by decide)) (ne_of_plain h (by decide))
    (ne_of_plain h (by decide))

theorem foldl_chars : ∀ {l : List Char} {s : State}, s.mode = .word →
    (∀ c ∈ l, c.isAlphanum ∨ c = '/') → l.foldl step s = s.emit .word (l.map .char)
  | [], s, h, _ => by
    unfold State.emit
    rw [List.map_nil, List.append_nil, ← h]
    rfl
  | c :: l, s, h, hl => by
    obtain ⟨hc, hl⟩ := List.forall_mem_cons.1 hl
    rw [List.foldl_cons, step_port h hc, foldl_chars rfl hl]
    simp only [State.emit, List.map_cons, List.append_assoc, List.singleton_append]

theorem foldl_atLine (atPort : Port) (atCommand : List Char) :
    (atLine atPort.chars atCommand).foldl step start
      = atCommand.foldl step (commandStart atPort) := by
  obtain ⟨c, l, hport⟩ := List.exists_cons_of_ne_nil atPort.ne_nil
  have hplain := atPort.plain
  have hfirst : step portStart c = step { portStart with mode := .word } c :=
    step_between rfl (inWord_of_plain (hplain c (hport ▸ List.mem_cons_self)))
      (ne_of_plain (hplain c (hport ▸ List.mem_cons_self)) (by decide))
  have hword : atPort.chars.foldl step portStart
      = State.emit { portStart with mode := .word } .word (atPort.chars.map .char) := by
    rw [← foldl_chars rfl hplain, hport, List.foldl_cons, hfirst, List.foldl_cons]
  unfold atLine
  rw [List.foldl_append, List.foldl_append, foldl_prefix, hword, List.foldl_cons]
  rfl

theorem emitted_commandStart (atPort : Port) : (commandStart atPort).emitted
    = sourceWords.flatten ++ "at".toList ++ atPort.chars := by
  have hstart : portStart.tokens.flatMap Token.text = sourceWords.flatten ++ "at".toList := by
    decide +kernel
  unfold State.emitted commandStart
  dsimp only
  rw [List.flatMap_append, List.flatMap_singleton, hstart]
  rw [show Token.text (.word (atPort.chars.map .char)) = atPort.chars from text_chars _]
  exact List.append_nil _

theorem foldl_between (h : s.mode = .between) (hc : InWord c) (hn : c ≠ '#') (cs : List Char) :
    (escape (c :: cs)).foldl step s = (escape (c :: cs)).foldl step { s with mode := .word } := by
  by_cases hq : c = '"'
  · subst hq
    rw [escape_cons_quote, List.foldl_cons, step_between h (by decide) (by decide)]
    rfl
  · rw [escape_cons_of_ne hq, List.foldl_cons, step_between h hc hn]
    rfl

/-- A command that is plain is the last word of the line. -/
theorem tokens_plain {atCommand : List Char} (atPort : Port) (hne : atCommand ≠ [])
    (h : PlainChars atCommand) (hn : '#' ∉ atCommand.head?) :
    tokens (atLine atPort.chars (escape atCommand))
      = some ((commandStart atPort).tokens ++ [.word (wordOf atCommand)]) := by
  obtain ⟨c, cs, rfl⟩ := List.exists_cons_of_ne_nil hne
  have hc : InWord c := h.plain c List.mem_cons_self
  have hc' : c ≠ '#' := by
    rintro rfl
    exact hn rfl
  unfold tokens
  rw [foldl_atLine, foldl_between rfl hc hc']
  exact finish_plain rfl h

theorem plain_of_tokens {atCommand : List Char} {toks : List Token} (atPort : Port)
    (h : tokens (atLine atPort.chars (escape atCommand)) = some toks)
    (hsub : ((commandStart atPort).emitted ++ atCommand).Sublist (textOf toks)) :
    PlainChars atCommand ∧ '#' ∉ atCommand.head? := by
  unfold tokens at h
  rw [foldl_atLine] at h
  cases atCommand with
  | nil => exact ⟨⟨nofun, .nil⟩, nofun⟩
  | cons c cs =>
    by_cases hc : ¬ InWord c ∨ c = '#'
    · have hq : c ≠ '"' := by
        rintro rfl
        exact absurd hc (by decide)
      have hb : c ≠ '\\' := by
        rintro rfl
        exact absurd hc (by decide)
      rw [escape_cons_of_ne hq, List.foldl_cons] at h
      exact absurd hsub ((lost_between rfl hc).not_sublist hb h [])
    · rw [not_or, not_not] at hc
      rw [foldl_between rfl hc.1 hc.2] at h
      refine ⟨(plainChars_of_sublist 0 rfl h hsub).2, fun hn => hc.2 ?_⟩
      exact Option.some.inj hn

theorem partOf_of_plain (h : ¬ (c = '"' ∨ c = '\\')) : partOf c = .char c := if_neg h

theorem partOf_text (c : Char) : (partOf c).text = [c] := by
  unfold partOf
  split_ifs <;> rfl

theorem text_wordOf (cs : List Char) : text (wordOf cs) = cs := by
  unfold text wordOf
  rw [List.flatMap_map, List.flatMap_congr fun c _ => partOf_text c]
  exact List.flatMap_singleton' cs

/-- A character that is not quoted. -/
theorem partOf_eq_char_iff (hd : d ≠ '"' ∧ d ≠ '\\') : partOf c = .char d ↔ c = d := by
  unfold partOf
  split_ifs with h
  · refine iff_of_false nofun ?_
    rintro rfl
    exact h.elim hd.1 hd.2
  · exact Part.char.injEq c d ▸ Iff.rfl

theorem char_mem_wordOf (hd : d ≠ '"' ∧ d ≠ '\\') : .char d ∈ wordOf cs ↔ d ∈ cs := by
  unfold wordOf
  rw [List.mem_map]
  constructor
  · rintro ⟨c, hc, hpart⟩
    exact (partOf_eq_char_iff hd).1 hpart ▸ hc
  · exact fun h => ⟨d, h, (partOf_eq_char_iff hd).2 rfl⟩

theorem partOf_injective : Function.Injective partOf := by
  intro c d h
  have htext := congrArg Part.text h
  rw [partOf_text, partOf_text] at htext
  exact List.singleton_inj.1 htext

theorem isPattern_wordOf_iff : IsPattern (wordOf cs) ↔ HasPattern cs := by
  have hbrackets : [.char '[', .char ']'] = ['[', ']'].map partOf := rfl
  unfold IsPattern HasPattern
  rw [char_mem_wordOf (by decide), char_mem_wordOf (by decide), hbrackets]
  refine or_congr_right (or_congr_right ⟨fun h => ?_, fun h => h.map partOf⟩)
  obtain ⟨l, hl, heq⟩ := List.sublist_map_iff.1 h
  rw [List.map_injective_iff.2 partOf_injective heq]
  exact hl

theorem expandPart_partOf (env : Env) : ∀ p ∈ wordOf cs, expandPart env p = [some p] := by
  intro p hp
  obtain ⟨c, -, rfl⟩ := List.mem_map.1 hp
  unfold partOf
  split_ifs <;> rfl

theorem loginName_wordOf_iff : loginName (wordOf cs) = none
    ↔ ('~' ∈ cs.head? → ∃ c ∈ cs.takeWhile (· ≠ '/'), c = '"' ∨ c = '\\') := by
  unfold loginName
  dsimp only
  rw [ite_eq_right_iff]
  simp only [reduceCtorEq, imp_false, not_and]
  cases cs with
  | nil => exact iff_of_true nofun nofun
  | cons c cs =>
    have hhead : .char '~' ∈ (wordOf (c :: cs)).head? ↔ '~' ∈ (c :: cs).head? := by
      rw [show (wordOf (c :: cs)).head? = some (partOf c) from rfl, List.head?_cons,
        Option.mem_some_iff, Option.mem_some_iff]
      exact partOf_eq_char_iff (by decide)
    rw [hhead]
    refine forall_congr' fun h => ?_
    obtain rfl : c = '~' := Option.some.inj h
    have hpred : (fun p => decide (p ≠ Part.char '/')) ∘ partOf = fun c => decide (c ≠ '/') := by
      funext d
      exact decide_eq_decide.2 (not_congr (partOf_eq_char_iff (by decide)))
    have hname : (wordOf ('~' :: cs)).tail.takeWhile (fun p => decide (p ≠ .char '/'))
        = (cs.takeWhile fun c => decide (c ≠ '/')).map partOf := by
      rw [← hpred]
      exact List.takeWhile_map
    rw [hname, List.takeWhile_cons_of_pos (by decide), List.all_map, List.all_eq_true]
    simp only [not_forall, exists_prop]
    constructor
    · rintro ⟨d, hd, hquoted⟩
      refine ⟨d, List.mem_cons_of_mem _ hd, ?_⟩
      by_contra hplain
      rw [Function.comp_apply, partOf_of_plain hplain] at hquoted
      exact hquoted rfl
    · rintro ⟨d, hd, hquoted⟩
      have hmem : d ∈ cs.takeWhile fun c => decide (c ≠ '/') := by
        refine (List.mem_cons.1 hd).resolve_left ?_
        rintro rfl
        exact absurd hquoted (by decide)
      refine ⟨d, hmem, ?_⟩
      rw [Function.comp_apply, partOf, if_pos hquoted]
      exact Bool.false_ne_true

theorem replaceFirst_self (p : Char) : ∀ cs : List Char, replaceFirst p [p] cs = cs
  | [] => rfl
  | c :: cs => by
    have ih := replaceFirst_self p cs
    unfold replaceFirst
    split_ifs with h
    · rw [h, List.singleton_append]
    · rw [ih]

theorem smsTool_eq (atPort arg : List Char) :
    smsTool [atPort, arg] = ["-d".toList, atPort, "at".toList, arg] := by
  unfold smsTool
  simp only [replaceFirst_self]
  rfl

theorem commands_line (atPort : Port) (w : List Part) :
    commands ((commandStart atPort).tokens ++ [.word w])
      = [sourceWords.map (List.map .char),
        ["at".toList.map .char, atPort.chars.map .char, w]] := by
  unfold commands
  rw [List.filter_eq_self.2]
  · rfl
  · simp [commandStart, portStart, sourceWords, commandsFrom, isRedirection]

variable {env : Env}

theorem fields_port (atPort : Port) : fields env (atPort.chars.map .char) = [atPort.chars] := by
  have hnot : ∀ x : Char, ¬ (x.isAlphanum ∨ x = '/') → x ∉ atPort.chars :=
    fun x hx h => hx (atPort.plain x h)
  exact fields_chars atPort.ne_nil (hnot _ (by decide)) (hnot _ (by decide)) (hnot _ (by decide))
    (hnot _ (by decide))

/-- What the line calls, if the command is its last word. -/
theorem calls_line (atPort : Port) (w : List Part) :
    (commands ((commandStart atPort).tokens ++ [.word w])).map (fun words =>
        words.flatMap (fields env))
      = [sourceWords, "at".toList :: atPort.chars :: fields env w] := by
  have hsource : fields env ("source".toList.map .char) = ["source".toList] :=
    fields_chars (by decide) (by decide) (by decide) (by decide) (by decide)
  have hpath : fields env ((scriptPath ++ "modem_debug.sh".toList).map .char)
      = [scriptPath ++ "modem_debug.sh".toList] :=
    fields_chars (by decide) (by decide) (by decide) (by decide) (by decide)
  have hat : fields env ("at".toList.map .char) = ["at".toList] :=
    fields_chars (by decide) (by decide) (by decide) (by decide) (by decide)
  rw [commands_line, sourceWords]
  simp only [List.map_cons, List.map_nil, List.flatMap_cons, List.flatMap_nil, List.append_nil]
  rw [hsource, hpath, hat, fields_port]
  rfl

theorem expansion_notMem_chars (l : List Char) (b : Bool) (t : List Char) :
    .expansion b t ∉ l.map Part.char := by
  intro h
  obtain ⟨c, -, hc⟩ := List.mem_map.1 h
  cases hc

theorem expansion_notMem_wordOf (cs : List Char) (b : Bool) (t : List Char) :
    .expansion b t ∉ wordOf cs := by
  intro h
  obtain ⟨c, -, hc⟩ := List.mem_map.1 h
  have htext := partOf_text c
  rw [hc] at htext
  cases htext

theorem expansion_notMem_line {atPort : Port} {parts : List Part} {b : Bool} {t : List Char}
    (h : .word parts ∈ (commandStart atPort).tokens ++ [.word (wordOf cs)]) :
    .expansion b t ∉ parts := by
  have hcases : (∃ l : List Char, parts = l.map .char) ∨ parts = wordOf cs := by
    simp only [commandStart, portStart, sourceWords, List.map_cons, List.map_nil, List.mem_append,
      List.mem_cons, List.not_mem_nil, or_false, Token.word.injEq, reduceCtorEq, false_or] at h
    rcases h with (((h | h) | h) | h) | h
    · exact .inl ⟨_, h⟩
    · exact .inl ⟨_, h⟩
    · exact .inl ⟨_, h⟩
    · exact .inl ⟨_, h⟩
    · exact .inr h
  rcases hcases with ⟨l, rfl⟩ | rfl
  · exact expansion_notMem_chars l b t
  · exact expansion_notMem_wordOf cs b t

/-- A command that is a word is sent as it was typed exactly if the script's shell makes one field
of it, the command. -/
theorem sentAsTyped_iff {atCommand : List Char} {atPort : Port} (hne : atCommand ≠ [])
    (h : PlainChars atCommand) (hn : '#' ∉ atCommand.head?) :
    SentAsTyped env atPort atCommand ↔ fields env (wordOf atCommand) = [atCommand] := by
  have htoks := tokens_plain atPort hne h hn
  unfold SentAsTyped sendAtCommand
  rw [if_neg hne]
  constructor
  · intro hsent
    obtain ⟨toks, htoks', -, arg, hcalls, hsms⟩ := hsent _ rfl
    obtain rfl := Option.some.inj (htoks.symm.trans htoks')
    rw [calls_line] at hcalls
    rw [smsTool_eq] at hsms
    obtain rfl : arg = atCommand := List.singleton_inj.1
      (List.cons.inj (List.cons.inj (List.cons.inj hsms).2).2).2
    have hat := (List.cons.inj (List.cons.inj hcalls).2).1
    exact (List.cons.inj (List.cons.inj hat).2).2
  · intro hfields sent hsent
    obtain rfl := Option.mem_some.1 hsent
    refine ⟨_, htoks, ?_, atCommand, ?_, smsTool_eq _ _⟩
    · exact fun parts hparts b t hmem => absurd hmem (expansion_notMem_line hparts)
    · rw [calls_line, hfields]
      rfl

/-- Where nothing is set and there are no files, only plain commands are sent as typed. -/
theorem plain_of_sentAsTyped {atCommand : List Char} {atPort : Port} (hne : atCommand ≠ [])
    (h : SentAsTyped .empty atPort atCommand) : Plain atCommand := by
  have hsent : escape atCommand ∈ sendAtCommand atCommand := by
    unfold sendAtCommand
    rw [if_neg hne]
    rfl
  obtain ⟨toks, htoks, -, arg, hcalls, hsms⟩ := h _ hsent
  rw [smsTool_eq] at hsms
  obtain rfl : arg = atCommand := List.singleton_inj.1
    (List.cons.inj (List.cons.inj (List.cons.inj hsms).2).2).2
  have hsub := calls_sublist toks
  rw [hcalls] at hsub
  have htext : [["source".toList, scriptPath ++ "modem_debug.sh".toList],
      ["at".toList, atPort.chars, arg]].flatten.flatten
        = (commandStart atPort).emitted ++ arg := by
    rw [emitted_commandStart]
    simp [sourceWords]
  rw [htext] at hsub
  obtain ⟨hplain, hn⟩ := plain_of_tokens atPort htoks hsub
  have hfields := (sentAsTyped_iff hne hplain hn).1 h
  refine { toPlainChars := hplain, noComment := hn, noTilde := loginName_wordOf_iff.1 ?_ }
  by_contra hlogin
  obtain ⟨name, hname⟩ := Option.ne_none_iff_exists'.1 hlogin
  rcases fields_empty (wordOf arg) with hone | hnil
  · have heq := List.singleton_inj.1 (hone.symm.trans hfields)
    have htilde : expandTilde .empty (wordOf arg) = wordOf (arg.drop (name.length + 1)) := by
      unfold expandTilde
      rw [hname]
      exact List.map_drop.symm
    rw [htilde, text_wordOf] at heq
    have hlen := congrArg List.length heq
    have hpos := List.length_pos_of_ne_nil hne
    rw [List.length_drop] at hlen
    omega
  · rw [hnil] at hfields
    cases hfields

theorem fields_wordOf {atCommand : List Char} (h : Plain atCommand) (hne : atCommand ≠ []) :
    fields env (wordOf atCommand) = expandField env (wordOf atCommand) := by
  refine fields_of_plain (loginName_wordOf_iff.2 h.noTilde) (expandPart_partOf env) ?_
  exact fun hnil => hne (List.map_eq_nil_iff.1 hnil)

/-- A command is sent as it was typed, whatever the line finds, exactly if it is plain and has no
pattern; one that is plain, and has a pattern, is if the pattern finds no file. -/
theorem sentAsTyped_right (atPort : Port) (atCommand : List Char) :
    ((∀ env, SentAsTyped env atPort atCommand) ↔ Plain atCommand ∧ ¬ HasPattern atCommand)
      ∧ ∀ env, Plain atCommand → env.glob (wordOf atCommand) = [] →
        SentAsTyped env atPort atCommand := by
  by_cases hne : atCommand = []
  · subst hne
    have hnothing : ∀ env, SentAsTyped env atPort [] := fun _ sent hsent => absurd hsent nofun
    refine ⟨iff_of_true hnothing ⟨⟨⟨nofun, .nil⟩, nofun, nofun⟩, ?_⟩, fun env _ _ => hnothing env⟩
    rintro (h | h | h)
    · exact absurd h List.not_mem_nil
    · exact absurd h List.not_mem_nil
    · exact absurd h (by decide)
  have hiff : ∀ env, Plain atCommand → (SentAsTyped env atPort atCommand
      ↔ expandField env (wordOf atCommand) = [atCommand]) := by
    intro env h
    rw [← fields_wordOf h hne]
    exact sentAsTyped_iff hne h.toPlainChars h.noComment
  refine ⟨⟨fun h => ?_, fun ⟨hplain, hpattern⟩ env => ?_⟩, fun env hplain hglob => ?_⟩
  · have hplain := plain_of_sentAsTyped hne (h .empty)
    refine ⟨hplain, fun hpattern => ?_⟩
    -- a file whose name is that of the command and one character more
    have hfile := (hiff ⟨fun _ => none, fun _ => [], fun _ => [atCommand ++ ['_']]⟩ hplain).1 (h _)
    unfold expandField at hfile
    rw [if_pos ⟨isPattern_wordOf_iff.2 hpattern, List.cons_ne_nil _ _⟩] at hfile
    have hlen := congrArg List.length (List.singleton_inj.1 hfile)
    rw [List.length_append] at hlen
    exact absurd hlen (by simp)
  · refine (hiff env hplain).2 ?_
    unfold expandField
    rw [if_neg fun h => hpattern (isPattern_wordOf_iff.1 h.1), text_wordOf]
  · refine (hiff env hplain).2 ?_
    unfold expandField
    rw [if_neg fun h => h.2 hglob, text_wordOf]

theorem ttyUSB2_plain : ∀ c ∈ ['/', 'd', 'e', 'v', '/', 't', 't', 'y', 'U', 'S', 'B', '2'],
    c.isAlphanum ∨ c = '/' := by
  simp

def ttyUSB2 : Port where
  chars := ['/', 'd', 'e', 'v', '/', 't', 't', 'y', 'U', 'S', 'B', '2']
  plain := ttyUSB2_plain
  ne_nil := List.cons_ne_nil _ _

/-- A semicolon ends the call, and what comes after a dollar is a variable. -/
theorem typed_wrong : ¬ SentAsTyped .empty ttyUSB2 "AT+CSQ;+COPS?".toList
    ∧ ¬ SentAsTyped .empty ttyUSB2 "AT$QCRMCALL=1,1".toList := by
  constructor
  · intro h
    have hplain := plain_of_sentAsTyped (by decide) h
    exact (hplain.plain ';' (by decide)).2.1 (by decide)
  · intro h
    have hplain := plain_of_sentAsTyped (by decide) h
    exact absurd hplain.next (by decide)

end ModemDebug

end BananaWrt
