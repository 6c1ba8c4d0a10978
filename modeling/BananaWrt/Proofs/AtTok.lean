import BananaWrt.AtTok
import Mathlib.Data.List.TakeWhile
import Mathlib.Tactic.SplitIfs

/-!
# Reading back a formatted line

`at_tok_scanf` takes one item after another off the line: an item that is readable is stored and the
cursor is where the next one begins (`scan_readable`), and any other item ends the reading or stores
something else (`scan_unreadable`). So a line is read back exactly if all of its items are readable.
-/

namespace BananaWrt

namespace AtTok

open AtChannel (Line)

section Characters

variable {base : ℕ} {c : Char}

theorem digitVal_of_isSpace (h : isSpace c) : isDigit base c = false := by
  have hc : c.toNat = 32 ∨ (9 ≤ c.toNat ∧ c.toNat ≤ 13) := by
    unfold isSpace at h
    rcases Bool.or_eq_true_iff.1 h with h | h
    · rw [of_decide_eq_true h]
      exact .inl rfl
    · exact .inr (by simpa using h)
  unfold isDigit digitVal
  have h0 : '0'.toNat = 48 := rfl
  have h9 : '9'.toNat = 57 := rfl
  have ha : 'a'.toNat = 97 := rfl
  have hA : 'A'.toNat = 65 := rfl
  have hdec : ¬ ('0'.toNat ≤ c.toNat ∧ c.toNat ≤ '9'.toNat) := by omega
  have hlower : ¬ ('a'.toNat ≤ c.toNat ∧ c.toNat ≤ 'z'.toNat) := by omega
  have hupper : ¬ ('A'.toNat ≤ c.toNat ∧ c.toNat ≤ 'Z'.toNat) := by omega
  simp only [hdec, hlower, hupper, if_false, Nat.lt_irrefl, Option.isSome_none]

theorem isSpace_of_isDigit (h : isDigit base c) : isSpace c = false := by
  by_contra hs
  rw [digitVal_of_isSpace (Bool.not_eq_false _ ▸ hs)] at h
  exact Bool.false_ne_true h

theorem ne_of_isDigit {x : Char} (hx : isDigit base x = false) (h : isDigit base c) : c ≠ x := by
  rintro rfl
  rw [hx] at h
  exact Bool.false_ne_true h

theorem isDigit_minus (base : ℕ) : isDigit base '-' = false := by simp [isDigit, digitVal]

theorem isDigit_plus (base : ℕ) : isDigit base '+' = false := by simp [isDigit, digitVal]

theorem isDigit_comma (base : ℕ) : isDigit base ',' = false := by simp [isDigit, digitVal]

theorem isDigit_quote (base : ℕ) : isDigit base '"' = false := by simp [isDigit, digitVal]

theorem not_isDigit_x {x : Char} (hx : x = 'x' ∨ x = 'X') : isDigit 16 x = false := by
  rcases hx with rfl | rfl
  · rfl
  · rfl

end Characters

section Numbers

variable {base : ℕ}

theorem dropWhile_of_head {p : Char → Bool} {l : Line} (h : ∀ c ∈ l.head?, p c = false) :
    l.dropWhile p = l := by
  rcases l with _ | ⟨c, l⟩
  · rfl
  · rw [List.dropWhile_cons_of_neg]
    rw [h c rfl]
    exact Bool.false_ne_true

theorem takeWhile_digits {digits after : Line} (hd : ∀ c ∈ digits, isDigit base c)
    (ha : ∀ c ∈ after, isSpace c) : (digits ++ after).takeWhile (isDigit base) = digits := by
  rw [List.takeWhile_append_of_pos hd]
  rcases after with _ | ⟨c, after⟩
  · rw [List.takeWhile_nil, List.append_nil]
  · rw [List.takeWhile_cons_of_neg, List.append_nil]
    rw [digitVal_of_isSpace (ha c List.mem_cons_self)]
    exact Bool.false_ne_true

/-- Digits have no `0x` of their own. -/
theorem skipBasePrefix_digits {digits after : Line} (hd : ∀ c ∈ digits, isDigit base c)
    (ha : ∀ c ∈ after, isSpace c) :
    skipBasePrefix base (digits ++ after) = digits ++ after := by
  unfold skipBasePrefix
  split
  · rename_i z x c s heq
    rw [if_neg ?_, heq]
    rintro ⟨rfl, -, hx, -⟩
    -- the `x` would be a digit or a blank
    have hmem : x ∈ digits ++ after := by
      rw [heq]
      exact List.mem_cons_of_mem z List.mem_cons_self
    rcases List.mem_append.1 hmem with hmem | hmem
    · have := hd x hmem
      rw [not_isDigit_x hx] at this
      exact Bool.false_ne_true this
    · have := ha x hmem
      rcases hx with rfl | rfl
      · exact absurd this (by decide)
      · exact absurd this (by decide)
  · rfl

theorem skipBasePrefix_numeral (n : Numeral base) {after : Line} (ha : ∀ c ∈ after, isSpace c) :
    skipBasePrefix base (n.basePrefix ++ n.digits ++ after) = n.digits ++ after := by
  rcases n.prefix_ok with h | ⟨rfl, h⟩
  · rw [h, List.nil_append]
    exact skipBasePrefix_digits n.valid ha
  · obtain ⟨d, ds, hds⟩ := List.exists_cons_of_ne_nil n.nonempty
    have hd : isDigit 16 d = true := n.valid d (by rw [hds]; exact List.mem_cons_self)
    rcases h with h | h <;> rw [h, hds]
    · exact if_pos ⟨rfl, rfl, .inl rfl, hd⟩
    · exact if_pos ⟨rfl, rfl, .inr rfl, hd⟩

/-- What a number begins with after its sign. -/
theorem head_numeral (n : Numeral base) :
    ∃ c s, n.basePrefix ++ n.digits = c :: s ∧ isDigit base c := by
  obtain ⟨d, ds, hds⟩ := List.exists_cons_of_ne_nil n.nonempty
  rcases n.prefix_ok with h | ⟨rfl, h | h⟩
  · exact ⟨d, ds, by rw [h, hds]; rfl, n.valid d (by rw [hds]; exact List.mem_cons_self)⟩
  · exact ⟨'0', 'x' :: n.digits, by rw [h]; rfl, rfl⟩
  · exact ⟨'0', 'X' :: n.digits, by rw [h]; rfl, rfl⟩

theorem text_ne_nil (n : Numeral base) : n.text ≠ [] := by
  obtain ⟨c, s, hcs, -⟩ := head_numeral n
  unfold Numeral.text
  rw [hcs]
  simp

/-- A number begins with neither a blank nor a quote. -/
theorem head_text (n : Numeral base) : ∀ c ∈ n.text.head?, isSpace c = false ∧ c ≠ '"' := by
  obtain ⟨c, s, hcs, hc⟩ := head_numeral n
  unfold Numeral.text
  rw [hcs]
  rcases n.sign with _ | _ | _
  · rintro _ ⟨⟩
    exact ⟨isSpace_of_isDigit hc, ne_of_isDigit (isDigit_quote base) hc⟩
  · rintro _ ⟨⟩
    exact ⟨rfl, by decide⟩
  · rintro _ ⟨⟩
    exact ⟨rfl, by decide⟩

theorem skipSign_text (n : Numeral base) (after : Line) :
    skipSign (n.text ++ after)
      = (decide (n.sign = some true), n.basePrefix ++ n.digits ++ after) := by
  obtain ⟨c, s, hcs, hc⟩ := head_numeral n
  unfold Numeral.text
  rcases n.sign with _ | _ | _
  · rw [hcs]
    unfold skipSign
    simp [ne_of_isDigit (isDigit_minus base) hc, ne_of_isDigit (isDigit_plus base) hc]
  · simp [skipSign]
  · simp [skipSign]

theorem parseNumber_text (n : Numeral base) {after : Line} (ha : ∀ c ∈ after, isSpace c) :
    parseNumber base (n.text ++ after)
      = some (decide (n.sign = some true), magnitude base n.digits) := by
  have hhead : ∀ c ∈ (n.text ++ after).head?, isSpace c = false := by
    intro c hc
    rw [List.head?_append_of_ne_nil _ (text_ne_nil n)] at hc
    exact (head_text n c hc).1
  unfold parseNumber
  rw [dropWhile_of_head hhead, skipSign_text]
  dsimp only
  rw [skipBasePrefix_numeral n ha, takeWhile_digits n.valid ha, if_neg n.nonempty]

/-- A number that is an `int` is read as it is. -/
theorem strtol_text (n : Numeral base) {after : Line} (ha : ∀ c ∈ after, isSpace c)
    (hn : -2 ^ 31 ≤ n.value ∧ n.value < 2 ^ 31) : strtol base (n.text ++ after) = some n.value := by
  unfold strtol
  rw [parseNumber_text n ha, Option.map_some]
  unfold Numeral.value at hn ⊢
  by_cases hneg : n.sign = some true
  · simp only [hneg, decide_true, if_true] at hn ⊢
    rw [Int.max_eq_left (by omega)]
  · simp only [hneg, decide_false, if_false, Bool.false_eq_true] at hn ⊢
    rw [Int.min_eq_left (by omega)]

theorem strtoul_text (n : Numeral base) {after : Line} (ha : ∀ c ∈ after, isSpace c)
    (hn : -2 ^ 31 ≤ n.value ∧ n.value < 2 ^ 31) :
    ∃ l, strtoul base (n.text ++ after) = some l ∧ l.bmod (2 ^ 32) = n.value := by
  unfold strtoul
  rw [parseNumber_text n ha, Option.map_some]
  refine ⟨_, rfl, ?_⟩
  unfold Numeral.value at hn ⊢
  by_cases hneg : n.sign = some true
  · simp only [hneg, decide_true, if_true] at hn ⊢
    rw [if_neg (by omega), Int.bmod_def]
    omega
  · simp only [hneg, decide_false, if_false, Bool.false_eq_true] at hn ⊢
    rw [if_neg (by omega)]
    exact Int.bmod_eq_of_le (by omega) (by omega)

theorem parseNumber_minus {after : Line} (ha : ∀ c ∈ after, isSpace c) :
    parseNumber base ('-' :: after) = none := by
  have htake : after.takeWhile (isDigit base) = [] :=
    @takeWhile_digits base [] after (fun _ hc => absurd hc List.not_mem_nil) ha
  unfold parseNumber
  rw [dropWhile_of_head (by rintro _ ⟨⟩; rfl)]
  have hskip : skipBasePrefix base after = after :=
    @skipBasePrefix_digits base [] after (fun _ hc => absurd hc List.not_mem_nil) ha
  change (if (skipBasePrefix base after).takeWhile (isDigit base) = [] then none else _) = none
  rw [hskip, htake, if_pos rfl]

end Numbers

section Tokens

variable {before after tail s : Line}

theorem skipWhiteSpace_blank (hb : ∀ c ∈ before, isSpace c) (l : Line) :
    skipWhiteSpace (before ++ l) = skipWhiteSpace l := List.dropWhile_append_of_pos hb

/-- What comes after an item: nothing, or a comma. -/
def Follows (tail : Line) : Prop := tail.head? = none ∨ tail.head? = some ','

theorem takeWhile_follows {l : Line} (hl : ',' ∉ l) (ht : Follows tail) :
    (l ++ tail).takeWhile (· ≠ ',') = l ∧ (l ++ tail).dropWhile (· ≠ ',') = tail := by
  have hpos : ∀ c ∈ l, decide (c ≠ ',') = true := fun c hc => by
    rw [decide_eq_true_iff]
    rintro rfl
    exact hl hc
  rw [List.takeWhile_append_of_pos hpos, List.dropWhile_append_of_pos hpos]
  rcases tail with _ | ⟨c, tail⟩
  · exact ⟨List.append_nil l, rfl⟩
  · obtain rfl : c = ',' := by simpa [Follows] using ht
    rw [List.takeWhile_cons_of_neg (by simp), List.dropWhile_cons_of_neg (by simp)]
    exact ⟨List.append_nil l, rfl⟩

theorem comma_notMem_blank (ha : ∀ c ∈ after, isSpace c) : ',' ∉ after :=
  fun h => absurd (ha ',' h) (by decide)

/-- A token without quotes is what is before the comma, with the blanks. -/
theorem nextTok_bare (hb : ∀ c ∈ before, isSpace c) (ha : ∀ c ∈ after, isSpace c)
    (hs : ∀ c ∈ s.head?, isSpace c = false ∧ c ≠ '"') (hne : s ≠ []) (hcomma : ',' ∉ s)
    (ht : Follows tail) :
    nextTok (before ++ (s ++ after) ++ tail) = (s ++ after, tail.tail?) := by
  obtain ⟨c, s, rfl⟩ := List.exists_cons_of_ne_nil hne
  obtain ⟨hspace, hquote⟩ := hs c rfl
  obtain ⟨htake, hdrop⟩ := takeWhile_follows (l := c :: s ++ after) (by
    rw [List.mem_append]
    exact fun h => h.elim hcomma (comma_notMem_blank ha)) ht
  have hskip : skipWhiteSpace (before ++ (c :: s ++ after) ++ tail) = c :: s ++ after ++ tail := by
    rw [List.append_assoc, skipWhiteSpace_blank hb]
    exact dropWhile_of_head (by rintro _ ⟨⟩; exact hspace)
  unfold nextTok
  rw [hskip]
  change (if c = '"' then _ else strsep ',' (c :: s ++ after ++ tail)) = _
  rw [if_neg hquote]
  unfold strsep
  rw [htake, hdrop]

theorem nextTok_quoted (hb : ∀ c ∈ before, isSpace c) (ha : ∀ c ∈ after, isSpace c)
    (hs : '"' ∉ s) (ht : Follows tail) :
    nextTok (before ++ ('"' :: (s ++ ['"']) ++ after) ++ tail) = (s, some tail.tail) := by
  have hskip : skipWhiteSpace (before ++ ('"' :: (s ++ ['"']) ++ after) ++ tail)
      = '"' :: (s ++ '"' :: (after ++ tail)) := by
    rw [List.append_assoc, skipWhiteSpace_blank hb]
    simp only [List.cons_append, List.append_assoc, List.nil_append]
    exact dropWhile_of_head (by rintro _ ⟨⟩; rfl)
  have hpos : ∀ c ∈ s, decide (c ≠ '"') = true := fun c hc => by
    rw [decide_eq_true_iff]
    rintro rfl
    exact hs hc
  have hsep : strsep '"' (s ++ '"' :: (after ++ tail)) = (s, some (after ++ tail)) := by
    unfold strsep
    rw [List.takeWhile_append_of_pos hpos, List.dropWhile_append_of_pos hpos,
      List.takeWhile_cons_of_neg (by simp), List.dropWhile_cons_of_neg (by simp), List.append_nil]
    rfl
  unfold nextTok
  rw [hskip]
  dsimp only
  rw [if_pos rfl, hsep, Option.map_some, skipNextComma,
    (takeWhile_follows (comma_notMem_blank ha) ht).2]

theorem not_mem_takeWhile_ne {x : Char} (l : Line) : x ∉ l.takeWhile (· ≠ x) := fun h => by
  simpa using List.mem_takeWhile_imp h

/-- A token comes after a quote and has none in it, or begins with neither a blank nor a quote. -/
theorem nextTok_cases (l : Line) :
    ((skipWhiteSpace l).head? = some '"' ∧ '"' ∉ (nextTok l).1)
      ∨ ∀ c ∈ (nextTok l).1.head?, isSpace c = false ∧ c ≠ '"' := by
  have hhead : ∀ c ∈ (skipWhiteSpace l).head?, isSpace c = false := by
    intro c hc
    have h := List.head?_dropWhile_not isSpace l
    rw [show (l.dropWhile isSpace).head? = some c from hc] at h
    exact h
  unfold nextTok
  rcases hl : skipWhiteSpace l with _ | ⟨c, rest⟩
  · exact .inr (by simp [strsep])
  · dsimp only
    rw [hl] at hhead
    by_cases hc : c = '"'
    · rw [if_pos hc, hc]
      exact .inl ⟨rfl, not_mem_takeWhile_ne rest⟩
    · rw [if_neg hc]
      refine .inr fun d hd => ?_
      unfold strsep at hd
      rw [List.takeWhile_cons] at hd
      split_ifs at hd
      · obtain rfl := Option.some.inj hd
        exact ⟨hhead _ rfl, hc⟩
      · cases hd

/-- The first character after the blanks is a quote only if there is one in the string. -/
theorem quote_mem (hb : ∀ c ∈ before, isSpace c) (ha : ∀ c ∈ after, isSpace c)
    (ht : Follows tail)
    (h : (skipWhiteSpace (before ++ (s ++ after) ++ tail)).head? = some '"') : '"' ∈ s := by
  rw [List.append_assoc, skipWhiteSpace_blank hb, List.append_assoc, skipWhiteSpace,
    List.dropWhile_append] at h
  split_ifs at h with hempty
  · -- nothing but blanks, so that the next character is the comma
    rw [List.dropWhile_append_of_pos ha] at h
    rcases tail with _ | ⟨c, tail⟩
    · cases h
    · obtain rfl : c = ',' := by simpa [Follows] using ht
      rw [dropWhile_of_head (by rintro _ ⟨⟩; rfl)] at h
      exact absurd (Option.some.inj h) (by decide)
  · have hsuffix : s.dropWhile isSpace ⊆ s := (List.dropWhile_suffix isSpace).subset
    rcases hdrop : s.dropWhile isSpace with _ | ⟨c, rest⟩
    · rw [hdrop] at hempty
      exact absurd rfl hempty
    · rw [hdrop] at h hsuffix
      obtain rfl := Option.some.inj h
      exact hsuffix List.mem_cons_self

/-- A string that begins with a blank or a quote is not the token. -/
theorem nextTok_ne (hb : ∀ c ∈ before, isSpace c) (ha : ∀ c ∈ after, isSpace c)
    (ht : Follows tail) (hs : ¬ ∀ c ∈ s.head?, isSpace c = false ∧ c ≠ '"') :
    (nextTok (before ++ (s ++ after) ++ tail)).1 ≠ s := by
  intro heq
  rcases nextTok_cases (before ++ (s ++ after) ++ tail) with ⟨hquote, hnot⟩ | hhead
  · rw [heq] at hnot
    exact hnot (quote_mem hb ha ht hquote)
  · rw [heq] at hhead
    exact hs hhead

end Tokens

section Items

variable {i : Item} {is : List Item} {tail : Line} {convs : List Char}

theorem notMem_text {base : ℕ} (n : Numeral base) {x : Char} (hx : isDigit base x = false)
    (hx' : x ∉ ['-', '+', '0', 'x', 'X']) : x ∉ n.text := by
  unfold Numeral.text
  rw [List.mem_append, List.mem_append]
  rintro (h | h | h)
  · rcases hs : n.sign with _ | _ | _ <;> rw [hs] at h <;> simp at h <;> simp [h] at hx'
  · rcases n.prefix_ok with hp | ⟨-, hp | hp⟩ <;> rw [hp] at h <;> simp at h <;>
      rcases h with rfl | rfl <;> simp at hx'
  · have := n.valid x h
    rw [hx] at this
    exact Bool.false_ne_true this

theorem comma_notMem_text {base : ℕ} (n : Numeral base) : ',' ∉ n.text :=
  notMem_text n (isDigit_comma base) (by decide)

theorem text_ne_minus {base : ℕ} (n : Numeral base) : n.text ≠ ['-'] := by
  obtain ⟨c, s, hcs, hc⟩ := head_numeral n
  unfold Numeral.text
  rw [hcs]
  rcases n.sign with _ | _ | _
  · intro h
    exact ne_of_isDigit (isDigit_minus base) hc (List.head_eq_of_cons_eq h)
  · simp
  · simp

theorem take_two_ne {t l : Line} (hne : t ≠ []) (hcomma : ',' ∉ t) (hminus : t ≠ ['-']) :
    (t ++ l).take 2 ≠ ['-', ','] := by
  rcases t with _ | ⟨c, _ | ⟨d, t⟩⟩
  · exact absurd rfl hne
  · intro h
    have hc : c = '-' := List.head_eq_of_cons_eq h
    exact hminus (congrArg (fun c => [c]) hc)
  · intro h
    have hd : d = ',' := List.head_eq_of_cons_eq (List.tail_eq_of_cons_eq h)
    exact hcomma (hd ▸ List.mem_cons_of_mem c List.mem_cons_self)

/-- The test on raw characters is met by a `-` with nothing around it and a comma behind it. -/
theorem take_two_iff (ht : Follows tail) :
    (i.text ++ tail).take 2 = ['-', ',']
      ↔ i.field = .dash ∧ i.before = [] ∧ i.after = [] ∧ tail ≠ [] := by
  have hblank := i.before_blank
  have hafter := i.after_blank
  have hvalid := i.valid
  unfold Item.text
  rcases hb : i.before with _ | ⟨b, bs⟩
  · rw [List.nil_append, List.append_assoc]
    rcases hf : i.field with n | n | s | s | _
    · exact iff_of_false (take_two_ne (text_ne_nil n) (comma_notMem_text n) (text_ne_minus n))
        fun h => by cases h.1
    · exact iff_of_false (take_two_ne (text_ne_nil n) (comma_notMem_text n) (text_ne_minus n))
        fun h => by cases h.1
    · refine iff_of_false (fun h => ?_) fun h => by cases h.1
      exact absurd (List.head_eq_of_cons_eq h) (by decide)
    · rw [hf] at hvalid
      exact iff_of_false (take_two_ne hvalid.1 hvalid.2.1 hvalid.2.2) fun h => by cases h.1
    · rcases ha : i.after with _ | ⟨a, as⟩
      · rcases tail with _ | ⟨c, tail⟩
        · simp [Field.text]
        · obtain rfl : c = ',' := by simpa [Follows] using ht
          simp [Field.text]
      · refine iff_of_false (fun h => ?_) fun h => by cases h.2.2.1
        have ha' : a = ',' := List.head_eq_of_cons_eq (List.tail_eq_of_cons_eq h)
        have := hafter a (by rw [ha]; exact List.mem_cons_self)
        rw [ha'] at this
        exact absurd this (by decide)
  · refine iff_of_false (fun h => ?_) fun h => by cases h.2.1
    have hb' : b = '-' := List.head_eq_of_cons_eq h
    have := hblank b (by rw [hb]; exact List.mem_cons_self)
    rw [hb'] at this
    exact absurd this (by decide)

/-- Where the cursor is after an item. -/
def Next (tail : Line) (cur : Option Line) : Prop := cur = tail.tail? ∨ cur = some tail.tail

/-- The item is stored, and the reading goes on behind it. -/
def Taken (i : Item) (convs : List Char) (tail : Line) : Prop :=
  ∃ out cur, i.field.Stored i.conv out ∧ Next tail cur
    ∧ scan (i.conv :: convs) (some (i.text ++ tail))
      = ((scan convs cur).1 + 1, out :: (scan convs cur).2)

theorem hasmore_item (i : Item) (tail : Line) : atTokHasmore (some (i.text ++ tail)) = true := by
  have hne : i.field.text ≠ [] := by
    have hvalid := i.valid
    rcases hf : i.field with n | n | s | s | _
    · exact text_ne_nil n
    · exact text_ne_nil n
    · exact List.cons_ne_nil _ _
    · rw [hf] at hvalid
      exact hvalid.1
    · exact List.cons_ne_nil _ _
  simp [atTokHasmore, Item.text, hne]

theorem taken_of_convert {out : Option Out} {cur : Option Line}
    (hskip : ¬ (i.text ++ tail).take 2 = ['-', ','])
    (hconv : convert i.conv (i.text ++ tail) = (out, some cur))
    (hstored : i.field.Stored i.conv out) (hnext : Next tail cur) : Taken i convs tail := by
  refine ⟨out, cur, hstored, hnext, ?_⟩
  rw [scan, if_pos (hasmore_item i tail)]
  dsimp only [Option.getD]
  rw [if_neg hskip, hconv]

/-- A number without quotes, in both bases. -/
theorem convert_dec {n : Numeral 10} (hf : i.field = .dec n) (ht : Follows tail) :
    ∃ out, convert i.conv (i.text ++ tail) = (out, some tail.tail?)
      ∧ i.field.Stored i.conv out := by
  have hvalid := i.valid
  have hmatches := i.matches_conv
  have hint : atTokNextint (i.text ++ tail) = (n.value, some tail.tail?) := by
    unfold atTokNextint atTokNextintBase Item.text
    rw [hf] at hvalid ⊢
    simp only [Field.text, Bool.false_eq_true, if_false]
    rw [nextTok_bare i.before_blank i.after_blank (head_text n) (text_ne_nil n)
      (comma_notMem_text n) ht, strtol_text n i.after_blank hvalid]
    exact Prod.ext (Int.bmod_eq_of_le (by have := hvalid.1; simp; omega)
      (by have := hvalid.2; simp; omega)) rfl
  rw [hf] at hmatches ⊢
  rcases hmatches with hd | ⟨hb, h01⟩
  · rw [hd]
    refine ⟨some (.int n.value), ?_, rfl⟩
    unfold convert
    rw [if_pos rfl, hint]
  · rw [hb]
    refine ⟨some (.bool (n.value = 1)), ?_, rfl⟩
    unfold convert
    rw [if_neg (by decide), if_neg (by decide), if_pos rfl, atTokNextbool, hint]
    exact if_pos ⟨rfl, h01⟩

theorem convert_hex {n : Numeral 16} (hf : i.field = .hex n) (ht : Follows tail) :
    convert i.conv (i.text ++ tail) = (some (.int n.value), some tail.tail?) := by
  have hvalid := i.valid
  have hmatches := i.matches_conv
  rw [hf] at hvalid hmatches
  obtain ⟨l, hl, hmod⟩ := strtoul_text n i.after_blank hvalid
  have hconv : i.conv = 'x' := hmatches
  unfold convert
  rw [hconv, if_neg (by decide), if_pos rfl]
  unfold atTokNexthexint atTokNextintBase Item.text
  rw [hf]
  simp only [Field.text, if_true]
  rw [nextTok_bare i.before_blank i.after_blank (head_text n) (text_ne_nil n)
    (comma_notMem_text n) ht, hl]
  exact Prod.ext (congrArg (some ∘ Out.int) hmod) rfl

/-- A `-` is the token, with the blanks behind it. -/
theorem nextTok_dash (hf : i.field = .dash) (ht : Follows tail) :
    nextTok (i.text ++ tail) = ('-' :: i.after, tail.tail?) := by
  unfold Item.text
  rw [hf]
  exact nextTok_bare (s := ['-']) i.before_blank i.after_blank
    (by rintro _ ⟨⟩; exact ⟨rfl, by decide⟩) (List.cons_ne_nil _ _) (by simp) ht

theorem convert_dash (hf : i.field = .dash) (ht : Follows tail) (hs : i.conv ≠ 's') :
    (convert i.conv (i.text ++ tail)).2 = none := by
  have hmatches := i.matches_conv
  have htok := nextTok_dash hf ht
  have hdec : atTokNextint (i.text ++ tail) = (0, none) := by
    simp [atTokNextint, atTokNextintBase, htok, strtol, parseNumber_minus i.after_blank]
  have hhex : atTokNexthexint (i.text ++ tail) = (0, none) := by
    simp [atTokNexthexint, atTokNextintBase, htok, strtoul, parseNumber_minus i.after_blank]
  rw [hf] at hmatches
  rcases hmatches with h | h | h | h
  · simp [h, convert, hdec]
  · simp [h, convert, hhex]
  · simp [h, convert, atTokNextbool, hdec]
  · exact absurd h hs

theorem convert_str (hs : i.conv = 's') :
    convert i.conv (i.text ++ tail)
      = (some (.str (nextTok (i.text ++ tail)).1), some (nextTok (i.text ++ tail)).2) := by
  rw [hs]
  rfl

theorem scan_skip (hf : i.field = .dash) (hb : i.before = []) (ha : i.after = [])
    (ht : Follows tail) (hne : tail ≠ []) : Taken i convs tail := by
  refine ⟨if i.conv = 'd' then some (.int (-1)) else none, some tail.tail, ?_, .inr rfl, ?_⟩
  · rw [hf]
    exact fun hd => if_pos hd
  · have hskip := (take_two_iff ht).2 ⟨hf, hb, ha, hne⟩
    obtain ⟨c, rest, rfl⟩ := List.exists_cons_of_ne_nil hne
    rw [scan, if_pos (hasmore_item i _)]
    dsimp only [Option.getD]
    rw [if_pos hskip]
    simp [Item.text, hf, hb, ha, Field.text]

/-- A readable item is taken. -/
theorem scan_readable (convs : List Char) (hr : i.Readable is) (ht : Follows tail)
    (htail : is ≠ [] → tail ≠ []) : Taken i convs tail := by
  by_cases hskip : (i.text ++ tail).take 2 = ['-', ',']
  · obtain ⟨hf, hb, ha, hne⟩ := (take_two_iff ht).1 hskip
    exact scan_skip hf hb ha ht hne
  have hvalid := i.valid
  have hmatches := i.matches_conv
  unfold Item.Readable at hr
  rcases hf : i.field with n | n | s | s | _ <;> rw [hf] at hvalid hmatches hr
  · obtain ⟨out, hconv, hstored⟩ := convert_dec hf ht
    exact taken_of_convert hskip hconv hstored (.inl rfl)
  · exact taken_of_convert hskip (convert_hex hf ht) (by rw [hf]; rfl) (.inl rfl)
  · have htok : nextTok (i.text ++ tail) = (s, some tail.tail) := by
      unfold Item.text
      rw [hf]
      exact nextTok_quoted i.before_blank i.after_blank hvalid ht
    refine taken_of_convert hskip (convert_str hmatches) ?_ (.inr ?_)
    · rw [hf, htok]
      rfl
    · rw [htok]
  · obtain ⟨hafter, hhead⟩ := hr
    have htok : nextTok (i.text ++ tail) = (s, tail.tail?) := by
      have h := nextTok_bare i.before_blank i.after_blank hhead hvalid.1 hvalid.2.1 ht
      unfold Item.text
      rw [hf]
      rw [hafter, List.append_nil] at h ⊢
      exact h
    refine taken_of_convert hskip (convert_str hmatches) ?_ (.inl ?_)
    · rw [hf, htok]
      rfl
    · rw [htok]
  · rcases hr with hs | ⟨hb, ha, his⟩
    · refine taken_of_convert hskip (convert_str hs) ?_ (.inl ?_)
      · rw [hf, hs]
        exact fun h => absurd h (by decide)
      · rw [nextTok_dash hf ht]
    · exact absurd ((take_two_iff ht).2 ⟨hf, hb, ha, htail his⟩) hskip

/-- An item that is not readable ends the reading, or something else is stored for it. -/
theorem scan_unreadable (convs : List Char) (hr : ¬ i.Readable is) (ht : Follows tail)
    (htail : tail ≠ [] → is ≠ []) :
    (scan (i.conv :: convs) (some (i.text ++ tail))).1 = 0
      ∨ ∃ out outs, (scan (i.conv :: convs) (some (i.text ++ tail))).2 = out :: outs
        ∧ ¬ i.field.Stored i.conv out := by
  have hvalid := i.valid
  have hmatches := i.matches_conv
  have hskip : ¬ (i.text ++ tail).take 2 = ['-', ','] := by
    intro hskip
    obtain ⟨hf, hb, ha, hne⟩ := (take_two_iff ht).1 hskip
    refine hr ?_
    unfold Item.Readable
    rw [hf]
    exact .inr ⟨hb, ha, htail hne⟩
  rw [scan, if_pos (hasmore_item i tail)]
  dsimp only [Option.getD]
  rw [if_neg hskip]
  unfold Item.Readable at hr
  rcases hf : i.field with n | n | s | s | _ <;> rw [hf] at hvalid hmatches hr
  · exact absurd trivial hr
  · exact absurd trivial hr
  · exact absurd trivial hr
  · -- the token is not the string
    have htok : (nextTok (i.text ++ tail)).1 ≠ s := by
      by_cases hhead : ∀ c ∈ s.head?, isSpace c = false ∧ c ≠ '"'
      · have hafter : i.after ≠ [] := fun h => hr ⟨h, hhead⟩
        have h := nextTok_bare i.before_blank i.after_blank hhead hvalid.1 hvalid.2.1 ht
        unfold Item.text
        rw [hf]
        intro heq
        rw [show Field.text (.unquoted s) = s from rfl, h] at heq
        exact hafter (List.append_right_eq_self.1 heq)
      · unfold Item.text
        rw [hf]
        exact nextTok_ne i.before_blank i.after_blank ht hhead
    rw [convert_str hmatches]
    exact .inr ⟨_, _, rfl, fun h => htok (Out.str.inj (Option.some.inj h))⟩
  · have hs : i.conv ≠ 's' := fun h => hr (.inl h)
    have hnone := convert_dash hf ht hs
    rcases hconv : convert i.conv (i.text ++ tail) with ⟨out, _ | cur⟩
    · exact .inl rfl
    · rw [hconv] at hnone
      cases hnone

end Items

/-! ## The line -/

section Line

variable {i : Item} {is : List Item} {n : ℕ} {out : Option Out} {outs : List (Option Out)}

/-- What is behind an item. -/
def behind : List Item → Line
  | [] => []
  | i :: is => ',' :: body (i :: is)

theorem body_cons (i : Item) (is : List Item) : body (i :: is) = i.text ++ behind is := by
  rcases is with _ | ⟨j, is⟩
  · exact (List.append_nil _).symm
  · rfl

theorem follows_behind (is : List Item) : Follows (behind is) := by
  rcases is with _ | ⟨j, is⟩
  · exact .inl rfl
  · exact .inr rfl

theorem behind_ne_nil_iff : behind is ≠ [] ↔ is ≠ [] := by
  rcases is with _ | ⟨j, is⟩ <;> simp [behind]

theorem readsBack_cons_iff :
    ReadsBack (i :: is) (n + 1, out :: outs)
      ↔ i.field.Stored i.conv out ∧ ReadsBack is (n, outs) := by
  constructor
  · rintro ⟨hcount, hstored⟩
    rw [List.forall₂_cons] at hstored
    exact ⟨hstored.1, Nat.succ.inj hcount, hstored.2⟩
  · rintro ⟨hstored, hcount, hall⟩
    exact ⟨congrArg Nat.succ hcount, .cons hstored hall⟩

/-- A reading that goes wrong at the first item. -/
theorem not_readsBack {r : ℕ × List (Option Out)}
    (h : r.1 = 0 ∨ ∃ out outs, r.2 = out :: outs ∧ ¬ i.field.Stored i.conv out) :
    ¬ ReadsBack (i :: is) r := by
  intro hr
  rcases h with hzero | ⟨out, outs, houts, hnot⟩
  · exact absurd (hzero.symm.trans hr.count) (Nat.succ_ne_zero _).symm
  · have hstored := hr.stored
    rw [houts, List.forall₂_cons] at hstored
    exact hnot hstored.1

/-- After the last item, no further conversion is tried. -/
theorem scan_end {convs : List Char} {cur : Option Line} (h : Next [] cur) :
    scan convs cur = (0, []) := by
  rcases convs with _ | ⟨c, convs⟩
  · rfl
  · rcases h with rfl | rfl
    · rfl
    · rfl

/-- From the first item on, everything is read back exactly if all items are readable. -/
theorem scan_iff (extra : List Char) : ∀ (is : List Item) (cur : Option Line),
    (is = [] → Next [] cur) → (is ≠ [] → cur = some (body is)) →
    (ReadsBack is (scan (is.map Item.conv ++ extra) cur) ↔ Readable is)
  | [], cur, hnil, _ => by
    rw [List.map_nil, List.nil_append, scan_end (hnil rfl)]
    exact iff_of_true ⟨rfl, .nil⟩ trivial
  | i :: is, cur, _, hcons => by
    rw [hcons (List.cons_ne_nil i is), List.map_cons, List.cons_append, body_cons]
    by_cases hr : i.Readable is
    · obtain ⟨out, cur', hstored, hnext, hscan⟩ := scan_readable (is.map Item.conv ++ extra) hr
        (follows_behind is) behind_ne_nil_iff.2
      have ih := scan_iff extra is cur'
        (by rintro rfl; exact hnext)
        (fun hne => by
          obtain ⟨j, js, rfl⟩ := List.exists_cons_of_ne_nil hne
          rcases hnext with rfl | rfl
          · rfl
          · rfl)
      rw [hscan, readsBack_cons_iff, ih]
      exact ⟨fun h => ⟨hr, h.2⟩, fun h => ⟨hstored, h.2⟩⟩
    · exact iff_of_false (not_readsBack (scan_unreadable _ hr (follows_behind is)
        behind_ne_nil_iff.1)) fun h => hr h.1

/-- The blank after the colon, as one of the item. -/
def Item.first (i : Item) : Item :=
  { i with
    before := ' ' :: i.before
    before_blank := List.forall_mem_cons.2 ⟨rfl, i.before_blank⟩ }

theorem first_readable_iff :
    i.first.Readable is ↔ (i.field = .dash → i.conv = 's') ∧ i.Readable is := by
  unfold Item.Readable
  rw [show i.first.field = i.field from rfl, show i.first.before = ' ' :: i.before from rfl,
    show i.first.after = i.after from rfl, show i.first.conv = i.conv from rfl]
  rcases i.field with n | n | s | s | _
  · simp
  · simp
  · simp
  · simp
  · constructor
    · rintro (hs | ⟨hnil, -⟩)
      · exact ⟨fun _ => hs, .inl hs⟩
      · cases hnil
    · exact fun h => .inl (h.1 rfl)

theorem readsBack_first_iff {r : ℕ × List (Option Out)} :
    ReadsBack (i.first :: is) r ↔ ReadsBack (i :: is) r := by
  constructor
  · rintro ⟨hcount, hstored⟩
    exact ⟨hcount, by rw [List.forall₂_cons_left_iff] at hstored ⊢; exact hstored⟩
  · rintro ⟨hcount, hstored⟩
    exact ⟨hcount, by rw [List.forall₂_cons_left_iff] at hstored ⊢; exact hstored⟩

theorem atTokStart_append {pre : Line} (hpre : ':' ∉ pre) (l : Line) :
    atTokStart (pre ++ ':' :: l) = some l := by
  have hpos : ∀ c ∈ pre, decide (c ≠ ':') = true := fun c hc => by
    rw [decide_eq_true_iff]
    rintro rfl
    exact hpre hc
  unfold atTokStart
  rw [List.dropWhile_append_of_pos hpos, List.dropWhile_cons_of_neg (by simp)]
  rfl

end Line

/-- A formatted line is read back, with as many conversions as it has fields or more, if and only if
every item is readable and the first is not a `-` that is read as a number. -/
theorem atTokScanf_iff (pre fmt : Line) (is : List Item) (extra : List Char) (hpre : ':' ∉ pre)
    (hne : is ≠ []) (hfmt : conversions fmt = is.map Item.conv ++ extra)
    (hlen : (formatted pre is).length ≤ 1023) :
    ReadsBack is (atTokScanf (formatted pre is) fmt)
      ↔ (∀ i ∈ is.head?, i.field = .dash → i.conv = 's') ∧ Readable is := by
  obtain ⟨i, is, rfl⟩ := List.exists_cons_of_ne_nil hne
  have hcur : ' ' :: body (i :: is) = body (i.first :: is) := by
    rw [body_cons, body_cons]
    rfl
  have hcopy : (formatted pre (i :: is)).take (sizeofLine - 1) = formatted pre (i :: is) :=
    List.take_of_length_le hlen
  unfold atTokScanf
  rw [hcopy, formatted, atTokStart_append hpre, hcur, hfmt]
  dsimp only
  have hscan := scan_iff extra (i.first :: is) (some (body (i.first :: is)))
    (fun h => absurd h (List.cons_ne_nil _ _)) fun _ => rfl
  rw [← readsBack_first_iff]
  refine hscan.trans ?_
  unfold Readable
  rw [first_readable_iff, and_assoc]
  simp

/-! ## Lines of numbers -/

section Num

variable {base : ℕ} {tail : Line}

/-- Blanks behind a number are not read. -/
theorem strto_append (n : Numeral base) {after : Line} (ha : ∀ c ∈ after, isSpace c) :
    strtol base (n.text ++ after) = strtol base n.text
      ∧ strtoul base (n.text ++ after) = strtoul base n.text := by
  have hnil := @parseNumber_text base n [] fun _ hc => absurd hc List.not_mem_nil
  rw [List.append_nil] at hnil
  unfold strtol strtoul
  rw [parseNumber_text n ha, hnil]
  exact ⟨rfl, rfl⟩

theorem strto_isSome (n : Numeral base) :
    (strtol base n.text).isSome ∧ (strtoul base n.text).isSome := by
  have hnil := @parseNumber_text base n [] fun _ hc => absurd hc List.not_mem_nil
  rw [List.append_nil] at hnil
  unfold strtol strtoul
  rw [hnil]
  exact ⟨rfl, rfl⟩

/-- The token of a number is the number, with the blanks if it is not in quotes. -/
theorem nextTok_num (x : Num base) (ht : Follows tail) :
    ∃ after cur, (∀ c ∈ after, isSpace c) ∧ Next tail cur
      ∧ nextTok (x.text ++ tail) = (x.numeral.text ++ after, cur) := by
  unfold Num.text
  by_cases hq : x.quoted = true
  · have hnot : '"' ∉ x.numeral.text := notMem_text x.numeral (isDigit_quote base) (by decide)
    rw [if_pos hq]
    refine ⟨[], some tail.tail, by simp, .inr rfl, ?_⟩
    rw [nextTok_quoted x.before_blank x.after_blank hnot ht, List.append_nil]
  · rw [if_neg hq]
    exact ⟨x.after, tail.tail?, x.after_blank, .inl rfl, nextTok_bare x.before_blank x.after_blank
      (head_text x.numeral) (text_ne_nil x.numeral) (comma_notMem_text x.numeral) ht⟩

theorem convert_number (x : Number) (ht : Follows tail) :
    ∃ cur, Next tail cur ∧ convert x.conv (x.text ++ tail) = (some (.int x.read), some cur) := by
  rcases x with x | x
  · obtain ⟨after, cur, hafter, hnext, htok⟩ := nextTok_num x ht
    obtain ⟨l, hl⟩ := Option.isSome_iff_exists.1 (strto_isSome x.numeral).1
    have hint : atTokNextint (x.text ++ tail) = (l.bmod (2 ^ 32), some cur) := by
      simp [atTokNextint, atTokNextintBase, htok, (strto_append x.numeral hafter).1, hl]
    refine ⟨cur, hnext, ?_⟩
    unfold convert
    simp only [Number.conv, Number.text, Number.read, if_true, hint, hl, Option.getD_some]
  · obtain ⟨after, cur, hafter, hnext, htok⟩ := nextTok_num x ht
    obtain ⟨l, hl⟩ := Option.isSome_iff_exists.1 (strto_isSome x.numeral).2
    have hint : atTokNexthexint (x.text ++ tail) = (l.bmod (2 ^ 32), some cur) := by
      simp [atTokNexthexint, atTokNextintBase, htok, (strto_append x.numeral hafter).2, hl]
    refine ⟨cur, hnext, ?_⟩
    unfold convert
    simp only [Number.conv, Number.text, Number.read, if_true, hint, hl, Option.getD_some]
    rfl

theorem text_number (x : Number) :
    x.text ≠ [] ∧ ',' ∉ x.text ∧ ∀ l : Line, (x.text ++ l).take 2 ≠ ['-', ','] := by
  have hnum : ∀ {base : ℕ} (x : Num base),
      x.text ≠ [] ∧ ',' ∉ x.text ∧ ∀ l : Line, (x.text ++ l).take 2 ≠ ['-', ','] := by
    intro base x
    have hne := text_ne_nil x.numeral
    have hcomma := comma_notMem_text x.numeral
    have hbefore := comma_notMem_blank x.before_blank
    have hafter := comma_notMem_blank x.after_blank
    unfold Num.text
    refine ⟨?_, ?_, fun l => ?_⟩
    · by_cases hq : x.quoted = true
      · rw [if_pos hq]
        simp
      · rw [if_neg hq]
        simp [hne]
    · by_cases hq : x.quoted = true
      · rw [if_pos hq]
        simp [hcomma, hbefore, hafter]
      · rw [if_neg hq]
        simp [hcomma, hbefore, hafter]
    · rcases hb : x.before with _ | ⟨b, bs⟩
      · by_cases hq : x.quoted = true
        · rw [if_pos hq]
          intro h
          exact absurd (List.head_eq_of_cons_eq h) (by decide)
        · rw [if_neg hq, List.nil_append, List.append_assoc]
          exact take_two_ne hne hcomma (text_ne_minus x.numeral)
      · intro h
        have hblank := x.before_blank b (by rw [hb]; exact List.mem_cons_self)
        rw [show b = '-' from List.head_eq_of_cons_eq h] at hblank
        exact absurd hblank (by decide)
  rcases x with x | x
  · exact hnum x
  · exact hnum x

/-- A number is stored, and the reading goes on behind it. -/
theorem scan_number (x : Number) (convs : List Char) (ht : Follows tail) :
    ∃ cur, Next tail cur ∧ scan (x.conv :: convs) (some (x.text ++ tail))
      = ((scan convs cur).1 + 1, some (.int x.read) :: (scan convs cur).2) := by
  obtain ⟨hne, -, hskip⟩ := text_number x
  obtain ⟨cur, hnext, hconv⟩ := convert_number x ht
  have hmore : atTokHasmore (some (x.text ++ tail)) = true := by simp [atTokHasmore, hne]
  refine ⟨cur, hnext, ?_⟩
  rw [scan, if_pos hmore]
  dsimp only [Option.getD]
  rw [if_neg (hskip tail), hconv]

theorem scan_numbers (ht : Follows tail) : ∀ xs : List Number, xs ≠ [] →
    scan (xs.map Number.conv) (some (numbers xs ++ tail))
      = (xs.length, xs.map fun x => some (.int x.read))
  | [], h => absurd rfl h
  | [x], _ => by
    obtain ⟨cur, -, hscan⟩ := scan_number x [] ht
    exact hscan
  | x :: y :: xs, _ => by
    have ih := scan_numbers ht (y :: xs) (List.cons_ne_nil y xs)
    have hfollows : Follows (',' :: (numbers (y :: xs) ++ tail)) := .inr rfl
    obtain ⟨cur, hnext, hscan⟩ := scan_number x ((y :: xs).map Number.conv) hfollows
    have hcur : cur = some (numbers (y :: xs) ++ tail) := by
      rcases hnext with rfl | rfl
      · rfl
      · rfl
    rw [hcur, ih] at hscan
    simp only [numbers, List.append_assoc, List.cons_append] at hscan ⊢
    exact hscan

theorem comma_count_numbers : ∀ xs : List Number,
    (numbers xs).count ',' = xs.length - 1
  | [] => rfl
  | [x] => List.count_eq_zero.2 (text_number x).2.1
  | x :: y :: xs => by
    have ih := comma_count_numbers (y :: xs)
    have hx := List.count_eq_zero.2 (text_number x).2.1
    simp only [numbers, List.count_append, List.count_cons_self, List.length_cons] at ih ⊢
    omega

theorem nextTok_blank {l : Line} (h : ∀ c ∈ l, isSpace c) : nextTok l = ([], none) := by
  have hskip : skipWhiteSpace l = [] := List.dropWhile_eq_nil_iff.2 h
  unfold nextTok
  rw [hskip]
  rfl

/-- At the end of the line there is nothing behind the token. -/
theorem next_of_notMem {l : Line} (h : ',' ∉ l) : Next [] (nextTok l).2 := by
  have hpos : ∀ {l' : Line}, l' ⊆ l → l'.dropWhile (· ≠ ',') = [] := fun hsub => by
    refine List.dropWhile_eq_nil_iff.2 fun c hc => ?_
    rw [decide_eq_true_iff]
    rintro rfl
    exact h (hsub hc)
  have hsub : skipWhiteSpace l ⊆ l := (List.dropWhile_suffix isSpace).subset
  unfold nextTok
  rcases hskip : skipWhiteSpace l with _ | ⟨c, rest⟩
  · exact .inl rfl
  · rw [hskip] at hsub
    have hrest : rest ⊆ l := fun _ hc => hsub (List.mem_cons_of_mem c hc)
    dsimp only
    split_ifs
    · unfold strsep
      rcases hdrop : rest.dropWhile (· ≠ '"') with _ | ⟨d, rest'⟩
      · exact .inl rfl
      · have hrest' : rest' ⊆ l := fun _ hc => hrest
          ((List.dropWhile_suffix _).subset (hdrop ▸ List.mem_cons_of_mem d hc))
        refine .inr ?_
        change some (skipNextComma rest') = _
        rw [skipNextComma, hpos hrest']
    · refine .inl ?_
      unfold strsep
      rw [hpos hsub]

theorem blank_take_before (x : Num base) (m : ℕ) : ∀ c ∈ x.before.take m, isSpace c := fun c hc =>
  x.before_blank c (List.mem_of_mem_take hc)

theorem nextTok_cut_quoted (x : Num base) (m : ℕ) (hq : x.quoted = true) :
    (nextTok (x.text.take m)).1 = x.numeral.text.take (m - x.lead) := by
  have hblank := blank_take_before x m
  unfold Num.text Num.lead
  rw [if_pos hq, if_pos hq, List.take_append]
  rcases hm : m - x.before.length with _ | k
  · have hzero : m - (x.before.length + 1) = 0 := by omega
    rw [List.take_zero, List.append_nil, nextTok_blank hblank, hzero]
    rfl
  · have hk : m - (x.before.length + 1) = k := by omega
    have hnot : ∀ c ∈ x.numeral.text.take k, decide (c ≠ '"') = true := fun c hc => by
      rw [decide_eq_true_iff]
      rintro rfl
      exact notMem_text x.numeral (isDigit_quote base) (by decide) (List.mem_of_mem_take hc)
    have hskip : skipWhiteSpace (x.before.take m
        ++ ('"' :: (x.numeral.text ++ ['"']) ++ x.after).take (k + 1))
          = '"' :: (x.numeral.text ++ '"' :: x.after).take k := by
      rw [skipWhiteSpace_blank hblank]
      simp only [List.cons_append, List.append_assoc, List.nil_append, List.take_succ_cons]
      exact dropWhile_of_head (by rintro _ ⟨⟩; rfl)
    unfold nextTok
    rw [hk, hskip]
    dsimp only
    rw [if_pos rfl, strsep, List.take_append, List.takeWhile_append_of_pos hnot]
    rcases k - x.numeral.text.length with _ | k
    · rw [List.take_zero, List.takeWhile_nil, List.append_nil]
    · rw [List.take_succ_cons, List.takeWhile_cons_of_neg (by simp), List.append_nil]

/-- Behind a number that is all there blanks are kept. -/
theorem nextTok_cut_bare (x : Num base) (m : ℕ) (hq : ¬ x.quoted = true) :
    ∃ after, (∀ c ∈ after, isSpace c)
      ∧ (after = [] ∨ x.numeral.text.take (m - x.lead) = x.numeral.text)
      ∧ (nextTok (x.text.take m)).1 = x.numeral.text.take (m - x.lead) ++ after := by
  have hblank := blank_take_before x m
  unfold Num.text Num.lead
  rw [if_neg hq, if_neg hq, Nat.add_zero, List.take_append, List.take_append]
  rcases hm : m - x.before.length with _ | k
  · refine ⟨[], by simp, .inl rfl, ?_⟩
    rw [Nat.zero_sub, List.take_zero, List.take_zero, List.append_nil, List.append_nil,
      nextTok_blank hblank]
  · obtain ⟨c, s, hcs⟩ := List.exists_cons_of_ne_nil (text_ne_nil x.numeral)
    have hhead : ∀ c ∈ (x.numeral.text.take (k + 1)).head?, isSpace c = false ∧ c ≠ '"' := by
      intro d hd
      refine head_text x.numeral d ?_
      rw [hcs] at hd ⊢
      exact hd
    have htok := @nextTok_bare (x.before.take m) (x.after.take (k + 1 - x.numeral.text.length)) []
      (x.numeral.text.take (k + 1)) hblank
      (fun c hc => x.after_blank c (List.mem_of_mem_take hc)) hhead
      (by rw [hcs]; exact List.cons_ne_nil _ _)
      (fun hc => comma_notMem_text x.numeral (List.mem_of_mem_take hc)) (.inl rfl)
    rw [List.append_nil] at htok
    refine ⟨x.after.take (k + 1 - x.numeral.text.length),
      fun c hc => x.after_blank c (List.mem_of_mem_take hc), ?_, congrArg Prod.fst htok⟩
    rcases Nat.lt_or_ge (k + 1) x.numeral.text.length with hlt | hge
    · exact .inl (by rw [Nat.sub_eq_zero_of_le hlt.le, List.take_zero])
    · exact .inr (List.take_of_length_le hge)

/-- The token of a number that is cut off is what is there of it. -/
theorem nextTok_cut (x : Num base) (m : ℕ) :
    ∃ after, (∀ c ∈ after, isSpace c)
      ∧ (after = [] ∨ x.numeral.text.take (m - x.lead) = x.numeral.text)
      ∧ (nextTok (x.text.take m)).1 = x.numeral.text.take (m - x.lead) ++ after := by
  by_cases hq : x.quoted = true
  · exact ⟨[], by simp, .inl rfl, by rw [nextTok_cut_quoted x m hq, List.append_nil]⟩
  · exact nextTok_cut_bare x m hq

theorem strto_cut (x : Num base) (m : ℕ) :
    strtol base (nextTok (x.text.take m)).1 = strtol base (x.numeral.text.take (m - x.lead))
      ∧ strtoul base (nextTok (x.text.take m)).1
        = strtoul base (x.numeral.text.take (m - x.lead)) := by
  obtain ⟨after, hafter, hor, htok⟩ := nextTok_cut x m
  rw [htok]
  rcases hor with rfl | hall
  · rw [List.append_nil]
    exact ⟨rfl, rfl⟩
  · rw [hall]
    exact strto_append x.numeral hafter

theorem convert_cut (x : Number) (m : ℕ) :
    convert x.conv (x.text.take m) = (some (.int ((x.cut m).getD 0)),
      (x.cut m).map fun _ => (nextTok (x.text.take m)).2) := by
  rcases x with x | x
  · have h := (strto_cut x m).1
    unfold convert Number.cut atTokNextint atTokNextintBase
    simp only [Number.conv, Number.text, if_true, Bool.false_eq_true, if_false]
    rw [h]
    rcases strtol 10 (x.numeral.text.take (m - x.lead)) with _ | l
    · rfl
    · rfl
  · have h := (strto_cut x m).2
    unfold convert Number.cut atTokNexthexint atTokNextintBase
    simp only [Number.conv, Number.text, if_true]
    rw [h]
    rcases strtoul 16 (x.numeral.text.take (m - x.lead)) with _ | l
    · rfl
    · rfl

theorem cut_zero (x : Number) : x.cut 0 = none := by
  rcases x with x | x
  · simp only [Number.cut, Nat.zero_sub, List.take_zero]
    rfl
  · simp only [Number.cut, Nat.zero_sub, List.take_zero]
    rfl

/-- A number that is cut off ends the reading, and counts if there is something to be read. -/
theorem scan_cut (x : Number) (convs : List Char) (m : ℕ) :
    match x.cut m with
    | some v => scan (x.conv :: convs) (some (x.text.take m)) = (1, [some (.int v)])
    | none => (scan (x.conv :: convs) (some (x.text.take m))).1 = 0 := by
  have hcomma : ',' ∉ x.text.take m := fun h => (text_number x).2.1 (List.mem_of_mem_take h)
  have hskip : (x.text.take m).take 2 ≠ ['-', ','] := fun h =>
    hcomma (List.mem_of_mem_take (h ▸ List.mem_cons_of_mem _ List.mem_cons_self))
  have hconv := convert_cut x m
  rcases hmore : atTokHasmore (some (x.text.take m)) with _ | _
  · have hnil : x.text.take m = [] := by simpa [atTokHasmore] using hmore
    have hcut : x.cut m = none := by
      rcases List.take_eq_nil_iff.1 hnil with rfl | h
      · exact cut_zero x
      · exact absurd h (text_number x).1
    rw [hcut, scan, hmore]
    rfl
  · rw [scan, if_pos hmore]
    dsimp only [Option.getD]
    rw [if_neg hskip, hconv]
    rcases x.cut m with _ | v
    · rfl
    · dsimp only [Option.map, Option.getD]
      rw [scan_end (next_of_notMem hcomma)]

theorem seen_cons_cons (x y : Number) (xs : List Number) (m : ℕ) :
    seen (x :: y :: xs) m = if m ≤ x.text.length then none
      else (seen (y :: xs) (m - (x.text.length + 1))).map (x.read :: ·) := rfl

/-- What is seen of numbers is what is read of them. -/
theorem scan_seen : ∀ (xs : List Number) (m : ℕ), xs ≠ [] →
    match seen xs m with
    | some vs => scan (xs.map Number.conv) (some ((numbers xs).take m))
      = (xs.length, vs.map fun v => some (.int v))
    | none => (scan (xs.map Number.conv) (some ((numbers xs).take m))).1 < xs.length
  | [], _, h => absurd rfl h
  | [x], m, _ => by
    have h := scan_cut x [] m
    change match (x.cut m).map ([·]) with
      | some vs => scan [x.conv] (some (x.text.take m)) = (1, vs.map fun v => some (.int v))
      | none => (scan [x.conv] (some (x.text.take m))).1 < 1
    rcases hcut : x.cut m with _ | v
    · rw [hcut] at h
      exact Nat.lt_one_iff.2 h
    · rw [hcut] at h
      exact h
  | x :: y :: xs, m, _ => by
    have hnumbers : numbers (x :: y :: xs) = x.text ++ ',' :: numbers (y :: xs) := rfl
    rw [seen_cons_cons, hnumbers, List.map_cons]
    by_cases hm : m ≤ x.text.length
    · have h := scan_cut x ((y :: xs).map Number.conv) m
      rw [if_pos hm, List.take_append_of_le_length hm]
      dsimp only
      rcases hcut : x.cut m with _ | v
      · rw [hcut] at h
        rw [h]
        exact Nat.zero_lt_succ _
      · rw [hcut] at h
        rw [h]
        exact Nat.succ_lt_succ (Nat.zero_lt_succ _)
    · obtain ⟨k, rfl⟩ : ∃ k, m = x.text.length + (k + 1) := ⟨m - (x.text.length + 1), by omega⟩
      have ih := scan_seen (y :: xs) k (List.cons_ne_nil y xs)
      have hfollows : Follows (',' :: (numbers (y :: xs)).take k) := .inr rfl
      obtain ⟨cur, hnext, hscan⟩ := scan_number x ((y :: xs).map Number.conv) hfollows
      have hcur : cur = some ((numbers (y :: xs)).take k) := by
        rcases hnext with rfl | rfl
        · rfl
        · rfl
      have hk : x.text.length + (k + 1) - (x.text.length + 1) = k := by omega
      rw [if_neg hm, List.take_length_add_append, List.take_succ_cons, hscan, hcur, hk]
      rcases hseen : seen (y :: xs) k with _ | vs
      · rw [hseen] at ih
        exact Nat.succ_lt_succ ih
      · rw [hseen] at ih
        change (_ + 1, _ :: _) = _
        rw [ih]
        rfl

/-- All of the numbers are there. -/
theorem seen_of_le : ∀ (xs : List Number) (m : ℕ), xs ≠ [] → (numbers xs).length ≤ m →
    seen xs m = some (xs.map Number.read)
  | [], _, h, _ => absurd rfl h
  | [x], m, _, hm => by
    have hread : x.cut m = some x.read := by
      have hcut := convert_cut x m
      have hall : x.text.take m = x.text := List.take_of_length_le hm
      obtain ⟨cur, -, hconv⟩ := @convert_number [] x (.inl rfl)
      rw [List.append_nil] at hconv
      rw [hall, hconv] at hcut
      rcases hx : x.cut m with _ | v
      · rw [hx] at hcut
        cases (Prod.mk.inj hcut).2
      · rw [hx] at hcut
        have hv := Out.int.inj (Option.some.inj (Prod.mk.inj hcut).1)
        exact congrArg some hv.symm
    change (x.cut m).map ([·]) = _
    rw [hread]
    rfl
  | x :: y :: xs, m, _, hm => by
    have hlen : (numbers (x :: y :: xs)).length
        = x.text.length + (numbers (y :: xs)).length + 1 := by
      change (x.text ++ ',' :: numbers (y :: xs)).length = _
      rw [List.length_append, List.length_cons, Nat.add_assoc]
    have ih := seen_of_le (y :: xs) (m - (x.text.length + 1)) (List.cons_ne_nil y xs) (by omega)
    rw [seen_cons_cons, if_neg (by omega), ih]
    rfl

/-- A line of numbers is read as far as it is copied. -/
theorem atTokScanf_numbers {name fmt rest : Line} {xs : List Number} (hname : ':' ∉ name)
    (hshort : name.length ≤ 1022) (hne : xs ≠ []) (hfmt : conversions fmt = xs.map Number.conv)
    (hrest : Follows rest) :
    match seen xs (1022 - name.length) with
    | some vs => atTokScanf (name ++ ':' :: (numbers xs ++ rest)) fmt
      = (xs.length, vs.map fun v => some (.int v))
    | none => (atTokScanf (name ++ ':' :: (numbers xs ++ rest)) fmt).1 < xs.length := by
  have hcopy : (name ++ ':' :: (numbers xs ++ rest)).take (sizeofLine - 1)
      = name ++ ':' :: (numbers xs ++ rest).take (1022 - name.length) := by
    rw [show sizeofLine - 1 = name.length + (1022 - name.length + 1) by
        simp only [sizeofLine]; omega, List.take_length_add_append, List.take_succ_cons]
  have hscanf : atTokScanf (name ++ ':' :: (numbers xs ++ rest)) fmt
      = scan (xs.map Number.conv) (some ((numbers xs ++ rest).take (1022 - name.length))) := by
    unfold atTokScanf
    rw [hcopy, atTokStart_append hname, hfmt]
  rw [hscanf]
  rcases Nat.lt_or_ge (1022 - name.length) (numbers xs).length with hlt | hge
  · rw [List.take_append_of_le_length hlt.le]
    exact scan_seen xs _ hne
  · have hfollows : Follows (rest.take (1022 - name.length - (numbers xs).length)) := by
      rcases rest with _ | ⟨c, rest⟩
      · rw [List.take_nil]
        exact hrest
      · rcases 1022 - name.length - (numbers xs).length with _ | k
        · exact .inl rfl
        · exact hrest
    rw [seen_of_le xs _ hne hge, List.take_append, List.take_of_length_le hge,
      scan_numbers hfollows xs hne]
    dsimp only
    rw [List.map_map]
    rfl

end Num

/-- The number 1. -/
def one : Item where
  before := []
  field := .dec ⟨none, [], ['1'], .inl rfl, by decide, List.forall_mem_singleton.2 (by decide)⟩
  after := []
  conv := 'd'
  before_blank := blank_nil
  after_blank := blank_nil
  valid := ⟨by decide, by decide⟩
  matches_conv := .inl rfl

def placeholder : Item where
  before := []
  field := .dash
  after := []
  conv := 'd'
  before_blank := blank_nil
  after_blank := blank_nil
  valid := trivial
  matches_conv := .inl rfl

theorem atTokScanf_one : ReadsBack [one, placeholder, one]
    (atTokScanf (formatted "+X".toList [one, placeholder, one]) "%d%d%d%s".toList) :=
  (atTokScanf_iff "+X".toList "%d%d%d%s".toList [one, placeholder, one] ['s'] (by decide) (by decide)
    (by decide) (by decide)).2
    ⟨fun i hi h => (by cases hi; cases h), trivial, .inr ⟨rfl, rfl, by simp⟩, trivial, trivial⟩

/-- After the colon and the blank, a `-` is not taken for the placeholder, nor is it at the end of
the line. -/
theorem placeholder_lost :
    ¬ ReadsBack [placeholder, one]
      (atTokScanf (formatted "+X".toList [placeholder, one]) "%d%d".toList)
    ∧ ¬ ReadsBack [one, placeholder]
      (atTokScanf (formatted "+X".toList [one, placeholder]) "%d%d".toList) :=
  ⟨fun h => absurd h.count (by decide), fun h => absurd h.count (by decide)⟩

end AtTok

end BananaWrt
