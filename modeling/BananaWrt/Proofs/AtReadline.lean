import BananaWrt.Lib.Stretches
import BananaWrt.AtReadline
import Mathlib.Data.List.TakeDrop
import Mathlib.Data.List.TakeWhile

/-!
# Which reads of the AT channel give the stream's lines

`search_found` says what `readline` finds in what is ahead of the cursor. A step keeps that as it is
in the stream (`kept_step`) unless `read` fills the buffer or a prompt comes where the buffer still
holds older bytes; `readline_iff` puts the steps of a run together.
-/

namespace BananaWrt

namespace AtReadline

open Bytes Framing

/-- A byte of a line. -/
def Inner (x : UInt8) : Prop := x ≠ 0 ∧ ¬ isNewline x

theorem inner_prompt : ∀ x ∈ prompt, Inner x := by
  simp [prompt, Inner, isNewline]

theorem head_prompt : ∀ b ∈ prompt.head?, ¬ isNewline b := by
  simp [prompt, isNewline]

theorem skipNewlines_append : ∀ {nl : Bytes}, (∀ b ∈ nl, isNewline b) → ∀ {l : Bytes},
    (∀ b ∈ l.head?, ¬ isNewline b) → l ≠ [] → skipNewlines (nl ++ l) = some nl.length
  | [], _, [], _, hne => absurd rfl hne
  | [], _, b :: l, hb, _ => by
    have hb : ¬ isNewline b := hb b rfl
    rw [List.nil_append, skipNewlines, if_neg hb]
    rfl
  | a :: nl, h, l, hb, hne => by
    obtain ⟨ha, hnl⟩ := List.forall_mem_cons.1 h
    rw [List.cons_append, skipNewlines, if_pos ha, skipNewlines_append hnl hb hne]
    rfl

/-- The search goes over a line up to what ends it. -/
theorem findNewline_append : ∀ {line : Bytes}, (∀ x ∈ line, Inner x) → ∀ l : Bytes,
    findNewline (line ++ l) = (findNewline l).map (·.map (· + line.length))
  | [], _, l => by
    rcases hl : findNewline l with _ | _ | n <;> simp [hl]
  | x :: line, h, l => by
    obtain ⟨hx, hline⟩ := List.forall_mem_cons.1 h
    rw [List.cons_append, findNewline, if_neg hx.1, if_neg hx.2, findNewline_append hline l]
    rcases findNewline l with _ | _ | n <;> simp [Nat.add_assoc]

/-- What a search finds in the bytes up to a NUL: a line, a prompt or neither. What is read may hold
a NUL too, and the search ends there. -/
inductive Found : Bytes → ℕ × Option ℕ → Prop
  | line {nl line rest : Bytes} {b : UInt8} (hnl : ∀ b ∈ nl, isNewline b) (hne : line ≠ [])
      (hline : ∀ x ∈ line, Inner x) (hb : isNewline b) :
      Found (nl ++ (line ++ b :: rest)) (nl.length, some line.length)
  | prompted {nl : Bytes} (hnl : ∀ b ∈ nl, isNewline b) : Found (nl ++ prompt) (nl.length, some 2)
  | promptNul {nl : Bytes} (rest : Bytes) (hnl : ∀ b ∈ nl, isNewline b) :
      Found (nl ++ (prompt ++ 0 :: rest)) (nl.length, some 2)
  | part {nl line tail : Bytes} (hnl : ∀ b ∈ nl, isNewline b) (hline : ∀ x ∈ line, Inner x)
      (hp : line ≠ prompt) (htail : tail = [] ∨ tail.head? = some 0) :
      Found (nl ++ (line ++ tail)) (nl.length, none)

theorem head_dropWhile_newline (p : Bytes) :
    ∀ b ∈ (p.dropWhile isNewline).head?, ¬ isNewline b := by
  intro b hb
  rw [List.head_dropWhile b hb]
  exact Bool.false_ne_true

theorem take_three {d junk : Bytes} : (d ++ 0 :: junk).take 3 = prompt ++ [0] ↔
    d = prompt ∨ ∃ rest, d = prompt ++ 0 :: rest := by
  unfold prompt
  rcases d with _ | ⟨a, _ | ⟨b, _ | ⟨c, d⟩⟩⟩
  · simp
  · simp
  · simp
  · simp

/-- Every text is a line and what ends it. -/
theorem exists_line : ∀ d : Bytes, ∃ line tail, d = line ++ tail ∧ (∀ x ∈ line, Inner x)
    ∧ ∀ b ∈ tail.head?, b = 0 ∨ isNewline b
  | [] => ⟨[], [], rfl, by simp, by simp⟩
  | a :: d => by
    by_cases ha : a = 0 ∨ isNewline a
    · exact ⟨[], a :: d, rfl, by simp, by simpa using ha⟩
    · obtain ⟨line, tail, rfl, hline, htail⟩ := exists_line d
      exact ⟨a :: line, tail, rfl, List.forall_mem_cons.2 ⟨not_or.1 ha, hline⟩, htail⟩

/-- Where the newlines are skipped, the search finds what there is. -/
theorem search_found (p junk : Bytes) : ∃ r, search (p ++ 0 :: junk) = some r ∧ Found p r := by
  obtain ⟨nl, d, rfl, hnl, hd⟩ : ∃ nl d, p = nl ++ d ∧ (∀ b ∈ nl, isNewline b)
      ∧ ∀ b ∈ d.head?, ¬ isNewline b :=
    ⟨_, _, List.takeWhile_append_dropWhile.symm, fun b hb => List.mem_takeWhile_imp hb,
      head_dropWhile_newline p⟩
  have hskip : skipNewlines (nl ++ (d ++ 0 :: junk)) = some nl.length := by
    refine skipNewlines_append hnl ?_ (by simp)
    rcases d with _ | ⟨a, d⟩
    · simp [isNewline]
    · exact hd
  unfold search
  rw [List.append_assoc, hskip, Option.bind_some, List.drop_left]
  unfold findNextEOL
  by_cases h3 : (d ++ 0 :: junk).take 3 = prompt ++ [0]
  · rw [if_pos h3]
    refine ⟨_, rfl, ?_⟩
    rcases take_three.1 h3 with rfl | ⟨rest, rfl⟩
    · exact .prompted hnl
    · exact .promptNul rest hnl
  · rw [if_neg h3]
    have hno := not_or.1 (mt take_three.2 h3)
    obtain ⟨line, tail, rfl, hline, htail⟩ := exists_line d
    rw [List.append_assoc, findNewline_append hline]
    rcases tail with _ | ⟨b, rest⟩
    · refine ⟨_, rfl, .part hnl hline (fun hl => hno.1 ?_) (.inl rfl)⟩
      rw [List.append_nil, hl]
    · by_cases hb0 : b = 0
      · subst hb0
        exact ⟨_, rfl, .part hnl hline (fun hl => hno.2 ⟨rest, hl ▸ rfl⟩) (.inr rfl)⟩
      · have hb : isNewline b := (htail b rfl).resolve_left hb0
        have hne : line ≠ [] := fun hl => hd b (by rw [hl]; rfl) hb
        rw [List.cons_append, findNewline, if_neg hb0, if_pos hb]
        exact ⟨_, congrArg (fun n => some (_, some n)) (Nat.zero_add _), .line hnl hne hline hb⟩

/-- `p` is what `readline` has still to look at, up to a NUL in the buffer: the rest of what was
read, or the newlines behind a prompt. In the lines that were returned and those of `p` there is
all that the reads have brought. -/
structure Ahead (s : State) (p : Bytes) : Prop where
  length : s.buffer.length = MAX_AT_RESPONSE
  inside : s.outside = false
  text : ∃ junk, s.buffer.drop s.cur = p ++ 0 :: junk
  place : s.cur + p.length = s.pRead
    ∨ s.reading = false ∧ s.pRead < s.cur ∧ ∀ b ∈ p, isNewline b
  framed : (∀ bytes ∈ s.reads, 0 ∉ bytes) → 0 ∉ p
    ∧ s.lines ++ (feed isNewline prompt [] p).1 = (feedAll isNewline prompt [] s.reads).1
    ∧ (feed isNewline prompt [] p).2 = (feedAll isNewline prompt [] s.reads).2

/-- While `readline` reads, there is no whole line, unless a NUL hides it. -/
def Waits (p : Bytes) : Prop := (0 ∉ p → ∀ b ∈ p, ¬ isNewline b) ∧ p ≠ prompt

def Kept (s : State) : Prop := ∃ p, Ahead s p ∧ (s.reading = true → Waits p)

theorem lt_of_drop {s : State} {p junk : Bytes} (hlen : s.buffer.length = MAX_AT_RESPONSE)
    (h : s.buffer.drop s.cur = p ++ 0 :: junk) : s.cur + p.length < MAX_AT_RESPONSE := by
  have h' := congrArg List.length h
  rw [List.length_drop, List.length_append, List.length_cons] at h'
  omega

theorem Ahead.skip {s : State} {nl d : Bytes} (h : Ahead s (nl ++ d))
    (hnl : ∀ b ∈ nl, isNewline b) : Ahead { s with cur := s.cur + nl.length } d := by
  obtain ⟨junk, hjunk⟩ := h.text
  refine ⟨h.length, h.inside, ⟨junk, ?_⟩, ?_, fun hreads => ?_⟩
  · show s.buffer.drop (s.cur + nl.length) = d ++ 0 :: junk
    rw [← List.drop_drop, hjunk, List.append_assoc, List.drop_left]
  · rcases h.place with hplace | ⟨hreading, hlt, hall⟩
    · refine .inl ?_
      rw [List.length_append] at hplace
      exact (Nat.add_assoc ..).trans hplace
    · exact .inr ⟨hreading, Nat.lt_of_lt_of_le hlt (Nat.le_add_right _ _),
        fun b hb => hall b (List.mem_append_right nl hb)⟩
  · obtain ⟨hzero, hframed⟩ := h.framed hreads
    rw [feed_seps hnl] at hframed
    exact ⟨fun h0 => hzero (List.mem_append_right nl h0), hframed⟩

/-- A newline at the front of a line is not one. -/
theorem Ahead.placed {s : State} {p : Bytes} (h : Ahead s p) {b : UInt8} (hb : b ∈ p)
    (hn : ¬ isNewline b) : s.cur + p.length = s.pRead :=
  h.place.resolve_right fun h' => hn (h'.2.2 b hb)

theorem Ahead.placed_of_reading {s : State} {p : Bytes} (h : Ahead s p) (hr : s.reading = true) :
    s.cur + p.length = s.pRead :=
  h.place.resolve_right fun h' => by simp [hr] at h'

theorem drop_finish {s : State} {line junk : Bytes} {b : UInt8}
    (h : s.buffer.drop s.cur = line ++ b :: junk) :
    (s.finish line.length).buffer.drop (s.finish line.length).cur = junk := by
  show (s.buffer.set (s.cur + line.length) 0).drop (s.cur + line.length + 1) = junk
  have hlt : s.cur + line.length < s.cur + line.length + 1 := Nat.lt_add_one _
  rw [List.drop_set_of_lt hlt, ← List.drop_drop, ← List.drop_drop, h, List.drop_left]
  rfl

/-- A line is returned. -/
theorem Ahead.finish {s : State} {line rest : Bytes} {b : UInt8}
    (h : Ahead s (line ++ b :: rest)) (hne : line ≠ []) (hline : ∀ x ∈ line, Inner x)
    (hb : isNewline b) : Ahead (s.finish line.length) rest := by
  obtain ⟨junk, hjunk⟩ := h.text
  rw [List.append_assoc, List.cons_append] at hjunk
  obtain ⟨x, hx⟩ := List.exists_mem_of_ne_nil line hne
  have hplace := h.placed (List.mem_append_left _ hx) (hline x hx).2
  refine ⟨(List.length_set ..).trans h.length, h.inside, ⟨junk, drop_finish hjunk⟩, .inl ?_,
    fun hreads => ?_⟩
  · rw [List.length_append, List.length_cons] at hplace
    show s.cur + line.length + 1 + rest.length = s.pRead
    omega
  · obtain ⟨hzero, hlines, hrest⟩ := h.framed hreads
    rw [feed_line (fun x hx => (hline x hx).2) hne hb] at hlines hrest
    refine ⟨fun h0 => hzero (List.mem_append_right _ (List.mem_cons_of_mem b h0)), ?_, hrest⟩
    show s.lines ++ [(s.buffer.drop s.cur).take line.length] ++ _ = _
    rw [hjunk, List.take_left, List.append_assoc]
    exact hlines

/-- A prompt is returned, and the cursor goes beyond what was read. -/
theorem Ahead.finish_prompt {s : State} (h : Ahead s prompt) :
    (s.finish 2).cur = s.pRead + 1 := by
  have hplace := h.placed (b := 0x3E) (by simp [prompt]) (by decide)
  exact congrArg (· + 1) hplace

/-- If only newlines stand behind a prompt, they are skipped like those of the stream. -/
theorem Ahead.clean {s : State} (h : Ahead s prompt) (hclean : s.Clean) :
    ∃ p, Ahead (s.finish 2) p := by
  have hcur := h.finish_prompt
  obtain ⟨junk, hjunk⟩ := h.text
  have hdrop : s.buffer.drop (s.pRead + 1) = junk := by
    rw [← hcur]
    exact (List.drop_set_of_lt (Nat.lt_add_one _)).symm.trans (drop_finish hjunk)
  unfold State.Clean at hclean
  rw [hdrop] at hclean
  obtain ⟨junk', hjunk'⟩ := List.head?_eq_some_iff.1 hclean
  have hnl : ∀ b ∈ junk.takeWhile isNewline, isNewline b := fun b hb => List.mem_takeWhile_imp hb
  refine ⟨junk.takeWhile isNewline, (List.length_set ..).trans h.length, h.inside, ⟨junk', ?_⟩,
    .inr ⟨rfl, ?_, hnl⟩, fun hreads => ?_⟩
  · rw [← hjunk', List.takeWhile_append_dropWhile]
    exact drop_finish hjunk
  · rw [hcur]
    exact Nat.lt_add_one _
  · obtain ⟨-, hlines, hrest⟩ := h.framed hreads
    have hnone : feed isNewline prompt [] (junk.takeWhile isNewline) = ([], []) := by
      rw [← List.append_nil (junk.takeWhile isNewline), feed_seps hnl]
      rfl
    rw [feed_prompt fun x hx => (inner_prompt x hx).2] at hlines hrest
    rw [hnone]
    refine ⟨fun h0 => absurd (hnl 0 h0) (by decide), ?_, hrest⟩
    show s.lines ++ [(s.buffer.drop s.cur).take 2] ++ [] = _
    rw [hjunk, List.append_nil]
    exact hlines

/-- A NUL that was read hides what is behind the prompt. -/
theorem Ahead.finish_promptNul {s : State} {rest : Bytes} (h : Ahead s (prompt ++ 0 :: rest)) :
    Ahead (s.finish 2) rest := by
  obtain ⟨junk, hjunk⟩ := h.text
  rw [List.append_assoc, List.cons_append] at hjunk
  have hplace := h.placed (b := 0x3E) (by simp [prompt]) (by decide)
  refine ⟨(List.length_set ..).trans h.length, h.inside, ⟨junk, drop_finish hjunk⟩, .inl ?_,
    fun hreads => absurd ?_ (h.framed hreads).1⟩
  · show s.cur + 2 + 1 + rest.length = s.pRead
    rw [← hplace, List.length_append, List.length_cons]
    show s.cur + 2 + 1 + rest.length = s.cur + (2 + (rest.length + 1))
    omega
  · simp

/-- A partial line is moved to the front, up to a NUL if one was read. -/
theorem Ahead.moveUp {s : State} {line tail : Bytes} (h : Ahead s (line ++ tail))
    (hline : ∀ x ∈ line, Inner x) (htail : tail = [] ∨ tail.head? = some 0) :
    Ahead s.moveUp line := by
  obtain ⟨junk, hjunk⟩ := h.text
  obtain ⟨junk', hjunk'⟩ : ∃ junk', s.buffer.drop s.cur = line ++ 0 :: junk' := by
    rw [hjunk, List.append_assoc]
    rcases htail with rfl | htail
    · exact ⟨junk, rfl⟩
    · obtain ⟨rest, rfl⟩ := List.head?_eq_some_iff.1 htail
      exact ⟨rest ++ 0 :: junk, rfl⟩
  have hlen : ((s.buffer.drop s.cur).takeWhile (· ≠ 0)).length = line.length := by
    rw [hjunk', List.takeWhile_append_of_pos fun x hx => decide_eq_true (hline x hx).1,
      List.takeWhile_cons_of_neg (by simp), List.append_nil]
  have hroom := lt_of_drop h.length hjunk'
  have htake : (s.buffer.drop s.cur).take (line.length + 1) = line ++ [0] := by
    rw [hjunk', List.take_length_add_append]
    rfl
  have hbuffer : s.moveUp.buffer = write s.buffer 0 (line ++ [0]) := by
    unfold State.moveUp
    dsimp only
    rw [hlen, htake]
  refine ⟨?_, h.inside, ⟨s.buffer.drop (line.length + 1), ?_⟩, .inl ?_, fun hreads => ?_⟩
  · rw [hbuffer, length_write, h.length]
    rw [h.length, List.length_append]
    show 0 + (line.length + 1) ≤ _
    omega
  · show s.moveUp.buffer.drop 0 = _
    rw [hbuffer]
    unfold write
    simp
  · exact (Nat.zero_add _).trans hlen.symm
  · obtain ⟨hzero, hlines, hrest⟩ := h.framed hreads
    have htail : tail = [] := by
      refine htail.resolve_right fun htail => hzero ?_
      exact List.mem_append_right _ (List.mem_of_mem_head? htail)
    rw [htail, List.append_nil] at hzero hlines hrest
    exact ⟨hzero, hlines, hrest⟩

theorem Ahead.data {s : State} {p : Bytes} (h : Ahead s p) (hplace : s.cur + p.length = s.pRead) :
    s.data = p := by
  obtain ⟨junk, hjunk⟩ := h.text
  have hsub : s.pRead - s.cur = p.length := by omega
  unfold State.data
  rw [hjunk, hsub, List.take_left]

/-- The buffer is never full where `readline` reads. -/
theorem Ahead.ditch {s : State} {p : Bytes} (h : Ahead s p)
    (hplace : s.cur + p.length = s.pRead) : s.ditch = s := by
  obtain ⟨junk, hjunk⟩ := h.text
  have hroom := lt_of_drop h.length hjunk
  exact if_neg (by omega)

/-- What is read stands behind the part of a line that is there, with a NUL behind it. -/
theorem Ahead.load {s : State} {p bytes : Bytes} (h : Ahead s p)
    (hplace : s.cur + p.length = s.pRead) (hw : Waits p) (hroom : bytes.length < s.room) :
    Ahead (s.load bytes) (p ++ bytes) ∧ (s.load bytes).cur + (p ++ bytes).length
      = (s.load bytes).pRead := by
  obtain ⟨junk, hjunk⟩ := h.text
  have hditch := h.ditch hplace
  unfold State.room at hroom
  rw [hditch] at hroom
  have hload : s.load bytes = { s with
      buffer := write s.buffer s.pRead (bytes ++ [0])
      pRead := s.pRead + bytes.length
      outside := MAX_AT_RESPONSE ≤ s.pRead + bytes.length
      reads := s.reads ++ [bytes] } := by
    unfold State.load
    rw [hditch]
  have hplace' : s.cur + (p ++ bytes).length = s.pRead + bytes.length := by
    rw [List.length_append, ← hplace, Nat.add_assoc]
  have hlen := h.length
  rw [hload]
  refine ⟨⟨?_, ?_, ⟨s.buffer.drop (s.pRead + (bytes.length + 1)), ?_⟩, .inl hplace',
    fun hreads => ?_⟩, hplace'⟩
  · refine (length_write ?_).trans h.length
    rw [h.length, List.length_append, List.length_singleton]
    omega
  · exact decide_eq_false (by omega)
  · show (write s.buffer s.pRead (bytes ++ [0])).drop s.cur = _
    have hdata : (s.buffer.drop s.cur).take (s.pRead - s.cur) = p := h.data hplace
    rw [drop_write_of_le (by omega) (by omega), hdata, List.length_append]
    simp
  · obtain ⟨hbytes, hreads⟩ : 0 ∉ bytes ∧ ∀ bytes ∈ s.reads, 0 ∉ bytes :=
      ⟨hreads bytes (by simp), fun b hb => hreads b (List.mem_append_left _ hb)⟩
    obtain ⟨hzero, hlines, hrest⟩ := h.framed hreads
    have hopen := hw.1 hzero
    rw [feed_open hopen hw.2] at hlines hrest
    rw [List.append_nil] at hlines
    rw [feed_append hopen, feedAll_concat, ← hrest, ← hlines]
    exact ⟨fun h0 => (List.mem_append.1 h0).elim hzero hbytes, rfl, rfl⟩

/-! ## One step -/

theorem dropWhile_newlines {nl d : Bytes} (hnl : ∀ b ∈ nl, isNewline b)
    (hd : ∀ b ∈ d.head?, ¬ isNewline b) : (nl ++ d).dropWhile isNewline = d := by
  rw [List.dropWhile_append_of_pos hnl]
  rcases d with _ | ⟨b, d⟩
  · rfl
  · exact List.dropWhile_cons_of_neg (hd b rfl)

theorem prompted_of_ahead {s : State} {nl : Bytes} (h : Ahead s (nl ++ prompt))
    (hnl : ∀ b ∈ nl, isNewline b) : s.Prompted := by
  have hplace := h.placed (b := 0x3E) (by simp [prompt]) (by decide)
  unfold State.Prompted
  rw [h.data hplace, dropWhile_newlines hnl head_prompt]

/-- Where a line, a prompt or neither is found, the next call starts with what is behind it. -/
theorem Found.kept {s : State} {p : Bytes} {k eol : ℕ} (h : Ahead s p)
    (hf : Found p (k, some eol)) (hclean : s.Prompted → s.Clean) :
    ∃ p', Ahead ({ s with cur := s.cur + k }.finish eol) p' := by
  cases hf with
  | line hnl hne hline hb => exact ⟨_, (h.skip hnl).finish hne hline hb⟩
  | prompted hnl => exact (h.skip hnl).clean (hclean (prompted_of_ahead h hnl))
  | promptNul rest hnl => exact ⟨_, (h.skip hnl).finish_promptNul⟩

/-- A call takes an empty buffer from its front, or goes by what is found. -/
theorem call_found {s : State} {p : Bytes} (h : Ahead s p) :
    ((p = [] ∨ p.head? = some 0) ∧ s.call = { s with
      buffer := s.buffer.set 0 0
      cur := 0
      pRead := 0
      reading := true })
      ∨ ∃ k eol, Found p (k, eol) ∧ s.call = eol.elim { s with cur := s.cur + k }.moveUp
        { s with cur := s.cur + k }.finish := by
  obtain ⟨junk, hjunk⟩ := h.text
  obtain ⟨⟨k, eol⟩, hr, hfound⟩ := search_found p junk
  unfold State.call
  rw [hjunk]
  rcases p with _ | ⟨a, p⟩
  · exact .inl ⟨.inl rfl, if_pos rfl⟩
  · rw [List.cons_append] at hr ⊢
    dsimp only
    by_cases ha : a = 0
    · exact .inl ⟨.inr (congrArg some ha), if_pos ha⟩
    · refine .inr ⟨k, eol, hfound, ?_⟩
      rw [if_neg ha, hr]
      cases eol <;> rfl

/-- A read that stays inside goes by what is found. -/
theorem read_found {s : State} {p bytes : Bytes} (h : Ahead (s.load bytes) p) :
    ∃ k eol, Found p (k, eol) ∧ s.read bytes
      = eol.elim { s.load bytes with cur := (s.load bytes).cur + k }
        { s.load bytes with cur := (s.load bytes).cur + k }.finish := by
  obtain ⟨junk, hjunk⟩ := h.text
  obtain ⟨⟨k, eol⟩, hr, hfound⟩ := search_found p junk
  have hin : ¬ (s.load bytes).outside = true := by simp [h.inside]
  refine ⟨k, eol, hfound, ?_⟩
  unfold State.read
  dsimp only
  rw [if_neg hin, hjunk, hr]
  cases eol <;> rfl

/-- An empty buffer is read into from its front. -/
theorem Ahead.reset {s : State} {p : Bytes} (h : Ahead s p) (hp : p = [] ∨ p.head? = some 0) :
    Ahead { s with buffer := s.buffer.set 0 0, cur := 0, pRead := 0, reading := true } [] := by
  refine ⟨(List.length_set ..).trans h.length, h.inside, ?_, .inl rfl, fun hreads => ?_⟩
  · rcases hbuf : s.buffer with _ | ⟨a, buf⟩
    · have hlen := h.length
      rw [hbuf] at hlen
      simp [MAX_AT_RESPONSE] at hlen
    · exact ⟨buf, rfl⟩
  · have hframed := h.framed hreads
    have hnil : p = [] := hp.resolve_right fun h0 => hframed.1 (List.mem_of_mem_head? h0)
    rw [hnil] at hframed
    exact hframed

theorem kept_call {s : State} (h : Kept s) (hclean : s.Prompted → s.Clean) : Kept s.call := by
  obtain ⟨p, hp, -⟩ := h
  rcases call_found hp with ⟨hempty, hcall⟩ | ⟨k, _ | eol, hfound, hcall⟩
  all_goals rw [hcall]
  · exact ⟨[], hp.reset hempty, fun _ => ⟨fun _ => by simp, by decide⟩⟩
  · cases hfound with
    | part hnl hline hne htail =>
      exact ⟨_, (hp.skip hnl).moveUp hline htail, fun _ => ⟨fun _ x hx => (hline x hx).2, hne⟩⟩
  · obtain ⟨p', hp'⟩ := hfound.kept hp hclean
    exact ⟨p', hp', fun hr => absurd hr (by simp [State.finish])⟩

/-- A part of a line is not over, whatever a NUL hides behind it. -/
theorem waits_part {line tail : Bytes} (hline : ∀ x ∈ line, Inner x) (hne : line ≠ prompt)
    (htail : tail = [] ∨ tail.head? = some 0) : Waits (line ++ tail) := by
  have hnil : 0 ∉ line ++ tail → tail = [] := fun h0 => htail.resolve_right fun htail =>
    h0 (List.mem_append_right _ (List.mem_of_mem_head? htail))
  refine ⟨fun h0 x hx => ?_, fun hp => ?_⟩
  · rw [hnil h0, List.append_nil] at hx
    exact (hline x hx).2
  · have hprompt := hnil (hp ▸ by decide)
    rw [hprompt, List.append_nil] at hp
    exact hne hp

theorem kept_read {s : State} {bytes : Bytes} (h : Kept s) (hreading : s.reading = true)
    (hroom : bytes.length < s.room)
    (hclean : (s.load bytes).Prompted → (s.load bytes).Clean) : Kept (s.read bytes) := by
  obtain ⟨p, hp, hw⟩ := h
  obtain ⟨hload, -⟩ := hp.load (hp.placed_of_reading hreading) (hw hreading) hroom
  generalize p ++ bytes = q at hload
  obtain ⟨k, _ | eol, hfound, hread⟩ := read_found hload
  all_goals rw [hread]
  · cases hfound with
    | part hnl hline hne htail =>
      exact ⟨_, hload.skip hnl, fun _ => waits_part hline hne htail⟩
  · obtain ⟨p', hp'⟩ := hfound.kept hload hclean
    exact ⟨p', hp', fun hr => absurd hr (by simp [State.finish])⟩

theorem kept_init : Kept .init :=
  ⟨[], ⟨List.length_replicate, rfl, ⟨List.replicate 4095 0, rfl⟩, .inl rfl,
    fun _ => ⟨List.not_mem_nil, rfl, rfl⟩⟩, fun h => absurd h (by decide)⟩

theorem kept_step (s : State) (i : Input) (s' : State) (h : Kept s) (hok : Tidy s i)
    (hs : step s i = some s') : Kept s' := by
  obtain ⟨p, hp, -⟩ := id h
  have hin : ¬ s.outside = true := by simp [hp.inside]
  unfold step at hs
  rw [if_neg hin] at hs
  cases i with
  | call =>
    simp only [Option.ite_none_left_eq_some, Option.some.injEq] at hs
    obtain ⟨-, rfl⟩ := hs
    exact kept_call h hok
  | read bytes =>
    simp only [Option.ite_none_right_eq_some, Option.some.injEq] at hs
    obtain ⟨⟨hreading, -, -⟩, rfl⟩ := hs
    exact kept_read h hreading hok.1 hok.2
  | fail =>
    simp only [Option.ite_none_right_eq_some, Option.some.injEq] at hs
    obtain ⟨hreading, rfl⟩ := hs
    exact ⟨p, ⟨hp.length, hp.inside, hp.text, .inl (hp.placed_of_reading hreading), hp.framed⟩,
      by simp⟩

/-- The lines that were returned are the stream's. -/
theorem framed_of_kept {s : State} (h : Kept s) : Framed s := by
  obtain ⟨p, hp, hw⟩ := h
  intro hzero hlast
  obtain ⟨h0, hlines, -⟩ := hp.framed hzero
  rw [feedAll_eq_lines (by decide) (by decide) hlast] at hlines
  refine ⟨⟨_, hlines⟩, fun hreading => ?_⟩
  obtain ⟨hopen, hne⟩ := hw hreading
  rw [feed_open (hopen h0) hne, List.append_nil] at hlines
  exact hlines

theorem Found.le {p : Bytes} {k : ℕ} {eol : Option ℕ} (h : Found p (k, eol)) : k ≤ p.length := by
  rcases h with _ | _ | _ | _
  all_goals
    rw [List.length_append]
    exact Nat.le_add_right _ _

theorem head_part {line tail : Bytes} (hline : ∀ x ∈ line, Inner x)
    (htail : ∀ b ∈ tail.head?, b = 0) : ∀ b ∈ (line ++ tail).head?, ¬ isNewline b := by
  rcases line with _ | ⟨x, line⟩
  · intro b hb
    rw [htail b hb]
    decide
  · intro b hb
    obtain rfl := Option.some.inj hb
    exact (hline x List.mem_cons_self).2

/-- The line end that is found is the NUL behind what was read just when that is a prompt. -/
theorem Found.beyond {p : Bytes} {k : ℕ} {eol : Option ℕ} (h : Found p (k, eol)) :
    p.dropWhile isNewline = prompt ↔ ∃ e, eol = some e ∧ p.length ≤ k + e := by
  cases h with
  | @line nl line rest b hnl hne hline hb =>
    obtain ⟨x, l, rfl⟩ := List.exists_cons_of_ne_nil hne
    have hx : ∀ b ∈ (x :: l ++ b :: rest).head?, ¬ isNewline b := fun b hb => by
      obtain rfl := Option.some.inj hb
      exact (hline x List.mem_cons_self).2
    refine iff_of_false (fun hp => ?_) ?_
    · rw [dropWhile_newlines hnl hx] at hp
      have hmem : b ∈ prompt := hp ▸ List.mem_append_right _ List.mem_cons_self
      exact (inner_prompt b hmem).2 hb
    · rintro ⟨e, he, hle⟩
      obtain rfl := Option.some.inj he
      simp only [List.length_append, List.length_cons] at hle
      omega
  | @prompted nl hnl =>
    refine iff_of_true (dropWhile_newlines hnl head_prompt) ⟨2, rfl, ?_⟩
    rw [List.length_append]
    exact Nat.le_refl _
  | @promptNul nl rest hnl =>
    have hlen : (prompt ++ 0 :: rest).length = rest.length + 3 := rfl
    refine iff_of_false (fun hp => ?_) ?_
    · rw [dropWhile_newlines hnl (head_part inner_prompt (by simp))] at hp
      rw [hp] at hlen
      have htwo : prompt.length = 2 := rfl
      omega
    · rintro ⟨e, he, hle⟩
      obtain rfl := Option.some.inj he
      rw [List.length_append, hlen] at hle
      omega
  | @part nl line tail hnl hline hp htail =>
    refine iff_of_false (fun hd => ?_) fun ⟨e, he, _⟩ => by simp at he
    rw [dropWhile_newlines hnl (head_part hline ?_)] at hd
    · exact (waits_part hline hp htail).2 hd
    · rcases htail with rfl | htail
      · simp
      · simp [htail]

/-- A line end that is found lies before the end of what was read, unless it is the prompt's. -/
theorem Found.cursor {s : State} {p : Bytes} {k eol : ℕ} (hf : Found p (k, some eol))
    (h : Ahead s p) (hplace : s.cur + p.length = s.pRead) :
    ({ s with cur := s.cur + k }.finish eol).cur ≤ s.pRead ↔ ¬ s.Prompted := by
  unfold State.Prompted
  rw [h.data hplace, hf.beyond]
  show s.cur + k + eol + 1 ≤ s.pRead ↔ _
  simp only [Option.some.injEq, exists_eq_left']
  omega

theorem not_prompted_of_found {s : State} {p : Bytes} {k : ℕ} (hf : Found p (k, none))
    (h : Ahead s p) (hplace : s.cur + p.length = s.pRead) : ¬ s.Prompted := by
  unfold State.Prompted
  rw [h.data hplace, hf.beyond]
  simp

theorem cursor_call {s : State} {p : Bytes} (h : Ahead s p) (hplace : s.cur + p.length = s.pRead) :
    s.call.cur ≤ s.call.pRead ↔ ¬ s.Prompted := by
  rcases call_found h with ⟨hempty, hcall⟩ | ⟨k, _ | eol, hfound, hcall⟩
  all_goals rw [hcall]
  · refine iff_of_true (Nat.le_refl 0) fun hp => ?_
    unfold State.Prompted at hp
    rw [h.data hplace] at hp
    rcases hempty with rfl | hzero
    · exact absurd hp (by decide)
    · obtain ⟨p, rfl⟩ := List.head?_eq_some_iff.1 hzero
      rw [List.dropWhile_cons_of_neg (by decide)] at hp
      exact absurd (List.cons.inj hp).1 (by decide)
  · exact iff_of_true (Nat.zero_le _) (not_prompted_of_found hfound h hplace)
  · exact hfound.cursor h hplace

theorem cursor_read {s : State} {p bytes : Bytes} (h : Ahead (s.load bytes) p)
    (hplace : (s.load bytes).cur + p.length = (s.load bytes).pRead) :
    (s.read bytes).cur ≤ (s.read bytes).pRead ↔ ¬ (s.load bytes).Prompted := by
  obtain ⟨k, _ | eol, hfound, hread⟩ := read_found h
  all_goals rw [hread]
  · refine iff_of_true ?_ (not_prompted_of_found hfound h hplace)
    have hle := hfound.le
    show (s.load bytes).cur + k ≤ (s.load bytes).pRead
    omega
  · exact hfound.cursor h hplace

theorem Calm.tidy {s : State} : ∀ {i : Input}, Calm s i → Tidy s i
  | .call, h => fun hp => absurd hp h
  | .read _, h => ⟨h.1, fun hp => absurd hp h.2⟩
  | .fail, _ => trivial

/-- A read that fills the buffer has its NUL put behind it. -/
theorem outside_read {s : State} {bytes : Bytes} (h : ¬ bytes.length < s.room) :
    (s.read bytes).outside = true := by
  have hout : (s.load bytes).outside = true := by
    unfold State.room at h
    exact decide_eq_true (by omega : MAX_AT_RESPONSE ≤ s.ditch.pRead + bytes.length)
  unfold State.read
  dsimp only
  rw [if_pos hout]
  exact hout

theorem cursor_iff_calm {s s' : State} {i : Input} (h : Kept s) (hcur : s.cur ≤ s.pRead)
    (hs : step s i = some s') : Calm s i ↔ s'.outside = false ∧ s'.cur ≤ s'.pRead := by
  obtain ⟨p, hp, hw⟩ := id h
  have hplace : s.cur + p.length = s.pRead := hp.place.resolve_right fun h' => by omega
  have hkept := kept_step s i s' h
  have hin : ¬ s.outside = true := by simp [hp.inside]
  have hstep := hs
  unfold step at hs
  rw [if_neg hin] at hs
  cases i with
  | call =>
    simp only [Option.ite_none_left_eq_some, Option.some.injEq] at hs
    obtain ⟨-, rfl⟩ := hs
    refine (cursor_call hp hplace).symm.trans (iff_and_self.2 fun hle => ?_)
    obtain ⟨p', hp', -⟩ := hkept (Calm.tidy (i := .call) ((cursor_call hp hplace).1 hle)) hstep
    exact hp'.inside
  | read bytes =>
    simp only [Option.ite_none_right_eq_some, Option.some.injEq] at hs
    obtain ⟨⟨hreading, -, -⟩, rfl⟩ := hs
    by_cases hroom : bytes.length < s.room
    · obtain ⟨hload, hplace'⟩ := hp.load hplace (hw hreading) hroom
      have hcursor := cursor_read hload hplace'
      refine ⟨fun hok => ?_, fun hright => ⟨hroom, hcursor.1 hright.2⟩⟩
      obtain ⟨p', hp', -⟩ := hkept hok.tidy hstep
      exact ⟨hp'.inside, hcursor.2 hok.2⟩
    · refine iff_of_false (fun hok => hroom hok.1) fun hright => ?_
      simp [outside_read hroom] at hright
  | fail =>
    simp only [Option.ite_none_right_eq_some, Option.some.injEq] at hs
    obtain ⟨-, rfl⟩ := hs
    exact iff_of_true trivial ⟨hp.inside, hcur⟩

/-- A call reads, or it takes the cursor on. -/
theorem call_cases (s : State) : s.call.reading = true ∨ s.call.outside = true
    ∨ s.cur < s.buffer.length ∧ s.cur < s.call.cur ∧ s.call.buffer.length = s.buffer.length := by
  unfold State.call
  split
  · exact .inr (.inl rfl)
  · rename_i b rest hdrop
    have hlt : s.cur < s.buffer.length := by
      by_contra hge
      rw [List.drop_eq_nil_of_le (by omega)] at hdrop
      cases hdrop
    split_ifs
    · exact .inl rfl
    · rcases search (b :: rest) with _ | ⟨k, _ | eol⟩
      · exact .inr (.inl rfl)
      · exact .inl rfl
      · refine .inr (.inr ⟨hlt, ?_, List.length_set ..⟩)
        show s.cur < s.cur + k + eol + 1
        omega

/-- After some calls `readline` reads again, for the cursor gets to the end of the buffer. -/
theorem calls_end : ∀ (n : ℕ) (s : State), s.buffer.length - s.cur ≤ n → s.outside = false →
    s.reading = false → ∃ k s', exec s (List.replicate k .call) = some s'
      ∧ (s'.reading = true ∨ s'.outside = true)
  | n, s, hn, hin, hidle => by
    have hs : step s .call = some s.call := by
      unfold step
      simp [hin, hidle]
    have hone : exec s (List.replicate 1 .call) = some s.call := by
      show (step s .call).bind some = some s.call
      rw [hs]
      rfl
    by_cases hend : s.call.reading = true ∨ s.call.outside = true
    · exact ⟨1, s.call, hone, hend⟩
    · obtain ⟨hr, ho⟩ := not_or.1 hend
      obtain ⟨hlt, hcur, hlen⟩ := ((call_cases s).resolve_left hr).resolve_left ho
      rcases n with _ | n
      · omega
      · obtain ⟨k, s', hk, hs'⟩ :=
            calls_end n s.call (by omega) (by simpa using ho) (by simpa using hr)
        refine ⟨1 + k, s', ?_, hs'⟩
        rw [List.replicate_add]
        exact (Runs.exec_append hone).trans hk

/-! ## Runs -/

/-- In every run: no byte outside the buffer is touched, the cursor never passes the end of what was
read and the lines are those of the stream in every state, just when every read leaves room for
the NUL and no prompt comes. The lines are those of the stream as well where prompts come, if
nothing is left in the buffer behind them. And `readline` always gets to its next read. -/
theorem readline_iff (is : List Input) (s : State) (h : exec .init is = some s) :
    (Runs.Meets step (fun s i => ∀ s' ∈ step s i, Right s') .init is
        ↔ Runs.Meets step Calm .init is)
      ∧ (Runs.Meets step Tidy .init is → s.outside = false ∧ Framed s)
      ∧ (s.outside = false → s.reading = false → ∃ k s',
        exec s (List.replicate k .call) = some s' ∧ (s'.reading = true ∨ s'.outside = true)) := by
  refine ⟨?_, fun hok => ?_, fun ho hr => calls_end _ s (Nat.le_refl _) ho hr⟩
  · have hstep : ∀ s i s', Kept s ∧ s.cur ≤ s.pRead → step s i = some s' →
        (Calm s i → (Kept s' ∧ s'.cur ≤ s'.pRead) ∧ Right s') ∧ (Right s' → Calm s i) := by
      intro s i s' ⟨hk, hcur⟩ hs
      refine ⟨fun hok => ?_, fun hr => (cursor_iff_calm hk hcur hs).2 ⟨hr.inside, hr.cursor⟩⟩
      obtain ⟨hin, hcur'⟩ := (cursor_iff_calm hk hcur hs).1 hok
      have hk' := kept_step s i s' hk hok.tidy hs
      exact ⟨⟨hk', hcur'⟩, hin, hcur', framed_of_kept hk'⟩
    exact Runs.meets_right_iff hstep ⟨kept_init, Nat.le_refl 0⟩ h
  · obtain ⟨p, hp, hw⟩ := Runs.exec_inv kept_step kept_init hok h
    exact ⟨hp.inside, framed_of_kept ⟨p, hp, hw⟩⟩

/-- The prompt for a short message, on a buffer that held nothing. -/
def firstPrompt : List Input :=
  [.call, .read [0x0D, 0x0A, 0x3E], .read [0x20], .call, .read [0x4F, 0x4B, 0x0D, 0x0A]]

theorem readline_firstPrompt : ∃ s, exec .init firstPrompt = some s
    ∧ s.lines = [prompt, [0x4F, 0x4B]] ∧ Framed s := by
  refine ⟨_, rfl, ?_, ((readline_iff firstPrompt _ rfl).2.1 ?_).2⟩
  · decide +kernel
  · decide +kernel

/-- An answer, a prompt and an answer, each from one read. -/
def secondPrompt : List Input :=
  [.call, .read [0x0D, 0x0A, 0x4F, 0x4B, 0x0D, 0x0A], .call, .read prompt, .call,
    .read [0x0D, 0x0A, 0x4F, 0x4B, 0x0D, 0x0A], .call, .call]

/-- A byte of the first answer comes as a line of its own. -/
theorem not_right_secondPrompt : ∃ s, exec .init secondPrompt = some s ∧ s.reading = true
    ∧ s.lines = [[0x4F, 0x4B], prompt, [0x4B], [0x4F, 0x4B]]
    ∧ linesOf s.reads.flatten = [[0x4F, 0x4B], prompt, [0x4F, 0x4B]] ∧ ¬ Right s := by
  refine ⟨_, rfl, ?_, ?_, ?_, fun hright => ?_⟩
  · decide +kernel
  · decide +kernel
  · decide +kernel
  · have hlines := (hright.framed (by decide +kernel) (by decide +kernel)).2 (by decide +kernel)
    exact absurd hlines (by decide +kernel)

end AtReadline

end BananaWrt
