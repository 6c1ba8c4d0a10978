import BananaWrt.ResolvConf
import Mathlib.Data.List.TakeWhile

/-!
# What an update of `resolv.conf` keeps

The entries of the table are worked out line by line for a text without over-long lines, and every
other text has a line that no entry can give back. What is left is which lines come back out of a
table that is not large enough or that has blank lines in it.
-/

namespace BananaWrt

namespace ResolvConf

open AtChannel (Line)

section Text

/-- A text is empty, one line without a line feed, or a line with one before another text. -/
theorem text_induction {P : Line → Prop} (nil : P []) (last : ∀ l, l ≠ [] → '\n' ∉ l → P l)
    (line : ∀ l s, '\n' ∉ l → P s → P (l ++ '\n' :: s)) : ∀ t, P t := by
  intro t
  induction hn : t.length using Nat.strong_induction_on generalizing t with
  | _ n ih =>
    have hl : '\n' ∉ t.takeWhile (· ≠ '\n') := fun h => by
      simpa using List.mem_takeWhile_imp h
    have ht := List.takeWhile_append_dropWhile (p := (· ≠ '\n')) (l := t)
    rcases hd : t.dropWhile (· ≠ '\n') with _ | ⟨c, s⟩
    · rw [hd, List.append_nil] at ht
      rcases eq_or_ne t [] with rfl | hne
      · exact nil
      · exact last t hne (ht ▸ hl)
    · have hc : c = '\n' := by
        have := List.head?_dropWhile_not (· ≠ '\n') t
        rw [hd] at this
        simpa using this
      subst hc
      rw [hd] at ht
      rw [← ht]
      refine line _ s hl (ih s.length ?_ s rfl)
      have := congrArg List.length ht
      rw [List.length_append, List.length_cons] at this
      omega

theorem splitLines_line : ∀ {l : Line} (s : Line), '\n' ∉ l →
    splitLines (l ++ '\n' :: s) = (l, true) :: splitLines s
  | [], s, _ => by simp [splitLines]
  | c :: l, s, h => by
    have hc : c ≠ '\n' := fun e => h (e ▸ List.mem_cons_self)
    have ih := splitLines_line s fun m => h (List.mem_cons_of_mem c m)
    simp [splitLines, hc, ih]

theorem splitLines_last : ∀ {l : Line}, l ≠ [] → '\n' ∉ l → splitLines l = [(l, false)]
  | [], h, _ => absurd rfl h
  | [c], _, h => by
    have hc : c ≠ '\n' := fun e => h (e ▸ List.mem_cons_self)
    simp [splitLines, hc]
  | c :: d :: l, _, h => by
    have hc : c ≠ '\n' := fun e => h (e ▸ List.mem_cons_self)
    have ih := splitLines_last (List.cons_ne_nil d l) fun m => h (List.mem_cons_of_mem c m)
    rw [splitLines, if_neg hc, ih]

theorem newline_notMem_splitLines :
    ∀ {t : Line} {p : Line × Bool}, p ∈ splitLines t → '\n' ∉ p.1 := by
  intro t
  induction t using text_induction with
  | nil => simp [splitLines]
  | last l hne hl =>
    intro p hp
    rw [splitLines_last hne hl, List.mem_singleton] at hp
    exact hp ▸ hl
  | line l s hl ih =>
    intro p hp
    rw [splitLines_line s hl, List.mem_cons] at hp
    rcases hp with rfl | hp
    · exact hl
    · exact ih hp

end Text

section Fgets

variable {room : ℕ}

theorem fgetsAll_line : ∀ (l : Line) {cur s : Line},
    fgetsAll room cur (l ++ '\n' :: s) = fgetsAll room cur (l ++ ['\n']) ++ fgetsAll room [] s
  | [], cur, s => by simp [fgetsAll]
  | c :: l, cur, s => by
    rw [List.cons_append, List.cons_append, fgetsAll, fgetsAll]
    split_ifs
    · rw [fgetsAll_line l, List.cons_append]
    · exact fgetsAll_line l

/-- What is read in one call as long as nothing ends it. -/
theorem fgetsAll_append : ∀ {l : Line} {cur : Line} (s : Line), '\n' ∉ l →
    cur.length + l.length < room → fgetsAll room cur (l ++ s) = fgetsAll room (cur ++ l) s
  | [], cur, s, _, _ => by simp
  | c :: l, cur, s, h, hlen => by
    rw [List.length_cons] at hlen
    have hc : c ≠ '\n' := fun e => h (e ▸ List.mem_cons_self)
    have hroom : (cur ++ [c]).length ≠ room := by
      rw [List.length_append, List.length_singleton]
      omega
    rw [List.cons_append, fgetsAll, if_neg (not_or.2 ⟨hc, hroom⟩),
      fgetsAll_append s (fun m => h (List.mem_cons_of_mem c m)) (by
        rw [List.length_append, List.length_singleton]
        omega), List.append_assoc, List.singleton_append]

theorem fgetsAll_terminated {l : Line} (h : '\n' ∉ l) (hlen : l.length < room) :
    fgetsAll room [] (l ++ ['\n']) = [l ++ ['\n']] := by
  rw [fgetsAll_append _ h (by simpa using hlen)]
  simp [fgetsAll]

/-- A line that leaves no room for its line feed. -/
theorem fgetsAll_full {l : Line} (s : Line) (h : '\n' ∉ l) (hne : l ≠ []) (hlen : l.length = room) :
    fgetsAll room [] (l ++ s) = l :: fgetsAll room [] s := by
  obtain ⟨l', c, rfl⟩ : ∃ l' c, l = l' ++ [c] := ⟨_, _, (List.dropLast_concat_getLast hne).symm⟩
  have hl' : '\n' ∉ l' := fun m => h (List.mem_append_left _ m)
  have hlt : ([] : Line).length + l'.length < room := by
    rw [List.length_append, List.length_singleton] at hlen
    simp only [List.length_nil]
    omega
  rw [List.append_assoc, fgetsAll_append _ hl' hlt, List.nil_append, List.singleton_append,
    fgetsAll, if_pos (Or.inr hlen)]

theorem fgetsAll_last {l : Line} (h : '\n' ∉ l) (hne : l ≠ []) (hlen : l.length ≤ room) :
    fgetsAll room [] l = [l] := by
  rcases hlen.lt_or_eq with hlt | heq
  · have hall : fgetsAll room [] (l ++ []) = fgetsAll room ([] ++ l) [] :=
      fgetsAll_append [] h (by simpa using hlt)
    rw [List.append_nil, List.nil_append] at hall
    rw [hall, fgetsAll, if_neg hne]
  · have := fgetsAll_full [] h hne heq
    rw [List.append_nil] at this
    rw [this, fgetsAll, if_pos rfl]

/-- A call returns at most what there is room for, with a line feed only at the end. -/
theorem fgetsAll_mem : ∀ {s cur buf : Line}, cur.length < room → '\n' ∉ cur →
    buf ∈ fgetsAll room cur s → buf.length ≤ room ∧ ∃ l, '\n' ∉ l ∧ (buf = l ∨ buf = l ++ ['\n'])
  | [], cur, buf, hlen, hcur, h => by
    rw [fgetsAll] at h
    split_ifs at h
    · cases h
    · rw [List.mem_singleton] at h
      exact h ▸ ⟨hlen.le, cur, hcur, Or.inl rfl⟩
  | c :: s, cur, buf, hlen, hcur, h => by
    have hlen' : (cur ++ [c]).length = cur.length + 1 := by simp
    have hcur' : c ≠ '\n' → '\n' ∉ cur ++ [c] := fun hc m =>
      (List.mem_append.1 m).elim hcur fun m => hc (List.mem_singleton.1 m).symm
    rw [fgetsAll] at h
    split_ifs at h with hend
    · rcases List.mem_cons.1 h with rfl | h
      · refine ⟨by omega, ?_⟩
        by_cases hc : c = '\n'
        · exact ⟨cur, hcur, Or.inr (by rw [hc])⟩
        · exact ⟨cur ++ [c], hcur' hc, Or.inl rfl⟩
      · exact fgetsAll_mem (by rw [List.length_nil]; omega) List.not_mem_nil h
    · rw [not_or] at hend
      exact fgetsAll_mem (by omega) (hcur' hend.1) h

end Fgets

section Entries

theorem cstr_of_notMem {s : Line} (h : '\x00' ∉ s) : cstr s = s :=
  List.takeWhile_eq_self_iff.2 fun c hc => by
    simpa using fun e : c = '\x00' => h (e ▸ hc)

theorem chomp_of_notMem {s : Line} (h : '\n' ∉ s) : chomp s = s :=
  if_neg fun hs => h (List.mem_of_getLast? hs.2)

theorem chomp_terminated {l : Line} (h : l ≠ []) : chomp (l ++ ['\n']) = l := by
  have hlen : 1 < (l ++ ['\n']).length := by
    have := List.length_pos_iff.2 h
    rw [List.length_append, List.length_singleton]
    omega
  rw [chomp, if_pos ⟨hlen, List.getLast?_concat⟩, List.dropLast_concat]

/-- What a line is put into the table as, if it is short and a string. -/
def entry (t : Line × Bool) : List Line :=
  if t.1 = [] then [['\n']]
  else if t.2 ∧ t.1.length = 254 then [t.1, ['\n']]
  else [t.1]

theorem entries_line {l : Line} (hl : '\n' ∉ l) (h0 : '\x00' ∉ l) (hlen : l.length ≤ 254) :
    (fgetsAll 254 [] (l ++ ['\n'])).map (fun buf => chomp (cstr buf)) = entry (l, true) := by
  have h0' : '\x00' ∉ l ++ ['\n'] := by simp [h0]
  have hnl : chomp (cstr ['\n']) = ['\n'] := by decide
  by_cases hne : l = []
  · subst hne
    rfl
  · by_cases hfull : l.length = 254
    · have h1 : fgetsAll 254 [] ['\n'] = [['\n']] := rfl
      rw [fgetsAll_full _ hl hne hfull, h1, entry, if_neg hne, if_pos ⟨rfl, hfull⟩]
      simp only [List.map_cons, List.map_nil, hnl, cstr_of_notMem h0, chomp_of_notMem hl]
    · rw [fgetsAll_terminated hl (by omega), entry, if_neg hne, if_neg fun h => hfull h.2]
      simp only [List.map_cons, List.map_nil, cstr_of_notMem h0', chomp_terminated hne]

theorem entries_eq (t : Line) (h0 : ∀ p ∈ splitLines t, '\x00' ∉ p.1)
    (hlen : ∀ p ∈ splitLines t, p.1.length ≤ 254) :
    (fgetsAll 254 [] t).map (fun buf => chomp (cstr buf)) = (splitLines t).flatMap entry := by
  induction t using text_induction with
  | nil => rfl
  | last l hne hl =>
    rw [splitLines_last hne hl] at h0 hlen ⊢
    have h0 := h0 _ List.mem_cons_self
    have hlen := hlen _ List.mem_cons_self
    rw [fgetsAll_last hl hne hlen]
    simp [entry, hne, cstr_of_notMem h0, chomp_of_notMem hl]
  | line l s hl ih =>
    rw [splitLines_line s hl] at h0 hlen ⊢
    rw [List.forall_mem_cons] at h0 hlen
    rw [fgetsAll_line, List.map_append, ih h0.2 hlen.2, entries_line hl h0.1 hlen.1,
      List.flatMap_cons]

/-- What any call puts into the table: a string that fits, either a lone line feed or without. -/
theorem entries_mem {t line : Line}
    (h : line ∈ (fgetsAll 254 [] t).map fun buf => chomp (cstr buf)) :
    '\x00' ∉ line ∧ line.length ≤ 254 ∧ (line = ['\n'] ∨ '\n' ∉ line) := by
  obtain ⟨buf, hbuf, rfl⟩ := List.mem_map.1 h
  obtain ⟨hlen, l, hl, hb⟩ := fgetsAll_mem (by decide) List.not_mem_nil hbuf
  have h0 : '\x00' ∉ cstr buf := fun m => by simpa using List.mem_takeWhile_imp m
  have hpre : cstr buf <+: buf := List.takeWhile_prefix _
  have hcstr : '\n' ∉ cstr buf ∨ cstr buf = l ++ ['\n'] := by
    rcases hb with rfl | rfl
    · exact Or.inl fun m => hl (hpre.subset m)
    · rcases List.prefix_concat_iff.1 hpre with heq | hpre
      · exact Or.inr heq
      · exact Or.inl fun m => hl (hpre.subset m)
  have hle := hpre.length_le
  rcases hcstr with hn | heq
  · rw [chomp_of_notMem hn]
    exact ⟨h0, by omega, Or.inr hn⟩
  · rw [heq] at h0 hle ⊢
    rcases eq_or_ne l [] with rfl | hne
    · exact ⟨by decide, by decide, Or.inl rfl⟩
    · rw [chomp_terminated hne]
      rw [List.length_append] at hle
      exact ⟨fun m => h0 (List.mem_append_left _ m), by omega, Or.inr hl⟩

variable (tag : Line)

theorem scanFile_snd : ∀ (bufs : List Line) {i : ℕ}, i < MAX_DNS → (scanFile tag i bufs).2
    = ((bufs.map fun buf => chomp (cstr buf)).filter fun l => ¬ tag <:+: l).take (MAX_DNS - i)
  | [], i, _ => by simp [scanFile]
  | buf :: bufs, i, hi => by
    have hroom : MAX_DNS - i = MAX_DNS - (i + 1) + 1 := by omega
    simp only [scanFile, List.map_cons]
    split_ifs with htag hfull
    · rw [List.filter_cons_of_neg (by simpa using htag)]
      exact scanFile_snd bufs hi
    · have hzero : MAX_DNS - (i + 1) = 0 := by omega
      rw [List.filter_cons_of_pos (by simpa using htag), hroom, hzero, List.take_succ_cons,
        List.take_zero]
    · rw [List.filter_cons_of_pos (by simpa using htag), hroom, List.take_succ_cons]
      exact congrArg _ (scanFile_snd bufs (by omega))

theorem reached_cons_of_pos {room : ℕ} {line : Line} (ls : List Line) (h : tag <:+: line)
    (hroom : 0 < room) : Reached tag room (line :: ls) :=
  ⟨[], line, ls, rfl, h, hroom⟩

theorem reached_cons_of_neg {room : ℕ} {line : Line} {ls : List Line} (h : ¬ tag <:+: line) :
    Reached tag (room + 1) (line :: ls) ↔ Reached tag room ls := by
  constructor
  · rintro ⟨before, l, after, heq, hl, hlen⟩
    rcases before with _ | ⟨b, before⟩
    · cases heq
      exact absurd hl h
    · cases heq
      rw [List.filter_cons_of_pos (by simpa using h), List.length_cons] at hlen
      exact ⟨before, l, after, rfl, hl, Nat.lt_of_succ_lt_succ hlen⟩
  · rintro ⟨before, l, after, rfl, hl, hlen⟩
    refine ⟨line :: before, l, after, rfl, hl, ?_⟩
    rw [List.filter_cons_of_pos (by simpa using h), List.length_cons]
    omega

theorem scanFile_fst : ∀ (bufs : List Line) {i : ℕ}, i < MAX_DNS → ((scanFile tag i bufs).1 ≠ 0
    ↔ Reached tag (MAX_DNS - i) (bufs.map fun buf => chomp (cstr buf)))
  | [], i, _ => by
    refine iff_of_false (by simp [scanFile]) ?_
    rintro ⟨before, line, after, heq, -⟩
    cases before <;> cases heq
  | buf :: bufs, i, hi => by
    have hroom : MAX_DNS - i = MAX_DNS - (i + 1) + 1 := by omega
    simp only [scanFile, List.map_cons]
    split_ifs with htag hfull
    · exact iff_of_true (Nat.succ_ne_zero _) (reached_cons_of_pos tag _ htag (by omega))
    · have hzero : MAX_DNS - (i + 1) = 0 := by omega
      rw [hroom, reached_cons_of_neg tag htag, hzero]
      exact iff_of_false (fun h => h rfl) fun ⟨_, _, _, _, _, hlen⟩ => Nat.not_lt_zero _ hlen
    · rw [hroom, reached_cons_of_neg tag htag]
      exact scanFile_fst bufs (by omega)

end Entries

/-! ## What is written -/

section Print

/-- The lines that an entry is written as. -/
def shown (e : Line) : List Line := if e = ['\n'] then [[], []] else [e]

theorem shown_of_notMem {e : Line} (h : '\n' ∉ e) : shown e = [e] :=
  if_neg fun he => h (by rw [he]; exact List.mem_cons_self)

theorem flatMap_shown : ∀ {ls : List Line}, (∀ l ∈ ls, '\n' ∉ l) → ls.flatMap shown = ls
  | [], _ => rfl
  | l :: ls, h => by
    rw [List.forall_mem_cons] at h
    rw [List.flatMap_cons, shown_of_notMem h.1, flatMap_shown h.2, List.singleton_append]

theorem printLines_shown : ∀ es : List Line, printLines (es.flatMap shown) = printLines es
  | [] => rfl
  | e :: es => by
    have ih := printLines_shown es
    unfold printLines at ih ⊢
    rw [List.flatMap_cons, List.flatMap_append, ih, List.flatMap_cons]
    unfold shown
    split_ifs with he
    · rw [he]
      rfl
    · simp

theorem lines_printLines : ∀ {es : List Line}, (∀ e ∈ es, e = ['\n'] ∨ '\n' ∉ e) →
    (splitLines (printLines es)).map Prod.fst = es.flatMap shown
  | [], _ => rfl
  | e :: es, h => by
    rw [List.forall_mem_cons] at h
    have ih := lines_printLines h.2
    have hcons : printLines (e :: es) = e ++ '\n' :: printLines es := by simp [printLines]
    rw [hcons, List.flatMap_cons, ← ih]
    rcases h.1 with rfl | he
    · rfl
    · rw [splitLines_line _ he, shown_of_notMem he]
      rfl

/-- What is written of lines that are put into a table with room for `room` entries. -/
def rest (room : ℕ) (ts : List (Line × Bool)) : List Line :=
  ((ts.flatMap entry).take room).flatMap shown

theorem rest_zero (ts : List (Line × Bool)) : rest 0 ts = [] := by simp [rest]

theorem rest_blank (room : ℕ) (b : Bool) (ts : List (Line × Bool)) :
    rest (room + 1) (([], b) :: ts) = [] :: [] :: rest room ts := by
  simp [rest, entry, shown]

theorem rest_full {l : Line} (ts : List (Line × Bool)) (hl : '\n' ∉ l) (hlen : l.length = 254) :
    rest 1 ((l, true) :: ts) = [l]
      ∧ ∀ room, rest (room + 2) ((l, true) :: ts) = l :: [] :: [] :: rest room ts := by
  have hne : l ≠ [] := fun h => by simp [h] at hlen
  have he : entry (l, true) = [l, ['\n']] := by simp [entry, hne, hlen]
  have hnl : shown ['\n'] = [[], []] := if_pos rfl
  simp [rest, he, hnl, shown_of_notMem hl]

theorem rest_plain {l : Line} {b : Bool} (room : ℕ) (ts : List (Line × Bool)) (hl : '\n' ∉ l)
    (hne : l ≠ []) (hlen : ¬ (b ∧ l.length = 254)) :
    rest (room + 1) ((l, b) :: ts) = l :: rest room ts := by
  have he : entry (l, b) = [l] := by
    rw [entry, if_neg hne, if_neg hlen]
  simp [rest, he, shown_of_notMem hl]

/-- Once there are blank lines too many, everything has to be blank. -/
theorem replicate_rest_iff : ∀ (room j : ℕ) (ts : List (Line × Bool)),
    List.replicate (j + 1) [] ++ rest room ts = ts.map Prod.fst
      ↔ (∀ t ∈ ts, t.1 = []) ∧ ts.length = 2 * room + (j + 1)
  | 0, j, ts => by
    rw [rest_zero, List.append_nil, eq_comm, List.eq_replicate_iff, List.length_map,
      List.forall_mem_map, and_comm, Nat.mul_zero, Nat.zero_add]
  | room + 1, j, [] => by simp
  | room + 1, j, (l, b) :: ts => by
    rcases eq_or_ne l [] with rfl | hne
    · have hmore : List.replicate (j + 1) [] ++ ([] :: [] :: rest room ts)
          = [] :: (List.replicate (j + 1 + 1) [] ++ rest room ts) := by
        have htwo : ([] : Line) :: [] :: rest room ts = List.replicate 2 [] ++ rest room ts := rfl
        rw [htwo, ← List.append_assoc, List.replicate_append_replicate, ← List.cons_append,
          ← List.replicate_succ]
      rw [rest_blank, hmore, List.map_cons, List.cons_inj_right, replicate_rest_iff room (j + 1) ts,
        List.forall_mem_cons, List.length_cons]
      constructor
      · rintro ⟨hall, hlen⟩
        exact ⟨⟨rfl, hall⟩, by omega⟩
      · rintro ⟨⟨-, hall⟩, hlen⟩
        exact ⟨hall, by omega⟩
    · refine iff_of_false (fun h => ?_) fun h => hne (h.1 _ List.mem_cons_self)
      rw [List.replicate_succ, List.cons_append, List.map_cons] at h
      exact hne (List.cons.inj h).1.symm

theorem rest_iff : ∀ (room : ℕ) (ts : List (Line × Bool)), (∀ t ∈ ts, '\n' ∉ t.1) →
    (rest room ts = ts.map Prod.fst ↔ Returns room ts)
  | room, [], _ => by
    cases room <;> simp [rest, Returns]
  | 0, t :: ts, _ => by simp [rest, Returns]
  | room + 1, (l, b) :: ts, h => by
    rw [List.forall_mem_cons] at h
    rw [Returns, List.map_cons]
    split_ifs with hblank hfull
    · subst hblank
      rw [rest_blank, List.cons_inj_right]
      exact replicate_rest_iff room 0 ts
    · obtain ⟨rfl, hlen⟩ := hfull
      obtain ⟨hone, hmore⟩ := rest_full ts h.1 hlen
      rcases room with _ | room
      · have hlast := replicate_rest_iff
        rw [hone, List.cons_inj_right]
        rcases ts with _ | ⟨t, ts⟩ <;> simp
      · rw [hmore, List.cons_inj_right]
        exact replicate_rest_iff room 1 ts
    · rw [rest_plain room ts h.1 hblank hfull, List.cons_inj_right]
      exact rest_iff room ts h.2

end Print

/-- What the proofs need of a tag. -/
structure IsTag (tag : Line) : Prop where
  long : 2 ≤ tag.length
  short : tag.length ≤ 63
  line : '\n' ∉ tag
  cstr : '\x00' ∉ tag

section Foreign

variable {tag : Line}

theorem Owned.tag_infix {l : Line} (h : Owned tag l) : tag <:+: l := by
  obtain ⟨d, rfl⟩ := h
  have hsuffix : tag <:+ nameserver tag d.text :=
    ⟨"nameserver ".toList ++ d.text ++ [' '], List.append_assoc _ [' '] tag⟩
  exact hsuffix.isInfix

theorem IsTag.not_infix (ht : IsTag tag) {l : Line} (h : l.length ≤ 1) : ¬ tag <:+: l :=
fun hi => by
  have := hi.length_le
  have := ht.long
  omega

theorem Owned.length_le (ht : IsTag tag) {l : Line} (h : Owned tag l) : l.length ≤ 138 := by
  obtain ⟨d, rfl⟩ := h
  have := ht.short
  have := d.isDns.1
  rw [length_nameserver]
  omega

theorem Owned.notMem (ht : IsTag tag) {l : Line} (h : Owned tag l) : '\n' ∉ l ∧ '\x00' ∉ l := by
  obtain ⟨d, rfl⟩ := h
  obtain ⟨-, -, hnl, h0⟩ := d.isDns
  have hnl' := ht.line
  have h0' := ht.cstr
  have hname : '\n' ∉ "nameserver ".toList ∧ '\x00' ∉ "nameserver ".toList := by decide
  constructor <;> unfold nameserver <;> simp only [List.mem_append, List.mem_cons, not_or]
  · exact ⟨⟨hname.1, hnl⟩, by decide, hnl'⟩
  · exact ⟨⟨hname.2, h0⟩, by decide, h0'⟩

/-- An owned line is an entry that is left out, and none of another line is. -/
theorem filter_entries (ht : IsTag tag) : ∀ {ts : List (Line × Bool)},
    (∀ t ∈ ts, tag <:+: t.1 → Owned tag t.1) → (ts.flatMap entry).filter (fun l => ¬ tag <:+: l)
      = (ts.filter fun t => ¬ Owned tag t.1).flatMap entry
  | [], _ => rfl
  | (l, b) :: ts, h => by
    rw [List.forall_mem_cons] at h
    rw [List.flatMap_cons, List.filter_append, filter_entries ht h.2]
    by_cases hown : Owned tag l
    · have hlen := hown.length_le ht
      have hne : l ≠ [] := fun h => ht.not_infix (by simp [h]) hown.tag_infix
      have he : entry (l, b) = [l] := by
        rw [entry, if_neg hne, if_neg fun hf => by
          have : l.length = 254 := hf.2
          omega]
      rw [he, List.filter_cons_of_neg (by simpa using hown.tag_infix),
        List.filter_cons_of_neg (by simpa using hown)]
      rfl
    · have hl : ¬ tag <:+: l := fun hi => hown (h.1 hi)
      have hnl : ¬ tag <:+: ['\n'] := ht.not_infix le_rfl
      have he : (entry (l, b)).filter (fun l => ¬ tag <:+: l) = entry (l, b) := by
        unfold entry
        split_ifs <;> simp [hl, hnl]
      rw [he, List.filter_cons_of_pos (by simpa using hown), List.flatMap_cons]

theorem kept_mem {t e : Line} (he : e ∈ (scanFile tag 0 (fgetsAll 254 [] t)).2) :
    ¬ tag <:+: e ∧ '\x00' ∉ e ∧ e.length ≤ 254 ∧ (e = ['\n'] ∨ '\n' ∉ e) := by
  rw [scanFile_snd tag _ (by decide)] at he
  obtain ⟨he, hne⟩ := List.mem_filter.1 (List.mem_of_mem_take he)
  exact ⟨by simpa using hne, entries_mem he⟩

theorem written_entries (ht : IsTag tag) {new : List Line} (hnew : ∀ l ∈ new, Owned tag l)
    (t : Line) : ∀ e ∈ new ++ (scanFile tag 0 (fgetsAll 254 [] t)).2, e = ['\n'] ∨ '\n' ∉ e :=
  fun e he => (List.mem_append.1 he).elim (fun he => Or.inr ((hnew e he).notMem ht).1)
    fun he => (kept_mem he).2.2.2

/-- When a file that is written again has the new lines and the foreign lines of the old one. -/
theorem written_iff (ht : IsTag tag) {new : List Line} (hnew : ∀ l ∈ new, Owned tag l) (t : Line) :
    (splitLines (printLines (new ++ (scanFile tag 0 (fgetsAll 254 [] t)).2))).map Prod.fst
        = new ++ ((splitLines t).map Prod.fst).filter (fun l => ¬ Owned tag l)
      ↔ (∀ l ∈ (splitLines t).map Prod.fst, tag <:+: l → Owned tag l)
        ∧ (∀ l ∈ (splitLines t).map Prod.fst, '\x00' ∉ l)
        ∧ (∀ l ∈ (splitLines t).map Prod.fst, l.length ≤ 254)
        ∧ Returns MAX_DNS ((splitLines t).filter fun p => ¬ Owned tag p.1) := by
  have hkept : (scanFile tag 0 (fgetsAll 254 [] t)).2
      = (((fgetsAll 254 [] t).map fun buf => chomp (cstr buf)).filter fun l => ¬ tag <:+: l).take
        MAX_DNS := scanFile_snd tag _ (by decide)
  have hfst : ((splitLines t).map Prod.fst).filter (fun l => ¬ Owned tag l)
      = ((splitLines t).filter fun p => ¬ Owned tag p.1).map Prod.fst := by
    rw [List.filter_map]
    rfl
  have hnl : ∀ p ∈ (splitLines t).filter (fun p => ¬ Owned tag p.1), '\n' ∉ p.1 := fun p hp =>
    newline_notMem_splitLines (List.mem_filter.1 hp).1
  have hshown : new.flatMap shown = new := flatMap_shown fun l hl => ((hnew l hl).notMem ht).1
  rw [lines_printLines (written_entries ht hnew t), List.flatMap_append, hshown,
    List.append_cancel_left_eq, hfst]
  constructor
  · intro h
    -- a foreign line that is given back is one of those that an entry is written as
    have hback : ∀ l ∈ (splitLines t).map Prod.fst, ¬ Owned tag l →
        ¬ tag <:+: l ∧ '\x00' ∉ l ∧ l.length ≤ 254 := fun l hl hown => by
      have hmem : l ∈ ((splitLines t).filter fun p => ¬ Owned tag p.1).map Prod.fst :=
        hfst ▸ List.mem_filter.2 ⟨hl, by simpa using hown⟩
      rw [← h] at hmem
      obtain ⟨e, he, hl⟩ := List.mem_flatMap.1 hmem
      obtain ⟨hetag, he0, helen, -⟩ := kept_mem he
      unfold shown at hl
      split_ifs at hl
      · obtain rfl : l = [] := by simpa using hl
        exact ⟨ht.not_infix (by simp), List.not_mem_nil, by simp⟩
      · obtain rfl := List.mem_singleton.1 hl
        exact ⟨hetag, he0, helen⟩
    have htag : ∀ l ∈ (splitLines t).map Prod.fst, tag <:+: l → Owned tag l := fun l hl hi =>
      by_contra fun hown => (hback l hl hown).1 hi
    have h0 : ∀ l ∈ (splitLines t).map Prod.fst, '\x00' ∉ l := fun l hl => by
      by_cases hown : Owned tag l
      · exact (hown.notMem ht).2
      · exact (hback l hl hown).2.1
    have hlen : ∀ l ∈ (splitLines t).map Prod.fst, l.length ≤ 254 := fun l hl => by
      by_cases hown : Owned tag l
      · exact (hown.length_le ht).trans (by decide)
      · exact (hback l hl hown).2.2
    refine ⟨htag, h0, hlen, (rest_iff _ _ hnl).1 ?_⟩
    rw [List.forall_mem_map] at htag h0 hlen
    rw [hkept, entries_eq t h0 hlen, filter_entries ht htag] at h
    exact h
  · rintro ⟨htag, h0, hlen, hret⟩
    rw [List.forall_mem_map] at htag h0 hlen
    rw [hkept, entries_eq t h0 hlen, filter_entries ht htag]
    exact (rest_iff _ _ hnl).2 hret

/-- A first line that is short and not blank is the first entry. -/
theorem entries_head {t l : Line} {b : Bool} {ts : List (Line × Bool)}
    (h : splitLines t = (l, b) :: ts) (hne : l ≠ []) (h0 : '\x00' ∉ l) (hlen : l.length < 254) :
    ∃ es, (fgetsAll 254 [] t).map (fun buf => chomp (cstr buf)) = l :: es := by
  induction t using text_induction with
  | nil => cases h
  | last l' hne' hl =>
    rw [splitLines_last hne' hl] at h
    cases h
    refine ⟨[], ?_⟩
    rw [fgetsAll_last hl hne hlen.le, List.map_singleton, cstr_of_notMem h0, chomp_of_notMem hl]
  | line l' s hl =>
    rw [splitLines_line s hl] at h
    cases h
    have he : entry (l, true) = [l] := by
      rw [entry, if_neg hne, if_neg fun hf => hlen.ne hf.2]
    rw [fgetsAll_line, List.map_append, entries_line hl h0 hlen.le, he]
    exact ⟨_, rfl⟩

end Foreign

section Decimal

theorem mem_decimal {n : ℤ} {c : Char} (h : c ∈ decimal n) : c = '-' ∨ c.isDigit := by
  have hd : ∀ {m : ℕ}, c ∈ Nat.toDigits 10 m → c.isDigit :=
    Nat.isDigit_of_mem_toDigits (by decide) le_rfl
  unfold decimal at h
  split_ifs at h
  · exact (List.mem_cons.1 h).imp_right hd
  · exact Or.inr (hd h)

theorem notMem_decimal {n : ℤ} {c : Char} (h : c ≠ '-') (hc : c.isDigit = false) : c ∉ decimal n :=
  fun hm => (mem_decimal hm).elim h fun hd => by simp [hd] at hc

theorem length_decimal {n : ℤ} (hlow : -2 ^ 31 ≤ n) (hhigh : n < 2 ^ 31) :
    (decimal n).length ≤ 11 := by
  have habs : n.natAbs < 10 ^ 10 := by omega
  have hlen := (Nat.length_toDigits_le_iff (by decide) (by decide)).2 habs
  unfold decimal
  split_ifs
  · rw [List.length_cons]
    omega
  · omega

theorem decimal_injective {m n : ℤ} (h : decimal m = decimal n) : m = n := by
  have hd : ∀ {a b : ℕ}, Nat.toDigits 10 a = Nat.toDigits 10 b → a = b := fun {a b} h => by
    rw [← @Nat.ofDigitChars_ten_toDigits a, h, Nat.ofDigitChars_ten_toDigits]
  have hminus : ∀ {a b : ℕ}, '-' :: Nat.toDigits 10 a ≠ Nat.toDigits 10 b := fun {a b} h => by
    have hm : '-' ∈ Nat.toDigits 10 b := h ▸ List.mem_cons_self
    exact absurd (Nat.isDigit_of_mem_toDigits (by decide) le_rfl hm) (by decide)
  unfold decimal at h
  split_ifs at h
  · have := hd (List.cons.inj h).2
    omega
  · exact absurd h hminus
  · exact absurd h.symm hminus
  · have := hd h
    omega

end Decimal

/-- What comes before the first space of a text, and what comes after it. -/
theorem space_injective : ∀ {a a' s s' : Line}, ' ' ∉ a → ' ' ∉ a' →
    a ++ ' ' :: s = a' ++ ' ' :: s' → a = a' ∧ s = s'
  | [], [], _, _, _, _, h => ⟨rfl, (List.cons.inj h).2⟩
  | [], c :: a', _, _, _, ha', h =>
    absurd (List.cons.inj h).1 fun e => ha' (e ▸ List.mem_cons_self)
  | c :: a, [], _, _, ha, _, h =>
    absurd (List.cons.inj h).1 fun e => ha (e ▸ List.mem_cons_self)
  | c :: a, c' :: a', _, _, ha, ha', h => by
    obtain ⟨rfl, htail⟩ := List.cons.inj h
    obtain ⟨rfl, rfl⟩ := space_injective (fun m => ha (List.mem_cons_of_mem c m))
      (fun m => ha' (List.mem_cons_of_mem c m)) htail
    exact ⟨rfl, rfl⟩

theorem nameserver_injective {tag tag' dns dns' : Line} (hd : ' ' ∉ dns) (hd' : ' ' ∉ dns')
    (h : nameserver tag dns = nameserver tag' dns') : tag = tag' := by
  unfold nameserver at h
  rw [List.append_assoc, List.append_assoc, List.append_cancel_left_eq] at h
  exact (space_injective hd hd' h).2

namespace Update

variable (u : Update)

/-- A tag is never cut. -/
theorem dnsTag_eq : u.dnsTag = "# IPV".toList ++ (decimal u.iptype ++ ' ' :: u.ifname) := by
  have hlen := length_decimal u.int_low u.int_high
  have hname := u.ifname_short
  unfold dnsTag
  rw [List.append_assoc]
  refine List.take_of_length_le ?_
  rw [List.length_append, List.length_append, List.length_cons]
  change 5 + _ ≤ 63
  omega

theorem isTag : IsTag u.dnsTag := by
  have hlen := length_decimal u.int_low u.int_high
  have hname := u.ifname_short
  have heq : u.dnsTag.length = 5 + ((decimal u.iptype).length + (u.ifname.length + 1)) := by
    rw [dnsTag_eq, List.length_append, List.length_append, List.length_cons]
    rfl
  have hnot : ∀ c, c ∉ "# IPV".toList → c ≠ '-' → c.isDigit = false → c ≠ ' ' → c ∉ u.ifname →
      c ∉ u.dnsTag := fun c h1 h2 h3 h4 h5 => by
    rw [dnsTag_eq, List.mem_append, List.mem_append, List.mem_cons]
    exact not_or.2 ⟨h1, not_or.2 ⟨notMem_decimal h2 h3, not_or.2 ⟨h4, h5⟩⟩⟩
  exact ⟨by omega, by omega,
    hnot _ (by decide) (by decide) (by decide) (by decide) u.ifname_line,
    hnot _ (by decide) (by decide) (by decide) (by decide) u.ifname_cstr⟩

theorem dnsTag_injective {u v : Update} (h : u.dnsTag = v.dnsTag) :
    (u.iptype, u.ifname) = (v.iptype, v.ifname) := by
  rw [dnsTag_eq, dnsTag_eq, List.append_cancel_left_eq] at h
  have hspace : ∀ n, ' ' ∉ decimal n := fun n => notMem_decimal (by decide) (by decide)
  obtain ⟨htype, hname⟩ := space_injective (hspace _) (hspace _) h
  rw [decimal_injective htype, hname]

theorem newLines_owned : ∀ l ∈ u.newLines, Owned u.dnsTag l := fun l hl => by
  obtain ⟨d, -, rfl⟩ := List.mem_map.1 hl
  exact ⟨d, rfl⟩

theorem newLines_not_owned {u v : Update} (h : (u.iptype, u.ifname) ≠ (v.iptype, v.ifname)) :
    ∀ l ∈ u.newLines, ¬ Owned v.dnsTag l := by
  rintro l hl ⟨d', hd'⟩
  obtain ⟨d, -, rfl⟩ := List.mem_map.1 hl
  exact h (dnsTag_injective (nameserver_injective d.isDns.2.1 d'.isDns.2.1 hd'))

/-! ## The update -/

variable (file : Option Line)

theorem matched_iff :
    u.Matched file ↔ (scanFile u.dnsTag 0 (fgetsAll 254 [] (file.getD []))).1 ≠ 0 := by
  have h := scanFile_fst u.dnsTag (fgetsAll 254 [] (file.getD [])) (i := 0) (by decide)
  exact h.symm

theorem update_unmatched (h : u.dns1 = none ∧ ¬ u.Matched file) : updateResolvConf u file = file :=
  if_pos ⟨h.1, not_not.1 ((matched_iff u file).not.1 h.2)⟩

theorem update_written (h : ¬ (u.dns1 = none ∧ ¬ u.Matched file)) : updateResolvConf u file
    = some (printLines (u.newLines
      ++ (scanFile u.dnsTag 0 (fgetsAll 254 [] (file.getD []))).2)) :=
  if_neg fun hn => h ⟨hn.1, fun hm => (matched_iff u file).1 hm hn.2⟩

/-- A second server without a first one is not written if the file is left alone. -/
theorem not_matched_keeps_iff (h : u.dns1 = none ∧ ¬ u.Matched file) :
    lines file = u.newLines ++ (lines file).filter (fun l => ¬ Owned u.dnsTag l)
      ↔ u.dns2 = none ∧ ∀ l ∈ lines file, ¬ Owned u.dnsTag l := by
  have hnew : u.newLines = u.dns2.toList.map fun d => nameserver u.dnsTag d.text := by
    rw [newLines, h.1]
    rfl
  rcases h2 : u.dns2 with _ | d
  · rw [hnew, h2]
    simp only [Option.toList_none, List.map_nil, List.nil_append, true_and]
    rw [eq_comm, List.filter_eq_self]
    simp
  · refine iff_of_false (fun heq => h.2 ?_) fun hn => by cases hn.1
    have hown : Owned u.dnsTag (nameserver u.dnsTag d.text) := ⟨d, rfl⟩
    rw [hnew, h2, Option.toList_some, List.map_singleton, List.singleton_append] at heq
    obtain ⟨⟨l, b⟩, ts, hsplit, hl, -⟩ := List.map_eq_cons_iff.1 heq
    have hl : l = nameserver u.dnsTag d.text := hl
    subst hl
    have hne : nameserver u.dnsTag d.text ≠ [] := fun he => by
      have := u.isTag.not_infix (l := nameserver u.dnsTag d.text) (by simp [he])
      exact this hown.tag_infix
    have hlen := hown.length_le u.isTag
    obtain ⟨es, hes⟩ := entries_head hsplit hne (hown.notMem u.isTag).2 (by omega)
    rw [Matched, entriesOf, hes]
    exact reached_cons_of_pos _ _ hown.tag_infix (by decide)

theorem keeps_iff : u.KeepsForeign file ↔ u.Clean file := by
  unfold KeepsForeign Clean
  by_cases h : u.dns1 = none ∧ ¬ u.Matched file
  · rw [update_unmatched u file h, not_matched_keeps_iff u file h]
    exact ⟨fun hk => ⟨fun _ => hk, fun hn => absurd h hn⟩, fun hk => hk.1 h⟩
  · rw [update_written u file h]
    have hiff := written_iff u.isTag u.newLines_owned (file.getD [])
    exact ⟨fun hk => ⟨fun hn => absurd hn h, fun _ => hiff.1 hk⟩, fun hk => hiff.2 (hk.2 h)⟩

/-- A file that was written is what its lines are written as. -/
theorem update_eq_printLines (h : ¬ (u.dns1 = none ∧ ¬ u.Matched file)) :
    updateResolvConf u file = some (printLines (lines (updateResolvConf u file))) := by
  have hes := fun e (he : e ∈ u.newLines
      ++ (scanFile u.dnsTag 0 (fgetsAll 254 [] (file.getD []))).2) => written_entries u.isTag
    u.newLines_owned (file.getD []) e he
  rw [update_written u file h]
  unfold lines linesOf
  rw [Option.getD_some, lines_printLines hes, printLines_shown]

/-- Written twice, the lines are those of the first time. -/
theorem keeps_twice (h : u.KeepsForeign file) (h' : u.KeepsForeign (updateResolvConf u file)) :
    lines (updateResolvConf u (updateResolvConf u file)) = lines (updateResolvConf u file) := by
  have hfilter : u.newLines.filter (fun l => ¬ Owned u.dnsTag l) = [] :=
    List.filter_eq_nil_iff.2 fun l hl => by simpa using u.newLines_owned l hl
  rw [h', h, List.filter_append, hfilter, List.filter_filter]
  simp

theorem keeps_both {u v : Update} {file : Option Line}
    (hne : (u.iptype, u.ifname) ≠ (v.iptype, v.ifname)) (h : u.KeepsForeign file)
    (h' : v.KeepsForeign (updateResolvConf u file)) :
    lines (updateResolvConf v (updateResolvConf u file)) = v.newLines ++ u.newLines
      ++ (lines file).filter fun l => ¬ Owned u.dnsTag l ∧ ¬ Owned v.dnsTag l := by
  have hfilter : u.newLines.filter (fun l => ¬ Owned v.dnsTag l) = u.newLines :=
    List.filter_eq_self.2 fun l hl => by simpa using newLines_not_owned hne l hl
  rw [h', h, List.filter_append, hfilter, List.filter_filter, List.append_assoc]
  simp [Bool.and_comm]

theorem update_twice (h : u.KeepsForeign file) (h' : u.KeepsForeign (updateResolvConf u file)) :
    updateResolvConf u (updateResolvConf u file) = updateResolvConf u file := by
  by_cases hfirst : u.dns1 = none ∧ ¬ u.Matched file
  · rw [update_unmatched u file hfirst, update_unmatched u file hfirst]
  · by_cases hsecond : u.dns1 = none ∧ ¬ u.Matched (updateResolvConf u file)
    · exact update_unmatched u _ hsecond
    · rw [update_eq_printLines u _ hsecond, keeps_twice u file h h',
        ← update_eq_printLines u file hfirst]

end Update

/-- An update keeps the foreign lines exactly if the file is clean for it. Where it is, the update
is idempotent, and updates of different interfaces or types commute but for the order of what
they add. -/
theorem updateResolvConf_iff (u v : Update) (file : Option Line) :
    (u.KeepsForeign file ↔ u.Clean file)
    ∧ (u.Clean file → u.Clean (updateResolvConf u file) →
      updateResolvConf u (updateResolvConf u file) = updateResolvConf u file)
    ∧ ((u.iptype, u.ifname) ≠ (v.iptype, v.ifname) → u.Clean file → v.Clean file →
      v.Clean (updateResolvConf u file) → u.Clean (updateResolvConf v file) →
        lines (updateResolvConf v (updateResolvConf u file)) = v.newLines ++ u.newLines
          ++ (lines file).filter (fun l => ¬ Owned u.dnsTag l ∧ ¬ Owned v.dnsTag l)
        ∧ lines (updateResolvConf u (updateResolvConf v file)) = u.newLines ++ v.newLines
          ++ (lines file).filter (fun l => ¬ Owned u.dnsTag l ∧ ¬ Owned v.dnsTag l)) := by
  refine ⟨u.keeps_iff file, fun h h' => ?_, fun hne hu hv hvu huv => ⟨?_, ?_⟩⟩
  · exact u.update_twice file ((u.keeps_iff _).2 h) ((u.keeps_iff _).2 h')
  · exact Update.keeps_both hne ((u.keeps_iff _).2 hu) ((v.keeps_iff _).2 hvu)
  · have h := Update.keeps_both hne.symm ((v.keeps_iff _).2 hv) ((u.keeps_iff _).2 huv)
    simpa only [and_comm] using h

def dns : Dns := ⟨"1.1.1.1".toList, by decide⟩

def dnsOf (ifname : Line) (h : ifname.length ≤ 31 ∧ '\n' ∉ ifname ∧ '\x00' ∉ ifname) : Update where
  iptype := 4
  ifname := ifname
  dns1 := some dns
  dns2 := none
  int_low := by decide
  int_high := by decide
  ifname_short := h.1
  ifname_line := h.2.1
  ifname_cstr := h.2.2

def wwan0 : Update := dnsOf "wwan0".toList (by decide)

def wwan0_1 : Update := dnsOf "wwan0_1".toList (by decide)

def wwan1 : Update := dnsOf "wwan1".toList (by decide)

theorem Update.clean_of_first {u : Update} {file : Option Line} (h : u.dns1 ≠ none)
    (hclean : (∀ l ∈ lines file, u.dnsTag <:+: l → Owned u.dnsTag l)
      ∧ (∀ l ∈ lines file, '\x00' ∉ l) ∧ (∀ l ∈ lines file, l.length ≤ 254)
      ∧ Returns MAX_DNS ((linesOf file).filter fun t => ¬ Owned u.dnsTag t.1)) : u.Clean file :=
  ⟨fun hn => absurd hn.1 h, fun _ => hclean⟩

def lan : Option Line := some "search lan\n".toList

theorem updateResolvConf_wwan0_wwan1 :
    wwan0.KeepsForeign lan
    ∧ updateResolvConf wwan0 (updateResolvConf wwan0 lan) = updateResolvConf wwan0 lan
    ∧ lines (updateResolvConf wwan1 (updateResolvConf wwan0 lan))
      = wwan1.newLines ++ wwan0.newLines ++ (lines lan).filter fun l =>
        ¬ Owned wwan0.dnsTag l ∧ ¬ Owned wwan1.dnsTag l := by
  have h := updateResolvConf_iff wwan0 wwan1 lan
  have h0 : wwan0.dns1 ≠ none := Option.some_ne_none _
  have h1 : wwan1.dns1 ≠ none := Option.some_ne_none _
  have hu : wwan0.Clean lan := Update.clean_of_first h0 (by decide)
  have huu : wwan0.Clean (updateResolvConf wwan0 lan) := Update.clean_of_first h0 (by decide)
  have hv : wwan1.Clean lan := Update.clean_of_first h1 (by decide)
  have hvu : wwan1.Clean (updateResolvConf wwan0 lan) := Update.clean_of_first h1 (by decide)
  have huv : wwan0.Clean (updateResolvConf wwan1 lan) := Update.clean_of_first h0 (by decide)
  exact ⟨h.1.2 hu, h.2.1 hu huu, (h.2.2 (by decide) hu hv hvu huv).1⟩

/-- The line of an interface is lost when one is updated whose name its name begins with. -/
theorem wwan0_1_lost :
    lines (updateResolvConf wwan0_1 none) = wwan0_1.newLines
    ∧ (∀ l ∈ wwan0_1.newLines, ¬ Owned wwan0.dnsTag l)
    ∧ lines (updateResolvConf wwan0 (updateResolvConf wwan0_1 none)) = wwan0.newLines
    ∧ ¬ wwan0.KeepsForeign (updateResolvConf wwan0_1 none) := by
  have hlines : lines (updateResolvConf wwan0_1 none) = wwan0_1.newLines := by decide
  have hown : ∀ l ∈ wwan0_1.newLines, ¬ Owned wwan0.dnsTag l := by decide
  have hlost : lines (updateResolvConf wwan0 (updateResolvConf wwan0_1 none)) = wwan0.newLines := by
    decide
  refine ⟨hlines, hown, hlost, fun hk => ?_⟩
  unfold Update.KeepsForeign at hk
  rw [hlost, hlines] at hk
  exact absurd hk (by decide)

end ResolvConf

end BananaWrt
