import BananaWrt.Lib.Lines
import BananaWrt.UpdateChangelog
import Mathlib.Data.Bool.AllAny

/-!
# What a signature keeps of a text

A text is normalized by dropping its marks, taking its lower case, stripping it and making its white
space blanks. White space parts words, so that the lower case of a text may be taken word by word
(`lower_append_of_space`) and stripped before or after (`strip_lower`). Where the characters are
steady, the marks may be dropped before or after, too (`lower_dropMarks_lower`).
-/

namespace BananaWrt

namespace UpdateChangelog

open Regex Regex.Re

variable {py : Python}

theorem space_blank : py.space ' ' = true := (py.blank ' ' (by simp)).1

theorem word_blank : py.word ' ' = false := (py.blank ' ' (by simp)).2.1

theorem forall_lineEnd {P : Char → Prop} (hnewline : P '\n') (hreturn : P '\r') :
    ∀ d ∈ ['\n', '\r'], P d :=
  List.forall_mem_cons.2 ⟨hnewline, List.forall_mem_singleton.2 hreturn⟩

theorem dropMarks_eq_filter (s : Str) : dropMarks py s = s.filter (kept py) := by
  unfold dropMarks sub
  rw [subFrom_one_nil]
  simp

theorem dropMarks_append (s t : Str) :
    dropMarks py (s ++ t) = dropMarks py s ++ dropMarks py t := by
  simp only [dropMarks_eq_filter, List.filter_append]

theorem strip_eq_trim (s : Str) : strip py s = s.trim py.space := rfl

theorem strip_subset (s : Str) : strip py s ⊆ s := by
  intro c hc
  have hend := List.rdropWhile_prefix py.space (s.dropWhile py.space)
  exact (List.dropWhile_sublist _).subset (hend.subset hc)

theorem dropMarks_subset (s : Str) : dropMarks py s ⊆ s := by
  rw [dropMarks_eq_filter]
  exact List.filter_subset_self s

/-- Only colons and white space before a text, and white space behind it, do not count. -/
theorem strip_dropMarks_append (hpy : Documented py) {w w' : Str}
    (hw : ∀ c ∈ w, colonOrSpace py c = true) (hw' : ∀ c ∈ w', py.space c = true) (s : Str) :
    strip py (dropMarks py (w ++ (s ++ w'))) = strip py (dropMarks py s) := by
  have hcolon : kept py ':' = true → py.space ':' = true := fun h => by
    simpa [kept, hpy.colon] using h
  have hspace : ∀ c ∈ dropMarks py w, py.space c = true := fun c hc => by
    rw [dropMarks_eq_filter, List.mem_filter] at hc
    have hcw := hw c hc.1
    unfold colonOrSpace at hcw
    rcases Bool.or_eq_true_iff.1 hcw with heq | hsp
    · obtain rfl : c = ':' := by simpa using heq
      exact hcolon hc.2
    · exact hsp
  rw [dropMarks_append, dropMarks_append, strip_eq_trim, strip_eq_trim,
    List.trim_append_left hspace,
    List.trim_append_right fun c hc => hw' c (dropMarks_subset w' hc)]

theorem strip_dropMarks_strip (hpy : Documented py) (s : Str) :
    strip py (dropMarks py (strip py s)) = strip py (dropMarks py s) := by
  obtain ⟨w, w', hw, hw', hs⟩ := List.exists_trim py.space s
  conv_rhs => rw [hs]
  refine (strip_dropMarks_append hpy (fun c hc => ?_) hw' _).symm
  unfold colonOrSpace
  rw [hw c hc, Bool.or_true]

/-- What a character becomes between two texts. -/
def letter (py : Python) (b : Str) (c : Char) (a : Str) : Str :=
  if c = 'Σ' then [if finalSigma py b a then 'ς' else 'σ'] else py.lowerChar c

theorem lowerFrom_cons (b : Str) (c : Char) (a : Str) :
    lowerFrom py b (c :: a) = letter py b c a ++ lowerFrom py (c :: b) a := rfl

theorem letter_of_ne {c : Char} (hc : c ≠ 'Σ') (b a : Str) : letter py b c a = py.lowerChar c :=
  if_neg hc

theorem letter_sigma (b a : Str) :
    letter py b 'Σ' a = [if finalSigma py b a then 'ς' else 'σ'] := if_pos rfl

theorem mem_letter_sigma {b a : Str} {d : Char} (h : d ∈ letter py b 'Σ' a) : d ∈ ['σ', 'ς'] := by
  rw [letter_sigma, List.mem_singleton] at h
  rw [h]
  split_ifs <;> simp

/-- A character of the lower case is that of a final or another sigma, or one of a character. -/
theorem mem_lowerFrom {d : Char} : ∀ {s b : Str}, d ∈ lowerFrom py b s →
    d ∈ ['σ', 'ς'] ∨ ∃ c ∈ s, d ∈ py.lowerChar c
  | [], _, h => absurd h List.not_mem_nil
  | c :: s, b, h => by
    rw [lowerFrom_cons] at h
    rcases List.mem_append.1 h with h | h
    · by_cases hc : c = 'Σ'
      · subst hc
        exact .inl (mem_letter_sigma h)
      · rw [letter_of_ne hc] at h
        exact .inr ⟨c, List.mem_cons_self, h⟩
    · exact (mem_lowerFrom h).imp_right fun ⟨e, he, hd⟩ => ⟨e, List.mem_cons_of_mem c he, hd⟩

theorem mem_lowerFrom_of_mem {c d : Char} (hc : c ≠ 'Σ') (hd : d ∈ py.lowerChar c) :
    ∀ {s b : Str}, c ∈ s → d ∈ lowerFrom py b s
  | e :: s, b, h => by
    rw [lowerFrom_cons]
    rcases List.mem_cons.1 h with rfl | h
    · rw [letter_of_ne hc]
      exact List.mem_append_left _ hd
    · exact List.mem_append_right _ (mem_lowerFrom_of_mem hc hd h)

theorem sigma_not_mem_lower (s : Str) : 'Σ' ∉ lower py s := by
  intro h
  rcases mem_lowerFrom h with hmem | ⟨c, -, hc⟩
  · exact absurd hmem (by decide)
  · exact (py.upper.2 c).2 hc

theorem lowerFrom_of_not_mem : ∀ {s b : Str}, 'Σ' ∉ s → lowerFrom py b s = s.flatMap py.lowerChar
  | [], _, _ => rfl
  | c :: s, b, h => by
    rw [List.mem_cons, not_or] at h
    rw [lowerFrom_cons, letter_of_ne (Ne.symm h.1), lowerFrom_of_not_mem h.2, List.flatMap_cons]

section Words

variable (hpy : Documented py)

include hpy

theorem ne_sigma_of_space {c : Char} (hc : py.space c = true) : c ≠ 'Σ' := by
  rintro rfl
  exact absurd (hpy.sigma.1.symm.trans hc) Bool.false_ne_true

theorem letter_space {c : Char} (hc : py.space c = true) (b a : Str) : letter py b c a = [c] :=
  (letter_of_ne (ne_sigma_of_space hpy hc) b a).trans (hpy.space c hc).1

/-- What a character that is no white space becomes is not empty and holds none. -/
theorem letter_word {c : Char} (hc : ¬ py.space c = true) (b a : Str) :
    letter py b c a ≠ [] ∧ ∀ d ∈ letter py b c a, ¬ py.space d = true := by
  by_cases hsigma : c = 'Σ'
  · subst hsigma
    refine ⟨by rw [letter_sigma]; exact List.cons_ne_nil _ _, fun d hd => ?_⟩
    rw [(hpy.sigma.2 d (mem_letter_sigma hd)).2.1]
    exact Bool.false_ne_true
  · rw [letter_of_ne hsigma]
    exact ⟨(hpy.lowerChar c).1, fun d hd hsp => hc ((hpy.lowerChar c).2 d hd hsp)⟩

/-- The nearest cased character before a place. -/
theorem any_cased_of_space {c : Char} (hc : py.space c = true) (s : Str) :
    ((c :: s).dropWhile py.caseIgnorable).head?.any py.cased = false := by
  obtain ⟨-, hcased, hign⟩ := hpy.space c hc
  have hkeep : ¬ py.caseIgnorable c = true := by
    rw [hign]
    exact Bool.false_ne_true
  rw [List.dropWhile_cons_of_neg hkeep, List.head?_cons, Option.any_some, hcased]

/-- White space, or nothing, follows: the letters before do not look beyond it. -/
theorem any_cased_append {y : Str} (hy : ∀ c ∈ y.head?, py.space c = true) : ∀ (x : Str),
    ((x ++ y).dropWhile py.caseIgnorable).head?.any py.cased
      = (x.dropWhile py.caseIgnorable).head?.any py.cased
  | [] => by
    cases y with
    | nil => rfl
    | cons c y => exact any_cased_of_space hpy (hy c rfl) y
  | c :: x => by
    by_cases hign : py.caseIgnorable c = true
    · rw [List.cons_append, List.dropWhile_cons_of_pos hign, List.dropWhile_cons_of_pos hign,
        any_cased_append hy x]
    · rw [List.cons_append, List.dropWhile_cons_of_neg hign, List.dropWhile_cons_of_neg hign]
      rfl

theorem lowerFrom_append {y : Str} (hy : ∀ c ∈ y.head?, py.space c = true) : ∀ (x b : Str),
    lowerFrom py b (x ++ y) = lowerFrom py b x ++ lowerFrom py (x.reverse ++ b) y
  | [], _ => rfl
  | c :: x, b => by
    have hletter : letter py b c (x ++ y) = letter py b c x := by
      unfold letter finalSigma
      rw [any_cased_append hpy hy]
    rw [List.cons_append, lowerFrom_cons, lowerFrom_cons, hletter, lowerFrom_append hy x (c :: b),
      List.append_assoc, List.reverse_cons, List.append_assoc, List.singleton_append]

omit hpy in
/-- What stands before counts by its nearest cased character. -/
theorem lowerFrom_congr {b b' : Str} (h : (b.dropWhile py.caseIgnorable).head?.any py.cased
    = (b'.dropWhile py.caseIgnorable).head?.any py.cased) : ∀ (s : Str),
    lowerFrom py b s = lowerFrom py b' s
  | [] => rfl
  | c :: s => by
    have hletter : letter py b c s = letter py b' c s := by
      unfold letter finalSigma
      rw [h]
    have hcons : ((c :: b).dropWhile py.caseIgnorable).head?.any py.cased
        = ((c :: b').dropWhile py.caseIgnorable).head?.any py.cased := by
      by_cases hign : py.caseIgnorable c = true
      · rw [List.dropWhile_cons_of_pos hign, List.dropWhile_cons_of_pos hign, h]
      · rw [List.dropWhile_cons_of_neg hign, List.dropWhile_cons_of_neg hign]
        rfl
    rw [lowerFrom_cons, lowerFrom_cons, hletter, lowerFrom_congr hcons s]

theorem lowerFrom_space {c : Char} (hc : py.space c = true) (b s : Str) :
    lowerFrom py b (c :: s) = c :: lower py s := by
  have hcongr : lowerFrom py (c :: b) s = lower py s :=
    lowerFrom_congr (any_cased_of_space hpy hc b) s
  rw [lowerFrom_cons, letter_space hpy hc, hcongr]
  rfl

theorem lower_cons_space {c : Char} (hc : py.space c = true) (s : Str) :
    lower py (c :: s) = c :: lower py s :=
  lowerFrom_space hpy hc [] s

theorem lower_append_of_space {y : Str} (hy : ∀ c ∈ y.head?, py.space c = true) (x : Str) :
    lower py (x ++ y) = lower py x ++ lower py y := by
  unfold lower
  rw [lowerFrom_append hpy hy]
  cases y with
  | nil => rfl
  | cons c y => rw [lowerFrom_space hpy (hy c rfl), lowerFrom_space hpy (hy c rfl)]

theorem head?_lower_space {s : Str} (hs : ∀ c ∈ s.head?, py.space c = true) :
    ∀ c ∈ (lower py s).head?, py.space c = true := by
  cases s with
  | nil => exact hs
  | cons d s =>
    have hd := hs d rfl
    rw [lower_cons_space hpy hd, List.head?_cons]
    exact fun c hc => Option.some.inj hc ▸ hd

theorem lower_spaces_append : ∀ {w : Str}, (∀ c ∈ w, py.space c = true) → ∀ (s : Str),
    lower py (w ++ s) = w ++ lower py s
  | [], _, _ => rfl
  | c :: w, hw, s => by
    have hrest := lower_spaces_append (fun d hd => hw d (List.mem_cons_of_mem c hd)) s
    rw [List.cons_append, List.cons_append, lower_cons_space hpy (hw c List.mem_cons_self), hrest]

theorem getLast?_lowerFrom : ∀ {s b : Str}, (∀ c ∈ s.getLast?, ¬ py.space c = true) →
    ∀ d ∈ (lowerFrom py b s).getLast?, ¬ py.space d = true
  | [], _, _ => fun d hd => absurd hd (by simp [lowerFrom])
  | [c], b, h => fun d hd => by
    have hone : lowerFrom py b [c] = letter py b c [] := List.append_nil _
    rw [hone] at hd
    exact (letter_word hpy (h c rfl) b []).2 d (List.mem_of_getLast? hd)
  | c :: e :: s, b, h => fun d hd => by
    rw [lowerFrom_cons, List.getLast?_append] at hd
    rcases hrest : (lowerFrom py (c :: b) (e :: s)).getLast? with _ | d'
    · -- the lower case of a text that does not end in white space is not empty
      obtain ⟨hnil, -⟩ : letter py (c :: b) e s = [] ∧ lowerFrom py (e :: c :: b) s = [] :=
        List.append_eq_nil_iff.1 (List.getLast?_eq_none_iff.1 hrest)
      by_cases hsp : py.space e = true
      · rw [letter_space hpy hsp] at hnil
        cases hnil
      · exact absurd hnil (letter_word hpy hsp _ _).1
    · rw [hrest] at hd
      cases hd
      exact getLast?_lowerFrom (s := e :: s) h d hrest

/-- Stripping a text and taking its lower case can change places. -/
theorem strip_lower (s : Str) : strip py (lower py s) = lower py (strip py s) := by
  obtain ⟨w, w', hw, hw', hs⟩ := List.exists_trim py.space s
  have hz := List.trimmed_trim py.space s
  have hw'head : ∀ c ∈ w'.head?, py.space c = true := fun c hc => hw' c (List.mem_of_mem_head? hc)
  have hlower' : lower py w' = w' := by
    have happend := lower_spaces_append hpy hw' []
    rwa [List.append_nil, show lower py [] = [] from rfl, List.append_nil] at happend
  have hlower : lower py s = w ++ (lower py (strip py s) ++ w') := by
    conv_lhs => rw [hs]
    rw [lower_spaces_append hpy hw, lower_append_of_space hpy hw'head, hlower']
    rfl
  rw [hlower, strip_eq_trim, List.trim_of_trimmed hw hw']
  refine ⟨?_, getLast?_lowerFrom hpy hz.2⟩
  rcases hstrip : strip py s with _ | ⟨c, t⟩
  · exact fun d hd => absurd hd (by simp [lower, lowerFrom])
  · have hc : ¬ py.space c = true := hz.1 c (by rw [← strip_eq_trim, hstrip]; rfl)
    obtain ⟨hne, hword⟩ := letter_word hpy hc [] t
    obtain ⟨d', l, hl⟩ := List.exists_cons_of_ne_nil hne
    intro d hd
    have hhead : lower py (c :: t) = d' :: (l ++ lowerFrom py [c] t) := by
      unfold lower
      rw [lowerFrom_cons, hl, List.cons_append]
    rw [hhead] at hd
    cases hd
    refine hword d' ?_
    rw [hl]
    exact List.mem_cons_self

/-- White space becomes a blank. -/
def collapse (py : Python) (s : Str) : Str := sub (plus true py.space) [' '] s

theorem normalized_eq (s : Str) :
    normalized py s = collapse py (strip py (lower py (dropMarks py s))) := by
  rw [strip_lower hpy]
  rfl

omit hpy in
theorem normalized_congr {s t : Str}
    (h : strip py (dropMarks py s) = strip py (dropMarks py t)) :
    normalized py s = normalized py t := by
  unfold normalized
  rw [h]

omit hpy in
/-- What follows after white space is collapsed for itself. -/
theorem collapse_append {x : Str} (hx : ∀ c ∈ x.head?, py.space c = true) (k : Str) :
    collapse py (strip py (k ++ x)) =
      if strip py x = [] then collapse py (strip py k)
      else if strip py k = [] then collapse py (strip py x)
      else collapse py (strip py k) ++ ' ' :: collapse py (strip py x) := by
  obtain ⟨w, w', hw, hw', hxs⟩ := List.exists_trim py.space x
  obtain ⟨v, v', hv, hv', hks⟩ := List.exists_trim py.space k
  obtain ⟨hzhead, hzlast⟩ := List.trimmed_trim py.space x
  obtain ⟨hkhead, hklast⟩ := List.trimmed_trim py.space k
  rw [← strip_eq_trim] at hxs hzhead hzlast hks hkhead hklast
  by_cases hz : strip py x = []
  · have hall : ∀ c ∈ x, py.space c = true := fun c hc => by
      rw [hxs, hz, List.nil_append] at hc
      exact (List.mem_append.1 hc).elim (hw c) (hw' c)
    rw [if_pos hz, strip_eq_trim, List.trim_append_right hall]
    rfl
  by_cases hk : strip py k = []
  · have hall : ∀ c ∈ k, py.space c = true := fun c hc => by
      rw [hks, hk, List.nil_append] at hc
      exact (List.mem_append.1 hc).elim (hv c) (hv' c)
    rw [if_neg hz, if_pos hk, strip_eq_trim, List.trim_append_left hall]
    rfl
  · -- white space parts the two, since the second begins with it
    have hne : w ≠ [] := by
      rintro rfl
      obtain ⟨c, t, hct⟩ := List.exists_cons_of_ne_nil hz
      have hc : ¬ py.space c = true := hzhead c (by rw [hct]; rfl)
      rw [List.nil_append, hct, List.cons_append] at hxs
      exact hc (hx c (by rw [hxs]; rfl))
    have hmid : ∀ c ∈ v' ++ w, py.space c = true := fun c hc =>
      (List.mem_append.1 hc).elim (hv' c) (hw c)
    have hparts : k ++ x
        = v ++ ((strip py k ++ ((v' ++ w) ++ strip py x)) ++ w') := by
      conv_lhs => rw [hks, hxs]
      simp only [List.append_assoc]
    have htrimmed : List.Trimmed py.space (strip py k ++ ((v' ++ w) ++ strip py x)) := by
      constructor
      · intro c hc
        obtain ⟨d, t, hdt⟩ := List.exists_cons_of_ne_nil hk
        rw [hdt] at hc hkhead
        cases hc
        exact hkhead c rfl
      · intro c hc
        rw [← List.append_assoc, List.getLast?_append_of_ne_nil _ hz] at hc
        exact hzlast c hc
    unfold collapse
    rw [if_neg hz, if_neg hk, strip_eq_trim (k ++ x), hparts,
      List.trim_of_trimmed hv hw' htrimmed, sub_plus_append_of_getLast? _ _ hklast,
      sub_plus_append (by simp [hne]) hmid _ hzhead, List.singleton_append]

end Words

section Steady

variable (hpy : Documented py)

include hpy

theorem kept_of_sigma {c : Char} (hc : c ∈ ['σ', 'ς']) : kept py c = kept py 'Σ' := by
  obtain ⟨hword, hspace, -⟩ := hpy.sigma.2 c hc
  have hplain : ∀ c ∈ ['σ', 'ς', 'Σ'], decide (c = '`') = false ∧ decide (c = '-') = false :=
    List.all_iff_forall_prop.1 (by decide)
  have hc' : c ∈ ['σ', 'ς', 'Σ'] := by
    rcases List.mem_cons.1 hc with rfl | hc
    · simp
    · rw [List.mem_singleton.1 hc]
      simp
  unfold kept
  rw [hword, hspace, hpy.sigma.1, (hplain c hc').1, (hplain c hc').2, (hplain 'Σ' (by simp)).1,
    (hplain 'Σ' (by simp)).2]

theorem dropMarks_letter {c : Char} {b a : Str} (h : c ≠ 'Σ' → Steady py c)
    (hsigma : c = 'Σ' → finalSigma py b a = finalSigma py (dropMarks py b) (dropMarks py a)) :
    (dropMarks py (letter py b c a)).flatMap py.lowerChar
      = if kept py c then letter py (dropMarks py b) c (dropMarks py a) else [] := by
  by_cases hc : c = 'Σ'
  · subst hc
    obtain ⟨d, hd, hmem⟩ : ∃ d, letter py b 'Σ' a = [d] ∧ d ∈ ['σ', 'ς'] :=
      ⟨_, letter_sigma b a, by split_ifs <;> simp⟩
    have hsame : letter py (dropMarks py b) 'Σ' (dropMarks py a) = [d] := by
      rw [← hd, letter_sigma, letter_sigma, hsigma rfl]
    rw [hsame, hd, dropMarks_eq_filter, List.filter_singleton, kept_of_sigma hpy hmem]
    cases kept py 'Σ'
    · rfl
    · simp [(hpy.sigma.2 d hmem).2.2]
  · rw [letter_of_ne hc, letter_of_ne hc]
    exact h hc

omit hpy in
theorem dropMarks_cons (c : Char) (s : Str) :
    dropMarks py (c :: s) = if kept py c then c :: dropMarks py s else dropMarks py s := by
  rw [dropMarks_eq_filter, dropMarks_eq_filter, List.filter_cons]

/-- Dropping the marks and taking the lower case can change places where all is steady. -/
theorem flatMap_lowerFrom : ∀ {s b : Str}, (∀ c ∈ s, c ≠ 'Σ' → Steady py c) →
    (∀ x a, s = x ++ 'Σ' :: a → finalSigma py (x.reverse ++ b) a
      = finalSigma py (dropMarks py (x.reverse ++ b)) (dropMarks py a)) →
    (dropMarks py (lowerFrom py b s)).flatMap py.lowerChar
      = lowerFrom py (dropMarks py b) (dropMarks py s)
  | [], _, _, _ => rfl
  | c :: s, b, h, hsigma => by
    have ih := flatMap_lowerFrom (b := c :: b) (fun d hd => h d (List.mem_cons_of_mem c hd))
      fun x a hs => by simpa using hsigma (c :: x) a (by rw [hs]; rfl)
    have hletter := dropMarks_letter hpy (b := b) (a := s) (h c List.mem_cons_self) fun hc => by
      simpa using hsigma [] s (by rw [hc]; rfl)
    rw [lowerFrom_cons, dropMarks_append, List.flatMap_append, ih, hletter, dropMarks_cons c s,
      dropMarks_cons c b]
    split_ifs
    · rw [lowerFrom_cons]
    · rw [List.nil_append]

theorem lower_dropMarks_lower {s : Str} (h : ∀ c ∈ s, c ≠ 'Σ' → Steady py c)
    (hsigma : SigmaSteady py s) :
    lower py (dropMarks py (lower py s)) = lower py (dropMarks py s) := by
  have hnot : 'Σ' ∉ dropMarks py (lower py s) := fun hmem =>
    sigma_not_mem_lower s (dropMarks_subset _ hmem)
  refine (lowerFrom_of_not_mem hnot).trans (flatMap_lowerFrom hpy h fun x a hs => ?_)
  have hreverse : dropMarks py x.reverse = (dropMarks py x).reverse := by
    rw [dropMarks_eq_filter, dropMarks_eq_filter, List.filter_reverse]
  rw [List.append_nil, hsigma x a hs, hreverse]

end Steady

end UpdateChangelog

end BananaWrt
