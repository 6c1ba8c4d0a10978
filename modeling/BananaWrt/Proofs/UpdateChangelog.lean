import BananaWrt.Proofs.ChangelogText
import Mathlib.Data.List.Chain

/-!
# A second update changes nothing

The signature of a commit drops the marks of the message and takes its lower case, the bullet takes
the lower case and is read with the marks dropped: behind the emoji that is the same where the
characters are steady (`Readable.normalized_eq`), so the signature is read back from the bullet
(`lineSignature_bullet`). The bullets and those that were there before are lines of the file after
the update, so a second update finds every commit in it (`updateChangelog_idempotent`).
-/

namespace BananaWrt

namespace UpdateChangelog

open Regex Regex.Re

variable {py : Python}

/-- The text goes on with ` by @` and a word. -/
def Mentions (py : Python) (s : Str) : Prop :=
  ∃ c t, s = ' ' :: 'b' :: 'y' :: ' ' :: '@' :: c :: t ∧ py.word c = true

theorem mentions_of_found {s x y : Str} (h : found (seq (lit " by @") (one py.word)) s = false)
    (hs : s = x ++ y) : ¬ Mentions py y := by
  rintro ⟨c, t, rfl, hc⟩
  have hnone := search_eq_none_iff.1 (Option.isSome_eq_false_iff.1 h |> Option.isNone_iff_eq_none.1)
    x _ hs
  rw [run, lit, run_lit, if_pos ⟨c :: t, rfl⟩] at hnone
  simp [run, hc] at hnone

/-- ` by @` has no part in common with itself, so what follows does not complete it. -/
theorem not_mentions_append {x t : Str} (hx : x ≠ []) (h : ¬ Mentions py x) :
    ¬ Mentions py (x ++ ' ' :: 'b' :: 'y' :: ' ' :: '@' :: t) := by
  rintro ⟨c, t', heq, hc⟩
  match x, hx with
  | [_], _ => simp at heq
  | [_, _], _ => simp at heq
  | [_, _, _], _ => simp at heq
  | [_, _, _, _], _ => simp at heq
  | [_, _, _, _, _], _ =>
    simp only [List.cons_append, List.nil_append, List.cons.injEq] at heq
    obtain ⟨-, -, -, -, -, rfl, -⟩ := heq
    exact absurd (word_blank.symm.trans hc) Bool.false_ne_true
  | a₁ :: a₂ :: a₃ :: a₄ :: a₅ :: a₆ :: x, _ =>
    simp only [List.cons_append, List.cons.injEq] at heq
    obtain ⟨rfl, rfl, rfl, rfl, rfl, rfl, -⟩ := heq
    exact h ⟨_, x, rfl, hc⟩

/-- ` by @(\w+)` -/
def authorPattern (py : Python) : Re Char := seq (lit " by @") (group (plus true py.word))

theorem run_authorPattern_of_not_mentions {m : Place Char} (h : ¬ Mentions py m.after) :
    run (authorPattern py) m = [] := by
  unfold authorPattern lit
  rw [run, run_lit]
  split_ifs with hpre
  · obtain ⟨t, ht⟩ := hpre
    have hafter : m.after = ' ' :: 'b' :: 'y' :: ' ' :: '@' :: t := ht.symm
    cases t with
    | nil => simp [hafter, plus, run]
    | cons c t =>
      have hc : ¬ py.word c = true := fun hc => h ⟨c, t, hafter, hc⟩
      simp [hafter, plus, run, hc]
  · rfl

theorem head?_run_authorPattern {b : Str} {g : List Str} {author : Str} (hne : author ≠ [])
    (hword : ∀ c ∈ author, py.word c = true) :
    ∃ b', (run (authorPattern py) ⟨b, " by @".toList ++ (author ++ "  ".toList), g⟩).head?
      = some ⟨b', "  ".toList, author :: g⟩ := by
  have hblank : ∀ c ∈ "  ".toList.head?, ¬ py.word c = true := by
    intro c hc
    cases (show some ' ' = some c from hc)
    rw [word_blank]
    exact Bool.false_ne_true
  unfold authorPattern lit
  rw [run, run_lit, if_pos (List.prefix_append _ _), List.flatMap_cons, List.flatMap_nil,
    List.append_nil, List.drop_left, head?_run_group_plus hne hword hblank]
  exact ⟨_, rfl⟩

/-- A bullet is read back in its two parts. -/
theorem first_bulletPattern {text author : Str} (htext : text ≠ []) (hline : '\n' ∉ text)
    (hmention : ∀ x y, text = x ++ y → ¬ Mentions py y) (hauthor : author ≠ [])
    (hword : ∀ c ∈ author, py.word c = true) :
    ∃ b, first (bulletPattern py) (bullet (text ++ byAuthor author))
      = some ⟨b, "  ".toList, [author, text]⟩ := by
  obtain ⟨c, t, rfl⟩ := List.exists_cons_of_ne_nil htext
  have hdot : ∀ d ∈ c :: t, dot d = true := fun d hd => by
    simpa [dot] using fun hn : d = '\n' => hline (hn ▸ hd)
  have hbullet : bullet (c :: t ++ byAuthor author)
      = "- ".toList ++ (c :: (t ++ (" by @".toList ++ (author ++ "  ".toList)))) := by
    simp [bullet, byAuthor]
  have htake := take_length_sub (c :: t) (" by @".toList ++ (author ++ "  ".toList))
  obtain ⟨b, hb⟩ := head?_run_authorPattern (b := t.reverse ++ c :: ("- ".toList.reverse ++ []))
    (g := [c :: t]) hauthor hword
  rw [← htake] at hb
  refine ⟨b, ?_⟩
  unfold first bulletPattern lit
  rw [hbullet, run, run_lit, if_pos (List.prefix_append _ _), List.flatMap_cons, List.flatMap_nil,
    List.append_nil, List.drop_left, run, run_group_plus_lazy (hdot c List.mem_cons_self),
    List.flatMap_map]
  refine (head?_flatMap_spans (fun d hd => hdot d (List.mem_cons_of_mem c hd)) ?_ ?_).trans ?_
  · intro hnil
    exact Option.some_ne_none _ (hb.symm.trans (congrArg List.head? hnil))
  · intro x₁ x₂ ht hx₂
    refine run_authorPattern_of_not_mentions ?_
    exact not_mentions_append hx₂ (hmention (c :: x₁) x₂ (by rw [ht]; rfl))
  · exact hb.trans (by rw [htake])

theorem safeAuthor_ne_nil (author : Str) : safeAuthor author ≠ [] := by
  unfold safeAuthor
  split_ifs with h
  · exact h.1
  · simp

theorem not_mem_getEmojiForCommit {d : Char} (hd : d ∈ ['\n', '\r', 'R']) (m : Str) :
    d ∉ getEmojiForCommit py m := by
  have hdefault : ∀ c ∈ ['\n', '\r', 'R'], c ∉ "🛠️".toList := List.all_iff_forall_prop.1 (by decide)
  have hall : ∀ k ∈ emojiMap, (['\n', '\r', 'R'].all fun c => c ∉ k.2.toList) = true := by decide
  have hmap : ∀ k ∈ emojiMap, ∀ c ∈ ['\n', '\r', 'R'], c ∉ k.2.toList := fun k hk =>
    List.all_iff_forall_prop.1 (hall k hk)
  unfold getEmojiForCommit
  split_ifs
  · exact hdefault d hd
  · split
    · rename_i e he
      have hlist := List.mem_of_mem_head? (Option.filter_eq_some_iff.1 he).1
      exact py.plain m e hlist d hd
    · simp only
      split
      · rename_i k hk
        exact hmap k (List.mem_of_find?_eq_some hk) d hd
      · exact hdefault d hd

theorem strip_firstLine (message : Str) : strip py (firstLine py message) = firstLine py message :=
  List.trim_trim py.space _

/-- The text of a bullet before its author, if no package is set in back-ticks. -/
def plainText (py : Python) (message : Str) : Str :=
  getEmojiForCommit py message ++ ' ' :: lower py (remainder py message)

theorem leadingEmoji_spec (hpy : Documented py) {m : Str} (hne : m ≠ []) {e : EmojiMatch}
    (he : leadingEmoji py m = some e) :
    getEmojiForCommit py m = e.emoji ∧ m = e.emoji ++ m.drop e.matchEnd := by
  obtain ⟨hhead, hstart⟩ := Option.filter_eq_some_iff.1 he
  obtain ⟨-, hdoc⟩ := hpy.emoji m e (List.mem_of_mem_head? hhead)
  refine ⟨?_, hdoc (by simpa using hstart)⟩
  unfold getEmojiForCommit
  rw [if_neg hne, he]

theorem blank_not_mem_getEmojiForCommit (hpy : Documented py) (m : Str) :
    ' ' ∉ getEmojiForCommit py m := by
  have hmap : ∀ k ∈ emojiMap, ' ' ∉ k.2.toList := by decide
  unfold getEmojiForCommit
  split_ifs
  · decide
  · split
    · rename_i e he
      exact (hpy.emoji m e (List.mem_of_mem_head? (Option.filter_eq_some_iff.1 he).1)).1
    · simp only
      split
      · rename_i k hk
        exact hmap k (List.mem_of_find?_eq_some hk)
      · decide

/-- Without a dash behind them the third prefix is the colons and the white space. -/
theorem dropWhile_of_no_dash : ∀ {s : Str}, (s.dropWhile (colonOrSpace py)).head? ≠ some '-' →
    s.dropWhile (fun c => c = ':' || c = '-' || py.space c) = s.dropWhile (colonOrSpace py)
  | [], _ => rfl
  | c :: s, h => by
    by_cases hc : colonOrSpace py c = true
    · have hc' : (decide (c = ':') || decide (c = '-') || py.space c) = true := by
        unfold colonOrSpace at hc
        rcases Bool.or_eq_true_iff.1 hc with hc | hc <;> simp [hc]
      rw [List.dropWhile_cons_of_pos hc] at h ⊢
      exact (List.dropWhile_cons_of_pos
        (p := fun c => decide (c = ':') || decide (c = '-') || py.space c) hc').trans
        (dropWhile_of_no_dash h)
    · rw [List.dropWhile_cons_of_neg hc] at h ⊢
      refine List.dropWhile_cons_of_neg ?_
      have hdash : ¬ c = '-' := fun heq => h (by rw [heq]; rfl)
      simpa [colonOrSpace, hdash] using hc

namespace Readable

variable {m author : Str} (h : Readable py m author)

include h

theorem shown_eq (hm : strip py m = m) : shown py m = remainder py m := by
  unfold shown remainder
  by_cases hnil : unprefixed py m = []
  · rw [if_pos hnil, if_pos hnil]
  rw [if_neg hnil, if_neg hnil]
  obtain ⟨hfound, hdash⟩ := h.bare.resolve_left hnil
  have hstrip : strip py (afterEmoji py m) = afterEmoji py m := by
    unfold afterEmoji
    split
    · exact List.trim_trim py.space _
    · exact hm
  obtain ⟨r₁, r₂, hprefixes⟩ : ∃ r₁ r₂, prefixesToRemove py
      = [r₁, r₂, seq start (plus true fun c => c = ':' || c = '-' || py.space c)] := ⟨_, _, rfl⟩
  unfold unprefixed
  rw [hprefixes] at hfound ⊢
  have h₁ := sub_eq_self (hfound r₁ (by simp)) []
  have h₂ := sub_eq_self (hfound r₂ (by simp)) []
  simp only [List.foldl_cons, List.foldl_nil]
  rw [h₁, hstrip, h₂, hstrip, sub_start_plus, dropWhile_of_no_dash hdash]

theorem quotePackage_eq :
    quotePackage py m (lower py (remainder py m)) = lower py (remainder py m) := by
  unfold quotePackage
  rcases h.package with hnone | hquoted
  · rw [hnone]
  · have hmem : '`' ∈ lower py (remainder py m) :=
      mem_lowerFrom_of_mem (by decide) ((py.mark '`' (by simp) '`').2 rfl) hquoted
    split
    · rfl
    · rw [if_pos (.inr hmem)]

omit h in
/-- What is left is normalized as what follows the emoji. -/
theorem strip_dropMarks_remainder (hpy : Documented py) (hne : unprefixed py m ≠ []) :
    strip py (dropMarks py (remainder py m)) = strip py (dropMarks py (afterEmoji py m)) := by
  have hcolons := strip_dropMarks_append hpy
    (w := (afterEmoji py m).takeWhile (colonOrSpace py)) (fun c => List.mem_takeWhile_imp)
    (List.forall_mem_nil _) ((afterEmoji py m).dropWhile (colonOrSpace py))
  rw [List.append_nil, List.takeWhile_append_dropWhile] at hcolons
  unfold remainder
  rw [if_neg hne, strip_dropMarks_strip hpy, hcolons]

/-- The emoji of the bullet does not count. -/
theorem normalized_of_dropMarks_eq_nil (hpy : Documented py)
    (hemoji : dropMarks py (getEmojiForCommit py m) = []) :
    normalized py (plainText py m) = normalized py m := by
  have hcolon : ∀ c ∈ [' '], colonOrSpace py c = true := fun c hc => by
    rw [List.mem_singleton.1 hc]
    simp [colonOrSpace, space_blank]
  have hblank := strip_dropMarks_append hpy hcolon (List.forall_mem_nil _)
    (lower py (remainder py m))
  rw [List.append_nil, List.singleton_append] at hblank
  have htext : normalized py (plainText py m) = normalized py (lower py (remainder py m)) := by
    refine normalized_congr ?_
    unfold plainText
    rw [dropMarks_append, hemoji, List.nil_append, hblank]
  have hlower : normalized py (lower py (remainder py m)) = normalized py (remainder py m) := by
    rw [UpdateChangelog.normalized_eq hpy, UpdateChangelog.normalized_eq hpy,
      lower_dropMarks_lower hpy h.steady h.sigma]
  rw [htext, hlower]
  by_cases hnil : unprefixed py m = []
  · unfold remainder
    rw [if_pos hnil]
  · refine normalized_congr ((strip_dropMarks_remainder hpy hnil).trans ?_)
    unfold afterEmoji
    rcases he : leadingEmoji py m with _ | e
    · rfl
    · obtain ⟨hget, hsplit⟩ := leadingEmoji_spec hpy h.nonempty he
      dsimp only
      rw [strip_dropMarks_strip hpy]
      conv_rhs => rw [hsplit, dropMarks_append, ← hget, hemoji, List.nil_append]

/-- What follows the emoji is the same in the bullet and in the message, but for white space. -/
theorem strip_lower_rest (hpy : Documented py) (hne : unprefixed py m ≠ []) {e : EmojiMatch}
    (he : leadingEmoji py m = some e) :
    strip py (lower py (' ' :: dropMarks py (lower py (remainder py m))))
      = strip py (lower py (dropMarks py (m.drop e.matchEnd))) := by
  have hone : ∀ c ∈ [' '], py.space c = true := fun c hc => by
    rw [List.mem_singleton.1 hc]
    exact space_blank
  have hafter : afterEmoji py m = strip py (m.drop e.matchEnd) := by
    unfold afterEmoji
    rw [he]
  have hcons : lower py (' ' :: dropMarks py (lower py (remainder py m)))
      = [' '] ++ lower py (dropMarks py (remainder py m)) := by
    rw [lower_cons_space hpy space_blank, lower_dropMarks_lower hpy h.steady h.sigma,
      List.singleton_append]
  rw [hcons, strip_eq_trim, List.trim_append_left hone, ← strip_eq_trim, strip_lower hpy,
    strip_dropMarks_remainder hpy hne, hafter, strip_dropMarks_strip hpy, strip_lower hpy]

/-- The emoji is set off by white space in the message as it is in the bullet. -/
theorem normalized_of_setOff (hpy : Documented py) (hne : unprefixed py m ≠ []) {e : EmojiMatch}
    (he : leadingEmoji py m = some e)
    (hset : ∀ c ∈ (dropMarks py (m.drop e.matchEnd)).head?, py.space c = true) :
    normalized py (plainText py m) = normalized py m := by
  obtain ⟨hget, hsplit⟩ := leadingEmoji_spec hpy h.nonempty he
  have hkept : kept py ' ' = true := by simp [kept, space_blank]
  have hfirst : ∀ c ∈ (' ' :: dropMarks py (lower py (remainder py m))).head?,
      py.space c = true := by
    rw [List.head?_cons]
    exact fun c hc => Option.some.inj hc ▸ space_blank
  have htext : dropMarks py (plainText py m) = dropMarks py (getEmojiForCommit py m)
      ++ ' ' :: dropMarks py (lower py (remainder py m)) := by
    unfold plainText
    rw [dropMarks_append, dropMarks_cons, if_pos hkept]
  have hmessage : dropMarks py m
      = dropMarks py (getEmojiForCommit py m) ++ dropMarks py (m.drop e.matchEnd) := by
    conv_lhs => rw [hsplit, dropMarks_append, ← hget]
  rw [UpdateChangelog.normalized_eq hpy, UpdateChangelog.normalized_eq hpy, htext, hmessage,
    lower_append_of_space hpy hfirst, lower_append_of_space hpy hset,
    collapse_append (head?_lower_space hpy hfirst), collapse_append (head?_lower_space hpy hset),
    h.strip_lower_rest hpy hne he]

/-- The text of the bullet is normalized as the message is. -/
theorem normalized_eq (hpy : Documented py) :
    normalized py (plainText py m) = normalized py m := by
  rcases h.emoji with hemoji | ⟨hne, e, he, hset⟩
  · exact h.normalized_of_dropMarks_eq_nil hpy hemoji
  · exact h.normalized_of_setOff hpy hne he hset

omit h in
/-- A line end of either kind or a capital is in none of the parts of the bullet. -/
theorem not_mem_text {d : Char} (hd : d ∈ ['\n', '\r', 'R'])
    (hlower : ∀ c ∈ remainder py m, d ∉ py.lowerChar c) : d ∉ plainText py m := by
  have hother : ∀ d ∈ ['\n', '\r', 'R'], d ≠ ' ' ∧ d ∉ ['σ', 'ς'] :=
    List.all_iff_forall_prop.1 (by decide)
  intro hmem
  rcases List.mem_append.1 hmem with hmem | hmem
  · exact not_mem_getEmojiForCommit hd m hmem
  · rcases List.mem_cons.1 hmem with heq | hmem
    · exact (hother d hd).1 heq
    · rcases mem_lowerFrom hmem with hsigma | ⟨c, hc, hcd⟩
      · exact (hother d hd).2 hsigma
      · exact hlower c hc hcd

end Readable

theorem remainder_subset (m : Str) : remainder py m ⊆ m := by
  unfold remainder
  split_ifs
  · exact List.Subset.refl m
  · have hafter : afterEmoji py m ⊆ m := by
      unfold afterEmoji
      split
      · exact fun c hc => List.drop_subset _ m (strip_subset _ hc)
      · exact List.Subset.refl m
    exact fun c hc => hafter ((List.dropWhile_sublist _).subset (strip_subset _ hc))

/-- A mention begins with a blank, so it begins after the emoji. -/
theorem not_mentions_text (hpy : Documented py) {m x y : Str}
    (h : found (seq (lit " by @") (one py.word)) (' ' :: lower py (remainder py m)) = false)
    (htext : plainText py m = x ++ y) : ¬ Mentions py y := by
  rcases List.append_eq_append_iff.1 htext with ⟨z, -, hz⟩ | ⟨z, hz, rfl⟩
  · exact mentions_of_found h hz
  · cases z with
    | nil => exact mentions_of_found h (List.nil_append _).symm
    | cons d z =>
      rintro ⟨c, t, hct, -⟩
      have hd : d = ' ' := (List.cons.inj hct).1
      refine blank_not_mem_getEmojiForCommit hpy m ?_
      rw [hz, ← hd]
      exact List.mem_append_right x List.mem_cons_self

theorem formatted_eq {c : Commit} (h : c.Recoverable py) :
    c.formatted py
      = plainText py (firstLine py c.message) ++ byAuthor (safeAuthor c.authorName) := by
  have hmessage : c.message ≠ [] := by
    intro hnil
    refine h.nonempty ?_
    rw [hnil]
    rfl
  unfold Commit.formatted formatCommitMessage plainText
  simp only [if_neg hmessage, if_neg h.nonempty, h.shown_eq (strip_firstLine _), h.quotePackage_eq]

theorem newline_not_mem_firstLine (message : Str) : '\n' ∉ firstLine py message := by
  intro hmem
  obtain ⟨l, ls, hl⟩ := List.exists_cons_of_ne_nil (List.splitOn_ne_nil '\n' message)
  have hline : l ∈ message.splitOn '\n' := by
    rw [hl]
    exact List.mem_cons_self
  unfold firstLine at hmem
  rw [hl] at hmem
  exact (List.mem_splitOn hline).1 (strip_subset _ hmem)

theorem isChain_of_not_mem {s : Str} (h : ' ' ∉ s ∨ 'R' ∉ s) :
    s.IsChain fun a b => ¬ (a = ' ' ∧ b = 'R') := by
  refine (List.pairwise_of_forall_mem_list ?_).isChain
  rintro a ha b hb ⟨rfl, rfl⟩
  exact h.elim (fun hn => hn ha) fun hn => hn hb

section Bullet

variable {c : Commit} (h : c.Recoverable py)

include h

theorem lineEnd_not_mem_text {d : Char} (hd : d ∈ ['\n', '\r']) :
    d ∉ plainText py (firstLine py c.message) := by
  have hmem : ∀ d ∈ ['\n', '\r'], d ∉ remainder py (firstLine py c.message) :=
    forall_lineEnd (fun hn => newline_not_mem_firstLine c.message (remainder_subset _ hn)) h.oneLine
  refine Readable.not_mem_text (List.mem_append_left ['R'] hd) fun e he hed => hmem d hd ?_
  have hde : e = d := (py.mark d (List.mem_append_left ['`'] hd) e).1 hed
  rwa [← hde]

/-- The signature of a commit is read back from its bullet. -/
theorem lineSignature_bullet (hpy : Documented py) :
    lineSignature py (bullet (c.formatted py)) = some (c.signature py) := by
  have hmention : ∀ x y, plainText py (firstLine py c.message) = x ++ y → ¬ Mentions py y :=
    fun x y => not_mentions_text hpy h.mention
  obtain ⟨b, hb⟩ := first_bulletPattern (by simp [plainText])
    (lineEnd_not_mem_text h List.mem_cons_self) hmention (safeAuthor_ne_nil _) h.author
  unfold lineSignature
  rw [formatted_eq h, hb]
  simp only [Commit.signature, createCommitSignature, h.normalized_eq hpy]

theorem lineEnd_not_mem_bullet {d : Char} (hd : d ∈ ['\n', '\r']) :
    d ∉ bullet (c.formatted py) := by
  have hword : py.word d = false := (py.blank d (List.mem_cons_of_mem ' ' hd)).2.1
  have hauthor : d ∉ safeAuthor c.authorName := fun hmem =>
    absurd (hword.symm.trans (h.author d hmem)) Bool.false_ne_true
  have hplain : ∀ d ∈ ['\n', '\r'], d ∉ "- ".toList ∧ d ∉ " by @".toList ∧ d ∉ "  ".toList :=
    List.all_iff_forall_prop.1 (by decide)
  obtain ⟨hdash, hby, hend⟩ := hplain d hd
  have htext := lineEnd_not_mem_text h hd
  rw [formatted_eq h]
  simp only [bullet, byAuthor, List.mem_append, not_or]
  exact ⟨⟨hdash, htext, hby, hauthor⟩, hend⟩

/-- The date of the release begins with a capital after a blank, which no bullet has. -/
theorem found_datePattern_bullet : found datePattern (bullet (c.formatted py)) = false := by
  have htext : 'R' ∉ plainText py (firstLine py c.message) := by
    exact Readable.not_mem_text (by simp) fun e _ => (py.upper.2 e).1
  have hauthor : ' ' ∉ safeAuthor c.authorName := fun hmem =>
    absurd (word_blank.symm.trans (h.author _ hmem)) Bool.false_ne_true
  have hbullet : bullet (c.formatted py)
      = ("- ".toList ++ plainText py (firstLine py c.message) ++ " by @".toList)
        ++ (safeAuthor c.authorName ++ "  ".toList) := by
    rw [formatted_eq h]
    simp only [bullet, byAuthor, List.append_assoc]
  have hchain : (bullet (c.formatted py)).IsChain fun a b => ¬ (a = ' ' ∧ b = 'R') := by
    rw [hbullet]
    refine .append (isChain_of_not_mem (.inr ?_)) (.append (isChain_of_not_mem (.inl hauthor))
      (isChain_of_not_mem (.inr (by decide))) ?_) ?_
    · simp only [List.mem_append, not_or] at htext ⊢
      exact ⟨⟨by decide, htext⟩, by decide⟩
    · intro a _ b hb hab
      cases (show some ' ' = some b from hb)
      exact absurd hab.2 (by decide)
    · intro a ha b _ hab
      rw [List.getLast?_append] at ha
      cases (show some '@' = some a from ha)
      exact absurd hab.1 (by decide)
  refine found_lit (fun hheld => ?_) _
  have hdate := List.IsChain.infix hchain hheld
  exact absurd hdate (by decide)

end Bullet

/-! ## The lines of the file -/

theorem mem_insertAt {i : ℕ} {block lines : List Str} {l : Str} :
    l ∈ insertAt i block lines ↔ l ∈ lines ∨ l ∈ block := by
  unfold insertAt
  conv_rhs => rw [← List.take_append_drop i lines]
  simp only [List.mem_append]
  tauto

theorem mem_mergeCategory {releaseSection l : Str} {name : String} {bullets lines : List Str}
    (h : l ∈ lines ∨ l ∈ bullets) : l ∈ mergeCategory py releaseSection name bullets lines := by
  unfold mergeCategory
  split_ifs with hnil
  · rw [hnil] at h
    exact h.resolve_right List.not_mem_nil
  · simp only
    split
    · refine mem_insertAt.2 (h.imp_right fun hl => ?_)
      exact List.mem_append_left _ (List.mem_append_right _ hl)
    · exact mem_insertAt.2 h

theorem mem_mergeCategories {releaseSection l : Str} : ∀ {categorized : List (String × List Str)}
    {lines : List Str}, (l ∈ lines ∨ ∃ k ∈ categorized, l ∈ k.2) →
      l ∈ categorized.foldl (fun lines k => mergeCategory py releaseSection k.1 k.2 lines) lines
  | [], lines, h => h.resolve_right (by simp)
  | k :: categorized, lines, h => by
    rw [List.foldl_cons]
    refine mem_mergeCategories ?_
    rcases h with hl | ⟨k', hk', hl⟩
    · exact .inl (mem_mergeCategory (.inl hl))
    · rcases List.mem_cons.1 hk' with rfl | hk'
      · exact .inl (mem_mergeCategory (.inr hl))
      · exact .inr ⟨k', hk', hl⟩

theorem mem_newEntry {categorized : List (String × List Str)} {releaseDate l : Str}
    (hline : '\n' ∉ l) (h : ∃ k ∈ categorized, l ∈ k.2) :
    l ∈ (createNewChangelogEntry categorized releaseDate).splitOn '\n' := by
  obtain ⟨k, hk, hl⟩ := h
  refine List.mem_splitOn_intercalate ?_ hline
  refine List.mem_append_left _ (List.mem_append_right _ (List.mem_flatMap.2 ⟨k, hk, ?_⟩))
  rw [if_neg (List.ne_nil_of_mem hl)]
  exact List.mem_append_left _ (List.mem_append_right _ hl)

/-- The lines of the file and the new bullets are lines afterwards. -/
theorem mem_addCommits {rel : Release} {categorized : List (String × List Str)} {content l : Str}
    (hline : '\n' ∉ l) (h : l ∈ content.splitOn '\n' ∨ ∃ k ∈ categorized, l ∈ k.2) :
    l ∈ (addCommits py rel categorized content).splitOn '\n' := by
  unfold addCommits
  simp only
  split_ifs
  · exact List.mem_splitOn_intercalate (mem_mergeCategories h) hline
  · split
    · rw [List.splitOn_append_cons_self]
      exact List.mem_append.2 (h.imp_right (mem_newEntry hline))
    · rcases h with hl | hl
      · exact List.mem_splitOn_intercalate (mem_insertAt.2 (.inl hl)) hline
      · unfold join
        rw [List.splitOn_intercalate_eq_flatMap
          (List.ne_nil_of_mem (mem_insertAt.2 (.inr (List.mem_singleton_self _))))]
        exact List.mem_flatMap.2 ⟨_, mem_insertAt.2 (.inr (List.mem_singleton_self _)),
          mem_newEntry hline hl⟩

/-- What an update of the date makes of a line. -/
def redate : Option Str → Str → Str
  | none, line => line
  | some date, line => sub datePattern (newDateLine date) line

theorem redate_eq_self {line : Str} (h : found datePattern line = false) :
    ∀ formattedDate, redate formattedDate line = line
  | none => rfl
  | some _ => sub_eq_self h _

/-- A line stays, with the date that it tells replaced. -/
theorem mem_updateReleaseDate {formattedDate : Option Str} {content l : Str}
    (h : l ∈ content.splitOn '\n') (hline : '\n' ∉ redate formattedDate l) :
    redate formattedDate l ∈ (updateReleaseDate formattedDate content).splitOn '\n' := by
  unfold updateReleaseDate
  cases formattedDate with
  | none => exact h
  | some date =>
    simp only
    by_cases hany : (content.splitOn '\n').any (found datePattern) = true
    · rw [if_pos hany]
      exact List.mem_splitOn_intercalate (List.mem_map_of_mem h) hline
    have hkept : redate (some date) l = l :=
      redate_eq_self (by simpa using List.any_eq_false.1 (by simpa using hany) l h) _
    rw [if_neg hany, hkept]
    split_ifs with hlast
    · -- the file ends with a newline, so its last line is empty and the new text has one too
      obtain ⟨content, rfl⟩ : ∃ content', content = content' ++ ['\n'] :=
        ⟨_, (List.dropLast_append_getLast? _ hlast).symm⟩
      rw [List.splitOn_append_cons_self] at h
      rw [List.append_assoc, List.append_assoc, List.singleton_append,
        List.splitOn_append_cons_self, List.splitOn_append_cons_self]
      rcases List.mem_append.1 h with hl | hl
      · exact List.mem_append_left _ hl
      · exact List.mem_append_right _ (List.mem_append_right _ hl)
    · rw [List.append_assoc, List.append_assoc, List.singleton_append,
        List.splitOn_append_cons_self]
      exact List.mem_append_left _ h

theorem return_not_mem_readText (s : Str) : '\r' ∉ readText s := by
  fun_induction readText s with
  | case1 => exact List.not_mem_nil
  | case2 s ih => simpa using ih
  | case3 s _ ih => simpa using ih
  | case4 c s _ hc ih => exact List.not_mem_cons_of_ne_of_not_mem (Ne.symm hc) ih

/-- The lines of `s` without a carriage return are lines of `s'`, the first one as the first. -/
def LinesKept (s s' : Str) : Prop :=
  ∀ l ls, s.splitOn '\n' = l :: ls → ∃ l' ls', s'.splitOn '\n' = l' :: ls' ∧
    ('\r' ∉ l → l' = l) ∧ ∀ x ∈ ls, '\r' ∉ x → x ∈ ls'

theorem LinesKept.mem {s s' x : Str} (h : LinesKept s s') (hx : x ∈ s.splitOn '\n')
    (hreturn : '\r' ∉ x) : x ∈ s'.splitOn '\n' := by
  obtain ⟨l, ls, hs⟩ := List.exists_cons_of_ne_nil (List.splitOn_ne_nil '\n' s)
  obtain ⟨l', ls', hs', hfirst, hrest⟩ := h l ls hs
  rw [hs] at hx
  rw [hs']
  rcases List.mem_cons.1 hx with rfl | hx
  · rw [hfirst hreturn]
    exact List.mem_cons_self
  · exact List.mem_cons_of_mem l' (hrest x hx hreturn)

/-- A line end of another kind becomes a newline. -/
theorem LinesKept.newline {s s' : Str} (h : LinesKept s s') {l : Str} {ls : List Str}
    (hl : l = [] ∨ '\r' ∈ l) (hls : ∀ x ∈ ls, x ∈ s.splitOn '\n') :
    ∃ l' ls', ('\n' :: s').splitOn '\n' = l' :: ls' ∧ ('\r' ∉ l → l' = l) ∧
      ∀ x ∈ ls, '\r' ∉ x → x ∈ ls' := by
  refine ⟨[], s'.splitOn '\n', List.splitOn_append_cons_self [] s', fun hr => ?_, fun x hx hr => ?_⟩
  · exact (hl.resolve_right hr).symm
  · exact h.mem (hls x hx) hr

theorem linesKept_readText (s : Str) : LinesKept s (readText s) := by
  fun_induction readText s with
  | case1 =>
    intro l ls hs
    exact ⟨l, ls, hs, fun _ => rfl, fun x hx _ => hx⟩
  | case2 s ih =>
    intro l ls hs
    have hsplit : ('\r' :: '\n' :: s).splitOn '\n' = ['\r'] :: s.splitOn '\n' :=
      List.splitOn_append_cons_self ['\r'] s
    obtain ⟨rfl, rfl⟩ := List.cons.inj (hsplit.symm.trans hs)
    exact ih.newline (.inr (by simp)) fun x hx => hx
  | case3 s _ ih =>
    intro l ls hs
    rw [List.splitOn_cons_eq_if_modifyHead, if_neg (by decide)] at hs
    obtain ⟨l₀, ls₀, hs₀⟩ := List.exists_cons_of_ne_nil (List.splitOn_ne_nil '\n' s)
    rw [hs₀, List.modifyHead_cons] at hs
    obtain ⟨rfl, rfl⟩ := List.cons.inj hs
    refine ih.newline (.inr List.mem_cons_self) fun x hx => ?_
    rw [hs₀]
    exact List.mem_cons_of_mem l₀ hx
  | case4 c s _ hc ih =>
    intro l ls hs
    rw [List.splitOn_cons_eq_if_modifyHead] at hs
    split_ifs at hs with hnewline
    · obtain rfl : c = '\n' := by simpa using hnewline
      obtain ⟨rfl, rfl⟩ := List.cons.inj hs
      exact ih.newline (.inl rfl) fun x hx => hx
    · obtain ⟨l₀, ls₀, hs₀⟩ := List.exists_cons_of_ne_nil (List.splitOn_ne_nil '\n' s)
      rw [hs₀, List.modifyHead_cons] at hs
      obtain ⟨rfl, rfl⟩ := List.cons.inj hs
      obtain ⟨l', ls', hs', hfirst, hrest⟩ := ih l₀ ls₀ hs₀
      refine ⟨c :: l', ls', ?_, fun hr => ?_, hrest⟩
      · rw [List.splitOn_cons_eq_if_modifyHead, if_neg hnewline, hs', List.modifyHead_cons]
      · rw [hfirst fun hmem => hr (List.mem_cons_of_mem c hmem)]

theorem mem_extract {content line signature : Str} (h : line ∈ content.splitOn '\n')
    (hs : lineSignature py line = some signature) :
    signature ∈ extractCommitSignatures py content :=
  List.mem_filterMap.2 ⟨line, h, hs⟩

/-- A line that was there or was added is found by the next update, with the date that it tells
replaced. -/
theorem signature_mem_update {rel : Release} {categorized : List (String × List Str)}
    {content line signature : Str} (hline : '\n' ∉ line)
    (h : line ∈ content.splitOn '\n' ∨ ∃ k ∈ categorized, line ∈ k.2)
    (hend : ∀ d ∈ ['\n', '\r'], d ∉ redate rel.formattedDate line)
    (hs : lineSignature py (redate rel.formattedDate line) = some signature) :
    signature ∈ extractCommitSignatures py
      (readText (updateReleaseDate rel.formattedDate (addCommits py rel categorized content))) := by
  have hadded : line ∈ (addCommits py rel categorized content).splitOn '\n' :=
    mem_addCommits hline h
  have hkept := mem_updateReleaseDate hadded (hend '\n' (by simp))
  exact mem_extract ((linesKept_readText _).mem hkept (hend '\r' (by simp))) hs

theorem mem_getRecentCommits {existing : List Str} {visible : List Commit} {c : Commit} :
    c ∈ getRecentCommits py existing visible ↔
      c ∈ visible ∧ c.listed py ∧ c.signature py ∉ existing := by
  simp [getRecentCommits]

theorem getRecentCommits_append (existing : List Str) (visible visible' : List Commit) :
    getRecentCommits py existing (visible ++ visible')
      = getRecentCommits py existing visible ++ getRecentCommits py existing visible' :=
  List.filter_append _ _

theorem updateChangelog_of_known {rel : Release} {file : Str} (h : added py rel file = []) :
    updateChangelog py rel file = file := by
  unfold added at h
  rw [getRecentCommits_append] at h
  unfold updateChangelog
  simp only
  rw [if_pos h]

/-- What the update makes of a file that does not show all commits. -/
theorem exists_updateChangelog_eq {rel : Release} {file : Str} (h : added py rel file ≠ []) :
    ∃ categorized, updateChangelog py rel file
        = updateReleaseDate rel.formattedDate (addCommits py rel categorized (readText file))
      ∧ ∀ c ∈ added py rel file, ∃ k ∈ categorized, bullet (c.formatted py) ∈ k.2 := by
  unfold added at h ⊢
  unfold updateChangelog
  rw [getRecentCommits_append] at h ⊢
  simp only
  rw [if_neg h]
  refine ⟨_, rfl, fun c hc => ?_⟩
  rcases List.mem_append.1 hc with hmain | hpackages
  · exact ⟨_, List.mem_cons_of_mem _ List.mem_cons_self, List.mem_map.2 ⟨c, hmain, rfl⟩⟩
  · exact ⟨_, List.mem_cons_self, List.mem_map.2 ⟨c, hpackages, rfl⟩⟩

/-- A commit that the file shows already is found by the next update. -/
theorem signature_mem_of_datesApart {rel : Release} {file : Str} {c : Commit}
    {categorized : List (String × List Str)} (hc : c ∈ rel.mainCommits ++ rel.packagesCommits)
    (hlisted : c.listed py) (hold : c.signature py ∈ extractCommitSignatures py (readText file))
    (hdates : ∀ date ∈ rel.formattedDate, DatesApart py rel date file) :
    c.signature py ∈ extractCommitSignatures py
      (readText (updateReleaseDate rel.formattedDate
        (addCommits py rel categorized (readText file)))) := by
  have hlines : ∀ line ∈ (readText file).splitOn '\n', ∀ d ∈ ['\n', '\r'], d ∉ line := by
    intro line hline
    obtain ⟨hnewline, hsub⟩ := List.mem_splitOn hline
    exact forall_lineEnd hnewline fun hr => return_not_mem_readText file (hsub hr)
  obtain ⟨line, hline, hs, hend⟩ : ∃ line ∈ (readText file).splitOn '\n',
      lineSignature py (redate rel.formattedDate line) = some (c.signature py) ∧
        ∀ d ∈ ['\n', '\r'], d ∉ redate rel.formattedDate line := by
    rcases hdate : rel.formattedDate with _ | date
    · obtain ⟨line, hline, hs⟩ := List.mem_filterMap.1 hold
      exact ⟨line, hline, hs, hlines line hline⟩
    · obtain ⟨line, hline, hs, hend⟩ := hdates date hdate c hc hlisted hold
      refine ⟨line, hline, hs, ?_⟩
      exact forall_lineEnd (fun hn => (hend _ hn).1 rfl) fun hr => (hend _ hr).2 rfl
  exact signature_mem_update (hlines line hline '\n' (by simp)) (.inl hline) hend hs

/-- A commit that is added and can be read back is found by the next update. -/
theorem signature_mem_of_recoverable (hpy : Documented py) {rel : Release} {content : Str}
    {c : Commit} {categorized : List (String × List Str)} (h : c.Recoverable py)
    (hbullet : ∃ k ∈ categorized, bullet (c.formatted py) ∈ k.2) :
    c.signature py ∈ extractCommitSignatures py
      (readText (updateReleaseDate rel.formattedDate (addCommits py rel categorized content))) := by
  have hend : ∀ d ∈ ['\n', '\r'], d ∉ bullet (c.formatted py) := fun d hd =>
    lineEnd_not_mem_bullet h hd
  have hkept := redate_eq_self (found_datePattern_bullet h) rel.formattedDate
  refine signature_mem_update (hend '\n' (by simp)) (.inr hbullet) ?_ ?_
  · rwa [hkept]
  · rw [hkept]
    exact lineSignature_bullet h hpy

/-- A second update changes nothing if each commit that the first one adds can be read back, from
its own bullet or from one with its signature, and if, where one is added and there is a date to
write, each that the file shows already can still be read with that date in it. -/
theorem updateChangelog_idempotent (py : Python) (hpy : Documented py) (rel : Release) (file : Str)
    (hcommits : ∀ c ∈ added py rel file, ∃ d ∈ added py rel file,
      d.signature py = c.signature py ∧ d.Recoverable py)
    (hdates : added py rel file ≠ [] →
      ∀ date ∈ rel.formattedDate, DatesApart py rel date file) :
    updateChangelog py rel (updateChangelog py rel file) = updateChangelog py rel file := by
  by_cases hnil : added py rel file = []
  · have hknown : updateChangelog py rel file = file := updateChangelog_of_known hnil
    rw [hknown, hknown]
  obtain ⟨categorized, hupdate, hbullets⟩ := exists_updateChangelog_eq hnil
  refine updateChangelog_of_known (List.eq_nil_iff_forall_not_mem.2 fun c hc => ?_)
  obtain ⟨hvisible, hlisted, hnew⟩ := mem_getRecentCommits.1 hc
  refine hnew ?_
  rw [hupdate]
  by_cases hold : c.signature py ∈ extractCommitSignatures py (readText file)
  · exact signature_mem_of_datesApart hvisible hlisted hold (hdates hnil)
  · obtain ⟨d, hd, hsame, hrec⟩ := hcommits c (mem_getRecentCommits.2 ⟨hvisible, hlisted, hold⟩)
    rw [← hsame]
    exact signature_mem_of_recoverable hpy hrec (hbullets d hd)

theorem toLower_cases (c : Char) :
    (65 ≤ c.toNat ∧ c.toNat ≤ 90 ∧ c.toLower.toNat = c.toNat + 32) ∨
      c.toLower = c ∧ ¬ (65 ≤ c.toNat ∧ c.toNat ≤ 90) := by
  unfold Char.toLower
  split
  · rename_i hc
    have h1 : 65 ≤ c.toNat := UInt32.le_iff_toNat_le.1 hc.1
    have h2 : c.toNat ≤ 90 := UInt32.le_iff_toNat_le.1 hc.2
    refine .inl ⟨h1, h2, ?_⟩
    change (c.toNat + 32) % 2 ^ 32 = c.toNat + 32
    omega
  · rename_i hc
    exact .inr ⟨rfl, fun h => hc ⟨UInt32.le_iff_toNat_le.2 h.1, UInt32.le_iff_toNat_le.2 h.2⟩⟩

/-- No character below or above the small letters comes from another one. -/
theorem eq_of_toLower_eq {c d : Char} (hd : d.toNat ≤ 96 ∨ 123 ≤ d.toNat) (h : c.toLower = d) :
    c = d := by
  rcases toLower_cases c with ⟨h1, h2, h3⟩ | ⟨h1, -⟩
  · rw [h] at h3
    omega
  · exact h1.symm.trans h

/-- The lower case of the characters of ASCII. -/
def asciiLower (c : Char) : Str := if c = 'Σ' then ['σ'] else [c.toLower]

theorem asciiLower_upper (d : Char) : 'R' ∉ asciiLower d ∧ 'Σ' ∉ asciiLower d := by
  unfold asciiLower
  split_ifs with hd
  · decide
  · refine ⟨fun h => ?_, fun h => ?_⟩
    · have hR := (List.mem_singleton.1 h).symm
      obtain rfl : d = 'R' := eq_of_toLower_eq (by decide) hR
      exact absurd hR (by decide)
    · exact hd (eq_of_toLower_eq (by decide) (List.mem_singleton.1 h).symm)

theorem asciiLower_mark : ∀ c ∈ ['\n', '\r', '`'], ∀ d, c ∈ asciiLower d ↔ d = c := by
  intro c hc d
  have hbound : ∀ c ∈ ['\n', '\r', '`'], c.toNat ≤ 96 := List.all_iff_forall_prop.1 (by decide)
  constructor
  · intro h
    unfold asciiLower at h
    split_ifs at h
    · cases List.mem_singleton.1 h
      exact absurd (hbound _ hc) (by decide)
    · exact eq_of_toLower_eq (.inl (hbound c hc)) (List.mem_singleton.1 h).symm
  · rintro rfl
    have hself : ∀ c ∈ ['\n', '\r', '`'], c ∈ asciiLower c := List.all_iff_forall_prop.1 (by decide)
    exact hself d hc

theorem of_isAlpha {c : Char} (h : c.isAlpha = true) : 65 ≤ c.toNat := by
  rcases Bool.or_eq_true_iff.1 h with hupper | hlower
  · exact UInt32.le_iff_toNat_le.1 (of_decide_eq_true hupper).1
  · have hle := of_decide_eq_true (Bool.and_eq_true_iff.1 hlower).1
    exact le_trans (by decide) (UInt32.le_iff_toNat_le.1 hle)

def asciiPython : Python where
  word c := c.isAlphanum || c = '_'
  space c := c.toNat ∈ [9, 10, 11, 12, 13, 28, 29, 30, 31, 32]
  digit c := c.isDigit
  lowerChar := asciiLower
  cased c := c.isAlpha
  caseIgnorable c := c ∈ ['\'', '.', ':', '^', '`']
  agree c d := c.toLower = d.toLower
  blank := List.all_iff_forall_prop.1 (by decide)
  upper := ⟨by decide, asciiLower_upper⟩
  mark := asciiLower_mark
  emojiList _ := []
  plain _ _ he := absurd he List.not_mem_nil

theorem le_of_space {c : Char} (h : asciiPython.space c = true) : c.toNat ≤ 32 := by
  have hle : ∀ n ∈ [9, 10, 11, 12, 13, 28, 29, 30, 31, 32], n ≤ 32 := by decide
  exact hle _ (of_decide_eq_true h)

theorem documented_asciiPython : Documented asciiPython where
  colon := by decide
  sigma := ⟨by decide, List.all_iff_forall_prop.1 (by decide)⟩
  space c hc := by
    have hle : c.toNat ≤ 32 := le_of_space hc
    have hsigma : c ≠ 'Σ' := fun h => absurd (h ▸ hle) (by decide)
    refine ⟨?_, ?_, ?_⟩
    · change asciiLower c = [c]
      rw [asciiLower, if_neg hsigma]
      rcases toLower_cases c with ⟨h, -⟩ | ⟨h, -⟩
      · omega
      · rw [h]
    · refine Bool.eq_false_iff.2 fun h => ?_
      have halpha := of_isAlpha h
      omega
    · have hmark : ∀ d ∈ ['\'', '.', ':', '^', '`'], 32 < d.toNat :=
        List.all_iff_forall_prop.1 (by decide)
      refine decide_eq_false fun h => ?_
      have hlt := hmark c h
      omega
  lowerChar c := by
    refine ⟨?_, fun d hd hsp => ?_⟩
    · change asciiLower c ≠ []
      unfold asciiLower
      split_ifs <;> simp
    · change d ∈ asciiLower c at hd
      unfold asciiLower at hd
      split_ifs at hd
      · rw [List.mem_singleton.1 hd] at hsp
        exact absurd hsp (by decide)
      · have hle : d.toNat ≤ 32 := le_of_space hsp
        have hcd : c = d := eq_of_toLower_eq (.inl (by omega)) (List.mem_singleton.1 hd).symm
        rwa [hcd]
  emoji _ _ he := absurd he List.not_mem_nil

/-- A changelog without a release. -/
def emptyChangelog : Str := "# Changelog\n---\n".toList

def oneCommit (message : String) : Release :=
  ⟨"2025-02-01".toList, some "February 01, 2025".toList,
    [⟨message.toList, some "superkali".toList, 1⟩], []⟩

def addLanBullet : Str := "- ➕ add lan by @superkali  ".toList

/-- A changelog with the date of a release and a bullet. -/
def shortChangelog : Str :=
  "📅 Release date: **January 01, 2025**\n".toList ++ addLanBullet ++ "\n---\n".toList

def addLan : Commit := ⟨"Add lan".toList, some "superkali".toList, 1⟩

theorem readable_fixWifi : Readable asciiPython "Fix wifi".toList "superkali".toList where
  nonempty := by decide
  bare := .inr (by decide +kernel)
  emoji := .inl (by decide +kernel)
  oneLine := by decide +kernel
  steady := by
    have hall : (remainder asciiPython "Fix wifi".toList).all (Steady asciiPython) = true := by
      decide +kernel
    exact fun c hc _ => List.all_iff_forall_prop.1 hall c hc
  sigma b a hs := by
    have hnot : 'Σ' ∉ remainder asciiPython "Fix wifi".toList := by decide +kernel
    refine absurd ?_ hnot
    rw [hs]
    exact List.mem_append_right b List.mem_cons_self
  package := .inl (by decide +kernel)
  mention := by decide +kernel
  author := List.all_iff_forall_prop.1 (by decide)

/-- One commit is added, one is known, and the date of the release is replaced. -/
theorem updateChangelog_fixWifi :
    updateChangelog asciiPython { oneCommit "Fix wifi" with packagesCommits := [addLan] }
        shortChangelog ≠ shortChangelog ∧
      updateChangelog asciiPython { oneCommit "Fix wifi" with packagesCommits := [addLan] }
          (updateChangelog asciiPython { oneCommit "Fix wifi" with packagesCommits := [addLan] }
            shortChangelog)
        = updateChangelog asciiPython { oneCommit "Fix wifi" with packagesCommits := [addLan] }
          shortChangelog := by
  have hadded : added asciiPython { oneCommit "Fix wifi" with packagesCommits := [addLan] }
      shortChangelog = (oneCommit "Fix wifi").mainCommits := by decide +kernel
  refine ⟨by decide +kernel, updateChangelog_idempotent _ documented_asciiPython _ _ ?_ ?_⟩
  · intro c hc
    rw [hadded] at hc
    cases List.mem_singleton.1 hc
    exact ⟨_, by rw [hadded]; exact List.mem_singleton_self _, rfl, readable_fixWifi⟩
  · intro _ date hdate c hc _ hknown
    cases hdate
    have hfix : ∀ c ∈ (oneCommit "Fix wifi").mainCommits, c.signature asciiPython ∉
        extractCommitSignatures asciiPython (readText shortChangelog) := by decide +kernel
    rcases List.mem_append.1 hc with hc | hc
    · exact absurd hknown (hfix c hc)
    · cases List.mem_singleton.1 hc
      have hkept : sub datePattern (newDateLine "February 01, 2025".toList) addLanBullet
          = addLanBullet := sub_eq_self (by decide +kernel) _
      refine ⟨addLanBullet, by decide +kernel, ?_, ?_⟩
      · rw [hkept]
        decide +kernel
      · rw [hkept]
        exact List.all_iff_forall_prop.1 (by decide)

/-- The prefix is left out of the bullet and kept in the signature, so the commit is added again. -/
theorem updateChangelog_not_idempotent : ¬ ∀ (py : Python) (rel : Release) (file : Str),
    updateChangelog py rel (updateChangelog py rel file) = updateChangelog py rel file := by
  intro h
  exact absurd (h asciiPython (oneCommit "fix: repair wifi") emptyChangelog) (by decide +kernel)

end UpdateChangelog

end BananaWrt
