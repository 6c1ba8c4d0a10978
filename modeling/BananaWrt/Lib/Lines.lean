import Mathlib.Data.List.DropRight

/-!
# Texts and their lines

A text is split at a separator into lines, which do not hold it, and lines are put together with
the separator between them. A line of a text that was put together is a line of one of its parts.
What a text has at its ends can be trimmed off.
-/

namespace List

variable {α : Type*} {a : α}

section Split

variable [DecidableEq α]

theorem mem_splitOn : ∀ {t l : List α}, l ∈ t.splitOn a → a ∉ l ∧ l ⊆ t
  | [], l, h => by
    cases mem_singleton.1 h
    exact ⟨not_mem_nil, nil_subset _⟩
  | c :: t, l, h => by
    rw [splitOn_cons_eq_if_modifyHead] at h
    by_cases hc : (c == a) = true
    · rw [if_pos hc] at h
      rcases mem_cons.1 h with rfl | h
      · exact ⟨not_mem_nil, nil_subset _⟩
      · obtain ⟨ha, hsub⟩ := mem_splitOn h
        exact ⟨ha, subset_cons_of_subset c hsub⟩
    · rw [if_neg hc] at h
      obtain ⟨l', ls, hls⟩ := exists_cons_of_ne_nil (splitOn_ne_nil a t)
      have ih : ∀ x ∈ l' :: ls, a ∉ x ∧ x ⊆ t := fun x hx => mem_splitOn (hls ▸ hx)
      rw [hls, modifyHead_cons] at h
      rcases mem_cons.1 h with rfl | h
      · obtain ⟨ha, hsub⟩ := ih l' mem_cons_self
        have hne : a ≠ c := fun hac => hc (beq_iff_eq.2 hac.symm)
        exact ⟨not_mem_cons_of_ne_of_not_mem hne ha, cons_subset_cons c hsub⟩
      · obtain ⟨ha, hsub⟩ := ih l (mem_cons_of_mem l' h)
        exact ⟨ha, subset_cons_of_subset c hsub⟩

theorem splitOn_intercalate_eq_flatMap : ∀ {ls : List (List α)}, ls ≠ [] →
    ([a].intercalate ls).splitOn a = ls.flatMap (·.splitOn a)
  | [], h => absurd rfl h
  | [l], _ => by simp
  | l :: l' :: ls, _ => by
    rw [intercalate_cons_of_ne_nil (cons_ne_nil l' ls), append_assoc, singleton_append,
      splitOn_append_cons_self, splitOn_intercalate_eq_flatMap (cons_ne_nil l' ls)]
    rfl

/-- A part that does not hold the separator is a line of the whole. -/
theorem mem_splitOn_intercalate {ls : List (List α)} {l : List α} (hl : l ∈ ls) (ha : a ∉ l) :
    l ∈ ([a].intercalate ls).splitOn a := by
  rw [splitOn_intercalate_eq_flatMap (ne_nil_of_mem hl)]
  refine mem_flatMap.2 ⟨l, hl, ?_⟩
  rw [splitOn_eq_singleton ha]
  exact mem_singleton_self l

/-- Lines that are each ended by the separator. -/
theorem dropLast_splitOn_flatMap : ∀ {ls : List (List α)}, (∀ l ∈ ls, a ∉ l) →
    ((ls.flatMap fun l => l ++ [a]).splitOn a).dropLast = ls
  | [], _ => by simp
  | l :: ls, h => by
    have ih := dropLast_splitOn_flatMap fun l' hl' => h l' (mem_cons_of_mem l hl')
    rw [flatMap_cons, append_assoc, singleton_append, splitOn_append_cons_self,
      splitOn_eq_singleton (h l mem_cons_self), singleton_append,
      dropLast_cons_of_ne_nil (splitOn_ne_nil a _), ih]

theorem notMem_of_mem_dropLast_splitOn {t l : List α} (h : l ∈ (t.splitOn a).dropLast) : a ∉ l :=
  (mem_splitOn (dropLast_subset _ h)).1

end Split

section Trim

variable {p : α → Bool} {l w w' z : List α}

/-- A text without the characters of `p` at its ends. -/
def trim (p : α → Bool) (l : List α) : List α := (l.dropWhile p).rdropWhile p

/-- There are none at its ends. -/
def Trimmed (p : α → Bool) (l : List α) : Prop :=
  (∀ c ∈ l.head?, ¬ p c) ∧ ∀ c ∈ l.getLast?, ¬ p c

theorem dropWhile_of_head? (h : ∀ c ∈ l.head?, ¬ p c) : l.dropWhile p = l := by
  cases l with
  | nil => rfl
  | cons c l => exact dropWhile_cons_of_neg (h c rfl)

theorem rdropWhile_of_getLast? (h : ∀ c ∈ l.getLast?, ¬ p c) : l.rdropWhile p = l :=
  rdropWhile_eq_self_iff.2 fun hl => h _ (getLast?_eq_some_getLast hl)

theorem head?_dropWhile (l : List α) : ∀ c ∈ (l.dropWhile p).head?, ¬ p c := by
  intro c hc
  have hnot := head?_dropWhile_not p l
  rw [Option.mem_def.1 hc] at hnot
  simpa using hnot

theorem trim_eq_self (h : Trimmed p l) : trim p l = l := by
  rw [trim, dropWhile_of_head? h.1, rdropWhile_of_getLast? h.2]

theorem trimmed_trim (p : α → Bool) (l : List α) : Trimmed p (trim p l) := by
  constructor
  · obtain ⟨z, hz⟩ := rdropWhile_prefix (p := p) (l := l.dropWhile p)
    intro c hc
    refine head?_dropWhile l c ?_
    obtain ⟨t, ht⟩ : ∃ t, trim p l = c :: t := head?_eq_some_iff.1 hc
    rw [← hz, show (l.dropWhile p).rdropWhile p = c :: t from ht]
    rfl
  · intro c hc
    obtain ⟨hne, rfl⟩ := mem_getLast?_eq_getLast hc
    exact rdropWhile_last_not p _ hne

theorem exists_trim (p : α → Bool) (l : List α) : ∃ w w', (∀ c ∈ w, p c) ∧ (∀ c ∈ w', p c)
    ∧ l = w ++ (trim p l ++ w') := by
  refine ⟨l.takeWhile p, (l.dropWhile p).rtakeWhile p, fun c => mem_takeWhile_imp,
    fun c => mem_rtakeWhile_imp, ?_⟩
  rw [trim, rdropWhile_append_rtakeWhile, takeWhile_append_dropWhile]

theorem trim_append_left (hw : ∀ c ∈ w, p c) (l : List α) : trim p (w ++ l) = trim p l := by
  rw [trim, dropWhile_append_of_pos hw]
  rfl

theorem trim_of_trimmed (hw : ∀ c ∈ w, p c) (hw' : ∀ c ∈ w', p c) (hz : Trimmed p z) :
    trim p (w ++ (z ++ w')) = z := by
  rw [trim_append_left hw]
  cases z with
  | nil =>
    rw [nil_append, trim, dropWhile_eq_nil_iff.2 hw', rdropWhile_nil]
  | cons c z =>
    have hhead : ∀ d ∈ (c :: z ++ w').head?, ¬ p d := hz.1
    have hend := rdropWhile_of_getLast? hz.2
    rw [trim, dropWhile_of_head? hhead]
    unfold rdropWhile at hend ⊢
    rw [reverse_append, dropWhile_append_of_pos fun d hd => hw' d (mem_reverse.1 hd), hend]

theorem trim_append_right (hw : ∀ c ∈ w, p c) (l : List α) : trim p (l ++ w) = trim p l := by
  obtain ⟨v, v', hv, hv', hl⟩ := exists_trim p l
  have hend : ∀ c ∈ v' ++ w, p c := fun c hc => (mem_append.1 hc).elim (hv' c) (hw c)
  have hlw : l ++ w = v ++ (trim p l ++ (v' ++ w)) := by
    conv_lhs => rw [hl]
    simp only [append_assoc]
  rw [hlw, trim_of_trimmed hv hend (trimmed_trim p l)]

theorem trim_trim (p : α → Bool) (l : List α) : trim p (trim p l) = trim p l :=
  trim_eq_self (trimmed_trim p l)

end Trim

end List
