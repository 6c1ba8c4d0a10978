import Mathlib.Data.List.Basic
import Mathlib.Data.List.DropRight
import Mathlib.Data.List.TakeWhile

/-!
# Stretches of a list

A list is read up to the first element that does not meet a condition, or back to the last one that
is some `a`. What is left of a stretch when elements that meet the condition are taken out is the
stretch of what is left of the list. The last element of a filter tells what is behind it.
-/

namespace List

variable {α : Type*} {p q : α → Bool}

theorem takeWhile_append_of_head {l x : List α} (h : ∀ a ∈ x.head?, p a = false) :
    (l ++ x).takeWhile p = l.takeWhile p := by
  induction l with
  | nil =>
    rcases x with _ | ⟨a, x⟩
    · rfl
    · have ha := h a rfl
      simp [ha]
  | cons a l ih => simp only [cons_append, takeWhile_cons, ih]

theorem head_dropWhile {l : List α} : ∀ a ∈ (l.dropWhile p).head?, p a = false := fun a ha => by
  have := head?_dropWhile_not p l
  rw [Option.mem_def.1 ha] at this
  simpa using this

theorem filter_takeWhile (h : ∀ a, q a = false → p a = true) (l : List α) :
    (l.takeWhile p).filter q = (l.filter q).takeWhile p := by
  have hp : (fun a => !q a || p a) = p := funext fun a => by
    rcases hq : q a with _ | _
    · rw [h a hq, Bool.or_true]
    · rfl
  rw [takeWhile_filter, hp]

theorem filter_dropWhile (h : ∀ a, q a = false → p a = true) (l : List α) :
    (l.dropWhile p).filter q = (l.filter q).dropWhile p := by
  have hp : (fun a => !q a || p a) = p := funext fun a => by
    rcases hq : q a with _ | _
    · rw [h a hq, Bool.or_true]
    · rfl
  rw [dropWhile_filter, hp]

theorem filter_rtakeWhile (h : ∀ a, q a = false → p a = true) (l : List α) :
    (l.rtakeWhile p).filter q = (l.filter q).rtakeWhile p := by
  rw [rtakeWhile, rtakeWhile, filter_reverse, filter_takeWhile h, filter_reverse]

/-- What is left from the first `a` on, `a` itself apart. -/
theorem filter_behind [DecidableEq α] {a : α} (ha : q a = true) (l : List α) :
    ((l.dropWhile (· ≠ a)).drop 1).filter q = ((l.filter q).dropWhile (· ≠ a)).drop 1 := by
  have h : ∀ b, q b = false → decide (b ≠ a) = true := fun b hb => by
    simpa using fun e : b = a => by simp [e, ha] at hb
  rw [← filter_dropWhile h]
  rcases hd : l.dropWhile (· ≠ a) with _ | ⟨b, d⟩
  · rfl
  · have hb : b = a := by
      have := head_dropWhile (l := l) (p := (· ≠ a)) b (by rw [hd]; rfl)
      simpa using this
    rw [hb, filter_cons_of_pos ha]
    rfl

section Back

variable {a : α}

theorem exists_last_eq {l : List α} (h : a ∈ l) : ∃ x y, l = x ++ a :: y ∧ a ∉ y := by
  obtain ⟨x, y, heq, hx⟩ := eq_append_cons_of_mem (mem_reverse.2 h)
  refine ⟨y.reverse, x.reverse, ?_, fun hm => hx (mem_reverse.1 hm)⟩
  rw [← reverse_reverse l, heq]
  simp

variable [DecidableEq α]

theorem rtakeWhile_append_of_notMem {x y : List α} (h : a ∉ y) :
    (x ++ y).rtakeWhile (· ≠ a) = x.rtakeWhile (· ≠ a) ++ y := by
  have hy : ∀ b ∈ y.reverse, decide (b ≠ a) = true := fun b hb => by
    simpa using fun e : b = a => h (e ▸ mem_reverse.1 hb)
  rw [rtakeWhile, reverse_append, takeWhile_append_of_pos hy, reverse_append, reverse_reverse]
  rfl

theorem rtakeWhile_last {x y : List α} (h : a ∉ y) : (x ++ a :: y).rtakeWhile (· ≠ a) = y := by
  have hcons : x ++ a :: y = (x ++ [a]) ++ y := by simp
  rw [hcons, rtakeWhile_append_of_notMem h, rtakeWhile_concat_neg _ _ _ (by simp), nil_append]

theorem mem_rtakeWhile_append {x y : List α} {b : α} (ha : a ∉ y) (hb : b ∈ y) :
    b ∈ (x ++ y).rtakeWhile (· ≠ a) := by
  rw [rtakeWhile_append_of_notMem ha]
  exact mem_append_right _ hb

/-- The last of several equal elements, the first of which is at the head. -/
theorem cons_rtakeWhile (a : α) (l : List α) :
    ∃ x, a :: l = x ++ a :: l.rtakeWhile (· ≠ a) ∧ a ∉ l.rtakeWhile (· ≠ a) := by
  by_cases h : a ∈ l
  · obtain ⟨x, y, rfl, hy⟩ := exists_last_eq h
    rw [rtakeWhile_last hy]
    exact ⟨a :: x, rfl, hy⟩
  · have hall : l.rtakeWhile (· ≠ a) = l := by
      rw [rtakeWhile_eq_self_iff]
      exact fun b hb => by simpa using fun e : b = a => h (e ▸ hb)
    rw [hall]
    exact ⟨[], rfl, h⟩

end Back

theorem filter_eq_nil_of_forall {n : List α} (h : ∀ a ∈ n, p a = false) : n.filter p = [] :=
  filter_eq_nil_iff.2 fun a ha => by simp [h a ha]

theorem filter_last_iff {x v : List α} {a : α} (ha : p a = true) (hv : a ∉ v) :
    ((x ++ a :: v).filter p).getLast? = some a ↔ ∀ b ∈ v, p b = false := by
  rw [filter_append, filter_cons_of_pos ha, getLast?_append_of_ne_nil _ (cons_ne_nil _ _)]
  have hnil : v.filter p = [] ↔ ∀ b ∈ v, p b = false := by simp [filter_eq_nil_iff]
  rw [← hnil]
  rcases hf : v.filter p with _ | ⟨b, l⟩
  · simp
  · refine iff_of_false (fun h => ?_) (cons_ne_nil _ _)
    rw [getLast?_cons_cons] at h
    exact hv (mem_of_mem_filter (hf ▸ mem_of_getLast? h))

theorem mem_of_filter_last {x v : List α} {a b : α} (ha : p a = true)
    (h : ((x ++ a :: v).filter p).getLast? = some b) : b = a ∨ b ∈ v := by
  rw [filter_append, filter_cons_of_pos ha, getLast?_append_of_ne_nil _ (cons_ne_nil _ _)] at h
  exact (mem_cons.1 (mem_of_getLast? h)).imp_right mem_of_mem_filter

/-- An element of two lists is one of the first or one of the second. -/
theorem append_eq_append_cons {x y x' y' : List α} {e : α} (h : x ++ y = x' ++ e :: y') :
    (∃ z, x = x' ++ e :: z ∧ y' = z ++ y) ∨ ∃ z, x' = x ++ z ∧ y = z ++ e :: y' := by
  rcases append_eq_append_iff.1 h with ⟨z, hx, hy⟩ | ⟨z, hx, hy⟩
  · exact Or.inr ⟨z, hx, hy⟩
  · rcases z with _ | ⟨e', z⟩
    · exact Or.inr ⟨[], by rw [hx]; simp, hy.symm⟩
    · obtain ⟨rfl, rfl⟩ := cons.inj hy
      exact Or.inl ⟨z, hx, rfl⟩

/-- What holds at every place of a list holds at its head and at every place behind it. -/
theorem forall_place_cons {P : α → List α → Prop} {a : α} {l : List α} :
    (∀ xs r ys, a :: l = xs ++ r :: ys → P r ys)
      ↔ P a l ∧ ∀ xs r ys, l = xs ++ r :: ys → P r ys := by
  constructor
  · intro h
    refine ⟨h [] a l rfl, fun xs r ys hr => h (a :: xs) r ys ?_⟩
    rw [hr, cons_append]
  · rintro ⟨ha, hl⟩ xs r ys hr
    rcases cons_eq_append_iff.1 hr with ⟨rfl, hr⟩ | ⟨xs, rfl, rfl⟩
    · cases hr
      exact ha
    · exact hl xs r ys rfl

/-- What each step keeps whose element is not done yet, a loop over a list without repetition
keeps. -/
theorem foldl_of_nodup {β : Type*} {P : List α → β → Prop} {f : β → α → β}
    (hstep : ∀ done a b, a ∉ done → P done b → P (done ++ [a]) (f b a)) :
    ∀ l done b, (done ++ l).Nodup → P done b → P (done ++ l) (l.foldl f b)
  | [], done, b, _, h => by
    rw [append_nil]
    exact h
  | a :: l, done, b, hnodup, h => by
    have hcons : done ++ a :: l = (done ++ [a]) ++ l := by simp
    have ha : a ∉ done := fun hm => (nodup_append.1 hnodup).2.2 a hm a mem_cons_self rfl
    rw [hcons] at hnodup ⊢
    exact foldl_of_nodup hstep l (done ++ [a]) (f b a) hnodup (hstep done a b ha h)

end List
