import Mathlib.Data.List.Nodup

/-!
# Lists of records with distinct keys

A list whose records have distinct keys `f a` holds at most one record of each key, so looking a
key up, filtering by it and erasing the first record of it all speak of that one record. In a list
sorted by a key, what stands after a record are the records with larger keys.
-/

namespace List

variable {α β : Type*}

theorem eraseP_eq_filter_of_countP_le_one (p : α → Bool) :
    ∀ l : List α, l.countP p ≤ 1 → l.eraseP p = l.filter (fun a => !p a)
  | [], _ => rfl
  | a :: l, h => by
    by_cases ha : p a = true
    · have h0 : l.countP p = 0 := by
        rw [countP_cons_of_pos ha] at h
        omega
      have hl : l.filter (fun a => !p a) = l := by
        refine filter_eq_self.2 fun b hb => ?_
        simpa using countP_eq_zero.1 h0 b hb
      rw [eraseP_cons_of_pos ha, filter_cons_of_neg (by simpa using ha), hl]
    · rw [eraseP_cons_of_neg ha, filter_cons_of_pos (by simpa using ha),
        eraseP_eq_filter_of_countP_le_one p l (by rwa [countP_cons_of_neg ha] at h)]

theorem flatMap_eq_map_filter {p : α → Bool} {f : α → List β} {g : α → β} :
    ∀ l : List α, (∀ a ∈ l, f a = if p a then [g a] else []) →
      l.flatMap f = (l.filter p).map g
  | [], _ => rfl
  | a :: l, h => by
    rw [flatMap_cons, h a mem_cons_self,
      flatMap_eq_map_filter l fun b hb => h b (mem_cons_of_mem a hb)]
    by_cases ha : p a = true
    · rw [if_pos ha, filter_cons_of_pos ha, map_cons, singleton_append]
    · rw [if_neg ha, filter_cons_of_neg ha, nil_append]

theorem find?_of_unique {p : α → Bool} {l : List α} {a : α} (ha : a ∈ l) (hp : p a)
    (h : ∀ b ∈ l, p b → b = a) : l.find? p = some a := by
  cases hf : l.find? p with
  | none => exact absurd hp (find?_eq_none.1 hf a ha)
  | some b => rw [h b (mem_of_find?_eq_some hf) (find?_some hf)]

theorem tail_dropWhile_of_sorted {f : α → ℕ} {k : ℕ} :
    ∀ {l : List α}, l.Pairwise (f · < f ·) → k ∈ l.map f →
      (l.dropWhile (f · ≠ k)).tail = l.filter (k < f ·)
  | [], _, hk => absurd hk not_mem_nil
  | a :: l, h, hk => by
    obtain ⟨hlt, hl⟩ := pairwise_cons.1 h
    by_cases ha : f a = k
    · rw [dropWhile_cons_of_neg (by simpa using ha), tail_cons,
        filter_cons_of_neg (by simp [ha])]
      exact (filter_eq_self.2 fun b hb => by simpa [← ha] using hlt b hb).symm
    · have hkl : k ∈ l.map f := (mem_cons.1 hk).resolve_left (Ne.symm ha)
      obtain ⟨b, hb, rfl⟩ := mem_map.1 hkl
      rw [dropWhile_cons_of_pos (by simpa using ha), tail_dropWhile_of_sorted hl hkl,
        filter_cons_of_neg (by simpa using Nat.le_of_lt (hlt b hb))]

variable [DecidableEq β] {f : α → β}

theorem filter_key : ∀ {l : List α}, (l.map f).Nodup → ∀ {a : α}, a ∈ l →
    l.filter (fun b => f b = f a) = [a]
  | [], _, a, ha => by simp at ha
  | b :: l, h, a, ha => by
    rw [map_cons, nodup_cons] at h
    have hnone : ∀ c, f c = f b → l.filter (fun x => f x = f c) = [] := by
      intro c hc
      refine filter_eq_nil_iff.2 fun x hx => ?_
      simp only [decide_eq_true_eq]
      intro hxc
      exact h.1 (mem_map.2 ⟨x, hx, hxc.trans hc⟩)
    rcases mem_cons.1 ha with rfl | ha'
    · rw [filter_cons_of_pos (by simp), hnone a rfl]
    · have hne : f b ≠ f a := fun hba => h.1 (mem_map.2 ⟨a, ha', hba.symm⟩)
      rw [filter_cons_of_neg (by simpa using hne), filter_key h.2 ha']

theorem countP_key_le_one {l : List α} (h : (l.map f).Nodup) (k : β) :
    l.countP (fun a => f a = k) ≤ 1 := by
  by_cases hk : ∃ a ∈ l, f a = k
  · obtain ⟨a, ha, rfl⟩ := hk
    rw [countP_eq_length_filter, filter_key h ha]
    exact Nat.le_refl _
  · push Not at hk
    rw [countP_eq_zero.2 fun a ha => by simpa using hk a ha]
    omega

theorem eraseP_key {l : List α} (h : (l.map f).Nodup) (k : β) :
    l.eraseP (fun a => f a = k) = l.filter (fun a => f a ≠ k) := by
  rw [eraseP_eq_filter_of_countP_le_one _ _ (countP_key_le_one h k)]
  congr 1
  funext a
  simp

end List
