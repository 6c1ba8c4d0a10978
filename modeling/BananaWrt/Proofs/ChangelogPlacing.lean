import BananaWrt.Lib.Stretches
import BananaWrt.ChangelogMerge
import BananaWrt.Proofs.UpdateChangelog
import Mathlib.Data.List.GetD

/-!
# Where merged commits go

The scan of the lines is worked out for a category whose header is in the window behind the
release's and for one whose header is not. Only headers and rules decide anything, so the bullets
of one category are nothing to another's, and its header, which is put in where the section ends,
hides nothing that was not hidden.
-/

namespace BananaWrt

namespace UpdateChangelog

section Lines

/-- Python's white space has neither of the characters that headers and rules are made of. -/
structure PlainMarks (py : Python) : Prop where
  hash : py.space '#' = false
  dash : py.space '-' = false

variable {py : Python}

/-- A line whose first two characters are no dashes is no rule. -/
theorem isRule_of_head {c d : Char} {s : Str} (hc : py.space c = false) (h : c ≠ '-' ∨ d ≠ '-') :
    isRule py (c :: d :: s) = false := by
  have hdrop : (c :: d :: s).dropWhile py.space = c :: d :: s :=
    List.dropWhile_cons_of_neg (by simpa using hc)
  refine decide_eq_false fun heq => ?_
  rw [strip, hdrop] at heq
  have hpre : "---".toList <+: c :: d :: s := heq ▸ List.rdropWhile_prefix _ _
  obtain ⟨t, ht⟩ := hpre
  have htail : '-' :: '-' :: '-' :: t = c :: d :: s := ht
  obtain ⟨hc', hd'⟩ := List.cons.inj htail
  exact h.elim (absurd hc'.symm) (absurd (List.cons.inj hd').1.symm)

theorem closes_releaseHeader (date : Str) : closes py (releaseHeader date) = true := by
  have h : "## [".toList.isPrefixOf (releaseHeader date) = true := rfl
  rw [closes, h, Bool.true_or]

theorem isRule_releaseHeader (hpy : PlainMarks py) (date : Str) :
    isRule py (releaseHeader date) = false := isRule_of_head hpy.hash (Or.inl (by decide))

theorem closes_categoryHeader (hpy : PlainMarks py) (name : String) :
    closes py (categoryHeader name) = false := by
  have h : "## [".toList.isPrefixOf (categoryHeader name) = false := rfl
  rw [closes, h, Bool.false_or]
  exact isRule_of_head hpy.hash (Or.inl (by decide))

theorem marks_categoryHeader (name : String) : marks py (categoryHeader name) = true := by
  have h : "### ".toList.isPrefixOf (categoryHeader name) = true := rfl
  rw [marks, h, Bool.or_true]

theorem marks_bullet (hpy : PlainMarks py) (f : Str) : marks py (bullet f) = false := by
  have h : "## [".toList.isPrefixOf (bullet f) = false := rfl
  have h' : "### ".toList.isPrefixOf (bullet f) = false := rfl
  have hr : isRule py (bullet f) = false := isRule_of_head hpy.dash (Or.inr (by decide))
  rw [marks, closes, h, h', hr]
  rfl

theorem marks_nil : marks py [] = false := by
  have hr : isRule py [] = false := by
    rw [isRule, strip]
    rfl
  rw [marks, closes, hr]
  rfl

theorem closes_of_marks {l : Str} (h : marks py l = false) : closes py l = false := by
  rw [marks, Bool.or_eq_false_iff] at h
  exact h.1

theorem marks_of_closes {l : Str} (h : closes py l = true) : marks py l = true := by
  rw [marks, h, Bool.true_or]

theorem ne_of_marks {l m : Str} (hl : marks py l = false) (hm : marks py m = true) : l ≠ m :=
  fun h => by simp [h, hm] at hl

theorem categoryHeader_ne_releaseHeader (name : String) (date : Str) :
    categoryHeader name ≠ releaseHeader date := fun h => by
  have h : '#' :: '#' :: '#' :: ' ' :: name.toList = '#' :: '#' :: ' ' :: '[' :: (date ++ [']']) :=
      h
  exact absurd (List.cons.inj (List.cons.inj (List.cons.inj h).2).2).1 (by decide)

theorem categoryHeader_injective {name name' : String}
    (h : categoryHeader name = categoryHeader name') : name = name' :=
  String.toList_inj.1 (List.append_cancel_left h)

end Lines

section Scan

variable {py : Python} {R H : Str}

/-- The index of the last header of the release, `s` being that of the last one before. -/
def lastStart (R : Str) : ℕ → Option ℕ → List Str → Option ℕ
  | _, s, [] => s
  | i, s, l :: ls => lastStart R (i + 1) (if l = R then some i else s) ls

theorem lastStart_of_notMem : ∀ {ls : List Str} (i : ℕ) (s : Option ℕ), R ∉ ls →
    lastStart R i s ls = s
  | [], _, _, _ => rfl
  | l :: ls, i, s, h => by
    rw [List.mem_cons, not_or] at h
    rw [lastStart, if_neg (Ne.symm h.1), lastStart_of_notMem (i + 1) s h.2]

theorem lastStart_append : ∀ {x : List Str} (y : List Str) (i : ℕ) (s : Option ℕ),
    lastStart R i s (x ++ y) = lastStart R (i + x.length) (lastStart R i s x) y
  | [], _, _, _ => rfl
  | l :: x, y, i, s => by
    have hi : i + 1 + x.length = i + (x.length + 1) := by omega
    rw [List.cons_append, lastStart, lastStart, lastStart_append y, List.length_cons, hi]

theorem lastStart_last {x y : List Str} (i : ℕ) (s : Option ℕ) (h : R ∉ y) :
    lastStart R i s (x ++ R :: y) = some (i + x.length) := by
  rw [lastStart_append, lastStart, if_pos rfl, lastStart_of_notMem _ _ h]

theorem lastStart_isSome : ∀ {ls : List Str} {i : ℕ} {s : Option ℕ}, s.isSome →
    (lastStart R i s ls).isSome
  | [], _, _, h => h
  | l :: ls, i, s, h => by
    rw [lastStart]
    refine lastStart_isSome ?_
    split_ifs
    · rfl
    · exact h

/-- Nothing is looked for before the section begins. -/
theorem scan_pre : ∀ {m : List Str} (ls : List Str) {i : ℕ}, R ∉ m →
    scan py R H i ⟨none, none, none, none⟩ (m ++ ls)
      = scan py R H (i + m.length) ⟨none, none, none, none⟩ ls
  | [], _, _, _ => rfl
  | l :: m, ls, i, h => by
    rw [List.mem_cons, not_or] at h
    have hi : i + 1 + m.length = i + (m.length + 1) := by omega
    rw [List.cons_append, scan, if_neg (Ne.symm h.1), if_neg (by simp), if_neg (by simp),
      if_neg (by simp), scan_pre ls h.2, List.length_cons, hi]

/-- Without the category's header rules and other categories are passed. -/
theorem scan_before : ∀ {m : List Str} (ls : List Str) {i : ℕ} {s : Option ℕ},
    (∀ l ∈ m, l = R ∨ ¬ "## [".toList <+: l ∧ l ≠ H) →
      scan py R H i ⟨s, none, none, none⟩ (m ++ ls)
        = scan py R H (i + m.length) ⟨lastStart R i s m, none, none, none⟩ ls
  | [], _, _, _, _ => rfl
  | l :: m, ls, i, s, h => by
    rw [List.forall_mem_cons] at h
    have hi : i + 1 + m.length = i + (m.length + 1) := by omega
    rw [List.cons_append, scan, lastStart, List.length_cons]
    by_cases hl : l = R
    · rw [if_pos hl, if_pos hl, scan_before ls h.2, hi]
    · obtain ⟨hsec, hcat⟩ := h.1.resolve_left hl
      rw [if_neg hl, if_neg hl, if_neg fun hn => hsec hn.2, if_neg fun hn => hcat hn.2,
        if_neg (by simp), scan_before ls h.2, hi]

/-- A line at which the reading of a category ends. -/
def Stops (py : Python) (l : Str) : Prop := "### ".toList <+: l ∨ isRule py l = true

theorem marks_iff {l : Str} : marks py l = true ↔ "## [".toList <+: l ∨ Stops py l := by
  rw [marks, closes, Bool.or_eq_true, Bool.or_eq_true, List.isPrefixOf_iff_prefix,
    List.isPrefixOf_iff_prefix, Stops]
  tauto

theorem not_stops {l : Str} (h : marks py l = false) : ¬ Stops py l := fun hs => by
  rw [marks_iff.2 (Or.inr hs)] at h
  cases h

theorem scan_after : ∀ {m : List Str} (ls : List Str) {i c : ℕ} {s : Option ℕ}, s.isSome →
    (∀ l ∈ m, l = R ∨ ¬ "## [".toList <+: l ∧ (l = H ∨ ¬ Stops py l)) →
      ∃ c', scan py R H i ⟨s, none, some c, none⟩ (m ++ ls)
        = scan py R H (i + m.length) ⟨lastStart R i s m, none, some c', none⟩ ls
  | [], _, _, c, _, _, _ => ⟨c, rfl⟩
  | l :: m, ls, i, c, s, hs, h => by
    rw [List.forall_mem_cons] at h
    have hi : i + 1 + m.length = i + (m.length + 1) := by omega
    rw [List.cons_append, scan, lastStart, List.length_cons, ← hi]
    by_cases hl : l = R
    · rw [if_pos hl, if_pos hl]
      exact scan_after ls rfl h.2
    · obtain ⟨hsec, hcat⟩ := h.1.resolve_left hl
      rw [if_neg hl, if_neg hl, if_neg fun hn => hsec hn.2]
      by_cases hH : l = H
      · rw [if_pos ⟨hs, hH⟩]
        exact scan_after ls hs h.2
      · have hstop := hcat.resolve_left hH
        have hn : ¬ ((some c).isSome ∧
            ("### ".toList <+: l ∨ "## [".toList <+: l ∨ isRule py l)) := by
          rintro ⟨-, hcat | hnext | hrule⟩
          · exact hstop (Or.inl hcat)
          · exact hsec hnext
          · exact hstop (Or.inr hrule)
        rw [if_neg fun hn => hH hn.2, if_neg hn]
        exact scan_after ls hs h.2

/-- The first rule from some index on, or where the search ends. -/
theorem rule_getD {x t y : List Str} {E : ℕ} (ht : ∀ l ∈ t, isRule py l = false)
    (hE : E = x.length + t.length ∨ x.length + t.length < E ∧ ∃ r ∈ y.head?, isRule py r = true) :
    ((List.range E).find? fun i =>
      x.length ≤ i ∧ isRule py ((x ++ (t ++ y)).getD i [])).getD E = x.length + t.length := by
  have hnot : ∀ j < x.length + t.length,
      ¬ (x.length ≤ j ∧ isRule py ((x ++ (t ++ y)).getD j []) = true) := by
    rintro j hj ⟨hle, hrule⟩
    obtain ⟨k, rfl⟩ := Nat.exists_eq_add_of_le hle
    have hk : k < t.length := by omega
    rw [List.getD_append_right _ _ _ _ (by omega), Nat.add_sub_cancel_left,
      List.getD_append _ _ _ _ hk, List.getD_eq_getElem _ _ hk, ht _ (List.getElem_mem hk)] at hrule
    exact absurd hrule (by decide)
  rcases hE with rfl | ⟨hlt, r, hr, hrule⟩
  · have hnone : ((List.range (x.length + t.length)).find? fun i =>
        x.length ≤ i ∧ isRule py ((x ++ (t ++ y)).getD i [])) = none := by
      refine List.find?_eq_none.2 fun j hj => ?_
      have := hnot j (List.mem_range.1 hj)
      simpa using this
    rw [hnone, Option.getD_none]
  · obtain ⟨y', rfl⟩ : ∃ y', y = r :: y' := by
      rcases y with _ | ⟨r', y'⟩
      · cases hr
      · cases hr
        exact ⟨y', rfl⟩
    have hat : (x ++ (t ++ r :: y')).getD (x.length + t.length) [] = r := by
      rw [← List.append_assoc, List.getD_append_right _ _ _ _ (by rw [List.length_append]),
        List.length_append, Nat.sub_self]
      rfl
    have hsome : ((List.range E).find? fun i =>
        x.length ≤ i ∧ isRule py ((x ++ (t ++ r :: y')).getD i []))
          = some (x.length + t.length) := by
      refine List.find?_range_eq_some.2 ⟨?_, List.mem_range.2 hlt, fun j hj => ?_⟩
      · rw [hat, hrule]
        simp
      · rw [Bool.not_eq_true', decide_eq_false_iff_not]
        exact hnot j hj
    rw [hsome, Option.getD_some]

theorem lastRule_eq_none {x y : List Str} {s : ℕ} (hx : x.length = s + 1) :
    lastRule py (some s) (x ++ y) = none ↔ ∀ l ∈ y, isRule py l = false := by
  unfold lastRule
  rw [List.find?_eq_none]
  constructor
  · intro h l hl
    obtain ⟨k, hk, rfl⟩ := List.getElem_of_mem hl
    have := h (x.length + k) (by
      rw [List.mem_reverse, List.mem_range, List.length_append]
      omega)
    rw [List.getD_append_right _ _ _ _ (by omega), Nat.add_sub_cancel_left,
      List.getD_eq_getElem _ _ hk] at this
    have hs : (some s).all (decide <| · < x.length + k) = true := by
      simp
      omega
    simpa [hs] using this
  · intro h j hj
    rw [List.mem_reverse, List.mem_range, List.length_append] at hj
    by_cases hle : x.length ≤ j
    · obtain ⟨k, rfl⟩ := Nat.exists_eq_add_of_le hle
      have hk : k < y.length := by omega
      rw [List.getD_append_right _ _ _ _ (by omega), Nat.add_sub_cancel_left,
        List.getD_eq_getElem _ _ hk, h _ (List.getElem_mem hk)]
      simp
    · have hs : (some s).all (decide <| · < j) = false := by
        simp
        omega
      simp [hs]

/-- The search from the end finds an index behind every other rule's. -/
theorem find?_reverse_range {p : ℕ → Bool} : ∀ {n e j : ℕ},
    (List.range n).reverse.find? p = some e → j < n → p j = true → j ≤ e
  | 0, _, _, _, hj, _ => absurd hj (Nat.not_lt_zero _)
  | n + 1, e, j, h, hj, hp => by
    rw [List.range_succ, List.reverse_concat, List.find?_cons] at h
    split at h
    · cases h
      omega
    · rename_i hn
      have hne : j ≠ n := fun e => by simp [e ▸ hp] at hn
      exact find?_reverse_range h (by omega) hp

theorem lastRule_isRule {lines : List Str} {s : Option ℕ} {e : ℕ}
    (h : lastRule py s lines = some e) : e < lines.length ∧ isRule py (lines.getD e []) = true := by
  have hrule := List.find?_some h
  rw [Bool.and_eq_true] at hrule
  exact ⟨List.mem_range.1 (List.mem_reverse.1 (List.mem_of_find?_eq_some h)), hrule.1⟩

theorem le_lastRule {x t y : List Str} {s e : ℕ} {r : Str} (hx : x.length = s + 1)
    (hr : r ∈ y.head?) (hrule : isRule py r = true)
    (h : lastRule py (some s) (x ++ (t ++ y)) = some e) :
    x.length + t.length ≤ e ∧ e < (x ++ (t ++ y)).length := by
  obtain ⟨y', rfl⟩ : ∃ y', y = r :: y' := by
    rcases y with _ | ⟨r', y'⟩
    · cases hr
    · cases hr
      exact ⟨y', rfl⟩
  refine ⟨find?_reverse_range h ?_ ?_, (lastRule_isRule h).1⟩
  · rw [List.length_append, List.length_append, List.length_cons]
    omega
  · have hat : (x ++ (t ++ r :: y')).getD (x.length + t.length) [] = r := by
      rw [← List.append_assoc, List.getD_append_right _ _ _ _ (by rw [List.length_append]),
        List.length_append, Nat.sub_self]
      rfl
    rw [hat, hrule]
    simp
    omega

end Scan

section Window

variable {R : Str}

theorem keep_iff {l : Str} : (decide (l = R) || !"## [".toList.isPrefixOf l) = true
    ↔ l = R ∨ ¬ "## [".toList <+: l := by
  rw [Bool.or_eq_true, decide_eq_true_eq, Bool.not_eq_true', ← Bool.not_eq_true,
    List.isPrefixOf_iff_prefix]

theorem window_eq {pre w rest : List Str} (hpre : R ∉ pre)
    (hw : ∀ l ∈ w, l = R ∨ ¬ "## [".toList <+: l)
    (hrest : ∀ l ∈ rest.head?, l ≠ R ∧ "## [".toList <+: l) :
    window R (pre ++ R :: (w ++ rest)) = w := by
  have hpos : ∀ l ∈ pre, decide (l ≠ R) = true := fun l hl => by
    simpa using fun e : l = R => hpre (e ▸ hl)
  have hdrop : (pre ++ R :: (w ++ rest)).dropWhile (· ≠ R) = R :: (w ++ rest) := by
    rw [List.dropWhile_append_of_pos hpos, List.dropWhile_cons_of_neg (by simp)]
  rw [window, hdrop, List.drop_one, List.tail_cons, List.takeWhile_append_of_head fun l hl => ?_]
  · exact List.takeWhile_eq_self_iff.2 fun l hl => keep_iff.2 (hw l hl)
  · obtain ⟨hne, hsec⟩ := hrest l hl
    exact Bool.eq_false_iff.2 fun hk => (keep_iff.1 hk).elim hne fun hn => hn hsec

theorem mem_window {lines : List Str} {l : Str} (h : l ∈ window R lines) :
    l = R ∨ ¬ "## [".toList <+: l := by
  have hk := List.mem_takeWhile_imp h
  exact keep_iff.1 hk

theorem exists_window {lines : List Str} (h : R ∈ lines) : ∃ pre rest,
    lines = pre ++ R :: (window R lines ++ rest) ∧ R ∉ pre
      ∧ ∀ l ∈ rest.head?, l ≠ R ∧ "## [".toList <+: l := by
  obtain ⟨pre, tail, rfl, hpre⟩ := List.eq_append_cons_of_mem h
  set keep : Str → Bool := fun l => decide (l = R) || !"## [".toList.isPrefixOf l
  have hrest : ∀ l ∈ (tail.dropWhile keep).head?, l ≠ R ∧ "## [".toList <+: l := fun l hl => by
    have hn : ¬ (l = R ∨ ¬ "## [".toList <+: l) := fun hk =>
      absurd ((List.head_dropWhile l hl).symm.trans (keep_iff.2 hk)) (by decide)
    rw [not_or, not_not] at hn
    exact hn
  have hkept : ∀ l ∈ tail.takeWhile keep, l = R ∨ ¬ "## [".toList <+: l := fun l hl => by
    have hk := List.mem_takeWhile_imp hl
    exact keep_iff.1 hk
  have hwin := window_eq hpre hkept hrest
  rw [List.takeWhile_append_dropWhile] at hwin
  exact ⟨pre, tail.dropWhile keep, by rw [hwin, List.takeWhile_append_dropWhile], hpre, hrest⟩

end Window

/-! ## Where the bullets go -/

section Placing

variable {py : Python} {date : Str} {name : String}

/-- What a text is made of that the scan goes through. -/
structure Parts (R : Str) (lines pre w rest : List Str) : Prop where
  eq : lines = pre ++ R :: (w ++ rest)
  pre : R ∉ pre
  window : window R lines = w
  rest : ∀ l ∈ rest.head?, l ≠ R ∧ "## [".toList <+: l

theorem exists_parts {R : Str} {lines : List Str} (h : R ∈ lines) :
    ∃ pre rest, Parts R lines pre (window R lines) rest := by
  obtain ⟨pre, rest, heq, hpre, hrest⟩ := exists_window h
  exact ⟨pre, rest, heq, hpre, rfl, hrest⟩

/-- Where the bullets go by what the scan found, `t` being the lines of the section. -/
theorem placing_of_absent {R : Str} {lines x t y : List Str} {s : ℕ} {E : Option ℕ}
    (hscan : scan py R (categoryHeader name) 0 ⟨none, none, none, none⟩ lines
      = ⟨some s, E, none, none⟩) (heq : lines = x ++ (t ++ y)) (hx : x.length = s + 1)
    (ht : ∀ l ∈ t, isRule py l = false) (hE : ∀ e ∈ E, e = x.length + t.length
      ∨ x.length + t.length < e ∧ ∃ r ∈ y.head?, isRule py r = true)
    (hnone : E = none → y = [] ∨ ∃ r ∈ y.head?, isRule py r = true) :
    placing py R name lines = (true, x.length + t.length) := by
  have hend : ∃ e, (E.or (lastRule py (some s) lines)).getD lines.length = e
      ∧ (e = x.length + t.length
        ∨ x.length + t.length < e ∧ ∃ r ∈ y.head?, isRule py r = true) := by
    rcases E with _ | e
    · rw [Option.none_or, heq]
      rcases hnone rfl with rfl | ⟨r, hr, hrule⟩
      · have hlast : lastRule py (some s) (x ++ (t ++ [])) = none :=
          (lastRule_eq_none hx).2 (by simpa using ht)
        rw [hlast, Option.getD_none]
        exact ⟨_, rfl, Or.inl (by simp)⟩
      · rcases hlast : lastRule py (some s) (x ++ (t ++ y)) with _ | e
        · exact absurd ((lastRule_eq_none hx).1 hlast r
            (List.mem_append_right t (List.mem_of_mem_head? hr))) (by simp [hrule])
        · have hle := (le_lastRule hx hr hrule hlast).1
          rw [Option.getD_some]
          rcases hle.eq_or_lt with h | h
          · exact ⟨e, rfl, Or.inl h.symm⟩
          · exact ⟨e, rfl, Or.inr ⟨h, r, hr, hrule⟩⟩
    · exact ⟨e, rfl, hE e rfl⟩
  obtain ⟨e, he, hor⟩ := hend
  have hfirst := rule_getD ht hor
  unfold placing
  rw [hscan]
  dsimp only
  rw [he, Option.map_some, Option.getD_some, ← hx, heq, hfirst]

/-- The section that begins last in a window ends at its first rule. -/
theorem exists_close (py : Python) (R : Str) (win : List Str) : ∃ x t w w',
    win = w ++ w' ∧ R :: w = x ++ R :: t ∧ R ∉ t ∧ R ∉ w'
      ∧ (∀ l ∈ t, isRule py l = false) ∧ ∀ l ∈ w'.head?, isRule py l = true := by
  obtain ⟨x, hx, hv⟩ := List.cons_rtakeWhile R win
  set v := win.rtakeWhile (· ≠ R)
  set t := v.takeWhile fun l => !isRule py l
  set w' := v.dropWhile fun l => !isRule py l
  have htv : t ++ w' = v := List.takeWhile_append_dropWhile
  have ht : ∀ l ∈ t, isRule py l = false := fun l hl => by
    simpa using List.mem_takeWhile_imp hl
  have hw' : ∀ l ∈ w'.head?, isRule py l = true := fun l hl => by
    simpa using List.head_dropWhile l hl
  have hRt : R ∉ t := fun h => hv (htv ▸ List.mem_append_left w' h)
  have hRw' : R ∉ w' := fun h => hv (htv ▸ List.mem_append_right t h)
  rw [← htv] at hx
  rcases x with _ | ⟨r, x⟩
  · exact ⟨[], t, t, w', (List.cons.inj hx).2, rfl, hRt, hRw', ht, hw'⟩
  · obtain ⟨rfl, hx'⟩ := List.cons.inj hx
    have happ : x ++ R :: (t ++ w') = x ++ R :: t ++ w' := by simp
    exact ⟨R :: x, t, x ++ R :: t, w', hx'.trans happ, rfl, hRt, hRw', ht, hw'⟩

theorem rtakeWhile_of_cons {R : Str} {x t w : List Str} (h : R :: w = x ++ R :: t) (ht : R ∉ t) :
    w.rtakeWhile (· ≠ R) = t := by
  have hcons : (R :: w).rtakeWhile (· ≠ R) = t := by
    rw [h]
    exact List.rtakeWhile_last ht
  obtain ⟨x', hx', hn⟩ := List.cons_rtakeWhile R w
  rw [hx', List.rtakeWhile_last hn] at hcons
  exact hcons

/-- Without the category's header the scan passes all of the window. -/
theorem scan_window (py : Python) {R : Str} {lines pre win rest x v : List Str}
    (hparts : Parts R lines pre win rest) (hH : categoryHeader name ∉ win) (hx : R :: win = x ++ R :: v) (hv : R ∉ v) :
    scan py R (categoryHeader name) 0 ⟨none, none, none, none⟩ lines
      = scan py R (categoryHeader name) (pre.length + (R :: win).length)
        ⟨some (pre.length + x.length), none, none, none⟩ rest := by
  have hpass : ∀ l ∈ R :: win, l = R ∨ ¬ "## [".toList <+: l ∧ l ≠ categoryHeader name :=
    fun l hl => by
      rcases List.mem_cons.1 hl with rfl | hl
      · exact Or.inl rfl
      · exact (mem_window (hparts.window ▸ hl)).imp_right fun hsec => ⟨hsec, fun h => hH (h ▸ hl)⟩
  have hlast : lastStart R pre.length none (R :: win) = some (pre.length + x.length) := by
    rw [hx, lastStart_last _ _ hv]
  rw [hparts.eq, scan_pre _ hparts.pre, Nat.zero_add, ← List.cons_append, scan_before _ hpass,
    hlast]

/-- Without the category's header the bullets go to the end of the section that begins last. -/
theorem placing_absent {lines : List Str} (hR : releaseHeader date ∈ lines)
    (hH : categoryHeader name ∉ window (releaseHeader date) lines) : ∃ pre w w' rest,
      Parts (releaseHeader date) lines pre (w ++ w') rest
      ∧ releaseHeader date ∉ w' ∧ (∀ l ∈ w'.head?, isRule py l = true)
      ∧ (∀ l ∈ w.rtakeWhile (· ≠ releaseHeader date), isRule py l = false)
      ∧ placing py (releaseHeader date) name lines
        = (true, (pre ++ releaseHeader date :: w).length) := by
  obtain ⟨pre, rest, hparts⟩ := exists_parts hR
  set R := releaseHeader date
  obtain ⟨x, t, w, w', hw, hwt, hRt, hRw', ht, hw'⟩ := exists_close py R (window R lines)
  rw [hw] at hparts hH
  refine ⟨pre, w, w', rest, hparts, hRw', hw', ?_, ?_⟩
  · rw [rtakeWhile_of_cons hwt hRt]
    exact ht
  have hx : R :: (w ++ w') = x ++ R :: (t ++ w') := by
    rw [← List.cons_append, hwt, List.append_assoc, List.cons_append]
  have hRv : R ∉ t ++ w' := fun h => (List.mem_append.1 h).elim hRt hRw'
  have hscan := scan_window py hparts hH hx hRv
  have hlines : lines = (pre ++ x ++ [R]) ++ (t ++ (w' ++ rest)) := by
    rw [hparts.eq, ← List.cons_append, hx]
    simp
  have hlen : (pre ++ x ++ [R]).length = pre.length + x.length + 1 := by simp; omega
  have hpos : (pre ++ R :: w).length = (pre ++ x ++ [R]).length + t.length := by
    rw [hwt]
    simp
    omega
  have hwin' : (R :: (w ++ w')).length = x.length + 1 + t.length + w'.length := by
    rw [hx]
    simp
    omega
  rw [hpos]
  rcases hrest : rest with _ | ⟨l, rest'⟩ <;> rw [hrest] at hscan hlines
  · refine placing_of_absent hscan hlines hlen ht (fun e he => by cases he) fun _ => ?_
    rw [List.append_nil]
    rcases hw'eq : w' with _ | ⟨r, w''⟩
    · exact Or.inl rfl
    · exact Or.inr ⟨r, rfl, hw' r (by rw [hw'eq]; rfl)⟩
  · obtain ⟨hne, hsec⟩ := hparts.rest l (by rw [hrest]; rfl)
    rw [scan, if_neg hne, if_pos ⟨rfl, hsec⟩] at hscan
    refine placing_of_absent hscan hlines hlen ht ?_ fun h => by cases h
    rintro e ⟨⟩
    rcases hw'eq : w' with _ | ⟨r, w''⟩ <;> rw [hw'eq] at hwin'
    · left
      rw [List.length_nil] at hwin'
      omega
    · right
      have hlt : 0 < (r :: w'').length := Nat.succ_pos _
      exact ⟨by omega, r, rfl, hw' r (by rw [hw'eq]; rfl)⟩

/-- What is read of a window that has the category's header. -/
structure Reads (py : Python) (R H : Str) (win a u w : List Str) : Prop where
  eq : win = a ++ H :: (u ++ w)
  first : H ∉ a
  passed : ∀ l ∈ u, l = R ∨ l = H ∨ ¬ Stops py l
  stop : ∀ l ∈ w.head?, l ≠ R ∧ l ≠ H ∧ Stops py l

theorem passed_iff {R H l : Str} :
    (decide (l = R) || decide (l = H) || !("### ".toList.isPrefixOf l || isRule py l)) = true
      ↔ l = R ∨ l = H ∨ ¬ Stops py l := by
  rw [Bool.or_eq_true, Bool.or_eq_true, decide_eq_true_eq, decide_eq_true_eq, Bool.not_eq_true',
    ← Bool.not_eq_true, Bool.or_eq_true, List.isPrefixOf_iff_prefix, or_assoc]
  rfl

theorem not_passed_iff {R H l : Str} :
    (decide (l = R) || decide (l = H) || !("### ".toList.isPrefixOf l || isRule py l)) = false
      ↔ l ≠ R ∧ l ≠ H ∧ Stops py l := by
  rw [← Bool.not_eq_true, passed_iff, not_or, not_or, not_not]

theorem Reads.reading {R H : Str} {win a u w : List Str} (h : Reads py R H win a u w) :
    reading py R H win = a ++ H :: u := by
  have hpos : ∀ l ∈ a, decide (l ≠ H) = true := fun l hl => by
    simpa using fun e : l = H => h.first (e ▸ hl)
  have hself : (decide (H = R) || decide (H = H)
      || !("### ".toList.isPrefixOf H || isRule py H)) = true := passed_iff.2 (Or.inr (Or.inl rfl))
  unfold UpdateChangelog.reading
  rw [h.eq, List.takeWhile_append_of_pos hpos, List.dropWhile_append_of_pos hpos,
    List.takeWhile_cons_of_neg (by simp), List.dropWhile_cons_of_neg (by simp), List.append_nil,
    List.takeWhile_cons_of_pos (p := fun l => decide (l = R) || decide (l = H)
      || !("### ".toList.isPrefixOf l || isRule py l)) hself,
    List.takeWhile_append_of_head fun l hl => not_passed_iff.2 (h.stop l hl),
    List.takeWhile_eq_self_iff.2 fun l hl => passed_iff.2 (h.passed l hl)]

theorem exists_reads (py : Python) (R : Str) {H : Str} {win : List Str} (hH : H ∈ win) :
    ∃ a u w, Reads py R H win a u w := by
  obtain ⟨a, d, rfl, ha⟩ := List.eq_append_cons_of_mem hH
  set passed : Str → Bool := fun l =>
    decide (l = R) || decide (l = H) || !("### ".toList.isPrefixOf l || isRule py l)
  refine ⟨a, d.takeWhile passed, d.dropWhile passed, ?_, ha, fun l hl => ?_, fun l hl => ?_⟩
  · rw [List.takeWhile_append_dropWhile]
  · have := List.mem_takeWhile_imp hl
    exact passed_iff.1 this
  · exact not_passed_iff.1 (List.head_dropWhile l hl)

/-- With the category's header the scan passes all that is read. -/
theorem scan_reads {lines pre rest a u w x v : List Str}
    (hparts : Parts (releaseHeader date) lines pre (window (releaseHeader date) lines) rest)
    (hreads : Reads py (releaseHeader date) (categoryHeader name)
      (window (releaseHeader date) lines) a u w)
    (hx : releaseHeader date :: (a ++ categoryHeader name :: u) = x ++ releaseHeader date :: v)
    (hv : releaseHeader date ∉ v) :
    ∃ c, scan py (releaseHeader date) (categoryHeader name) 0 ⟨none, none, none, none⟩ lines
      = scan py (releaseHeader date) (categoryHeader name)
        (pre.length + (releaseHeader date :: a).length + 1 + u.length)
        ⟨some (pre.length + x.length), none, some c, none⟩ (w ++ rest) := by
  have hHR := categoryHeader_ne_releaseHeader name date
  set R := releaseHeader date
  set H := categoryHeader name
  have hsec : ∀ l ∈ a ++ H :: (u ++ w), l = R ∨ ¬ "## [".toList <+: l := fun l hl =>
    mem_window (hreads.eq ▸ hl)
  have hsecH : ¬ "## [".toList <+: H := (hsec H (by simp)).resolve_left hHR
  have hlines : lines = pre ++ ((R :: a) ++ H :: (u ++ (w ++ rest))) := by
    rw [hparts.eq, hreads.eq]
    simp
  have hbefore : ∀ l ∈ R :: a, l = R ∨ ¬ "## [".toList <+: l ∧ l ≠ H := fun l hl => by
    rcases List.mem_cons.1 hl with rfl | hl
    · exact Or.inl rfl
    · exact (hsec l (List.mem_append_left _ hl)).imp_right fun hs =>
        ⟨hs, fun h => hreads.first (h ▸ hl)⟩
  have hafter : ∀ l ∈ u, l = R ∨ ¬ "## [".toList <+: l ∧ (l = H ∨ ¬ Stops py l) := fun l hl => by
    have hs := hsec l (by simp [hl])
    rcases hreads.passed l hl with h | h
    · exact Or.inl h
    · exact hs.imp_right fun hs => ⟨hs, h⟩
  have hsome : (lastStart R pre.length none (R :: a)).isSome := by
    rw [lastStart, if_pos rfl]
    exact lastStart_isSome rfl
  have hlast : lastStart R (pre.length + (R :: a).length + 1)
      (lastStart R pre.length none (R :: a)) u = some (pre.length + x.length) := by
    have := lastStart_last (x := x) pre.length none hv
    rw [← hx, ← List.cons_append, lastStart_append, lastStart, if_neg hHR] at this
    exact this
  obtain ⟨c, hc⟩ := scan_after (c := pre.length + (R :: a).length) (w ++ rest) hsome hafter
  refine ⟨c, ?_⟩
  rw [hlines, scan_pre _ hparts.pre, Nat.zero_add, scan_before _ hbefore, scan, if_neg hHR,
    if_neg fun hn => hsecH hn.2, if_pos ⟨hsome, rfl⟩, hc, hlast]

/-- At the end of the file the bullets go to the last rule of the section, if there is one. -/
theorem lastRule_reads {R H : Str} {pre a u x v lines : List Str}
    (hlines : lines = pre ++ R :: (a ++ H :: u)) (hx : R :: (a ++ H :: u) = x ++ R :: v)
    (hno : ∀ l ∈ H :: u, isRule py l = false) :
    ((lastRule py (some (pre.length + x.length)) lines).getD lines.length = lines.length
        ∨ (lastRule py (some (pre.length + x.length)) lines).getD lines.length
          ≤ (pre ++ R :: a).length)
      ∧ ((∀ l ∈ v, isRule py l = false) →
        (lastRule py (some (pre.length + x.length)) lines).getD lines.length = lines.length) := by
  have hlen : (pre ++ x ++ [R]).length = pre.length + x.length + 1 := by simp; omega
  have hv : lines = (pre ++ x ++ [R]) ++ v := by
    rw [hlines, hx]
    simp
  have hnone : lastRule py (some (pre.length + x.length)) lines = none
      ↔ ∀ l ∈ v, isRule py l = false := by
    rw [hv]
    exact lastRule_eq_none hlen
  rcases hlast : lastRule py (some (pre.length + x.length)) lines with _ | e
  · exact ⟨Or.inl rfl, fun _ => rfl⟩
  · refine ⟨Or.inr ?_, fun hrule => ?_⟩
    · obtain ⟨hlt, hrule⟩ := lastRule_isRule hlast
      rw [Option.getD_some]
      by_contra hle
      obtain ⟨k, rfl⟩ := Nat.exists_eq_add_of_le (Nat.le_of_not_le hle)
      have hsplit : lines = (pre ++ R :: a) ++ (H :: u) := by
        rw [hlines]
        simp
      have hk : k < (H :: u).length := by
        have hlen' := congrArg List.length hsplit
        rw [List.length_append] at hlen'
        omega
      rw [hsplit, List.getD_append_right _ _ _ _ (by omega), Nat.add_sub_cancel_left,
        List.getD_eq_getElem _ _ hk, hno _ (List.getElem_mem hk)] at hrule
      cases hrule
    · rw [hnone.2 hrule] at hlast
      cases hlast

/-- With the category's header the bullets go to where the reading ends, unless that is the end of
the file: then they go to the last rule in front of the header, if there is one. -/
theorem placing_present (hpy : PlainMarks py) {lines pre rest a u w : List Str}
    (hparts : Parts (releaseHeader date) lines pre (window (releaseHeader date) lines) rest)
    (hreads : Reads py (releaseHeader date) (categoryHeader name)
      (window (releaseHeader date) lines) a u w) :
    ∃ pos, placing py (releaseHeader date) name lines = (false, pos)
      ∧ (pos = (pre ++ releaseHeader date :: (a ++ categoryHeader name :: u)).length
        ∨ pos ≤ (pre ++ releaseHeader date :: a).length)
      ∧ ((∀ l ∈ (a ++ categoryHeader name :: u).rtakeWhile (· ≠ releaseHeader date),
          isRule py l = false) →
        pos = (pre ++ releaseHeader date :: (a ++ categoryHeader name :: u)).length) := by
  have hruleR := isRule_releaseHeader hpy date
  have hruleH : isRule py (categoryHeader name) = false :=
    isRule_of_head hpy.hash (Or.inl (by decide))
  obtain ⟨x, hx, hv⟩ :=
    List.cons_rtakeWhile (releaseHeader date) (a ++ categoryHeader name :: u)
  obtain ⟨c, hscan⟩ := scan_reads hparts hreads hx hv
  set R := releaseHeader date
  set H := categoryHeader name with hHdef
  have hpos : (pre ++ R :: (a ++ H :: u)).length = pre.length + (R :: a).length + 1 + u.length := by
    simp
    omega
  unfold placing
  rw [← hHdef]
  rcases hw : w with _ | ⟨l, w'⟩
  · rw [hw, List.nil_append] at hscan
    rcases hrest : rest with _ | ⟨l, rest'⟩
    · rw [hrest, scan] at hscan
      rw [hscan]
      have hlines : lines = pre ++ R :: (a ++ H :: u) := by
        rw [hparts.eq, hreads.eq, hw, hrest, List.append_nil, List.append_nil]
      have hno : ∀ l ∈ H :: u, isRule py l = false := fun l hl => by
        rcases List.mem_cons.1 hl with rfl | hl
        · exact hruleH
        · rcases hreads.passed l hl with rfl | rfl | h
          · exact hruleR
          · exact hruleH
          · exact Bool.eq_false_iff.2 fun hr => h (Or.inr hr)
      obtain ⟨hor, hall⟩ := lastRule_reads hlines hx hno
      rw [← hlines]
      exact ⟨_, rfl, hor, hall⟩
    · obtain ⟨hne, hnext⟩ := hparts.rest l (by rw [hrest]; rfl)
      rw [hrest, scan, if_neg hne, if_pos ⟨rfl, hnext⟩] at hscan
      rw [hscan, hpos]
      exact ⟨_, rfl, Or.inl rfl, fun _ => rfl⟩
  · obtain ⟨hne, hneH, hstop⟩ := hreads.stop l (by rw [hw]; rfl)
    have hmem : l ∈ window R lines := by
      rw [hreads.eq, hw]
      simp
    have hsecl : ¬ "## [".toList <+: l := (mem_window hmem).resolve_left hne
    have hend : (some c).isSome ∧ ("### ".toList <+: l ∨ "## [".toList <+: l ∨ isRule py l) :=
      ⟨rfl, hstop.imp_right Or.inr⟩
    rw [hw, List.cons_append, scan, if_neg hne, if_neg fun hn => hsecl hn.2,
      if_neg fun hn => hneH hn.2, if_pos hend] at hscan
    rw [hscan, hpos]
    exact ⟨_, rfl, Or.inl rfl, fun _ => rfl⟩

end Placing

end UpdateChangelog

end BananaWrt
