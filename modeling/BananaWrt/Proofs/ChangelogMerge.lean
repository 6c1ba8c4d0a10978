import BananaWrt.Proofs.ChangelogPlacing

/-!
# Merging commits

One category's merge keeps the lines and puts its bullets under its header if and only if the header
is placeable before. What it puts in is nothing to the other categories, so all of this can be asked
of the file as it was read.
-/

namespace BananaWrt

namespace UpdateChangelog

open Regex

variable {py : Python} {date : Str} {name : String}

section Filter

theorem not_marks {l m : Str} (hm : marks py m = true) (h : marks py l = false) :
    decide (l ≠ m) = true := decide_eq_true (ne_of_marks h hm)

theorem window_filter {R : Str} (hR : marks py R = true) (lines : List Str) :
    (window R lines).filter (marks py) = window R (lines.filter (marks py)) := by
  unfold window
  rw [List.filter_takeWhile fun l hl => keep_iff.2 (Or.inr fun h => ?_), List.filter_behind hR]
  have hc := closes_of_marks hl
  rw [closes, List.isPrefixOf_iff_prefix.2 h] at hc
  exact absurd hc (by simp)

theorem reading_filter {R H : Str} (hH : marks py H = true) (win : List Str) :
    (reading py R H win).filter (marks py) = reading py R H (win.filter (marks py)) := by
  have hne : ∀ l, marks py l = false → decide (l ≠ H) = true := fun l hl => not_marks hH hl
  unfold reading
  rw [List.filter_append, List.filter_takeWhile hne,
    List.filter_takeWhile fun l hl => passed_iff.2 (Or.inr (Or.inr (not_stops hl))),
    List.filter_dropWhile hne]

/-- Only headers and rules decide whether a category is placeable. -/
theorem placeable_filter {R H : Str} (hR : marks py R = true) (hH : marks py H = true)
    (lines : List Str) :
    Placeable py R H lines ↔ Placeable py R H (lines.filter (marks py)) := by
  have hrel : R ∈ lines.filter (marks py) ↔ R ∈ lines := by
    rw [List.mem_filter, and_iff_left hR]
  have hv : (reading py R H (window R (lines.filter (marks py)))).rtakeWhile (· ≠ R)
      = ((reading py R H (window R lines)).rtakeWhile (· ≠ R)).filter (marks py) := by
    rw [List.filter_rtakeWhile fun l hl => not_marks hR hl, reading_filter hH, window_filter hR]
  have hwin : H ∈ window R (lines.filter (marks py)) ↔ H ∈ window R lines := by
    rw [← window_filter hR, List.mem_filter, and_iff_left hH]
  have hrule : ∀ v : List Str, (∀ l ∈ v.filter (marks py), isRule py l = false)
      ↔ ∀ l ∈ v, isRule py l = false := fun v => by
    constructor
    · intro h l hl
      rcases hr : isRule py l with _ | _
      · rfl
      · have hm : marks py l = true := marks_of_closes (by rw [closes, hr, Bool.or_true])
        rw [← hr, h l (List.mem_filter.2 ⟨hl, hm⟩)]
    · exact fun h l hl => h l (List.mem_of_mem_filter hl)
  constructor
  · rintro ⟨h, hc⟩
    refine ⟨hrel.2 h, fun hw => ?_⟩
    obtain ⟨hm, hno⟩ := hc (hwin.1 hw)
    rw [hv, hrule, List.mem_filter]
    exact ⟨⟨hm, hH⟩, hno⟩
  · rintro ⟨h, hc⟩
    refine ⟨hrel.1 h, fun hw => ?_⟩
    have := hc (hwin.2 hw)
    rw [hv, hrule, List.mem_filter] at this
    exact ⟨this.1.1, this.2⟩

end Filter

section Inside

theorem inside_iff {R H : Str} {A : List Str} : Inside py R H A
    ↔ (A.filter (closes py)).getLast? = some R ∧ (A.filter (marks py)).getLast? = some H :=
  ⟨fun h => ⟨h.release, h.category⟩, fun h => ⟨h.1, h.2⟩⟩

theorem Inside.mem {R H : Str} {A : List Str} (h : Inside py R H A) : R ∈ A :=
  List.mem_of_mem_filter (List.mem_of_getLast? h.release)

/-- What is read of a window is in the section up to its end if and only if the header is in the
section that begins last, with no rule. -/
theorem inside_reading {lines a u w : List Str} (pre : List Str)
    (hreads : Reads py (releaseHeader date) (categoryHeader name)
      (window (releaseHeader date) lines) a u w) :
    Inside py (releaseHeader date) (categoryHeader name)
        (pre ++ releaseHeader date :: (a ++ categoryHeader name :: u))
      ↔ categoryHeader name
          ∈ (a ++ categoryHeader name :: u).rtakeWhile (· ≠ releaseHeader date)
        ∧ ∀ l ∈ (a ++ categoryHeader name :: u).rtakeWhile (· ≠ releaseHeader date),
          isRule py l = false := by
  have hHR := categoryHeader_ne_releaseHeader name date
  have hR : closes py (releaseHeader date) = true := closes_releaseHeader date
  have hH : marks py (categoryHeader name) = true := marks_categoryHeader name
  set R := releaseHeader date
  set H := categoryHeader name
  obtain ⟨x, hx, hv⟩ := List.cons_rtakeWhile R (a ++ H :: u)
  have hsub : (a ++ H :: u).rtakeWhile (· ≠ R) <:+ a ++ H :: u := List.rtakeWhile_suffix _ _
  set v := (a ++ H :: u).rtakeWhile (· ≠ R)
  have heq : pre ++ R :: (a ++ H :: u) = (pre ++ x) ++ R :: v := by
    rw [hx]
    simp
  have hsec : ∀ l ∈ v, l ≠ R ∧ ¬ "## [".toList <+: l := fun l hl => by
    have hne : l ≠ R := fun h => hv (h ▸ hl)
    have hwin : l ∈ window R lines := by
      rw [hreads.eq, ← List.cons_append, ← List.append_assoc]
      exact List.mem_append_left w (hsub.subset hl)
    exact ⟨hne, (mem_window hwin).resolve_left hne⟩
  have hclose : ∀ l ∈ v, closes py l = isRule py l := fun l hl => by
    have hpre : "## [".toList.isPrefixOf l = false :=
      Bool.eq_false_iff.2 fun h => (hsec l hl).2 (List.isPrefixOf_iff_prefix.1 h)
    rw [closes, hpre, Bool.false_or]
  constructor
  · rintro ⟨hc, hm⟩
    rw [heq] at hc hm
    refine ⟨(List.mem_of_filter_last (marks_of_closes hR) hm).resolve_left hHR, fun l hl => ?_⟩
    rw [← hclose l hl]
    exact (List.filter_last_iff hR hv).1 hc l hl
  · rintro ⟨hHv, hno⟩
    refine ⟨?_, ?_⟩
    · rw [heq, List.filter_last_iff hR hv]
      intro l hl
      rw [hclose l hl]
      exact hno l hl
    · obtain ⟨v₁, v₂, hv₁₂, hH₂⟩ := List.exists_last_eq hHv
      have heq' : pre ++ R :: (a ++ H :: u) = (pre ++ x ++ R :: v₁) ++ H :: v₂ := by
        rw [heq, hv₁₂]
        simp
      rw [heq', List.filter_last_iff hH hH₂]
      intro l hl
      have hlv : l ∈ v := by
        rw [hv₁₂]
        simp [hl]
      have hu : l ∈ u := by
        have h₁ : v₂ <:+ a ++ H :: u := by
          refine List.IsSuffix.trans ?_ hsub
          rw [hv₁₂]
          exact ⟨v₁ ++ [H], by simp⟩
        rcases List.suffix_or_suffix_of_suffix h₁ (List.suffix_append a (H :: u)) with h | h
        · exact (List.mem_cons.1 (h.subset hl)).resolve_left fun e => hH₂ (e ▸ hl)
        · exact absurd (h.subset List.mem_cons_self) hH₂
      have hstop : ¬ Stops py l :=
        ((hreads.passed l hu).resolve_left (hsec l hlv).1).resolve_left fun e => hH₂ (e ▸ hl)
      exact Bool.eq_false_iff.2 fun h => (marks_iff.1 h).elim (hsec l hlv).2 hstop

/-- Nothing is under a header that is not there yet. -/
theorem not_inside {R H : Str} {A pre a : List Str} (hR : marks py R = true) (hHR : H ≠ R)
    (hpre : R ∉ pre) (ha : H ∉ a) (hA : A <+: pre ++ R :: a) : ¬ Inside py R H A := fun h => by
  have hassoc : pre ++ R :: a = pre ++ [R] ++ a := by simp
  have hb : pre ++ [R] <+: pre ++ R :: a := hassoc ▸ List.prefix_append _ _
  have hin : ∀ a', A = pre ++ R :: a' → a' <+: a → False := fun a' heq hpa => by
    have hm := h.category
    rw [heq] at hm
    exact (List.mem_of_filter_last hR hm).elim hHR fun hH => ha (hpa.subset hH)
  rcases List.prefix_or_prefix_of_prefix hA hb with hp | ⟨a', ha'⟩
  · rcases List.prefix_concat_iff.1 hp with heq | hp
    · exact hin [] heq List.nil_prefix
    · exact hpre (hp.subset h.mem)
  · rw [← ha', List.append_assoc] at hA
    exact hin a' (by rw [← ha', List.append_assoc]; rfl)
      ((List.cons_prefix_cons.1 ((List.prefix_append_right_inj pre).1 hA)).2)

/-- The lines `B` behind `A` begin where the section that begins last ends. -/
structure SectionEnd (py : Python) (R : Str) (A B : List Str) : Prop where
  parts : ∃ pre w w' rest, A = pre ++ R :: w ∧ B = w' ++ rest ∧ Parts R (A ++ B) pre (w ++ w') rest
    ∧ R ∉ w' ∧ ∀ l ∈ w'.head?, isRule py l = true
  last : ∃ x t, A = x ++ R :: t ∧ ∀ l ∈ t, l ∈ window R (A ++ B) ∧ closes py l = false

theorem SectionEnd.next {R : Str} {A B : List Str} (h : SectionEnd py R A B) :
    ∀ l ∈ B.head?, closes py l = true := by
  obtain ⟨pre, w, w', rest, -, rfl, hparts, -, hrule⟩ := h.parts
  intro l hl
  rcases w' with _ | ⟨r, w'⟩
  · rw [closes, List.isPrefixOf_iff_prefix.2 (hparts.rest l hl).2, Bool.true_or]
  · cases hl
    rw [closes, hrule l rfl, Bool.or_true]

theorem sectionEnd_of_parts {R : Str} {lines pre w w' rest : List Str}
    (hparts : Parts R lines pre (w ++ w') rest) (hRw' : R ∉ w')
    (hrule : ∀ l ∈ w'.head?, isRule py l = true)
    (hno : ∀ l ∈ w.rtakeWhile (· ≠ R), isRule py l = false) :
    SectionEnd py R (pre ++ R :: w) (w' ++ rest) := by
  have heq : lines = (pre ++ R :: w) ++ (w' ++ rest) := by
    rw [hparts.eq]
    simp
  subst heq
  refine ⟨⟨pre, w, w', rest, rfl, rfl, hparts, hRw', hrule⟩, ?_⟩
  obtain ⟨x, hx, hv⟩ := List.cons_rtakeWhile R w
  have happ : pre ++ R :: w = (pre ++ x) ++ R :: w.rtakeWhile (· ≠ R) := by
    conv_lhs => rw [hx]
    simp
  refine ⟨_, _, happ, fun l hl => ?_⟩
  have hw : l ∈ window R ((pre ++ R :: w) ++ (w' ++ rest)) := by
    rw [hparts.window]
    exact List.mem_append_left w' ((List.rtakeWhile_suffix _ _).subset hl)
  have hsec : ¬ "## [".toList <+: l := (mem_window hw).resolve_left fun h => hv (h ▸ hl)
  have hpre : "## [".toList.isPrefixOf l = false :=
    Bool.eq_false_iff.2 fun h => hsec (List.isPrefixOf_iff_prefix.1 h)
  refine ⟨hw, ?_⟩
  rw [closes, hpre, Bool.false_or]
  exact hno l hl

/-- The lines in front of the bullets are those of the category if and only if it is placeable. -/
theorem inside_take {lines pre rest a u w : List Str} {pos : ℕ}
    (hparts : Parts (releaseHeader date) lines pre (window (releaseHeader date) lines) rest)
    (hreads : Reads py (releaseHeader date) (categoryHeader name)
      (window (releaseHeader date) lines) a u w)
    (hpos : pos = (pre ++ releaseHeader date :: (a ++ categoryHeader name :: u)).length
      ∨ pos ≤ (pre ++ releaseHeader date :: a).length)
    (hend : (∀ l ∈ (a ++ categoryHeader name :: u).rtakeWhile (· ≠ releaseHeader date),
        isRule py l = false) →
      pos = (pre ++ releaseHeader date :: (a ++ categoryHeader name :: u)).length) :
    pos ≤ lines.length
      ∧ (Inside py (releaseHeader date) (categoryHeader name) (lines.take pos)
        ↔ Placeable py (releaseHeader date) (categoryHeader name) lines) := by
  have hHR := categoryHeader_ne_releaseHeader name date
  have hcR : closes py (releaseHeader date) = true := closes_releaseHeader date
  have hR : releaseHeader date ∈ lines := by
    rw [hparts.eq]
    simp
  have hH : categoryHeader name ∈ window (releaseHeader date) lines := by
    rw [hreads.eq]
    simp
  have hin := inside_reading pre hreads
  have hplace : Placeable py (releaseHeader date) (categoryHeader name) lines
      ↔ categoryHeader name
          ∈ (a ++ categoryHeader name :: u).rtakeWhile (· ≠ releaseHeader date)
        ∧ ∀ l ∈ (a ++ categoryHeader name :: u).rtakeWhile (· ≠ releaseHeader date),
          isRule py l = false := by
    rw [← hreads.reading]
    exact ⟨fun h => h.category hH, fun h => ⟨hR, fun _ => h⟩⟩
  have hread : pre ++ releaseHeader date :: (a ++ categoryHeader name :: u) <+: lines := by
    refine ⟨w ++ rest, ?_⟩
    conv_rhs => rw [hparts.eq, hreads.eq]
    simp
  have hfront : pre ++ releaseHeader date :: a <+: lines :=
    (List.prefix_append_right_inj pre).2 (List.prefix_append (releaseHeader date :: a) _)
      |>.trans hread
  rcases hpos with h | h
  · refine ⟨h ▸ hread.length_le, ?_⟩
    rw [h, ← List.prefix_iff_eq_take.1 hread, hin, hplace]
  · refine ⟨h.trans hfront.length_le, iff_of_false ?_ fun hp => ?_⟩
    · refine not_inside (marks_of_closes hcR) hHR hparts.pre hreads.first ?_
      rw [List.prefix_iff_eq_take.1 hfront]
      exact List.take_prefix_take_left h
    · have := hend (hplace.1 hp).2
      simp only [List.length_append, List.length_cons] at this h
      omega

/-- Where the bullets of a category go. -/
theorem placing_cases (name : String) (hpy : PlainMarks py) {lines : List Str}
    (hR : releaseHeader date ∈ lines) :
    ∃ A B, lines = A ++ B
      ∧ (categoryHeader name ∉ window (releaseHeader date) lines
          ∧ placing py (releaseHeader date) name lines = (true, A.length)
          ∧ SectionEnd py (releaseHeader date) A B
        ∨ categoryHeader name ∈ window (releaseHeader date) lines
          ∧ placing py (releaseHeader date) name lines = (false, A.length)
          ∧ (Inside py (releaseHeader date) (categoryHeader name) A
            ↔ Placeable py (releaseHeader date) (categoryHeader name) lines)) := by
  by_cases hH : categoryHeader name ∈ window (releaseHeader date) lines
  · obtain ⟨pre, rest, hparts⟩ := exists_parts hR
    obtain ⟨a, u, w, hreads⟩ := exists_reads py (releaseHeader date) hH
    obtain ⟨pos, hplacing, hpos, hend⟩ := placing_present hpy hparts hreads
    obtain ⟨hle, hin⟩ := inside_take hparts hreads hpos hend
    refine ⟨lines.take pos, lines.drop pos, (List.take_append_drop pos lines).symm,
      Or.inr ⟨hH, ?_, hin⟩⟩
    rw [hplacing, List.length_take, min_eq_left hle]
  · obtain ⟨pre, w, w', rest, hparts, hRw', hrule, hno, hplacing⟩ := placing_absent hR hH
    have heq : lines = (pre ++ releaseHeader date :: w) ++ (w' ++ rest) := by
      conv_lhs => rw [hparts.eq]
      simp
    exact ⟨_, _, heq, Or.inl ⟨hH, hplacing, sectionEnd_of_parts hparts hRw' hrule hno⟩⟩

end Inside

section Frame

variable {R H : Str}

theorem reading_append {W V : List Str} (hH : H ∈ W)
    (hV : ∀ l ∈ V.head?, l ≠ R ∧ l ≠ H ∧ Stops py l) :
    reading py R H (W ++ V) = reading py R H W := by
  obtain ⟨a, u, w, h⟩ := exists_reads py R hH
  have h' : Reads py R H (W ++ V) a u (w ++ V) :=
    { eq := by rw [h.eq]; simp
      first := h.first
      passed := h.passed
      stop := fun l hl => by
        rcases hw : w with _ | ⟨m, w'⟩
        · rw [hw, List.nil_append] at hl
          exact hV l hl
        · rw [hw] at hl
          exact h.stop l (by rw [hw]; exact hl) }
  rw [h'.reading, h.reading]

/-- A header behind the rule that closes the section that begins last is not placeable. -/
theorem not_placeable {lines W w' : List Str} (hwin : window R lines = W ++ w') (hH : H ∉ W)
    (hH' : H ∈ w') (hrH : isRule py H = false) (hR : R ∉ w')
    (hrule : ∀ l ∈ w'.head?, isRule py l = true) : ¬ Placeable py R H lines := fun h => by
  have hmem : H ∈ window R lines := by
    rw [hwin]
    exact List.mem_append_right W hH'
  obtain ⟨a, u, w, hreads⟩ := exists_reads py R hmem
  have hno := (h.category hmem).2
  rw [hreads.reading] at hno
  rcases w' with _ | ⟨r, w''⟩
  · cases hH'
  have hr : isRule py r = true := hrule r rfl
  have hne : H ≠ r := fun e => by simp [← e, hrH] at hr
  have hHr : H ∉ W ++ [r] := by
    rw [List.mem_append, not_or, List.mem_singleton]
    exact ⟨hH, hne⟩
  have h₁ : W ++ [r] <+: window R lines := ⟨w'', by rw [hwin]; simp⟩
  have h₂ : a ++ [H] <+: window R lines := ⟨u ++ w, by rw [hreads.eq]; simp⟩
  -- what is read goes on behind the rule
  obtain ⟨q, hq⟩ : W ++ [r] <+: a := by
    rcases List.prefix_or_prefix_of_prefix h₁ h₂ with hp | hp
    · rcases List.prefix_concat_iff.1 hp with e | hp
      · exact absurd (by rw [e]; simp) hHr
      · exact hp
    · exact absurd (hp.subset (by simp)) hHr
  have hread : a ++ H :: u = W ++ r :: (q ++ H :: u) := by
    rw [← hq]
    simp
  have hpre : r :: (q ++ H :: u) <+: r :: w'' := by
    refine (List.prefix_append_right_inj W).1 ⟨w, ?_⟩
    rw [← hread, ← hwin, hreads.eq]
    simp
  have hmemv := List.mem_rtakeWhile_append (x := W) (fun hm => hR (hpre.subset hm))
    (List.mem_cons_self (a := r) (l := q ++ H :: u))
  rw [← hread] at hmemv
  rw [hno r hmemv] at hr
  cases hr

/-- Lines of another category that are put in where the section ends change nothing. -/
theorem placeable_frame {A B N : List Str} (h : SectionEnd py R A B) (hrH : isRule py H = false)
    (hRr : isRule py R = false) (hN : ∀ l ∈ N, l ≠ H ∧ closes py l = false)
    (hNR : R ∉ N) (hhead : ∀ l ∈ N.head?, Stops py l) :
    Placeable py R H (A ++ (N ++ B)) ↔ Placeable py R H (A ++ B) := by
  obtain ⟨pre, w, w', rest, rfl, rfl, hparts, hRw', hrule⟩ := h.parts
  have hsec : ∀ l ∈ w ++ (N ++ w'), l = R ∨ ¬ "## [".toList <+: l := fun l hl => by
    have hold : ∀ m ∈ w ++ w', m = R ∨ ¬ "## [".toList <+: m := fun m hm =>
      mem_window (hparts.window ▸ hm)
    rcases List.mem_append.1 hl with hl | hl
    · exact hold l (List.mem_append_left w' hl)
    · rcases List.mem_append.1 hl with hl | hl
      · refine Or.inr fun hp => ?_
        have hc := (hN l hl).2
        rw [closes, List.isPrefixOf_iff_prefix.2 hp, Bool.true_or] at hc
        cases hc
      · exact hold l (List.mem_append_right w hl)
  have hR : R ∈ (pre ++ R :: w) ++ (w' ++ rest) := by simp
  have hR' : R ∈ (pre ++ R :: w) ++ (N ++ (w' ++ rest)) := by simp
  have hwin' : window R ((pre ++ R :: w) ++ (N ++ (w' ++ rest))) = w ++ (N ++ w') := by
    rw [← window_eq hparts.pre hsec hparts.rest]
    congr 1
    simp
  have hHN : H ∉ N := fun hm => (hN H hm).1 rfl
  have hrule' : ∀ l ∈ w'.head?, l ≠ R ∧ l ≠ H ∧ Stops py l := fun l hl =>
    ⟨fun e => by simp [← e, hrule l hl] at hRr, fun e => by simp [← e, hrule l hl] at hrH,
      Or.inr (hrule l hl)⟩
  have hframe : ∀ l ∈ (N ++ w').head?, l ≠ R ∧ l ≠ H ∧ Stops py l := fun l hl => by
    rcases N with _ | ⟨m, N⟩
    · exact hrule' l hl
    · cases hl
      exact ⟨fun e => hNR (e ▸ List.mem_cons_self), (hN _ List.mem_cons_self).1, hhead _ rfl⟩
  by_cases hw : H ∈ w
  · have hread : reading py R H (w ++ (N ++ w')) = reading py R H (w ++ w') := by
      rw [reading_append hw hframe, reading_append hw hrule']
    constructor
    · intro hp
      refine ⟨hR, fun _ => ?_⟩
      have := hp.category (by rw [hwin']; exact List.mem_append_left _ hw)
      rw [hwin', hread, ← hparts.window] at this
      exact this
    · intro hp
      refine ⟨hR', fun _ => ?_⟩
      have := hp.category (by rw [hparts.window]; exact List.mem_append_left _ hw)
      rw [hparts.window] at this
      rw [hwin', hread]
      exact this
  · by_cases hw' : H ∈ w'
    · have hwN : H ∉ w ++ N := fun hm => (List.mem_append.1 hm).elim hw hHN
      rw [← List.append_assoc w] at hwin'
      exact iff_of_false (not_placeable hwin' hwN hw' hrH hRw' hrule)
        (not_placeable hparts.window hw hw' hrH hRw' hrule)
    · have hn : H ∉ w ++ w' := fun hm => (List.mem_append.1 hm).elim hw hw'
      have hn' : H ∉ w ++ (N ++ w') := fun hm => by
        rcases List.mem_append.1 hm with hm | hm
        · exact hw hm
        · exact (List.mem_append.1 hm).elim hHN hw'
      exact iff_of_true ⟨hR', fun hm => absurd (hwin' ▸ hm) hn'⟩
        ⟨hR, fun hm => absurd (hparts.window ▸ hm) hn⟩

end Frame

section Step

variable {bs : List Str} {es : List Entry}

/-- What is put in has no marks but the header of its category. -/
def Unmarked (py : Python) (bs : List Str) : Prop := ∀ b ∈ bs, marks py b = false

theorem inside_congr {R H : Str} {A A' : List Str}
    (h : A.filter (marks py) = A'.filter (marks py)) : Inside py R H A ↔ Inside py R H A' := by
  have hclose : ∀ l : List Str, (l.filter (marks py)).filter (closes py) = l.filter (closes py) :=
    fun l => by
      rw [List.filter_filter]
      refine List.filter_congr fun a _ => ?_
      rcases hc : closes py a with _ | _
      · rfl
      · rw [marks_of_closes hc]
        rfl
  rw [inside_iff, inside_iff, ← hclose A, ← hclose A', h]

theorem inside_append {R H : Str} {A n : List Str} (h : ∀ l ∈ n, marks py l = false) :
    Inside py R H (A ++ n) ↔ Inside py R H A :=
  inside_congr (by rw [List.filter_append, List.filter_eq_nil_of_forall h, List.append_nil])

/-- Behind a line that begins or closes a section it does not matter what was before. -/
theorem inside_past {R H : Str} {A n : List Str} {l : Str} {y : List Str}
    (hl : closes py l = true) :
    Inside py R H (A ++ (n ++ l :: y)) ↔ Inside py R H (A ++ l :: y) := by
  have hlast : ∀ {p : Str → Bool} (B : List Str), p l = true →
      ((B ++ l :: y).filter p).getLast? = ((l :: y).filter p).getLast? := fun B hp => by
    rw [List.filter_append, List.getLast?_append_of_ne_nil]
    rw [List.filter_cons_of_pos hp]
    exact List.cons_ne_nil _ _
  have hm := marks_of_closes hl
  rw [← List.append_assoc, inside_iff, inside_iff, hlast _ hl, hlast _ hm, hlast _ hl, hlast _ hm]

/-- What one category's merge does. -/
theorem mergeEntries_cases (name : String) (hpy : PlainMarks py)
    (hR : releaseHeader date ∈ texts es) (hbs : bs ≠ []) : ∃ x y, es = x ++ y
      ∧ (categoryHeader name ∉ window (releaseHeader date) (texts es)
          ∧ mergeEntries py (releaseHeader date) name bs es = x ++ (newEntries true name bs ++ y)
          ∧ SectionEnd py (releaseHeader date) (texts x) (texts y)
        ∨ mergeEntries py (releaseHeader date) name bs es = x ++ (newEntries false name bs ++ y)
          ∧ (Inside py (releaseHeader date) (categoryHeader name) (texts x)
            ↔ Placeable py (releaseHeader date) (categoryHeader name) (texts es))) := by
  obtain ⟨A, B, heq, hcases⟩ := placing_cases name hpy hR
  have hA : texts (es.take A.length) = A := by
    have : (texts es).take A.length = A := by
      rw [heq]
      exact List.take_left
    rw [← this, texts, texts, List.map_take]
    simp
  have hB : texts (es.drop A.length) = B := by
    have : (texts es).drop A.length = B := by
      rw [heq]
      exact List.drop_left
    rw [← this, texts, texts, List.map_drop]
  refine ⟨es.take A.length, es.drop A.length, (List.take_append_drop _ _).symm, ?_⟩
  rw [hA, hB]
  unfold mergeEntries
  rw [if_neg hbs]
  rcases hcases with ⟨hH, hplacing, hend⟩ | ⟨-, hplacing, hin⟩
  · refine Or.inl ⟨hH, ?_, hend⟩
    rw [hplacing]
    simp
  · refine Or.inr ⟨?_, hin⟩
    rw [hplacing]
    simp

theorem texts_append (x y : List Entry) : texts (x ++ y) = texts x ++ texts y := List.map_append

theorem texts_nil : texts [] = [] := rfl

theorem texts_map (o : Origin) (ls : List Str) : texts (ls.map fun l => (l, o)) = ls := by
  rw [texts, List.map_map]
  exact List.map_id ls

theorem mergeEntries_nil {R : Str} : mergeEntries py R name [] es = es := by
  rw [mergeEntries, if_pos rfl]

theorem mem_newEntries {header : Bool} {e : Entry} (h : e ∈ newEntries header name bs) :
    e = (categoryHeader name, .frame) ∧ header = true ∨ e = ([], .frame)
      ∨ e.1 ∈ bs ∧ e.2 = .bullet name := by
  rw [newEntries] at h
  have hnew : e ∈ bs.map (fun b => (b, Origin.bullet name)) → e.1 ∈ bs ∧ e.2 = .bullet name := by
    intro hm
    obtain ⟨b, hb, rfl⟩ := List.mem_map.1 hm
    exact ⟨hb, rfl⟩
  rcases header with _ | _
  · exact Or.inr (Or.inr (hnew h))
  · rw [if_pos rfl, List.mem_append, List.mem_append] at h
    rcases h with (h | h) | h
    · exact (List.mem_cons.1 h).imp (fun h => ⟨h, rfl⟩) fun h => Or.inl (List.mem_singleton.1 h)
    · exact Or.inr (Or.inr (hnew h))
    · exact Or.inr (Or.inl (List.mem_singleton.1 h))

theorem newEntries_true (name : String) (hum : Unmarked py bs) :
    ∃ n, newEntries true name bs = (categoryHeader name, .frame) :: n
      ∧ ∀ e ∈ n, marks py e.1 = false := by
  refine ⟨([], .frame) :: (bs.map (fun b => (b, .bullet name)) ++ [([], .frame)]), rfl, ?_⟩
  intro e he
  simp only [List.mem_cons, List.mem_append, List.not_mem_nil, or_false, List.mem_map] at he
  rcases he with rfl | ⟨b, hb, rfl⟩ | rfl
  · exact marks_nil
  · exact hum b hb
  · exact marks_nil

theorem mergeEntries_split (py : Python) (R : Str) (name : String) (bs : List Str)
    (es : List Entry) : ∃ x y header, es = x ++ y
    ∧ mergeEntries py R name bs es = x ++ (newEntries header name bs ++ y) := by
  by_cases hbs : bs = []
  · refine ⟨es, [], false, by simp, ?_⟩
    rw [hbs, mergeEntries_nil]
    simp [newEntries]
  · rcases hp : placing py R name (texts es) with ⟨header, pos⟩
    refine ⟨es.take pos, es.drop pos, header, (List.take_append_drop pos es).symm, ?_⟩
    unfold mergeEntries
    rw [hp]
    rw [if_neg hbs, List.append_assoc]

theorem mem_mergeEntries {R : Str} {e : Entry} (h : e ∈ mergeEntries py R name bs es) :
    e ∈ es ∨ e = (categoryHeader name, .frame) ∨ e = ([], .frame)
      ∨ e.1 ∈ bs ∧ e.2 = .bullet name := by
  obtain ⟨x, y, header, rfl, heq⟩ := mergeEntries_split py R name bs es
  rw [heq, List.mem_append, List.mem_append] at h
  rcases h with h | h | h
  · exact Or.inl (List.mem_append_left y h)
  · exact Or.inr ((mem_newEntries h).imp_left And.left)
  · exact Or.inl (List.mem_append_right x h)

theorem mergeEntries_filter {R : Str} {q : Entry → Bool}
    (h : ∀ e : Entry, e.2 = .frame ∨ e.2 = .bullet name → q e = false) :
    (mergeEntries py R name bs es).filter q = es.filter q := by
  obtain ⟨x, y, header, rfl, heq⟩ := mergeEntries_split py R name bs es
  have hnew : ∀ e ∈ newEntries header name bs, q e = false := fun e he => by
    rcases mem_newEntries he with ⟨rfl, -⟩ | rfl | ⟨-, hm⟩
    · exact h _ (Or.inl rfl)
    · exact h _ (Or.inl rfl)
    · exact h e (Or.inr hm)
  rw [heq, List.filter_append, List.filter_append, List.filter_eq_nil_of_forall hnew,
    List.nil_append,
    List.filter_append]

theorem newEntries_filter {header : Bool} : texts ((newEntries header name bs).filter
    fun e => e.2 = .bullet name) = bs := by
  have hnew : texts ((bs.map fun b => (b, Origin.bullet name)).filter
      fun e => e.2 = .bullet name) = bs := by
    rw [List.filter_eq_self.2 (by simp), texts_map]
  rcases header with _ | _
  · exact hnew
  · have hframe : texts (([(categoryHeader name, Origin.frame), ([], .frame)] : List Entry).filter
        fun e => e.2 = .bullet name) = [] := rfl
    rw [newEntries, if_pos rfl, List.filter_append, List.filter_append, texts_append, texts_append,
      hnew, hframe, List.nil_append]
    exact List.append_nil bs

theorem mergeEntries_bullets {R : Str} (h : texts (es.filter fun e => e.2 = .bullet name) = []) :
    texts ((mergeEntries py R name bs es).filter fun e => e.2 = .bullet name) = bs := by
  obtain ⟨x, y, header, rfl, heq⟩ := mergeEntries_split py R name bs es
  rw [List.filter_append, texts_append, List.append_eq_nil_iff] at h
  rw [heq, List.filter_append, List.filter_append, texts_append, texts_append, h.1, h.2,
    List.nil_append, List.append_nil]
  exact newEntries_filter

/-! ## Under the header -/

/-- Each bullet of the category is in the section and under the header of the category. -/
def Under (py : Python) (R : Str) (name : String) (es : List Entry) : Prop :=
  ∀ x b y, es = x ++ (b, .bullet name) :: y → Inside py R (categoryHeader name) (texts x)

/-- Lines put in between concern only the bullets of other categories that are behind them. -/
theorem under_insert {R : Str} {x n y : List Entry} (hn : ∀ e ∈ n, e.2 ≠ .bullet name)
    (hmid : ∀ y₁ b y₂, y = y₁ ++ (b, .bullet name) :: y₂ →
      (Inside py R (categoryHeader name) (texts (x ++ (n ++ y₁)))
        ↔ Inside py R (categoryHeader name) (texts (x ++ y₁)))) :
    Under py R name (x ++ (n ++ y)) ↔ Under py R name (x ++ y) := by
  constructor
  · intro h x' b y' heq
    rcases List.append_eq_append_cons heq with ⟨z, rfl, rfl⟩ | ⟨z, rfl, hz⟩
    · exact h x' b (z ++ (n ++ y)) (by simp)
    · exact (hmid z b y' hz).1 (h (x ++ (n ++ z)) b y' (by rw [hz]; simp))
  · intro h x' b y' heq
    rcases List.append_eq_append_cons heq with ⟨z, rfl, rfl⟩ | ⟨z, rfl, hz⟩
    · exact h x' b (z ++ y) (by simp)
    · rcases List.append_eq_append_cons hz with ⟨z', rfl, rfl⟩ | ⟨z', rfl, hz'⟩
      · exact absurd rfl (hn (b, .bullet name) (by simp))
      · exact (hmid z' b y' hz').2 (h (x ++ z') b y' (by rw [hz']; simp))

theorem under_new {R : Str} {x n y : List Entry} (h : ∀ e ∈ x ++ y, e.2 ≠ .bullet name) :
    Under py R name (x ++ (n ++ y)) ↔ ∀ n₁ b n₂, n = n₁ ++ (b, .bullet name) :: n₂ →
      Inside py R (categoryHeader name) (texts x ++ texts n₁) := by
  constructor
  · intro hu n₁ b n₂ heq
    have := hu (x ++ n₁) b (n₂ ++ y) (by rw [heq]; simp)
    rwa [texts_append] at this
  · intro hn x' b y' heq
    rcases List.append_eq_append_cons heq with ⟨z, rfl, rfl⟩ | ⟨z, rfl, hz⟩
    · exact absurd rfl (h (b, .bullet name) (by simp))
    · rcases List.append_eq_append_cons hz with ⟨z', rfl, rfl⟩ | ⟨z', rfl, rfl⟩
      · rw [texts_append]
        exact hn z b z' rfl
      · exact absurd rfl (h (b, .bullet name) (by simp))

theorem inside_frame {R H : Str} {A B n : List Str} (hR : closes py R = true)
    (hHm : marks py H = true) (hHc : closes py H = false) (h : SectionEnd py R A B)
    (hn : ∀ l ∈ n, marks py l = false) : Inside py R H (A ++ H :: n) := by
  obtain ⟨x, t, rfl, ht⟩ := h.last
  refine ⟨?_, ?_⟩
  · have hall : ∀ l ∈ t ++ H :: n, closes py l = false := fun l hl => by
      rcases List.mem_append.1 hl with hl | hl
      · exact (ht l hl).2
      · rcases List.mem_cons.1 hl with rfl | hl
        · exact hHc
        · exact closes_of_marks (hn l hl)
    have hnot : R ∉ t ++ H :: n := fun hm => by
      rw [hall R hm] at hR
      cases hR
    rw [List.append_assoc, List.cons_append, List.filter_last_iff hR hnot]
    exact hall
  · have hnot : H ∉ n := fun hm => by
      rw [hn H hm] at hHm
      cases hHm
    rw [List.filter_last_iff hHm hnot]
    exact hn

/-- The bullets of a category are put under its header if and only if it is placeable. -/
theorem under_mergeEntries (hpy : PlainMarks py) (hR : releaseHeader date ∈ texts es)
    (hbs : bs ≠ []) (hum : Unmarked py bs) (hes : ∀ e ∈ es, e.2 ≠ .bullet name) :
    Under py (releaseHeader date) name (mergeEntries py (releaseHeader date) name bs es)
      ↔ Placeable py (releaseHeader date) (categoryHeader name) (texts es) := by
  have hbullets : ∀ n : List Entry, n <+: bs.map (fun b => (b, Origin.bullet name)) →
      ∀ l ∈ texts n, marks py l = false := fun n hn l hl => by
    obtain ⟨e, he, rfl⟩ := List.mem_map.1 hl
    obtain ⟨b, hb, rfl⟩ := List.mem_map.1 (hn.subset he)
    exact hum b hb
  obtain ⟨x, y, rfl, hcases⟩ := mergeEntries_cases name hpy hR hbs
  rcases hcases with ⟨hH, heq, hend⟩ | ⟨heq, hin⟩
  · rw [heq, under_new hes]
    refine iff_of_true (fun n₁ b n₂ hn => ?_) ⟨hR, fun h => absurd h hH⟩
    rcases n₁ with _ | ⟨e, n₁⟩
    · cases hn
    obtain ⟨n, hcons, hmarks⟩ := newEntries_true name hum
    rw [hcons, List.cons_append] at hn
    obtain ⟨rfl, rfl⟩ := List.cons.inj hn
    refine inside_frame (closes_releaseHeader date) (marks_categoryHeader name)
      (closes_categoryHeader hpy name) hend fun l hl => ?_
    obtain ⟨e, he, rfl⟩ := List.mem_map.1 hl
    exact hmarks e (List.mem_append_left _ he)
  · rw [heq, under_new hes, ← hin]
    constructor
    · intro h
      obtain ⟨b, bs', rfl⟩ := List.exists_cons_of_ne_nil hbs
      have := h [] b (bs'.map fun b => (b, .bullet name)) rfl
      rwa [texts_nil, List.append_nil] at this
    · intro h n₁ b n₂ hn
      rw [inside_append (hbullets n₁ ⟨_, hn.symm⟩)]
      exact h

end Step

section Others

variable {bs : List Str} {es : List Entry} {other : String}

theorem newEntries_texts (hum : Unmarked py bs) {header : Bool} :
    ∀ l ∈ texts (newEntries header name bs),
      l = categoryHeader name ∧ header = true ∨ marks py l = false := fun l hl => by
  obtain ⟨e, he, rfl⟩ := List.mem_map.1 hl
  rcases mem_newEntries he with ⟨rfl, hheader⟩ | rfl | ⟨hm, -⟩
  · exact Or.inl ⟨rfl, hheader⟩
  · exact Or.inr marks_nil
  · exact Or.inr (hum _ hm)

theorem newEntries_unmarked (hum : Unmarked py bs) :
    ∀ l ∈ texts (newEntries false name bs), marks py l = false := fun l hl =>
  (newEntries_texts hum l hl).resolve_left fun h => by cases h.2

theorem newEntries_closes (hpy : PlainMarks py) (hum : Unmarked py bs) {header : Bool} :
    ∀ l ∈ texts (newEntries header name bs), closes py l = false := fun l hl => by
  rcases newEntries_texts hum l hl with ⟨rfl, -⟩ | hm
  · exact closes_categoryHeader hpy name
  · exact closes_of_marks hm

theorem newEntries_ne (hum : Unmarked py bs) (hne : other ≠ name) {header : Bool} :
    ∀ l ∈ texts (newEntries header name bs), l ≠ categoryHeader other := fun l hl => by
  rcases newEntries_texts hum l hl with ⟨rfl, -⟩ | hm
  · exact fun h => hne (categoryHeader_injective h).symm
  · exact ne_of_marks hm (marks_categoryHeader other)

theorem placeable_mergeEntries (hpy : PlainMarks py) (hR : releaseHeader date ∈ texts es)
    (hum : Unmarked py bs) (hne : other ≠ name) :
    Placeable py (releaseHeader date) (categoryHeader other)
        (texts (mergeEntries py (releaseHeader date) name bs es))
      ↔ Placeable py (releaseHeader date) (categoryHeader other) (texts es) := by
  have hcR : closes py (releaseHeader date) = true := closes_releaseHeader date
  by_cases hbs : bs = []
  · rw [hbs, mergeEntries_nil]
  obtain ⟨x, y, rfl, hcases⟩ := mergeEntries_cases name hpy hR hbs
  rcases hcases with ⟨-, heq, hend⟩ | ⟨heq, -⟩
  · rw [heq, texts_append, texts_append, texts_append]
    refine placeable_frame hend (isRule_of_head hpy.hash (Or.inl (by decide)))
      (isRule_releaseHeader hpy date)
      (fun l hl => ⟨newEntries_ne hum hne l hl, newEntries_closes hpy hum l hl⟩) (fun hm => ?_) ?_
    · rw [newEntries_closes hpy hum _ hm] at hcR
      cases hcR
    · rintro l ⟨⟩
      exact Or.inl (List.prefix_append _ _)
  · rw [heq, texts_append, texts_append, texts_append,
      placeable_filter (marks_of_closes hcR) (marks_categoryHeader other),
      placeable_filter (marks_of_closes hcR) (marks_categoryHeader other) (_ ++ texts y),
      List.filter_append, List.filter_append, List.filter_eq_nil_of_forall (newEntries_unmarked hum),
      List.nil_append, List.filter_append]

theorem under_mergeEntries_of_ne (hpy : PlainMarks py) (hR : releaseHeader date ∈ texts es)
    (hum : Unmarked py bs) (hne : other ≠ name)
    (hold : ∀ b, (b, Origin.bullet other) ∈ es → marks py b = false) :
    Under py (releaseHeader date) other (mergeEntries py (releaseHeader date) name bs es)
      ↔ Under py (releaseHeader date) other es := by
  by_cases hbs : bs = []
  · rw [hbs, mergeEntries_nil]
  have hnew : ∀ {header}, ∀ e ∈ newEntries header name bs, e.2 ≠ .bullet other := by
    intro header e he h
    rcases mem_newEntries he with ⟨rfl, -⟩ | rfl | ⟨-, hm⟩
    · cases h
    · cases h
    · rw [hm, Origin.bullet.injEq] at h
      exact hne h.symm
  obtain ⟨x, y, rfl, hcases⟩ := mergeEntries_cases name hpy hR hbs
  rcases hcases with ⟨-, heq, hend⟩ | ⟨heq, -⟩
  · rw [heq]
    refine under_insert hnew fun y₁ b y₂ hy => ?_
    rw [texts_append, texts_append, texts_append]
    rcases y₁ with _ | ⟨e, y₁⟩
    · have hb : marks py b = false := hold b (by rw [hy]; simp)
      have hc : closes py b = true := hend.next b (by rw [hy]; rfl)
      rw [closes_of_marks hb] at hc
      cases hc
    · exact inside_past (hend.next e.1 (by rw [hy]; rfl))
  · rw [heq]
    refine under_insert hnew fun y₁ b y₂ _ => ?_
    rw [texts_append, texts_append, texts_append]
    refine inside_congr ?_
    rw [List.filter_append, List.filter_append,
      List.filter_eq_nil_of_forall (newEntries_unmarked hum),
      List.nil_append, List.filter_append]

end Others

section Lone

variable {bs : List Str} {es : List Entry} {other : String} {H : Str}

/-- The lines that begin or close a section and the headers of a category. -/
def bounds (py : Python) (H : Str) (e : Entry) : Bool := closes py e.1 || e.1 = H

theorem bounds_of_closes {e : Entry} (h : closes py e.1 = true) : bounds py H e = true := by
  rw [bounds, h, Bool.true_or]

theorem bounds_eq_false {e : Entry} (h : closes py e.1 = false) (hne : e.1 ≠ H) :
    bounds py H e = false := by
  rw [bounds, h, Bool.false_or]
  exact decide_eq_false hne

/-- A header that was put in is the only one of its category in its section. -/
def Lone (py : Python) (H : Str) (es : List Entry) : Prop :=
  ∀ x e y, es.filter (bounds py H) = x ++ e :: y → e.2 ≠ .old →
    (∃ l ∈ x.getLast?, closes py l.1 = true) ∧ ∀ l ∈ y.head?, closes py l.1 = true

theorem lone_of_old (h : ∀ e ∈ es.filter (bounds py H), e.2 = .old) : Lone py H es := by
  intro x e y heq hne
  rw [heq] at h
  exact absurd (h e (by simp)) hne

theorem lone_insert {x n y : List Entry} {e₀ : Entry}
    (hold : ∀ e ∈ (x ++ y).filter (bounds py H), e.2 = .old)
    (hn : n.filter (bounds py H) = [e₀])
    (hlast : ∃ l ∈ (x.filter (bounds py H)).getLast?, closes py l.1 = true)
    (hfirst : ∀ l ∈ (y.filter (bounds py H)).head?, closes py l.1 = true) :
    Lone py H (x ++ (n ++ y)) := by
  intro p e q heq hne
  rw [List.filter_append] at hold
  rw [List.filter_append, List.filter_append, hn] at heq
  have heq' : x.filter (bounds py H) ++ e₀ :: y.filter (bounds py H) = p ++ e :: q := heq
  rcases List.append_eq_append_cons heq' with ⟨z, hx, -⟩ | ⟨z, rfl, hz⟩
  · exact absurd (hold e (by rw [hx]; simp)) hne
  · rcases z with _ | ⟨e₁, z⟩
    · obtain ⟨-, rfl⟩ := List.cons.inj hz
      rw [List.append_nil]
      exact ⟨hlast, hfirst⟩
    · have hy : y.filter (bounds py H) = z ++ e :: q := (List.cons.inj hz).2
      exact absurd (hold e (by rw [hy]; simp)) hne

theorem SectionEnd.last_bound {R : Str} {x y : List Entry} (hR : closes py R = true)
    (h : SectionEnd py R (texts x) (texts y)) (hH : H ∉ window R (texts (x ++ y))) :
    ∃ l ∈ (x.filter (bounds py H)).getLast?, closes py l.1 = true := by
  obtain ⟨x₀, t, hx, ht⟩ := h.last
  set b : Str → Bool := fun l => closes py l || decide (l = H) with hbdef
  have hb : ∀ l ∈ t, b l = false := fun l hl => by
    have hne : l ≠ H := fun e => hH (texts_append x y ▸ e ▸ (ht l hl).1)
    rw [hbdef]
    dsimp only
    rw [(ht l hl).2, Bool.false_or]
    exact decide_eq_false hne
  have hbR : b R = true := by
    rw [hbdef]
    dsimp only
    rw [hR, Bool.true_or]
  have hRt : R ∉ t := fun hm => by
    rw [hb _ hm] at hbR
    cases hbR
  have hget := (List.filter_last_iff (x := x₀) hbR hRt).2 hb
  rw [← hx, texts, List.filter_map, List.getLast?_map] at hget
  obtain ⟨l, hl, rfl⟩ := Option.map_eq_some_iff.1 hget
  exact ⟨l, hl, hR⟩

theorem SectionEnd.first_bound {R : Str} {x y : List Entry}
    (h : SectionEnd py R (texts x) (texts y)) :
    ∀ l ∈ (y.filter (bounds py H)).head?, closes py l.1 = true := fun l hl => by
  rcases y with _ | ⟨e, y⟩
  · cases hl
  · have hc : closes py e.1 = true := h.next e.1 rfl
    rw [List.filter_cons_of_pos (bounds_of_closes hc)] at hl
    cases hl
    exact hc

theorem newEntries_bounds (hum : Unmarked py bs) :
    (newEntries true name bs).filter (bounds py (categoryHeader name))
      = [(categoryHeader name, .frame)] := by
  have hhead : bounds py (categoryHeader name) (categoryHeader name, .frame) = true := by
    rw [bounds, decide_eq_true rfl, Bool.or_true]
  obtain ⟨n, hcons, hmarks⟩ := newEntries_true name hum
  have htail : n.filter (bounds py (categoryHeader name)) = [] :=
    List.filter_eq_nil_of_forall fun e he => bounds_eq_false (closes_of_marks (hmarks e he))
      (ne_of_marks (hmarks e he) (marks_categoryHeader name))
  rw [hcons, List.filter_cons_of_pos hhead, htail]

theorem lone_mergeEntries_of_ne {R : Str} (hpy : PlainMarks py) (hum : Unmarked py bs)
    (hne : other ≠ name) (h : Lone py (categoryHeader other) es) :
    Lone py (categoryHeader other) (mergeEntries py R name bs es) := by
  obtain ⟨x, y, header, rfl, heq⟩ := mergeEntries_split py R name bs es
  have hnew : (newEntries header name bs).filter (bounds py (categoryHeader other)) = [] :=
    List.filter_eq_nil_of_forall fun e he => by
      have hm := List.mem_map_of_mem (f := Prod.fst) he
      exact bounds_eq_false (newEntries_closes hpy hum _ hm) (newEntries_ne hum hne _ hm)
  unfold Lone at h ⊢
  rw [heq, List.filter_append, List.filter_append, hnew, List.nil_append, ← List.filter_append]
  exact h

theorem lone_mergeEntries (hpy : PlainMarks py) (hR : releaseHeader date ∈ texts es)
    (hum : Unmarked py bs)
    (hold : ∀ e ∈ es.filter (bounds py (categoryHeader name)), e.2 = .old) :
    Lone py (categoryHeader name) (mergeEntries py (releaseHeader date) name bs es) := by
  by_cases hbs : bs = []
  · rw [hbs, mergeEntries_nil]
    exact lone_of_old hold
  obtain ⟨x, y, rfl, hcases⟩ := mergeEntries_cases name hpy hR hbs
  rcases hcases with ⟨hH, heq, hend⟩ | ⟨heq, -⟩
  · rw [heq]
    exact lone_insert hold (newEntries_bounds hum)
      (hend.last_bound (closes_releaseHeader date) hH) hend.first_bound
  · have hnew : (newEntries false name bs).filter (bounds py (categoryHeader name)) = [] :=
      List.filter_eq_nil_of_forall fun e he => by
        have hm := newEntries_unmarked hum e.1 (List.mem_map_of_mem he)
        exact bounds_eq_false (closes_of_marks hm) (ne_of_marks hm (marks_categoryHeader name))
    refine lone_of_old ?_
    rw [heq, List.filter_append, List.filter_append, hnew, List.nil_append, ← List.filter_append]
    exact hold

theorem header_mem {R : Str} (hR : closes py R = true) (hne : categoryHeader name ≠ R)
    {s : List Entry} (hs : IsSection py R es s) (hu : Under py R name es)
    (hb : ∃ e ∈ s, e.2 = .bullet name) : categoryHeader name ∈ texts s := by
  obtain ⟨x, r, y, rfl, rfl, -⟩ := hs
  obtain ⟨⟨b, _⟩, he, rfl⟩ := hb
  obtain ⟨s₁, s₂, rfl⟩ := List.append_of_mem he
  have hin := (hu (x ++ r :: s₁) b (s₂ ++ y) (by simp)).category
  rw [texts_append] at hin ⊢
  exact List.mem_append_left _ ((List.mem_of_filter_last (marks_of_closes hR) hin).resolve_left hne)

theorem count_old {s : List Entry} (h : ∀ e ∈ s, e.1 = H → e.2 = .old) :
    (texts (s.filter fun e => e.2 = .old)).count H = (texts s).count H := by
  rw [List.count_eq_countP, List.count_eq_countP, texts, texts, List.countP_map, List.countP_map,
    List.countP_filter]
  refine List.countP_congr fun e he => ?_
  simp only [Function.comp_apply, beq_iff_eq, Bool.and_eq_true, decide_eq_true_eq]
  exact and_iff_left_of_imp (h e he)

theorem notMem_texts {s : List Entry} (h : s.filter (bounds py H) = []) : H ∉ texts s :=
fun hm => by
  obtain ⟨e, he, rfl⟩ := List.mem_map.1 hm
  have hb : bounds py e.1 e = true := by rw [bounds, decide_eq_true rfl, Bool.or_true]
  exact absurd hb (List.filter_eq_nil_iff.1 h e he)

/-- A header that is there in a section is there once, if there were no two before. -/
theorem count_header {R : Str} (hR : closes py R = true) {s : List Entry} (hlone : Lone py H es)
    (hs : IsSection py R es s) (hmem : H ∈ texts s)
    (hcount : (texts (s.filter fun e => e.2 = .old)).count H ≤ 1) : (texts s).count H = 1 := by
  obtain ⟨x, r, y, rfl, rfl, hno, -⟩ := hs
  by_cases hold : ∀ e ∈ s, e.1 = H → e.2 = .old
  · rw [count_old hold] at hcount
    exact le_antisymm hcount (List.count_pos_iff.2 hmem)
  · push Not at hold
    obtain ⟨e, he, rfl, hne⟩ := hold
    obtain ⟨s₁, s₂, rfl⟩ := List.append_of_mem he
    have hb : bounds py e.1 e = true := by rw [bounds, decide_eq_true rfl, Bool.or_true]
    have hsplit : (x ++ r :: (s₁ ++ e :: s₂ ++ y)).filter (bounds py e.1)
        = (x.filter (bounds py e.1) ++ r :: s₁.filter (bounds py e.1))
          ++ e :: (s₂.filter (bounds py e.1) ++ y.filter (bounds py e.1)) := by
      simp [List.filter_append, List.filter_cons_of_pos (bounds_of_closes hR),
        List.filter_cons_of_pos hb]
    obtain ⟨⟨l, hl, hlc⟩, hhead⟩ := hlone _ _ _ hsplit hne
    have h₁ : s₁.filter (bounds py e.1) = [] := by
      by_contra hnil
      have hcons : x.filter (bounds py e.1) ++ r :: s₁.filter (bounds py e.1)
          = (x.filter (bounds py e.1) ++ [r]) ++ s₁.filter (bounds py e.1) := by simp
      rw [hcons, List.getLast?_append_of_ne_nil _ hnil] at hl
      have hin := List.mem_of_mem_filter (List.mem_of_getLast? hl)
      rw [hno l (List.mem_append_left _ hin)] at hlc
      cases hlc
    have h₂ : s₂.filter (bounds py e.1) = [] := by
      rcases hf : s₂.filter (bounds py e.1) with _ | ⟨m, f⟩
      · rfl
      · have hm : m ∈ s₂ := List.mem_of_mem_filter (hf ▸ List.mem_cons_self)
        have hc := hhead m (by rw [hf]; rfl)
        rw [hno m (List.mem_append_right _ (List.mem_cons_of_mem _ hm))] at hc
        cases hc
    have htexts : texts (s₁ ++ e :: s₂) = texts s₁ ++ e.1 :: texts s₂ := texts_append _ _
    rw [htexts, List.count_append, List.count_cons_self,
      List.count_eq_zero_of_not_mem (notMem_texts h₁),
      List.count_eq_zero_of_not_mem (notMem_texts h₂)]

end Lone

/-! ## All categories -/

section Run

variable {bs : String → List Str} {lines : List Str} {done : List String} {es : List Entry}

/-- What the categories `done` leave of the lines, wherever they put their bullets. -/
structure Filled (py : Python) (bs : String → List Str) (lines : List Str) (done : List String)
    (es : List Entry) : Prop where
  kept : texts (es.filter fun e => e.2 = .old) = lines
  once : ∀ name, texts (es.filter fun e => e.2 = .bullet name) = if name ∈ done then bs name else []
  plain : ∀ e ∈ es, e.2 = .old ∨ (e.2 = .frame ∧ ∃ name ∈ done, e.1 = categoryHeader name)
    ∨ marks py e.1 = false

theorem Filled.start : Filled py bs lines [] (lines.map fun l => (l, .old)) where
  kept := by
    rw [List.filter_eq_self.2 (by simp), texts_map]
  once := fun name => by
    rw [if_neg List.not_mem_nil, List.filter_eq_nil_of_forall (by simp)]
    rfl
  plain := fun e he => by
    obtain ⟨l, -, rfl⟩ := List.mem_map.1 he
    exact Or.inl rfl

theorem Filled.no_bullets (h : Filled py bs lines done es) (hname : name ∉ done ∨ bs name = []) :
    ∀ e ∈ es, e.2 ≠ .bullet name := fun e he hb => by
  have hnil : texts (es.filter fun e => e.2 = .bullet name) = [] := by
    rw [h.once]
    split_ifs with hd
    · exact hname.resolve_left (not_not_intro hd)
    · rfl
  have hm : e ∈ es.filter fun e => e.2 = .bullet name := List.mem_filter.2 ⟨he, by simp [hb]⟩
  rw [List.map_eq_nil_iff.1 hnil] at hm
  cases hm

theorem Filled.bullet_marks (h : Filled py bs lines done es) {b : Str}
    (hb : (b, .bullet name) ∈ es) : marks py b = false := by
  rcases h.plain _ hb with h | h | h
  · cases h
  · cases h.1
  · exact h

theorem Filled.mem_release (h : Filled py bs lines done es) :
    releaseHeader date ∈ texts es ↔ releaseHeader date ∈ lines := by
  have hm : marks py (releaseHeader date) = true := marks_of_closes (closes_releaseHeader date)
  constructor
  · intro hR
    obtain ⟨e, he, heR⟩ := List.mem_map.1 hR
    rw [← h.kept, ← heR]
    refine List.mem_map_of_mem (List.mem_filter.2 ⟨he, decide_eq_true ?_⟩)
    rcases h.plain e he with hold | ⟨-, name, -, hH⟩ | hn
    · exact hold
    · exact absurd (hH.symm.trans heR) (categoryHeader_ne_releaseHeader name date)
    · rw [heR, hm] at hn
      cases hn
  · intro hR
    rw [← h.kept] at hR
    obtain ⟨e, he, heR⟩ := List.mem_map.1 hR
    exact List.mem_map.2 ⟨e, List.mem_of_mem_filter he, heR⟩

theorem Filled.step {R : Str} (h : Filled py bs lines done es) (hum : Unmarked py (bs name))
    (hname : name ∉ done) :
    Filled py bs lines (done ++ [name]) (mergeEntries py R name (bs name) es) where
  kept := by
    rw [mergeEntries_filter fun e he => ?_, h.kept]
    rcases he with he | he <;> simp [he]
  once := fun other => by
    rcases eq_or_ne other name with rfl | hne
    · rw [if_pos (by simp)]
      refine mergeEntries_bullets ?_
      rw [h.once, if_neg hname]
    · have hmem : other ∈ done ++ [name] ↔ other ∈ done := by simp [hne]
      rw [mergeEntries_filter fun e he => ?_, h.once, if_congr hmem rfl rfl]
      rcases he with he | he
      · simp [he]
      · simp [he, hne.symm]
  plain := fun e he => by
    rcases mem_mergeEntries he with he | rfl | rfl | ⟨hm, -⟩
    · exact (h.plain e he).imp_right fun hp => hp.imp_left fun ⟨hf, n, hn, hH⟩ =>
        ⟨hf, n, List.mem_append_left _ hn, hH⟩
    · exact Or.inr (Or.inl ⟨rfl, name, by simp, rfl⟩)
    · exact Or.inr (Or.inr marks_nil)
    · exact Or.inr (Or.inr (hum _ hm))

/-- Where the categories `done` put their bullets. -/
structure Settled (py : Python) (R : Str) (bs : String → List Str) (lines : List Str)
    (done : List String) (es : List Entry) : Prop where
  ahead : ∀ name ∉ done, (Placeable py R (categoryHeader name) (texts es)
    ↔ Placeable py R (categoryHeader name) lines)
  behind : ∀ name ∈ done, bs name ≠ [] →
    (Under py R name es ↔ Placeable py R (categoryHeader name) lines)
  lone : ∀ name, Lone py (categoryHeader name) es

theorem Settled.start {R : Str} : Settled py R bs lines [] (lines.map fun l => (l, .old)) where
  ahead := fun name _ => by
    rw [texts_map]
  behind := fun name h => absurd h List.not_mem_nil
  lone := fun name => lone_of_old fun e he => by
    obtain ⟨l, -, rfl⟩ := List.mem_map.1 (List.mem_of_mem_filter he)
    rfl

theorem Settled.step (hpy : PlainMarks py) (hf : Filled py bs lines done es)
    (h : Settled py (releaseHeader date) bs lines done es) (hR : releaseHeader date ∈ lines)
    (hum : Unmarked py (bs name)) (hname : name ∉ done) :
    Settled py (releaseHeader date) bs lines (done ++ [name])
      (mergeEntries py (releaseHeader date) name (bs name) es) where
  ahead := fun other hother => by
    rw [List.mem_append, not_or, List.mem_singleton] at hother
    rw [placeable_mergeEntries hpy (hf.mem_release.2 hR) hum hother.2]
    exact h.ahead other hother.1
  behind := fun other hother hne => by
    rcases List.mem_append.1 hother with hd | hd
    · have hdiff : other ≠ name := fun e => hname (e ▸ hd)
      rw [under_mergeEntries_of_ne hpy (hf.mem_release.2 hR) hum hdiff
        fun b hb => hf.bullet_marks hb]
      exact h.behind other hd hne
    · rw [List.mem_singleton] at hd
      subst hd
      rw [under_mergeEntries hpy (hf.mem_release.2 hR) hne hum (hf.no_bullets (Or.inl hname))]
      exact h.ahead other hname
  lone := fun other => by
    rcases eq_or_ne other name with rfl | hne
    · refine lone_mergeEntries hpy (hf.mem_release.2 hR) hum fun e he => ?_
      have hb := List.of_mem_filter he
      rcases hf.plain e (List.mem_of_mem_filter he) with hold | ⟨-, n, hn, hH⟩ | hm
      · exact hold
      · have hdiff : e.1 ≠ categoryHeader other := fun heq =>
          hname (categoryHeader_injective (hH.symm.trans heq) ▸ hn)
        rw [bounds_eq_false (hH ▸ closes_categoryHeader hpy n) hdiff] at hb
        cases hb
      · rw [bounds_eq_false (closes_of_marks hm) (ne_of_marks hm (marks_categoryHeader other))] at hb
        cases hb
    · exact lone_mergeEntries_of_ne hpy hum hne (h.lone other)

end Run

section Merged

variable {assign : String → List Str} {content : Str}

theorem unmarked_bullets (hpy : PlainMarks py) (fs : List Str) : Unmarked py (fs.map bullet) :=
  fun b hb => by
    obtain ⟨f, -, rfl⟩ := List.mem_map.1 hb
    exact marks_bullet hpy f

theorem filled_merged (hpy : PlainMarks py) (date : Str) (assign : String → List Str)
    (content : Str) : Filled py (fun name => (assign name).map bullet)
    (content.splitOn '\n') categories (merged py date assign content) :=
  List.foldl_of_nodup (fun _ _ _ hname h => h.step (unmarked_bullets hpy _) hname) categories [] _
    (by decide) Filled.start

theorem settled_merged (hpy : PlainMarks py) (hR : releaseHeader date ∈ content.splitOn '\n') :
    Settled py (releaseHeader date) (fun name => (assign name).map bullet) (content.splitOn '\n')
      categories (merged py date assign content) := by
  have h := List.foldl_of_nodup (P := fun done es =>
      Filled py (fun name => (assign name).map bullet) (content.splitOn '\n') done es
        ∧ Settled py (releaseHeader date) (fun name => (assign name).map bullet)
          (content.splitOn '\n') done es)
    (f := fun es name => mergeEntries py (releaseHeader date) name ((assign name).map bullet) es)
    (fun _ _ _ hname h => ⟨h.1.step (unmarked_bullets hpy _) hname,
      h.2.step hpy h.1 hR (unmarked_bullets hpy _) hname⟩)
    categories [] _ (by decide) ⟨Filled.start, Settled.start⟩
  exact h.2

/-- The merge inserts each bullet where it belongs if and only if the header of each category that
has new bullets is placeable in the file as it was read. -/
theorem pureInsertion_merged (hpy : PlainMarks py) :
    PureInsertion py (releaseHeader date) assign (content.splitOn '\n')
        (merged py date assign content)
      ↔ ∀ name ∈ categories, assign name ≠ [] →
        Placeable py (releaseHeader date) (categoryHeader name) (content.splitOn '\n') := by
  have hf := filled_merged hpy date assign content
  have hRc : closes py (releaseHeader date) = true := closes_releaseHeader date
  have hbs : ∀ {name}, assign name ≠ [] ↔ (assign name).map bullet ≠ [] := by simp
  constructor
  · intro h name hname hne
    have honce := h.once name hname
    obtain ⟨⟨b, o⟩, he⟩ : ∃ e, e ∈ (merged py date assign content).filter
        fun e => e.2 = .bullet name := by
      refine List.exists_mem_of_ne_nil _ fun hnil => hbs.1 hne ?_
      rw [← honce, hnil]
      rfl
    obtain ⟨he, ho⟩ := List.mem_filter.1 he
    have ho' : o = .bullet name := of_decide_eq_true ho
    subst ho'
    obtain ⟨x, y, heq⟩ := List.append_of_mem he
    have hR : releaseHeader date ∈ content.splitOn '\n' := by
      rw [← hf.mem_release, heq, texts_append]
      exact List.mem_append_left _ (h.inside name x b y heq).mem
    exact ((settled_merged hpy hR).behind name hname (hbs.1 hne)).1 fun x b y => h.inside name x b y
  · intro h
    have hunder : ∀ name, Under py (releaseHeader date) name (merged py date assign content) := by
      intro name x b y heq
      by_cases hname : name ∉ categories ∨ (assign name).map bullet = []
      · exact absurd rfl (hf.no_bullets hname (b, .bullet name) (by rw [heq]; simp))
      · push Not at hname
        have hp := h name hname.1 (hbs.2 hname.2)
        exact ((settled_merged hpy hp.release).behind name hname.1 hname.2).2 hp x b y heq
    refine ⟨hf.kept, fun name hname => ?_, hunder, fun name s hs hb hcount => ?_⟩
    · rw [hf.once, if_pos hname]
    · have hmem := header_mem hRc (categoryHeader_ne_releaseHeader name date) hs (hunder name) hb
      have hR : releaseHeader date ∈ content.splitOn '\n' := by
        obtain ⟨x, r, y, heq, hr, -⟩ := hs
        rw [← hf.mem_release, heq, texts_append, ← hr]
        exact List.mem_append_right _ List.mem_cons_self
      exact count_header hRc ((settled_merged hpy hR).lone name) hs hmem hcount

end Merged

section File

variable {bs : String → List Str} {assign : String → List Str} {content : Str}

theorem texts_newEntries (header : Bool) (bullets : List Str) :
    texts (newEntries header name bullets)
      = if header then [categoryHeader name, []] ++ bullets ++ [[]] else bullets := by
  rcases header with _ | _
  · exact texts_map _ bullets
  · rw [newEntries, if_pos rfl, if_pos rfl, texts_append, texts_append, texts_map]
    rfl

/-- Lines that are told apart are merged as the code merges them. -/
theorem texts_mergeEntries {R : Str} (bullets : List Str) (es : List Entry) :
    texts (mergeEntries py R name bullets es) = mergeCategory py R name bullets (texts es) := by
  have htake : ∀ i, texts (es.take i) = (texts es).take i := fun i => List.map_take
  have hdrop : ∀ i, texts (es.drop i) = (texts es).drop i := fun i => List.map_drop
  unfold mergeEntries mergeCategory placing insertAt
  split_ifs
  · rfl
  · dsimp only
    rw [texts_append, texts_append, htake, hdrop, texts_newEntries]
    unfold categoryHeader
    rcases scan py R ("### ".toList ++ name.toList) 0 ⟨none, none, none, none⟩ (texts es)
      with ⟨sectionStart, sectionEnd, _ | c, categoryEnd⟩
    · rfl
    · rfl

theorem texts_foldl {R : Str} : ∀ (names : List String) (es : List Entry),
    texts (names.foldl (fun es name => mergeEntries py R name (bs name) es) es)
      = (names.map fun name => (name, bs name)).foldl
        (fun lines k => mergeCategory py R k.1 k.2 lines) (texts es)
  | [], _ => rfl
  | name :: names, es => by
    rw [List.foldl_cons, texts_foldl names, texts_mergeEntries]
    rfl

theorem addCommits_eq_merged {rel : Release} (hfound : releaseHeader rel.releaseDate <:+: content) :
    addCommits py rel (categories.map fun name => (name, (assign name).map bullet)) content
      = join (texts (merged py rel.releaseDate assign content)) := by
  have hfound' : "## [".toList ++ rel.releaseDate ++ "]".toList <:+: content := hfound
  unfold addCommits merged
  dsimp only
  rw [if_pos hfound', texts_foldl, texts_map]
  rfl

theorem newline_not_mem_merged (h : ∀ name ∈ categories, ∀ f ∈ assign name, '\n' ∉ f) :
    ∀ l ∈ texts (merged py date assign content), '\n' ∉ l := by
  refine List.foldlRecOn (motive := fun es => ∀ l ∈ texts es, '\n' ∉ l) categories _ ?_ ?_
  · intro l hl
    obtain ⟨e, he, rfl⟩ := List.mem_map.1 hl
    obtain ⟨l, hl', rfl⟩ := List.mem_map.1 he
    exact (List.mem_splitOn hl').1
  · intro es hes name hname l hl
    obtain ⟨e, he, rfl⟩ := List.mem_map.1 hl
    rcases mem_mergeEntries he with he | rfl | rfl | ⟨hm, -⟩
    · exact hes _ (List.mem_map_of_mem he)
    · have hheader : ∀ name ∈ categories, '\n' ∉ categoryHeader name :=
        List.all_iff_forall_prop.1 (by decide)
      exact hheader name hname
    · exact List.not_mem_nil
    · obtain ⟨f, hf, hb⟩ := List.mem_map.1 hm
      rw [← hb, bullet, List.mem_append, List.mem_append, not_or, not_or]
      exact ⟨⟨by decide, h name hname f hf⟩, by decide⟩

/-- The lines of the file are the merged lines. -/
theorem splitOn_join_merged (hpy : PlainMarks py)
    (h : ∀ name ∈ categories, ∀ f ∈ assign name, '\n' ∉ f) :
    (join (texts (merged py date assign content))).splitOn '\n'
      = texts (merged py date assign content) := by
  refine List.splitOn_intercalate _ (newline_not_mem_merged h) fun hnil => ?_
  have hkept := (filled_merged hpy date assign content).kept
  rw [List.map_eq_nil_iff.1 hnil] at hkept
  exact List.splitOn_ne_nil _ _ hkept.symm

/-- For a file in which the header is found the merge is done with the commits of the two
repositories, as far as they are new. -/
theorem updateChangelog_eq_merged {rel : Release} {file : Str}
    (hfound : releaseHeader rel.releaseDate <:+: readText file)
    (hnew : getRecentCommits py (extractCommitSignatures py (readText file)) rel.mainCommits
      ++ getRecentCommits py (extractCommitSignatures py (readText file)) rel.packagesCommits ≠ []) :
    updateChangelog py rel file = updateReleaseDate rel.formattedDate (join (texts (merged py
      rel.releaseDate (fun name => (getRecentCommits py (extractCommitSignatures py (readText file))
        (if name = "🍌 BananaWRT Core" then rel.mainCommits else rel.packagesCommits)).map
          (·.formatted py)) (readText file)))) := by
  unfold updateChangelog
  dsimp only
  rw [if_neg hnew, ← addCommits_eq_merged hfound]
  have hmap : ∀ cs : List Commit, cs.map (fun c => bullet (c.formatted py))
      = (cs.map (·.formatted py)).map bullet := fun cs => by
    rw [List.map_map]
    rfl
  rw [hmap, hmap]
  rfl

/-- What is done to the file after the merge. -/
theorem keptButDate_updateReleaseDate {formattedDate : Option Str}
    (hdate : ∀ d ∈ formattedDate, '\n' ∉ d) (content : Str) :
    KeptButDate content (updateReleaseDate formattedDate content) := by
  rcases formattedDate with _ | date
  · refine ⟨id, fun _ _ => rfl, ?_⟩
    rw [List.map_id]
    exact List.Sublist.refl _
  unfold updateReleaseDate
  dsimp only
  split_ifs with hany hlast
  · have hnew : '\n' ∉ newDateLine date := by
      unfold newDateLine
      rw [List.mem_append, List.mem_append, not_or, not_or]
      exact ⟨⟨by decide, hdate date rfl⟩, by decide⟩
    have hline : ∀ l ∈ (content.splitOn '\n').map (sub datePattern (newDateLine date)),
        '\n' ∉ l := fun l hl => by
      obtain ⟨l, hl', rfl⟩ := List.mem_map.1 hl
      exact fun hm => (mem_subFrom hm).elim hnew (List.mem_splitOn hl').1
    refine ⟨sub datePattern (newDateLine date), fun l hl => sub_eq_self hl _, ?_⟩
    unfold join
    rw [List.splitOn_intercalate _ hline
      fun h => List.splitOn_ne_nil _ _ (List.map_eq_nil_iff.1 h)]
  · obtain ⟨content, rfl⟩ : ∃ content', content = content' ++ ['\n'] :=
      ⟨_, (List.dropLast_append_getLast? _ hlast).symm⟩
    refine ⟨id, fun _ _ => rfl, ?_⟩
    rw [List.map_id, List.append_assoc, List.append_assoc, List.singleton_append,
      List.splitOn_append_cons_self, List.splitOn_append_cons_self, List.splitOn_append_cons_self]
    exact (List.sublist_append_right _ _).append_left _
  · refine ⟨id, fun _ _ => rfl, ?_⟩
    rw [List.map_id, List.append_assoc, List.append_assoc, List.singleton_append,
      List.splitOn_append_cons_self]
    exact List.sublist_append_left _ _

/-- The merge keeps the lines of the file and puts each new bullet in its section under its header
if and only if the release has a header of its own and the header of each category with new commits,
where there is one before the next release's, is behind the last header of the release that is read,
with no rule between. Afterwards no more than the date of the release is changed. -/
theorem merge_iff (hpy : PlainMarks py) (rel : Release) (assign : String → List Str) (content : Str)
    (hfound : releaseHeader rel.releaseDate <:+: content) :
    addCommits py rel (categories.map fun name => (name, (assign name).map bullet)) content
        = join (texts (merged py rel.releaseDate assign content))
      ∧ ((∀ name ∈ categories, ∀ f ∈ assign name, '\n' ∉ f) →
        (join (texts (merged py rel.releaseDate assign content))).splitOn '\n'
          = texts (merged py rel.releaseDate assign content))
      ∧ (PureInsertion py (releaseHeader rel.releaseDate) assign (content.splitOn '\n')
          (merged py rel.releaseDate assign content)
        ↔ ∀ name ∈ categories, assign name ≠ [] → Placeable py (releaseHeader rel.releaseDate)
          (categoryHeader name) (content.splitOn '\n'))
      ∧ ∀ formattedDate : Option Str, (∀ d ∈ formattedDate, '\n' ∉ d) →
        KeptButDate (join (texts (merged py rel.releaseDate assign content)))
          (updateReleaseDate formattedDate
            (join (texts (merged py rel.releaseDate assign content)))) :=
  ⟨addCommits_eq_merged hfound, splitOn_join_merged hpy, pureInsertion_merged hpy,
    fun _ hdate => keptButDate_updateReleaseDate hdate _⟩

theorem plainMarks_asciiPython : PlainMarks asciiPython := ⟨by decide, by decide⟩

/-- One new commit of each repository. -/
def twoCommits (name : String) : List Str :=
  if name = "🍌 BananaWRT Core" then ["🍌 fix wifi by @a".toList] else ["📦 bump modemband by @b".toList]

def sectionOfFebruary : Str :=
  "# Changelog\n---\n## [2025-02-01]\n\n### 🍌 BananaWRT Core\n\n- x  \n\n---\n## [2025-01-01]\n".toList

theorem merge_sectionOfFebruary : PureInsertion asciiPython (releaseHeader "2025-02-01".toList)
    twoCommits (sectionOfFebruary.splitOn '\n')
    (merged asciiPython "2025-02-01".toList twoCommits sectionOfFebruary) := by
  have hplace : ∀ name ∈ categories, twoCommits name ≠ [] → Placeable asciiPython
      (releaseHeader "2025-02-01".toList) (categoryHeader name)
      (sectionOfFebruary.splitOn '\n') := by
    intro name hname _
    have hin : ∀ n ∈ categories, releaseHeader "2025-02-01".toList ∈ sectionOfFebruary.splitOn '\n'
        ∧ (categoryHeader n ∈ window (releaseHeader "2025-02-01".toList)
            (sectionOfFebruary.splitOn '\n') →
          categoryHeader n ∈ (reading asciiPython (releaseHeader "2025-02-01".toList)
              (categoryHeader n) (window (releaseHeader "2025-02-01".toList)
                (sectionOfFebruary.splitOn '\n'))).rtakeWhile
              (· ≠ releaseHeader "2025-02-01".toList)
            ∧ ∀ l ∈ (reading asciiPython (releaseHeader "2025-02-01".toList) (categoryHeader n)
                (window (releaseHeader "2025-02-01".toList)
                  (sectionOfFebruary.splitOn '\n'))).rtakeWhile
                (· ≠ releaseHeader "2025-02-01".toList), isRule asciiPython l = false) := by
      decide +kernel
    exact ⟨(hin name hname).1, (hin name hname).2⟩
  exact (merge_iff plainMarks_asciiPython ⟨"2025-02-01".toList, none, [], []⟩ twoCommits
    sectionOfFebruary (by decide +kernel)).2.2.1.2 hplace

/-- The header has a blank behind it: it is found, but not read, and the bullets go to the beginning
of the file. -/
theorem merge_blankBehindHeader : ¬ ∀ (py : Python), PlainMarks py →
    ∀ (rel : Release) (assign : String → List Str) (content : Str),
      releaseHeader rel.releaseDate <:+: content →
        PureInsertion py (releaseHeader rel.releaseDate) assign (content.splitOn '\n')
          (merged py rel.releaseDate assign content) := by
  intro h
  have hpure := h asciiPython plainMarks_asciiPython ⟨"2025-02-01".toList, none, [], []⟩
    (fun name => if name = "🍌 BananaWRT Core" then ["🍌 fix wifi by @a".toList] else [])
    "# Changelog\n---\n## [2025-02-01] \n---\n".toList (by decide +kernel)
  have hin := hpure.inside "🍌 BananaWRT Core"
    [("# Changelog".toList, .old), ("### 🍌 BananaWRT Core".toList, .frame), ([], .frame)]
    (bullet "🍌 fix wifi by @a".toList)
    [([], .frame), ("---".toList, .old), ("## [2025-02-01] ".toList, .old), ("---".toList, .old),
      ([], .old)] (by decide +kernel)
  exact absurd hin.mem (by decide +kernel)

end File

end UpdateChangelog

end BananaWrt
