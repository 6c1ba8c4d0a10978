import Mathlib.Data.Option.Basic

/-!
# Runs of a system that takes inputs

A system is a partial step function: `step s i` is the state after input `i`, or `none` where
`i` cannot happen. `exec` takes a list of inputs in order, and `Meets` says that each of them
meets a condition on the state it is taken in. What every step that meets the condition keeps,
every run that meets it keeps (`exec_inv`).
-/

namespace Runs

variable {σ ι : Type*} (step : σ → ι → Option σ)

/-- The state after the inputs in order, `none` once one of them cannot happen. -/
def exec : σ → List ι → Option σ
  | s, [] => some s
  | s, i :: is => (step s i).bind fun s' => exec s' is

/-- Every input of the run meets `ok` in the state it is taken in. -/
def Meets (ok : σ → ι → Prop) : σ → List ι → Prop
  | _, [] => True
  | s, i :: is => ok s i ∧ ∀ s' ∈ step s i, Meets ok s' is

instance decidableMeets {ok : σ → ι → Prop} [∀ s i, Decidable (ok s i)] :
    ∀ (s : σ) (is : List ι), Decidable (Meets step ok s is)
  | _, [] => .isTrue trivial
  | s, i :: is =>
    have : ∀ s', Decidable (Meets step ok s' is) := fun s' => decidableMeets s' is
    inferInstanceAs (Decidable (ok s i ∧ ∀ s' ∈ step s i, Meets step ok s' is))

variable {step}

theorem exec_cons {s s' : σ} {i : ι} {is : List ι} (h : exec step s (i :: is) = some s') :
    ∃ s₁, step s i = some s₁ ∧ exec step s₁ is = some s' :=
  Option.bind_eq_some_iff.1 h

/-- A run goes on from the state that its first part ends in. -/
theorem exec_append : ∀ {is is' : List ι} {s s' : σ}, exec step s is = some s' →
    exec step s (is ++ is') = exec step s' is'
  | [], _, _, _, h => by
    cases h
    rfl
  | _ :: _, _, _, _, h => by
    obtain ⟨s₁, h1, h2⟩ := exec_cons h
    rw [List.cons_append, exec, h1, Option.bind_some, exec_append h2]

/-- A condition on the inputs alone. -/
theorem meets_of_forall {P : ι → Prop} :
    ∀ {is : List ι} {s : σ}, (∀ i ∈ is, P i) → Meets step (fun _ i => P i) s is
  | [], _, _ => trivial
  | i :: _, _, h =>
    ⟨h i List.mem_cons_self, fun _ _ => meets_of_forall fun j hj => h j (List.mem_cons_of_mem i hj)⟩

/-- What a run meets, its last part meets. -/
theorem meets_of_append {ok : σ → ι → Prop} : ∀ (is : List ι) {is' : List ι} {s s' : σ},
    Meets step ok s (is ++ is') → exec step s is = some s' → Meets step ok s' is'
  | [], _, _, _, h, hr => by
    cases hr
    exact h
  | _ :: _, _, _, _, h, hr => by
    obtain ⟨s₁, h1, h2⟩ := exec_cons hr
    exact meets_of_append _ (h.2 s₁ h1) h2

/-- What each step that meets `ok` keeps holds after every run whose steps meet `ok`. -/
theorem exec_inv {ok : σ → ι → Prop} {I : σ → Prop}
    (hstep : ∀ s i s', I s → ok s i → step s i = some s' → I s') :
    ∀ {is : List ι} {s s' : σ}, I s → Meets step ok s is → exec step s is = some s' → I s'
  | [], s, s', hI, _, h => by
    cases h
    exact hI
  | i :: is, s, s', hI, hm, h => by
    obtain ⟨s₁, h1, h2⟩ := exec_cons h
    exact exec_inv hstep (hstep s i s₁ hI hm.1 h1) (hm.2 s₁ h1) h2

theorem exec_keeps {I : σ → Prop} (hstep : ∀ s i s', I s → step s i = some s' → I s') :
    ∀ {is : List ι} {s s' : σ}, I s → exec step s is = some s' → I s'
  | [], s, s', hI, h => by
    cases h
    exact hI
  | i :: is, s, s', hI, h => by
    obtain ⟨s₁, h1, h2⟩ := exec_cons h
    exact exec_keeps hstep (hstep s i s₁ hI h1) h2

/-- An invariant that the steps that meet `ok` keep, and that implies `safe` of the inputs in `P`.
-/
theorem meets_of_inv_on {ok safe : σ → ι → Prop} {I : σ → Prop} {P : ι → Prop}
    (hstep : ∀ s i s', I s → ok s i → step s i = some s' → I s')
    (hsafe : ∀ s i, I s → P i → ok s i → safe s i) :
    ∀ {is : List ι} {s : σ}, (∀ i ∈ is, P i) → I s → Meets step ok s is → Meets step safe s is
  | [], _, _, _, _ => trivial
  | i :: _, s, hP, hI, ⟨hok, hrest⟩ =>
    ⟨hsafe s i hI (hP i List.mem_cons_self) hok, fun s' hs =>
      meets_of_inv_on hstep hsafe (fun j hj => hP j (List.mem_cons_of_mem i hj))
        (hstep s i s' hI hok hs) (hrest s' hs)⟩

theorem meets_of_inv {ok safe : σ → ι → Prop} {I : σ → Prop}
    (hstep : ∀ s i s', I s → ok s i → step s i = some s' → I s')
    (hsafe : ∀ s i, I s → ok s i → safe s i) {is : List ι} {s : σ} (hI : I s)
    (h : Meets step ok s is) : Meets step safe s is :=
  meets_of_inv_on (P := fun _ => True) hstep (fun s i hI _ => hsafe s i hI)
    (fun _ _ => trivial) hI h

/-- Where an invariant holds, two conditions on a step that agree, one of which keeps the invariant,
are met by the same runs of inputs in `P`. -/
theorem meets_iff_of_inv_on {ok safe : σ → ι → Prop} {I : σ → Prop} {P : ι → Prop}
    (hiff : ∀ s i, I s → P i → (ok s i ↔ safe s i))
    (hkeep : ∀ s i s', I s → P i → safe s i → step s i = some s' → I s') :
    ∀ {is : List ι} {s : σ}, (∀ i ∈ is, P i) → I s → (Meets step ok s is ↔ Meets step safe s is)
  | [], _, _, _ => Iff.rfl
  | i :: is, s, hP, hI => by
    have hi := hP i List.mem_cons_self
    have hrest : ∀ s' ∈ step s i, safe s i → (Meets step ok s' is ↔ Meets step safe s' is) :=
      fun s' hs hsafe => meets_iff_of_inv_on hiff hkeep
        (fun j hj => hP j (List.mem_cons_of_mem i hj)) (hkeep s i s' hI hi hsafe hs)
    refine ⟨fun ⟨hok, h⟩ => ?_, fun ⟨hsafe, h⟩ => ?_⟩
    · have hsafe := (hiff s i hI hi).1 hok
      exact ⟨hsafe, fun s' hs => (hrest s' hs hsafe).1 (h s' hs)⟩
    · exact ⟨(hiff s i hI hi).2 hsafe, fun s' hs => (hrest s' hs hsafe).2 (h s' hs)⟩

theorem meets_iff_of_inv {ok safe : σ → ι → Prop} {I : σ → Prop}
    (hiff : ∀ s i, I s → (ok s i ↔ safe s i))
    (hkeep : ∀ s i s', safe s i → step s i = some s' → I s') {is : List ι} {s : σ} (hI : I s) :
    Meets step ok s is ↔ Meets step safe s is :=
  meets_iff_of_inv_on (P := fun _ => True) (fun s i hI _ => hiff s i hI)
    (fun s i s' _ _ => hkeep s i s') (fun _ _ => trivial) hI

/-- Along a run that goes through, two conditions that agree on every step that is taken where an
invariant holds, one of which keeps the invariant, are met together. -/
theorem meets_congr_inv {ok safe : σ → ι → Prop} {I : σ → Prop}
    (hiff : ∀ s i s', I s → step s i = some s' → (ok s i ↔ safe s i))
    (hkeep : ∀ s i s', I s → safe s i → step s i = some s' → I s') :
    ∀ {is : List ι} {s s' : σ}, I s → exec step s is = some s' →
      (Meets step ok s is ↔ Meets step safe s is)
  | [], _, _, _, _ => Iff.rfl
  | i :: is, s, s', hI, hr => by
    obtain ⟨s₁, h1, h2⟩ := exec_cons hr
    refine and_congr_right_iff.2 ?_ |>.trans (and_congr_left_iff.2 fun _ => hiff s i s₁ hI h1)
    intro hok
    refine forall₂_congr fun s₂ hs₂ => ?_
    cases h1.symm.trans hs₂
    exact meets_congr_inv hiff hkeep (hkeep s i s₁ hI ((hiff s i s₁ hI h1).1 hok) h1) h2

/-- Where a step is right, and keeps an invariant, exactly if it meets a condition, all steps of a
run are right exactly if they all meet it. -/
theorem meets_right_iff {ok : σ → ι → Prop} {Right : σ → ι → σ → Prop} {I : σ → Prop}
    (hstep : ∀ s i s', I s → step s i = some s' →
      (ok s i → I s' ∧ Right s i s') ∧ (Right s i s' → ok s i)) {is : List ι} {s s' : σ} (h : I s)
    (hr : exec step s is = some s') :
    Meets step (fun s i => ∀ s' ∈ step s i, Right s i s') s is ↔ Meets step ok s is := by
  refine meets_congr_inv (fun s i s₁ hI hs => ?_) (fun s i s₁ hI hok hs => ?_) h hr
  · constructor
    · exact fun hright => (hstep s i s₁ hI hs).2 (hright s₁ hs)
    · exact fun hok s₂ hs₂ => ((hstep s i s₂ hI hs₂).1 hok).2
  · exact ((hstep s i s₁ hI hs).1 hok).1

/-- Along a run that goes through, conditions that agree on every step that is taken are met
together. -/
theorem meets_congr {ok ok' : σ → ι → Prop}
    (h : ∀ s i s', step s i = some s' → (ok s i ↔ ok' s i)) {is : List ι} {s s' : σ}
    (hr : exec step s is = some s') : Meets step ok s is ↔ Meets step ok' s is :=
  meets_congr_inv (I := fun _ => True) (fun s i s' _ => h s i s') (fun _ _ _ _ _ _ => trivial)
    trivial hr

/-- What each step keeps exactly if it meets a condition holds at the end of a run exactly if it
held at first and all steps have met the condition. -/
theorem end_iff {ok : σ → ι → Prop} {A I : σ → Prop}
    (hstep : ∀ s i s', I s → step s i = some s' → I s' ∧ (A s' ↔ A s ∧ ok s i)) :
    ∀ {is : List ι} {s s' : σ}, I s → exec step s is = some s' → (A s' ↔ A s ∧ Meets step ok s is)
  | [], _, _, _, h => by
    cases h
    exact (and_iff_left trivial).symm
  | i :: is, s, s', hI, h => by
    obtain ⟨s₁, h1, h2⟩ := exec_cons h
    obtain ⟨hI', hA⟩ := hstep s i s₁ hI h1
    rw [end_iff hstep hI' h2, hA, and_assoc]
    refine and_congr_right_iff.2 fun _ => and_congr_right_iff.2 fun _ => ?_
    refine ⟨fun hm s₂ hs₂ => ?_, fun hm => hm s₁ h1⟩
    cases h1.symm.trans hs₂
    exact hm

/-- What holds in every state that a run comes to holds at first and after every step. -/
theorem forall_prefix_iff {P : σ → Prop} : ∀ {is : List ι} {s : σ},
    (∀ js s', js <+: is → exec step s js = some s' → P s')
      ↔ P s ∧ Meets step (fun s i => ∀ s' ∈ step s i, P s') s is
  | [], s => by
    refine ⟨fun h => ⟨h [] s List.prefix_rfl rfl, trivial⟩, fun ⟨h, _⟩ js s' hjs hs' => ?_⟩
    cases List.prefix_nil.1 hjs
    cases hs'
    exact h
  | i :: is, s => by
    constructor
    · intro h
      have hnext : ∀ s₁ ∈ step s i, P s₁ ∧ Meets step (fun s i => ∀ s' ∈ step s i, P s') s₁ is := by
        intro s₁ hs₁
        refine forall_prefix_iff.1 fun js s' hjs hs' => ?_
        refine h (i :: js) s' ((List.prefix_cons_inj i).2 hjs) ?_
        rw [exec, hs₁, Option.bind_some, hs']
      exact ⟨h [] s List.nil_prefix rfl, fun s₁ hs₁ => (hnext s₁ hs₁).1,
        fun s₁ hs₁ => (hnext s₁ hs₁).2⟩
    · rintro ⟨h, hfirst, hrest⟩ js s' hjs hs'
      cases js with
      | nil =>
        cases hs'
        exact h
      | cons j js =>
        obtain ⟨rfl, hrest'⟩ := List.cons_prefix_cons.1 hjs
        obtain ⟨s₁, h1, h2⟩ := exec_cons hs'
        exact forall_prefix_iff.2 ⟨hfirst s₁ h1, hrest s₁ h1⟩ js s' hrest' h2

end Runs
