import BananaWrt.MhiPower
import BananaWrt.MhiXfer
import BananaWrt.Lib.Run

/-!
# When host and device state agree

`mhi_pm_m1_transition` writes `dev_state` once `mhi_tryset_pm_state` has allowed the transition;
`mhi_pm_m0_transition`, `mhi_pm_m3_transition` and `mhi_ready_state_transition` write it whether or
not. Where they are refused the two variables part, and `agree_iff` says that nothing else parts
them.
-/

namespace BananaWrt

namespace Mhi

/-- What `dev_state` is in the power states that are states of the modem. -/
def PmState.devState? : PmState → Option DevState
  | .m0 => some .m0
  | .m2 => some .m2
  | .m3 => some .m3
  | _ => none

namespace Power

variable {s s' : Power}

def Agree (s : Power) : Prop := ∀ dev ∈ s.pmState.devState?, s.devState = dev

instance (s : Power) : Decidable s.Agree := inferInstanceAs (Decidable (∀ dev ∈ _, _))

/-- The states that a state-change event asks `mhi_tryset_pm_state` for. -/
def asksFor : PowerInput → Option PmState
  | .stateChange .m0 => some .m0
  | .stateChange .m1 => some .m2
  | .stateChange .m3 => some .m3
  | .stateChange .sysErr => some .sysErrDetect
  | _ => none

/-- `mhi_tryset_pm_state` refuses the transition that an event asks for. -/
def Refused (s : Power) (inp : PowerInput) : Prop :=
  ∃ state ∈ asksFor inp, state ∉ s.pmState.toStates

/-- After the step the states agree, and if it was an event that is refused, `dev_state` is as it
was. -/
def Right (s : Power) (inp : PowerInput) (s' : Power) : Prop :=
  s'.Agree ∧ (s.Refused inp → s'.devState = s.devState)

/-- A transition that writes `dev_state` without a check is allowed, or makes no difference. -/
def Checked (s : Power) : PowerInput → Prop
  | .stateChange .m0 => .m0 ∈ s.pmState.toStates ∨ s.devState = .m0
  | .stateChange .m3 => .m3 ∈ s.pmState.toStates ∨ s.devState = .m3
  | .ready => .por ∈ s.pmState.toStates ∨ s.pmState.devState? = none
  | .reset => s.pmState.devState? = none
  | _ => True

theorem agree_of_none (h : s.pmState.devState? = none) : s.Agree := by
  intro dev hdev
  rw [h] at hdev
  cases hdev

/-- A power state that is none of the modem's. -/
theorem agree_tryset (h : s.Agree) {state : PmState} (hstate : state.devState? = none) :
    (s.tryset state).Agree := by
  unfold tryset
  rcases mhiTrysetPmState_cases s.pmState state with ⟨-, heq⟩ | ⟨-, heq⟩
  · exact agree_of_none (by rw [heq]; exact hstate)
  · rw [heq]
    exact h

/-- An input that is not a state-change event. -/
theorem right_of_agree {inp : PowerInput} (h : s'.Agree) (hinp : asksFor inp = none) :
    s.Right inp s' := by
  refine ⟨h, ?_⟩
  rintro ⟨state, hstate, -⟩
  rw [hinp] at hstate
  cases hstate

/-- A step that does not write `dev_state`. -/
theorem right_tryset (h : s.Agree) {inp : PowerInput} {state : PmState}
    (hstate : state.devState? = none) : s.Right inp (s.tryset state) :=
  ⟨agree_tryset h hstate, fun _ => rfl⟩

/-- `dev_state` is written first, and then the transition to its power state is tried. -/
theorem right_write_iff (h : s.Agree) {inp : PowerInput} {dev : DevState} {state : PmState}
    (hstate : state.devState? = some dev) (hinp : asksFor inp = some state) :
    s.Right inp ({ s with devState := dev }.tryset state)
      ↔ state ∈ s.pmState.toStates ∨ s.devState = dev := by
  unfold Right tryset
  dsimp only
  rcases mhiTrysetPmState_cases s.pmState state with ⟨hmem, heq⟩ | ⟨hmem, heq⟩ <;> rw [heq]
  · -- it is allowed
    refine iff_of_true ⟨fun dev' hdev' => ?_, ?_⟩ (Or.inl hmem)
    · exact Option.some.inj (hstate.symm.trans hdev')
    · rintro ⟨state', hstate', hnot⟩
      rw [hinp] at hstate'
      cases hstate'
      exact absurd hmem hnot
  · constructor
    · rintro ⟨-, hsame⟩
      exact Or.inr (hsame ⟨state, hinp, hmem⟩).symm
    · rintro (hmem' | hdev)
      · exact absurd hmem' hmem
      · refine ⟨fun dev' hdev' => ?_, fun _ => hdev.symm⟩
        exact hdev.symm.trans (h dev' hdev')

theorem right_m1 (h : s.Agree) : s.Right (.stateChange .m1) s.mhiPmM1Transition := by
  unfold mhiPmM1Transition
  rcases mhiTrysetPmState_cases s.pmState .m2 with ⟨hmem, heq⟩ | ⟨-, heq⟩ <;> rw [heq]
  · refine ⟨fun dev hdev => Option.some.inj hdev, ?_⟩
    rintro ⟨state, hstate, hnot⟩
    cases hstate
    exact absurd hmem hnot
  · split_ifs with hm2
    · -- the state is M2 already
      exact ⟨fun dev hdev => Option.some.inj hdev, fun _ => (h .m2 (by rw [hm2]; rfl)).symm⟩
    · exact ⟨h, fun _ => rfl⟩

/-- No power state goes with READY or RESET. -/
theorem agree_write_iff {dev : DevState} (hdev : dev = .ready ∨ dev = .reset) :
    ({ s with devState := dev } : Power).Agree ↔ s.pmState.devState? = none := by
  refine ⟨fun h => ?_, fun h => agree_of_none h⟩
  refine Option.eq_none_iff_forall_ne_some.2 fun dev' hdev' => ?_
  have heq : dev = dev' := h dev' hdev'
  revert hdev'
  rw [← heq]
  rcases hdev with rfl | rfl <;> cases s.pmState <;> decide

theorem right_ready_iff :
    s.Right .ready s.mhiReadyStateTransition
      ↔ .por ∈ s.pmState.toStates ∨ s.pmState.devState? = none := by
  unfold mhiReadyStateTransition tryset
  rcases mhiTrysetPmState_cases s.pmState .por with ⟨hmem, heq⟩ | ⟨hmem, heq⟩ <;> rw [heq]
  · exact iff_of_true (right_of_agree (agree_of_none rfl) rfl) (Or.inl hmem)
  · rw [or_iff_right hmem, ← agree_write_iff (Or.inl rfl)]
    exact ⟨fun h => h.1, fun h => right_of_agree h rfl⟩

theorem right_reset_iff :
    s.Right .reset { s with devState := .reset } ↔ s.pmState.devState? = none := by
  rw [← agree_write_iff (Or.inr rfl)]
  exact ⟨fun h => h.1, fun h => right_of_agree h rfl⟩

theorem right_disable (h : s.Agree) (shutdown : Bool) :
    s.Right (.disable shutdown) (s.mhiPmDisableTransition shutdown) := by
  obtain ⟨state, hstate, heq⟩ : ∃ state : PmState, state.devState? = none
      ∧ (if shutdown then PmState.shutdownProcess else .sysErrProcess) = state := by
    cases shutdown <;> exact ⟨_, rfl, rfl⟩
  unfold mhiPmDisableTransition
  rw [heq]
  dsimp only
  by_cases hset : mhiTrysetPmState s.pmState state = state
  · rw [if_pos hset]
    exact right_of_agree (agree_of_none hstate) rfl
  · rw [if_neg hset]
    exact right_of_agree h rfl

/-- Given that the states agree, a step is right if and only if it is checked. -/
theorem right_iff (h : s.Agree) (inp : PowerInput) :
    (∀ s' ∈ stepPower s inp, s.Right inp s') ↔ s.Checked inp := by
  cases inp with
  | stateChange new =>
    simp only [stepPower, Option.mem_some_iff, forall_eq']
    cases new with
    | m0 => exact right_write_iff h rfl rfl
    | m1 => exact iff_of_true (right_m1 h) trivial
    | m3 => exact right_write_iff h rfl rfl
    | sysErr => exact iff_of_true (right_tryset h rfl) trivial
    | reset | ready | m2 | bhi => exact iff_of_true (right_of_agree h rfl) trivial
  | sysErr => exact iff_of_true (by rintro _ ⟨⟩; exact right_tryset h rfl) trivial
  | suspend =>
    refine iff_of_true (fun s' hs => ?_) trivial
    simp only [stepPower, Option.mem_def, Option.ite_none_right_eq_some, Option.some.injEq] at hs
    obtain ⟨-, rfl⟩ := hs
    unfold mhiPmSuspend
    split_ifs <;> exact right_of_agree h rfl
  | suspendWaited timeout =>
    refine iff_of_true (fun s' hs => ?_) trivial
    simp only [stepPower, suspendWaited, Option.mem_def] at hs
    split_ifs at hs <;> cases hs <;> exact right_of_agree h rfl
  | m3Enter =>
    refine iff_of_true (fun s' hs => ?_) trivial
    simp only [stepPower, m3Enter, Option.mem_def, Option.ite_none_right_eq_some,
      Option.some.injEq] at hs
    obtain ⟨-, rfl⟩ := hs
    exact right_of_agree (agree_tryset (s := { s with suspend := none }) h rfl) rfl
  | resume =>
    refine iff_of_true ?_ trivial
    simp only [stepPower, Option.mem_some_iff, forall_eq']
    unfold mhiPmResume
    split_ifs
    · exact right_of_agree h rfl
    · exact right_tryset h rfl
  | ready =>
    simp only [stepPower, Option.mem_some_iff, forall_eq']
    exact right_ready_iff
  | reset =>
    simp only [stepPower, Option.mem_some_iff, forall_eq']
    exact right_reset_iff
  | powerUp =>
    refine iff_of_true (fun s' hs => ?_) trivial
    simp only [stepPower, Option.mem_def, Option.ite_none_left_eq_some, Option.some.injEq] at hs
    obtain ⟨-, rfl⟩ := hs
    exact right_of_agree (agree_of_none rfl) rfl
  | powerUpDone failed =>
    refine iff_of_true (fun s' hs => ?_) trivial
    simp only [stepPower, powerUpDone, Option.mem_def, Option.ite_none_right_eq_some,
      Option.some.injEq] at hs
    obtain ⟨-, rfl⟩ := hs
    split_ifs
    · exact right_of_agree h rfl
    · exact right_of_agree (agree_of_none rfl) rfl
  | linkDown => exact iff_of_true (by rintro _ ⟨⟩; exact right_tryset h rfl) trivial
  | disable shutdown => exact iff_of_true (by rintro _ ⟨⟩; exact right_disable h shutdown) trivial
  | disableEnd shutdown =>
    refine iff_of_true ?_ trivial
    simp only [stepPower, Option.mem_some_iff, forall_eq']
    cases shutdown <;> exact right_tryset h rfl
  | panic => exact iff_of_true (by rintro _ ⟨⟩; exact right_of_agree (agree_of_none rfl) rfl) trivial

end Power

/-- From the first power-up on, the states agree and refused events change nothing in all of a run
if and only if all its steps are checked. -/
theorem right_iff_checked (is : List PowerInput) :
    Runs.Meets stepPower (fun s inp => ∀ s' ∈ stepPower s inp, s.Right inp s') Power.initial is
      ↔ Runs.Meets stepPower Power.Checked Power.initial is :=
  (Runs.meets_iff_of_inv (fun _ inp h => (Power.right_iff h inp).symm)
    (fun _ _ s' h hs => (h s' hs).1) (Power.agree_of_none rfl)).symm

/-- The modem comes to M0, and then reports M3 although it has not been asked for it. -/
def m3Unasked : List PowerInput :=
  [.powerUp, .powerUpDone false, .ready, .stateChange .m0, .stateChange .m3]

theorem disagree_m3Unasked : ∃ s, Runs.exec stepPower Power.initial m3Unasked = some s
    ∧ s.pmState = .m0 ∧ s.devState = .m3 ∧ ¬ s.Agree :=
  ⟨_, rfl, rfl, rfl, by decide⟩

/-- What the two variables are in a state of the transfers. -/
def St.power {n : ℕ} (s : St n) : Power where
  pmState := s.pmState
  devState := s.devState
  suspend :=
    match s.suspend with
    | some .waiting => some .waiting
    | some .waited => some .waited
    | _ => none
  poweringUp := false

/-- The sections that both models have are the same. -/
theorem power_sections {n : ℕ} (s : St n) :
    s.mhiPmM0Transition.power = s.power.mhiPmM0Transition
      ∧ s.mhiPmM1Transition.power = s.power.mhiPmM1Transition
      ∧ s.mhiPmM3Transition.power = s.power.mhiPmM3Transition
      ∧ s.mhiPmResume.power = s.power.mhiPmResume := by
  refine ⟨rfl, ?_, rfl, ?_⟩
  · unfold St.mhiPmM1Transition Power.mhiPmM1Transition
    change _ = if mhiTrysetPmState s.pmState .m2 = .m2 then _ else _
    split_ifs <;> rfl
  · unfold St.mhiPmResume Power.mhiPmResume Power.tryset
    change _ = if s.pmState = .disable ∨ s.pmState.InError then _ else _
    split_ifs with herr hexit
    · rfl
    · change _ = { s.power with pmState := mhiTrysetPmState s.pmState .m3Exit }
      rw [hexit]
      unfold St.wakeGet
      split_ifs <;> rfl
    · have hkeep : mhiTrysetPmState s.pmState .m3Exit = s.pmState := by
        rcases mhiTrysetPmState_cases s.pmState .m3Exit with ⟨-, heq⟩ | ⟨-, heq⟩
        · exact absurd heq hexit
        · exact heq
      change _ = { s.power with pmState := mhiTrysetPmState s.pmState .m3Exit }
      rw [hkeep]
      rfl

end Mhi

end BananaWrt
