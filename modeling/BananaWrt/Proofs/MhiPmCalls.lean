import BananaWrt.MhiPmCalls
import BananaWrt.Lib.Run

/-!
# What suspend and resume leave behind

Once `MHI_PM_M3_ENTER` is set, the table has no way back to M0 but through M3: a wait for M3 that
times out leaves the host in M3_ENTER or M3, and the call returns an error all the same. `dev_state`
is written by events whether or not the table allows the transition (`Proofs.MhiPower`), so that a
wait may also be ended by an event from before the section that it waits for. `SuspendOk` and
`ResumeOk` leave out these runs, and SYS_ERR between the last test of a call and its return.
-/

namespace BananaWrt

namespace Mhi

namespace DevEvent

/-- The state that an event asks `mhi_tryset_pm_state` for. -/
def asks : DevEvent → Option PmState
  | stateChange .m0 => some .m0
  | stateChange .m1 => some .m2
  | stateChange .m3 => some .m3
  | stateChange .sysErr => some .sysErrDetect
  | stateChange _ => none
  | sysErr => some .sysErrDetect

/-- The event is that of an error. -/
def IsErr (ev : DevEvent) : Prop := ev.asks = some .sysErrDetect

instance (ev : DevEvent) : Decidable ev.IsErr := inferInstanceAs (Decidable (_ = _))

variable (s : Power) (ev : DevEvent)

theorem apply_pmState :
    (ev.apply s).pmState = ev.asks.elim s.pmState (mhiTrysetPmState s.pmState) := by
  cases ev with
  | sysErr => rfl
  | stateChange new =>
    cases new with
    | m1 =>
      change s.mhiPmM1Transition.pmState = mhiTrysetPmState s.pmState .m2
      unfold Power.mhiPmM1Transition
      rcases mhiTrysetPmState_cases s.pmState .m2 with ⟨-, heq⟩ | ⟨-, heq⟩ <;> rw [heq]
      · rfl
      · split_ifs with hm2
        · exact hm2.symm
        · rfl
    | m0 | m3 | sysErr | reset | ready | m2 | bhi => rfl

/-- Only the event of M0 writes `dev_state` M0, and only that of M3 writes M3. -/
theorem apply_devState {dev : DevState} (hdev : dev = .m0 ∨ dev = .m3)
    (hne : s.devState ≠ dev) (h : (ev.apply s).devState = dev) : ev = .stateChange dev := by
  cases ev with
  | sysErr => exact absurd h hne
  | stateChange new =>
    cases new with
    | m0 | m3 => exact congrArg _ h
    | m1 =>
      change s.mhiPmM1Transition.devState = dev at h
      unfold Power.mhiPmM1Transition at h
      split_ifs at h
      · rcases hdev with rfl | rfl <;> cases h
      · exact absurd h hne
    | sysErr | reset | ready | m2 | bhi => exact absurd h hne

/-- An error stays one. -/
theorem inError_apply (h : s.pmState.InError) : (ev.apply s).pmState.InError := by
  rw [apply_pmState]
  generalize s.pmState = pm at h
  cases ev with
  | sysErr => revert h; cases pm <;> decide
  | stateChange new => revert h; cases new <;> cases pm <;> decide

/-- From M3 an event leads to an error, or nowhere. -/
theorem apply_of_m3 (h : s.pmState = .m3) :
    (ev.apply s).pmState = .m3 ∨ ev.IsErr ∧ (ev.apply s).pmState.InError := by
  rw [apply_pmState, h]
  cases ev with
  | sysErr => decide
  | stateChange new => cases new <;> decide

/-- Between M0 and M2 the modem goes back and forth. -/
theorem apply_of_m0 (h : s.pmState = .m0 ∨ s.pmState = .m2) :
    ((ev.apply s).pmState = .m0 ∨ (ev.apply s).pmState = .m2)
      ∨ ev.IsErr ∧ (ev.apply s).pmState.InError := by
  rw [apply_pmState]
  rcases h with h | h <;> rw [h] <;> cases ev with
  | sysErr => decide
  | stateChange new => cases new <;> decide

/-- The states in which a call waits for `dev_state`, what it waits for and where that leads. -/
def waits : List (PmState × DevState × PmState) :=
  [(.m3Enter, .m3, .m3), (.m3Exit, .m0, .m0)]

/-- The event that is waited for leads on, and no other leads there or writes `dev_state` so. -/
theorem apply_of_waits {enter reached : PmState} {dev : DevState}
    (hw : (enter, dev, reached) ∈ waits) (h : s.pmState = enter) (hne : s.devState ≠ dev) :
    (ev.apply s).pmState = enter ∧ (ev.apply s).devState ≠ dev ∨ (ev.apply s).pmState = reached
      ∨ (ev.apply s).pmState.InError := by
  simp only [waits, List.mem_cons, Prod.mk.injEq, List.not_mem_nil, or_false] at hw
  by_cases hev : ev = .stateChange dev
  · subst hev
    rw [apply_pmState, h]
    rcases hw with ⟨rfl, rfl, rfl⟩ | ⟨rfl, rfl, rfl⟩
    · exact Or.inr (Or.inl rfl)
    · exact Or.inr (Or.inl rfl)
  · have hdev : dev = .m0 ∨ dev = .m3 := hw.symm.imp (fun h => h.2.1) fun h => h.2.1
    have hdev' : (ev.apply s).devState ≠ dev := fun heq =>
      hev (apply_devState s ev hdev hne heq)
    have hpm : (ev.apply s).pmState = enter ∨ (ev.apply s).pmState.InError := by
      rw [apply_pmState, h]
      rcases hw with ⟨rfl, rfl, rfl⟩ | ⟨rfl, rfl, rfl⟩ <;> cases ev with
      | sysErr => decide
      | stateChange new => revert hev; cases new <;> decide
    rcases hpm with hpm | hpm
    · exact Or.inl ⟨hpm, hdev'⟩
    · exact Or.inr (Or.inr hpm)

end DevEvent

/-- What the call returns says whether the host is in M3, and it is not in M3_ENTER or M3 after an
error. -/
def SuspendRight (s : Power × SuspendAt) : Prop :=
  ∀ ret, s.2 = .returned ret →
    (ret = 0 → s.1.pmState = .m3) ∧ (ret ≠ 0 → s.1.pmState ≠ .m3Enter ∧ s.1.pmState ≠ .m3)

/-- The wait for M0 or M1 does not time out in M3_ENTER or M3 and the wait for M3 not at all; the
section under `pm_lock` does not come in M3, and if it sets M3_ENTER, `dev_state` is not M3 yet; no
error is reported between the last test and the return. -/
def SuspendOk (s : Power × SuspendAt) : CallInput → Prop
  | .timeout => s.2 ≠ .waitM3 ∧ (s.2 = .waitM0 → s.1.pmState ≠ .m3Enter ∧ s.1.pmState ≠ .m3)
  | .go => s.2 = .m3Enter →
      s.1.pmState ≠ .m3 ∧ ((s.1.tryset .m3Enter).pmState = .m3Enter → s.1.devState ≠ .m3)
  | .event ev => s.2 = .notify → ¬ ev.IsErr

instance (s : Power × SuspendAt) (inp : CallInput) : Decidable (SuspendOk s inp) := by
  cases inp <;> unfold SuspendOk <;> infer_instance

def SuspendInv (s : Power × SuspendAt) : Prop :=
  match s.2 with
  | .waitM3 => s.1.pmState = .m3Enter ∧ s.1.devState ≠ .m3 ∨ s.1.pmState = .m3
      ∨ s.1.pmState.InError
  | .wokenM3 => s.1.pmState = .m3 ∨ s.1.pmState.InError
  | .notify => s.1.pmState = .m3
  | .returned ret =>
    (ret = 0 → s.1.pmState = .m3) ∧ (ret ≠ 0 → s.1.pmState ≠ .m3Enter ∧ s.1.pmState ≠ .m3)
  | _ => True

theorem not_inError_m3Enter : ¬ PmState.m3Enter.InError := by decide

theorem not_inError_m3 : ¬ PmState.m3.InError := by decide

/-- An error exit outside M3_ENTER and M3. -/
theorem suspendInv_eio {s : Power} (h : s.pmState ≠ .m3Enter ∧ s.pmState ≠ .m3) :
    SuspendInv (s, .returned (- EIO)) :=
  ⟨fun h0 => absurd h0 (by decide), fun _ => h⟩

theorem suspendInv_of_inError {s : Power} (h : s.pmState.InError) :
    SuspendInv (s, .returned (- EIO)) :=
  suspendInv_eio ⟨fun heq => not_inError_m3Enter (heq ▸ h), fun heq => not_inError_m3 (heq ▸ h)⟩

theorem suspendInv_event {s : Power} {place : SuspendAt} {ev : DevEvent}
    (h : SuspendInv (s, place)) (hok : SuspendOk (s, place) (.event ev)) (hrun : place.Running) :
    SuspendInv (ev.apply s, place) := by
  cases place with
  | start | waitM0 | wokenM0 | m3Enter => trivial
  | waitM3 =>
    rcases h with ⟨hpm, hdev⟩ | hpm | herr
    · exact DevEvent.apply_of_waits s ev (by simp [DevEvent.waits]) hpm hdev
    · rcases DevEvent.apply_of_m3 s ev hpm with hpm' | ⟨-, herr⟩
      · exact Or.inr (Or.inl hpm')
      · exact Or.inr (Or.inr herr)
    · exact Or.inr (Or.inr (DevEvent.inError_apply s ev herr))
  | wokenM3 =>
    rcases h with hpm | herr
    · rcases DevEvent.apply_of_m3 s ev hpm with hpm' | ⟨-, herr⟩
      · exact Or.inl hpm'
      · exact Or.inr herr
    · exact Or.inr (DevEvent.inError_apply s ev herr)
  | notify =>
    rcases DevEvent.apply_of_m3 s ev h with hpm' | ⟨herr, -⟩
    · exact hpm'
    · exact absurd herr (hok rfl)
  | returned ret => exact hrun.elim

theorem suspendInv_go {s s' : Power} {place place' : SuspendAt} (h : SuspendInv (s, place))
    (hok : SuspendOk (s, place) .go) (hgo : suspendGo s place = some (s', place')) :
    SuspendInv (s', place') := by
  cases place with
  | start =>
    simp only [suspendGo] at hgo
    split_ifs at hgo with hdis herr <;> cases hgo
    · refine ⟨fun h0 => absurd h0 (by decide), fun _ => ?_⟩
      rw [hdis]
      decide
    · exact suspendInv_of_inError herr
    · trivial
  | waitM0 =>
    simp only [suspendGo] at hgo
    split_ifs at hgo
    cases hgo
    trivial
  | wokenM0 =>
    simp only [suspendGo, Option.some.injEq, Prod.mk.injEq] at hgo
    obtain ⟨rfl, rfl⟩ := hgo
    split_ifs with herr
    · exact suspendInv_of_inError herr
    · trivial
  | m3Enter =>
    obtain ⟨hm3, hdev⟩ := hok rfl
    simp only [suspendGo, Option.some.injEq, Prod.mk.injEq] at hgo
    obtain ⟨rfl, rfl⟩ := hgo
    split_ifs with hset
    · exact Or.inl ⟨hset, hdev hset⟩
    · refine suspendInv_eio ⟨hset, fun heq => hm3 ?_⟩
      exact mhiTrysetPmState_of_ne (by decide) heq
  | waitM3 =>
    simp only [suspendGo] at hgo
    split_ifs at hgo with hsees
    cases hgo
    rcases h with ⟨hpm, hdev⟩ | h
    · rcases hsees with hdev' | herr
      · exact absurd hdev' hdev
      · exact absurd (hpm ▸ herr) not_inError_m3Enter
    · exact h
  | wokenM3 =>
    simp only [suspendGo, Option.some.injEq, Prod.mk.injEq] at hgo
    obtain ⟨rfl, rfl⟩ := hgo
    split_ifs with herr
    · exact suspendInv_of_inError herr
    · exact h.resolve_right herr
  | notify =>
    cases hgo
    exact ⟨fun _ => h, fun hne => absurd rfl hne⟩
  | returned ret => cases hgo

theorem suspendInv_step (s : Power × SuspendAt) (inp : CallInput) (s' : Power × SuspendAt)
    (h : SuspendInv s) (hok : SuspendOk s inp) (hs : stepSuspend s inp = some s') :
    SuspendInv s' := by
  obtain ⟨s, place⟩ := s
  cases inp with
  | event ev =>
    simp only [stepSuspend, Option.ite_none_right_eq_some, Option.some.injEq] at hs
    obtain ⟨hrun, rfl⟩ := hs
    exact suspendInv_event h hok hrun
  | go => exact suspendInv_go h hok hs
  | timeout =>
    obtain ⟨hm3, hm0⟩ := hok
    cases place with
    | waitM0 =>
      simp only [stepSuspend, suspendTimeout, Option.ite_none_left_eq_some,
        Option.some.injEq] at hs
      obtain ⟨-, rfl⟩ := hs
      exact suspendInv_eio (hm0 rfl)
    | waitM3 => exact absurd rfl hm3
    | start | wokenM0 | m3Enter | wokenM3 | notify | returned => cases hs

theorem SuspendInv.right {s : Power × SuspendAt} (h : SuspendInv s) : SuspendRight s := by
  intro ret hret
  unfold SuspendInv at h
  rw [hret] at h
  exact h

/-- A call that returns 0 leaves the host in M0 or M2. -/
def ResumeRight (s : Power × ResumeAt) : Prop :=
  s.2 = .returned 0 → s.1.pmState = .m0 ∨ s.1.pmState = .m2

/-- The section under `pm_lock` finds `dev_state` other than M0, and no error is reported between
the last test and the return. -/
def ResumeOk (s : Power × ResumeAt) : CallInput → Prop
  | .go => s.2 = .m3Exit → s.1.devState ≠ .m0
  | .event ev => s.2 = .leave → ¬ ev.IsErr
  | .timeout => True

instance (s : Power × ResumeAt) (inp : CallInput) : Decidable (ResumeOk s inp) := by
  cases inp <;> unfold ResumeOk <;> infer_instance

def ResumeInv (s : Power × ResumeAt) : Prop :=
  match s.2 with
  | .start => s.1.pmState = .m3 ∨ s.1.pmState.InError
  | .m3Exit => s.1.pmState = .m3 ∨ s.1.pmState.InError
  | .waitM0 => s.1.pmState = .m3Exit ∧ s.1.devState ≠ .m0
      ∨ (s.1.pmState = .m0 ∨ s.1.pmState = .m2) ∨ s.1.pmState.InError
  | .wokenM0 => (s.1.pmState = .m0 ∨ s.1.pmState = .m2) ∨ s.1.pmState.InError
  | .leave => s.1.pmState = .m0 ∨ s.1.pmState = .m2
  | .returned ret => ret = 0 → s.1.pmState = .m0 ∨ s.1.pmState = .m2

theorem resumeInv_eio (s : Power) : ResumeInv (s, .returned (- EIO)) :=
  fun h0 => absurd h0 (by decide)

theorem resumeInv_event {s : Power} {place : ResumeAt} {ev : DevEvent}
    (h : ResumeInv (s, place)) (hok : ResumeOk (s, place) (.event ev)) (hrun : place.Running) :
    ResumeInv (ev.apply s, place) := by
  have hm3 (h : s.pmState = .m3 ∨ s.pmState.InError) :
      (ev.apply s).pmState = .m3 ∨ (ev.apply s).pmState.InError := by
    rcases h with hpm | herr
    · exact (DevEvent.apply_of_m3 s ev hpm).imp_right And.right
    · exact Or.inr (DevEvent.inError_apply s ev herr)
  have hm0 (h : (s.pmState = .m0 ∨ s.pmState = .m2) ∨ s.pmState.InError) :
      ((ev.apply s).pmState = .m0 ∨ (ev.apply s).pmState = .m2)
        ∨ (ev.apply s).pmState.InError := by
    rcases h with hpm | herr
    · exact (DevEvent.apply_of_m0 s ev hpm).imp_right And.right
    · exact Or.inr (DevEvent.inError_apply s ev herr)
  cases place with
  | start | m3Exit => exact hm3 h
  | waitM0 =>
    rcases h with ⟨hpm, hdev⟩ | h
    · have hw : (PmState.m3Exit, DevState.m0, PmState.m0) ∈ DevEvent.waits := by
        simp [DevEvent.waits]
      rcases DevEvent.apply_of_waits s ev hw hpm hdev with hsame | hpm' | herr
      · exact Or.inl hsame
      · exact Or.inr (Or.inl (Or.inl hpm'))
      · exact Or.inr (Or.inr herr)
    · exact Or.inr (hm0 h)
  | wokenM0 => exact hm0 h
  | leave =>
    rcases DevEvent.apply_of_m0 s ev h with hpm' | ⟨herr, -⟩
    · exact hpm'
    · exact absurd herr (hok rfl)
  | returned ret => exact hrun.elim

theorem resumeInv_go {s s' : Power} {place place' : ResumeAt} (h : ResumeInv (s, place))
    (hok : ResumeOk (s, place) .go) (hgo : resumeGo s place = some (s', place')) :
    ResumeInv (s', place') := by
  cases place with
  | start =>
    simp only [resumeGo] at hgo
    split_ifs at hgo with hdis herr <;> cases hgo
    · -- neither M3 nor an error is DISABLE
      rcases h with hpm | herr
      · exact absurd (hpm.symm.trans hdis) (by decide)
      · exact absurd (hdis ▸ herr) (by decide)
    · exact resumeInv_eio s
    · exact h
  | m3Exit =>
    simp only [resumeGo, Option.some.injEq, Prod.mk.injEq] at hgo
    obtain ⟨rfl, rfl⟩ := hgo
    split_ifs with hset
    · exact Or.inl ⟨hset, hok rfl⟩
    · exact resumeInv_eio _
  | waitM0 =>
    simp only [resumeGo] at hgo
    split_ifs at hgo with hsees
    cases hgo
    rcases h with ⟨hpm, hdev⟩ | h
    · rcases hsees with hdev' | herr
      · exact absurd hdev' hdev
      · exact absurd (hpm ▸ herr) (by decide)
    · exact h
  | wokenM0 =>
    simp only [resumeGo, Option.some.injEq, Prod.mk.injEq] at hgo
    obtain ⟨rfl, rfl⟩ := hgo
    split_ifs with herr
    · exact resumeInv_eio s
    · exact h.resolve_right herr
  | leave =>
    cases hgo
    exact fun _ => h
  | returned ret => cases hgo

theorem resumeInv_step (s : Power × ResumeAt) (inp : CallInput) (s' : Power × ResumeAt)
    (h : ResumeInv s) (hok : ResumeOk s inp) (hs : stepResume s inp = some s') :
    ResumeInv s' := by
  obtain ⟨s, place⟩ := s
  cases inp with
  | event ev =>
    simp only [stepResume, Option.ite_none_right_eq_some, Option.some.injEq] at hs
    obtain ⟨hrun, rfl⟩ := hs
    exact resumeInv_event h hok hrun
  | go => exact resumeInv_go h hok hs
  | timeout =>
    cases place with
    | waitM0 =>
      simp only [stepResume, resumeTimeout, Option.ite_none_left_eq_some,
        Option.some.injEq] at hs
      obtain ⟨-, rfl⟩ := hs
      exact resumeInv_eio s
    | start | m3Exit | wokenM0 | leave | returned => cases hs

theorem ResumeInv.right {s : Power × ResumeAt} (h : ResumeInv s) : ResumeRight s := by
  intro hret
  unfold ResumeInv at h
  rw [hret] at h
  exact h rfl

/-- Suspend from any state, and resume from M3, report the state that they leave, in every run whose
steps meet the conditions. -/
theorem calls_right (s : Power) (is : List CallInput) :
    (∀ s', Runs.Meets stepSuspend SuspendOk (s, .start) is →
      Runs.exec stepSuspend (s, .start) is = some s' → SuspendRight s')
      ∧ ∀ s', s.pmState = .m3 → Runs.Meets stepResume ResumeOk (s, .start) is →
        Runs.exec stepResume (s, .start) is = some s' → ResumeRight s' := by
  refine ⟨fun s' hok hr => ?_, fun s' hm3 hok hr => ?_⟩
  · have hinv : SuspendInv (s, .start) := trivial
    exact (Runs.exec_inv suspendInv_step hinv hok hr).right
  · have hinv : ResumeInv (s, .start) := Or.inl hm3
    exact (Runs.exec_inv resumeInv_step hinv hok hr).right

/-- A controller in a power state, of which the modem has said `dev`. -/
def powerOf (pm : PmState) (dev : DevState) : Power :=
  { Power.initial with pmState := pm, devState := dev }

/-- The sections of a suspend up to the wait for M3. -/
def suspendGoes : List CallInput := [.go, .go, .go, .go]

def suspendM3 : List CallInput :=
  suspendGoes ++ [.event (.stateChange .m3), .go, .go, .go]

def resumeM0 : List CallInput := [.go, .go, .event (.stateChange .m0), .go, .go, .go]

theorem calls_right_m3_m0 :
    SuspendRight (powerOf .m3 .m3, .returned 0) ∧ ResumeRight (powerOf .m0 .m0, .returned 0) := by
  have hs : Runs.Meets stepSuspend SuspendOk (powerOf .m0 .m0, .start) suspendM3 := by decide
  have hr : Runs.Meets stepResume ResumeOk (powerOf .m3 .m3, .start) resumeM0 := by decide
  exact ⟨(calls_right (powerOf .m0 .m0) suspendM3).1 _ hs rfl,
    (calls_right (powerOf .m3 .m3) resumeM0).2 _ rfl hr rfl⟩

/-- Suspend returns an error in M3_ENTER when the modem does not come to M3, and in M3 when it is
called there; it returns 0 in M3_ENTER when the modem has reported M3 before it was asked. Resume
returns 0 in M3_EXIT when the modem has reported M0 before it was asked. -/
theorem calls_wrong :
    (Runs.exec stepSuspend (powerOf .m0 .m0, .start) (suspendGoes ++ [.timeout])
        = some (powerOf .m3Enter .m0, .returned (- EIO)))
      ∧ Runs.exec stepSuspend (powerOf .m3 .m3, .start) [.go, .timeout]
        = some (powerOf .m3 .m3, .returned (- EIO))
      ∧ Runs.exec stepSuspend (powerOf .m0 .m0, .start)
          [.go, .go, .go, .event (.stateChange .m3), .go, .go, .go, .go]
        = some (powerOf .m3Enter .m3, .returned 0)
      ∧ Runs.exec stepResume (powerOf .m3 .m3, .start)
          [.event (.stateChange .m0), .go, .go, .go, .go, .go]
        = some (powerOf .m3Exit .m0, .returned 0)
      ∧ ¬ SuspendRight (powerOf .m3Enter .m0, .returned (- EIO))
      ∧ ¬ SuspendRight (powerOf .m3 .m3, .returned (- EIO))
      ∧ ¬ SuspendRight (powerOf .m3Enter .m3, .returned 0)
      ∧ ¬ ResumeRight (powerOf .m3Exit .m0, .returned 0) := by
  refine ⟨rfl, rfl, rfl, rfl, fun h => ?_, fun h => ?_, fun h => ?_, fun h => ?_⟩
  · exact ((h _ rfl).2 (by decide)).1 rfl
  · exact ((h _ rfl).2 (by decide)).2 rfl
  · exact absurd ((h _ rfl).1 rfl) (by decide)
  · exact absurd (h rfl) (by decide)

end Mhi

end BananaWrt
