import BananaWrt.MhiEvRing
import BananaWrt.Lib.Run

/-!
# The credit of an event ring

A ring has credit if the modem may write up to the element before the one that is read next. What is
processed moves both positions (`credit_recycle`); the transitions that add elements to a ring move
only one, to the end of the ring (`credit_arm_iff`). `creditInv_iff` says in which runs all rings
that have been armed have credit throughout.
-/

namespace BananaWrt

namespace Mhi

namespace EventRing

variable {ring : EventRing}

/-- Once it is armed, `wp` is one element before `rp`, and `ctxt_wp` is its address. -/
def Credit (ring : EventRing) : Prop :=
  ring.armed = true → ring.wp < ring.cfg.elements
    ∧ Ring.succ ring.cfg.elements ring.wp = ring.rp
    ∧ ring.ctxtWp = ring.cfg.iommuBase + elSize * ring.wp

theorem credit_recycle (h : ring.Credit) : ring.recycle.Credit := by
  intro harmed
  obtain ⟨-, hrp, -⟩ := h harmed
  refine ⟨Ring.succ_lt ring.cfg.pos, ?_, rfl⟩
  exact congrArg (Ring.succ ring.cfg.elements) hrp

theorem credit_reset (ring : EventRing) : ring.reset.Credit :=
  fun harmed => absurd harmed Bool.false_ne_true

/-- A ring that is armed has credit only if nothing has been read of it yet, or `rp` has come around
to the first element again. -/
theorem credit_arm_iff (ring : EventRing) : ring.arm.Credit ↔ ring.rp = 0 := by
  have hpos := ring.cfg.pos
  have hlast : Ring.succ ring.cfg.elements (ring.cfg.elements - 1) = 0 := by
    unfold Ring.succ
    rw [if_pos (by omega)]
  constructor
  · intro h
    obtain ⟨-, hrp, -⟩ := h rfl
    exact hrp.symm.trans hlast
  · intro hrp _
    refine ⟨?_, ?_, ?_⟩
    · change ring.cfg.elements - 1 < ring.cfg.elements
      omega
    · exact hlast.trans hrp.symm
    · change ring.cfg.iommuBase + elSize * ring.cfg.elements - elSize
        = ring.cfg.iommuBase + elSize * (ring.cfg.elements - 1)
      unfold elSize
      omega

end EventRing

namespace EvSt

variable {n : ℕ} {s s' : EvSt n}

def Credit (s : EvSt n) : Prop := ∀ r, (s.ring r).Credit

/-- The rings of one kind get their elements. -/
def armed (ring : Fin n → EventRing) (hwRing : Bool) : Fin n → EventRing :=
  fun r => if (ring r).cfg.hwRing = hwRing then (ring r).arm else ring r

/-- The rings after a step. -/
def ringsAfter (s : EvSt n) : EvInput n → Fin n → EventRing
  | .event r _ => Function.update s.ring r (s.ring r).recycle
  | .missionArm =>
    if s.ee.InMissionMode ∧ ¬ s.power.pmState.InError then armed s.ring true else s.ring
  | .readyArm programmed =>
    if s.power.pmState.RegAccess ∧ programmed then armed s.ring false else s.ring
  | .disableReset _ => fun r => (s.ring r).reset
  | .powerUp => if s.preInit then s.ring else fun r => (s.ring r).reset
  | _ => s.ring

theorem ring_ctrlEvent (s : EvSt n) (record : EvRecord) : (s.ctrlEvent record).ring = s.ring := by
  cases record with
  | stateChange new => rfl
  | ee event => cases event <;> rfl
  | other => rfl

theorem ring_processEvent (s : EvSt n) (r : Fin n) (record : EvRecord) :
    (s.processEvent r record).ring = Function.update s.ring r (s.ring r).recycle := by
  unfold processEvent
  split_ifs
  · change Function.update (s.ctrlEvent record).ring r ((s.ctrlEvent record).ring r).recycle = _
    rw [ring_ctrlEvent]
  · rfl

theorem ring_mhiPmStWorker {execEnv : Ee} (h : s.mhiPmStWorker execEnv = some s') :
    s'.ring = s.ring := by
  unfold mhiPmStWorker at h
  split at h
  · cases h
    split <;> rfl
  · cases h

theorem ring_missionSynced {timeout : Bool} (h : s.missionSynced timeout = some s') :
    s'.ring = s.ring := by
  unfold missionSynced at h
  split_ifs at h <;> cases h <;> rfl

theorem ring_mhiPmReadyWorker (s : EvSt n) (execEnv : Ee) :
    (s.mhiPmReadyWorker execEnv).ring = s.ring := by
  unfold mhiPmReadyWorker
  dsimp only
  split_ifs <;> rfl

theorem ring_mhiPmDisableTransition (s : EvSt n) (shutdown : Bool) :
    (s.mhiPmDisableTransition shutdown).ring = s.ring := by
  unfold mhiPmDisableTransition
  dsimp only
  split_ifs <;> rfl

theorem ring_disableEnd {shutdown edl : Bool} (h : s.disableEnd shutdown edl = some s') :
    s'.ring = s.ring := by
  unfold disableEnd at h
  split_ifs at h <;> cases h <;> rfl

theorem ring_powerUpDone {failed : Bool} {execEnv : Ee}
    (h : s.powerUpDone failed execEnv = some s') : s'.ring = s.ring := by
  obtain ⟨power, -, rfl⟩ := Option.map_eq_some_iff.1 h
  dsimp only
  split_ifs <;> rfl

theorem step_ring {inp : EvInput n} (h : stepEv s inp = some s') : s'.ring = s.ringsAfter inp := by
  cases inp with
  | enter r =>
    simp only [stepEv, Option.ite_none_left_eq_some, Option.some.injEq] at h
    obtain ⟨-, rfl⟩ := h
    rfl
  | event r record =>
    simp only [stepEv, Option.ite_none_right_eq_some, Option.some.injEq] at h
    obtain ⟨-, rfl⟩ := h
    exact ring_processEvent s r record
  | leave r =>
    cases h
    rfl
  | work execEnv => exact ring_mhiPmStWorker h
  | missionSynced timeout => exact ring_missionSynced h
  | missionRead execEnv =>
    simp only [stepEv, missionRead, Option.ite_none_right_eq_some, Option.some.injEq] at h
    obtain ⟨-, rfl⟩ := h
    rfl
  | missionArm =>
    simp only [stepEv, missionArm, Option.ite_none_right_eq_some, Option.some.injEq] at h
    obtain ⟨-, rfl⟩ := h
    simp only [ringsAfter]
    split_ifs <;> rfl
  | ready =>
    cases h
    rfl
  | readyArm programmed =>
    simp only [stepEv, readyArm, Option.ite_none_left_eq_some, Option.some.injEq] at h
    obtain ⟨-, rfl⟩ := h
    simp only [ringsAfter]
    split_ifs <;> rfl
  | readyWorker execEnv =>
    cases h
    exact ring_mhiPmReadyWorker s execEnv
  | disable shutdown =>
    cases h
    exact ring_mhiPmDisableTransition s shutdown
  | disableReset shutdown =>
    simp only [stepEv, disableReset, Option.ite_none_right_eq_some, Option.some.injEq] at h
    obtain ⟨-, rfl⟩ := h
    rfl
  | disableEnd shutdown edl => exact ring_disableEnd h
  | powerUp =>
    simp only [stepEv, mhiAsyncPowerUp, Option.ite_none_left_eq_some, Option.some.injEq] at h
    obtain ⟨-, rfl⟩ := h
    simp only [ringsAfter]
    split_ifs <;> rfl
  | powerUpDone failed execEnv => exact ring_powerUpDone h
  | power inp =>
    simp only [stepEv, Option.ite_none_right_eq_some] at h
    obtain ⟨power, -, rfl⟩ := Option.map_eq_some_iff.1 h.2
    rfl

/-- All rings of one kind are at their first element. -/
def AtBase (s : EvSt n) (hwRing : Bool) : Prop :=
  ∀ r, (s.ring r).cfg.hwRing = hwRing → (s.ring r).rp = 0

/-- A transition that adds elements to the rings of a kind finds them at their first element. -/
def ArmsAtBase (s : EvSt n) : EvInput n → Prop
  | .missionArm =>
    s.mission = some .checked → s.ee.InMissionMode ∧ ¬ s.power.pmState.InError → s.AtBase true
  | .readyArm programmed =>
    s.readying ≠ 0 → s.power.pmState.RegAccess ∧ programmed = true → s.AtBase false
  | _ => True

theorem credit_armed_iff (h : s.Credit) (hwRing : Bool) :
    (∀ r, (armed s.ring hwRing r).Credit) ↔ s.AtBase hwRing := by
  refine forall_congr' fun r => ?_
  unfold armed
  by_cases hr : (s.ring r).cfg.hwRing = hwRing
  · rw [if_pos hr, EventRing.credit_arm_iff]
    exact ⟨fun hrp _ => hrp, fun hrp => hrp hr⟩
  · rw [if_neg hr]
    exact iff_of_true (h r) fun hr' => absurd hr' hr

/-- A step that is possible keeps the credit if and only if the rings have it after the step. -/
theorem credit_step_iff {inp : EvInput n} (hs : stepEv s inp = some s') :
    (∀ t ∈ stepEv s inp, t.Credit) ↔ ∀ r, (s.ringsAfter inp r).Credit := by
  rw [hs]
  simp only [Option.mem_some_iff, forall_eq']
  unfold Credit
  rw [step_ring hs]

/-- Given that all rings have credit, only arming can take it away. -/
theorem credit_iff (h : s.Credit) (inp : EvInput n) :
    (∀ s' ∈ stepEv s inp, s'.Credit) ↔ s.ArmsAtBase inp := by
  rcases hs : stepEv s inp with _ | s'
  · -- what cannot happen arms nothing
    refine iff_of_true (fun _ ht => absurd ht (Option.not_mem_none _)) ?_
    cases inp with
    | missionArm =>
      intro hmission
      simp only [stepEv, missionArm, if_pos hmission, reduceCtorEq] at hs
    | readyArm programmed =>
      intro hready
      simp only [stepEv, readyArm, if_neg hready, reduceCtorEq] at hs
    | _ => trivial
  · rw [← hs, credit_step_iff hs]
    cases inp with
    | event r record =>
      exact iff_of_true ((Function.forall_update_iff s.ring fun _ => EventRing.Credit).2
        ⟨EventRing.credit_recycle (h r), fun j _ => h j⟩) trivial
    | missionArm =>
      simp only [stepEv, missionArm, Option.ite_none_right_eq_some] at hs
      simp only [ringsAfter, ArmsAtBase, hs.1, true_imp_iff]
      split_ifs with harm
      · rw [credit_armed_iff h]
        exact ⟨fun hbase _ => hbase, fun hbase => hbase harm⟩
      · exact iff_of_true h fun harm' => absurd harm' harm
    | readyArm programmed =>
      simp only [stepEv, readyArm, Option.ite_none_left_eq_some] at hs
      simp only [ringsAfter, ArmsAtBase, ne_eq, hs.1, not_false_eq_true, true_imp_iff]
      split_ifs with harm
      · rw [credit_armed_iff h]
        exact ⟨fun hbase _ => hbase, fun hbase => hbase harm⟩
      · exact iff_of_true h fun harm' => absurd harm' harm
    | disableReset shutdown => exact iff_of_true (fun r => EventRing.credit_reset _) trivial
    | powerUp =>
      refine iff_of_true ?_ trivial
      simp only [ringsAfter]
      split_ifs
      · exact h
      · exact fun r => EventRing.credit_reset _
    | _ => exact iff_of_true h trivial

end EvSt

variable {n : ℕ}

theorem credit_initial (cfg : Fin n → EventCfg) (preInit : Bool) :
    (EvSt.initial cfg preInit).Credit :=
  fun _ harmed => absurd harmed Bool.false_ne_true

/-- All rings that have been armed have credit throughout a run if and only if every transition that
arms rings finds them at their first element. -/
theorem creditInv_iff (cfg : Fin n → EventCfg) (preInit : Bool) (is : List (EvInput n)) :
    Runs.Meets stepEv (fun s inp => ∀ s' ∈ stepEv s inp, s'.Credit) (EvSt.initial cfg preInit) is
      ↔ Runs.Meets stepEv EvSt.ArmsAtBase (EvSt.initial cfg preInit) is :=
  (Runs.meets_iff_of_inv (fun _ inp h => (EvSt.credit_iff h inp).symm) (fun _ _ s' h hs => h s' hs)
    (credit_initial cfg preInit)).symm

/-- A ring of software for control events and one of hardware, with four elements each. -/
def twoRings (r : Fin 2) : EventCfg where
  elements := 4
  iommuBase := 4096 + 64 * r.val
  hwRing := decide (r.val = 1)
  ctrl := decide (r.val = 0)
  pos := by decide

/-- WFW and then AMSS are reported, and an event of the hardware is processed between the two
transitions to mission mode. -/
def missionTwice : List (EvInput 2) :=
  [.powerUp, .powerUpDone false .amss, .work .amss, .ready, .readyArm true, .enter 0,
    .event 0 (.stateChange .m0), .event 0 (.ee .wfw), .event 0 (.ee .amss), .leave 0,
    .work .wfw, .missionSynced false, .missionRead .wfw, .missionArm, .enter 1, .event 1 .other,
    .leave 1, .work .amss, .missionSynced false, .missionRead .amss, .missionArm]

theorem noCredit_missionTwice :
    ∃ s, Runs.exec stepEv (EvSt.initial twoRings true) missionTwice = some s
      ∧ (s.ring 1).armed = true ∧ (s.ring 1).rp = 1 ∧ (s.ring 1).wp = 3 ∧ ¬ s.Credit := by
  refine ⟨_, rfl, rfl, rfl, rfl, fun h => ?_⟩
  obtain ⟨-, hrp, -⟩ := h 1 rfl
  exact absurd hrp (by decide)

end Mhi

end BananaWrt
