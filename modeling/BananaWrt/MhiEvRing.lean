import BananaWrt.Lib.Ring
import BananaWrt.MhiPower

/-!
# Event rings of MHI

The modem writes its events into rings; `wp` of a ring, and `ctxt_wp` that the modem reads, say how
far it may write. `mhi_ready_state_transition` gives it all of each ring of software but one
element, `mhi_pm_mission_mode_transition` of each ring of hardware, and
`mhi_recycle_ev_ring_element` gives back an event that has been processed. Events of the execution
environment queue work items, one of which is the transition to mission mode.

A transition to READY has more than one caller, and `mhi_pm_disable_transition` may be under way
twice; what their sections wait for is left out, so that there are more runs than the code has.
-/

namespace BananaWrt

namespace Mhi

/-- `ctrl` says that `process_event` is `mhi_process_ctrl_ev_ring`. -/
structure EventCfg where
  elements : ℕ
  iommuBase : ℕ
  hwRing : Bool
  ctrl : Bool
  pos : 0 < elements

/-- The bytes of an element. -/
def elSize : ℕ := 16

/-- `rp` and `wp` are positions of elements. `armed` says that the modem has been given elements
since the ring was initialised. -/
structure EventRing where
  cfg : EventCfg
  rp : ℕ
  wp : ℕ
  ctxtWp : ℕ
  armed : Bool

namespace EventRing

variable (ring : EventRing)

/-- `mhi_recycle_ev_ring_element`. -/
def recycle : EventRing :=
  let wp := Ring.succ ring.cfg.elements ring.wp
  { ring with
    wp := wp
    ctxtWp := ring.cfg.iommuBase + elSize * wp
    rp := Ring.succ ring.cfg.elements ring.rp }

/-- An iteration of the loops that add the elements to the rings. -/
def arm : EventRing :=
  { ring with
    wp := ring.cfg.elements - 1
    ctxtWp := ring.cfg.iommuBase + elSize * ring.cfg.elements - elSize
    armed := true }

/-- What `mhi_init_dev_ctxt` and `mhi_pm_disable_transition` do to a ring. -/
def reset : EventRing :=
  { ring with
    rp := 0
    wp := 0
    ctxtWp := ring.cfg.iommuBase
    armed := false }

end EventRing

/-- `enum mhi_ee`. -/
inductive Ee where
  | pbl
  | sbl
  | amss
  | rddm
  | wfw
  | pthru
  | edl
  | fp
  | disableTransition
  | max
  deriving DecidableEq, Repr

/-- `MHI_IN_PBL`. -/
def Ee.InPbl (ee : Ee) : Prop := ee ∈ [pbl, pthru, edl]

instance (ee : Ee) : Decidable ee.InPbl := inferInstanceAs (Decidable (_ ∈ _))

/-- `MHI_IN_MISSION_MODE`. -/
def Ee.InMissionMode (ee : Ee) : Prop := ee = amss ∨ ee = wfw

instance (ee : Ee) : Decidable ee.InMissionMode := inferInstanceAs (Decidable (_ ∨ _))

/-- `MHI_REG_ACCESS_VALID`. -/
def PmState.RegAccess (s : PmState) : Prop :=
  s ∈ [por, m0, m2, m3Enter, m3Exit, sysErrDetect, sysErrProcess, shutdownProcess, fwDlErr]

instance (s : PmState) : Decidable s.RegAccess := inferInstanceAs (Decidable (_ ∈ _))

/-- `enum MHI_ST_TRANSITION`. -/
inductive StTransition where
  | pbl
  | ready
  | sbl
  | missionMode
  | fp
  deriving DecidableEq, Repr

/-- What `mhi_process_ctrl_ev_ring` tells apart. -/
inductive EvRecord where
  | stateChange (new : DevState)
  | ee (event : Ee)
  | other
  deriving DecidableEq, Repr

/-- `mhi_pm_mission_mode_transition` in `__mhi_device_get_sync`, after it, and after it has read the
execution environment. -/
inductive Mission where
  | syncing
  | synced
  | checked
  deriving DecidableEq, Repr

/-- `mission` is the work item that `mhi_pm_st_worker` is in the middle of, `readying` the number of
transitions to READY that have set `MHI_PM_POR` and not gone on, `disabling` has an element for each
`mhi_pm_disable_transition` that is under way, and `inLoop` says that the events of a ring are being
processed. -/
structure EvSt (n : ℕ) where
  power : Power
  ee : Ee
  preInit : Bool
  transitionList : List StTransition
  mission : Option Mission
  readying : ℕ
  disabling : List Bool
  inLoop : Fin n → Bool
  ring : Fin n → EventRing

namespace EvSt

variable {n : ℕ} (s : EvSt n)

/-- The rings of one kind get their elements. -/
def armAll (hwRing : Bool) : EvSt n :=
  { s with ring := fun r => if (s.ring r).cfg.hwRing = hwRing then (s.ring r).arm else s.ring r }

def resetAll : EvSt n := { s with ring := fun r => (s.ring r).reset }

/-- `mhi_queue_state_transition`. -/
def mhiQueueStateTransition (st : StTransition) : EvSt n :=
  { s with transitionList := s.transitionList ++ [st] }

/-- `MHI_PKT_TYPE_EE_EVENT`. -/
def eeEvent : Ee → EvSt n
  | .sbl => s.mhiQueueStateTransition .sbl
  | .fp => s.mhiQueueStateTransition .fp
  | .wfw | .amss => s.mhiQueueStateTransition .missionMode
  | .rddm => { s with ee := .rddm }
  | _ => s

/-- The `switch` of `mhi_process_ctrl_ev_ring`. -/
def ctrlEvent : EvRecord → EvSt n
  | .stateChange new => { s with power := s.power.stateChange new }
  | .ee event => s.eeEvent event
  | .other => s

/-- An iteration of `process_event`. -/
def processEvent (r : Fin n) (record : EvRecord) : EvSt n :=
  let s := if (s.ring r).cfg.ctrl then s.ctrlEvent record else s
  { s with ring := Function.update s.ring r (s.ring r).recycle }

/-- The section of the item PBL, and of `mhi_pm_mission_mode_transition`: `execEnv` is what
`mhi_get_exec_env` returns. -/
def readEe (execEnv : Ee) : EvSt n :=
  { s with ee := if s.power.pmState.RegAccess then execEnv else s.ee }

/-- `mhi_pm_st_worker` takes an item. -/
def mhiPmStWorker (execEnv : Ee) : Option (EvSt n) :=
  match s.mission, s.transitionList with
  | none, st :: rest =>
    let s := { s with transitionList := rest }
    some (match st with
      | .pbl => s.readEe execEnv
      | .sbl => { s with ee := .sbl }
      | .missionMode => { s with mission := some .syncing }
      | .ready => s
      | .fp => { s with ee := .fp })
  | _, _ => none

/-- The end of `__mhi_device_get_sync`. -/
def missionSynced (timeout : Bool) : Option (EvSt n) :=
  if s.mission ≠ some .syncing then none
  else if timeout ∨ s.power.pmState.InError then some { s with mission := none }
  else if s.power.pmState = .m0 then some { s with mission := some .synced }
  else none

def missionRead (execEnv : Ee) : Option (EvSt n) :=
  if s.mission = some .synced then some { s.readEe execEnv with mission := some .checked }
  else none

/-- The last section of `mhi_pm_mission_mode_transition` that the rings are in. -/
def missionArm : Option (EvSt n) :=
  if s.mission = some .checked then
    let s := { s with mission := none }
    some (if s.ee.InMissionMode ∧ ¬ s.power.pmState.InError then s.armAll true else s)
  else none

/-- The first section of `mhi_ready_state_transition`, and the second; `programmed` says whether
`mhi_init_mmio` succeeds. -/
def mhiReadyStateTransition : EvSt n :=
  { s with
    power := s.power.mhiReadyStateTransition
    readying := if mhiTrysetPmState s.power.pmState .por = .por then s.readying + 1 else s.readying }

def readyArm (programmed : Bool) : Option (EvSt n) :=
  if s.readying = 0 then none
  else
    let s := { s with readying := s.readying - 1 }
    some (if s.power.pmState.RegAccess ∧ programmed then s.armAll false else s)

/-- The first section of `mhi_pm_disable_transition`. -/
def mhiPmDisableTransition (shutdown : Bool) : EvSt n :=
  let state : PmState := if shutdown then .shutdownProcess else .sysErrProcess
  if mhiTrysetPmState s.power.pmState state = state then
    { s with
      power := s.power.mhiPmDisableTransition shutdown
      ee := .disableTransition
      disabling := shutdown :: s.disabling }
  else { s with power := s.power.mhiPmDisableTransition shutdown }

/-- The rings are reset. -/
def disableReset (shutdown : Bool) : Option (EvSt n) :=
  if shutdown ∈ s.disabling then some s.resetAll else none

/-- The end of `mhi_pm_disable_transition`; after an error the modem may be in EDL, or a transition
to READY comes next, or the modem has not left RESET. -/
def disableEnd (shutdown edl : Bool) : Option (EvSt n) :=
  if shutdown ∈ s.disabling then
    let s := { s with disabling := s.disabling.erase shutdown }
    some (if shutdown then { s with power := s.power.tryset .disable }
      else if edl then { s with ee := .edl, power := s.power.tryset .por }
      else s)
  else none

/-- `mhi_async_power_up` up to its first section. The rings are there before if `pre_init` is set.
-/
def mhiAsyncPowerUp : Option (EvSt n) :=
  if s.power.poweringUp then none
  else
    let s := { s with power := s.power.mhiAsyncPowerUp }
    some (if s.preInit then s else s.resetAll)

def powerUpDone (failed : Bool) (execEnv : Ee) : Option (EvSt n) :=
  (s.power.powerUpDone failed).map fun power =>
    let s := { s with power := power }
    if failed then s
    else
      let s := { s with ee := .max }
      if execEnv.InPbl then s else s.mhiQueueStateTransition .ready

def mhiPmReadyWorker (execEnv : Ee) : EvSt n :=
  if s.power.devState ≠ .reset then s
  else
    let ee := if s.power.pmState.RegAccess then execEnv else .max
    if ee = .amss ∨ ee = .sbl then s.mhiQueueStateTransition .ready
    else if ee = .edl then s.mhiQueueStateTransition .pbl
    else s

end EvSt

/-- The sections that have nothing to do with the rings. -/
def PowerInput.Plain : PowerInput → Prop
  | .sysErr | .suspend | .suspendWaited _ | .m3Enter | .resume | .reset | .linkDown | .panic => True
  | _ => False

instance (inp : PowerInput) : Decidable inp.Plain := by
  cases inp <;> unfold PowerInput.Plain <;> infer_instance

/-- `enter` and `leave` are the begin and the end of `process_event`. -/
inductive EvInput (n : ℕ) where
  | enter (r : Fin n)
  | event (r : Fin n) (record : EvRecord)
  | leave (r : Fin n)
  | work (execEnv : Ee)
  | missionSynced (timeout : Bool)
  | missionRead (execEnv : Ee)
  | missionArm
  | ready
  | readyArm (programmed : Bool)
  | readyWorker (execEnv : Ee)
  | disable (shutdown : Bool)
  | disableReset (shutdown : Bool)
  | disableEnd (shutdown edl : Bool)
  | powerUp
  | powerUpDone (failed : Bool) (execEnv : Ee)
  | power (inp : PowerInput)
  deriving DecidableEq, Repr

def stepEv {n : ℕ} (s : EvSt n) : EvInput n → Option (EvSt n)
  | .enter r =>
    if s.power.pmState = .disable ∨ s.power.pmState.InError then none
    else some { s with inLoop := Function.update s.inLoop r true }
  | .event r record => if s.inLoop r then some (s.processEvent r record) else none
  | .leave r => some { s with inLoop := Function.update s.inLoop r false }
  | .work execEnv => s.mhiPmStWorker execEnv
  | .missionSynced timeout => s.missionSynced timeout
  | .missionRead execEnv => s.missionRead execEnv
  | .missionArm => s.missionArm
  | .ready => some s.mhiReadyStateTransition
  | .readyArm programmed => s.readyArm programmed
  | .readyWorker execEnv => some (s.mhiPmReadyWorker execEnv)
  | .disable shutdown => some (s.mhiPmDisableTransition shutdown)
  | .disableReset shutdown => s.disableReset shutdown
  | .disableEnd shutdown edl => s.disableEnd shutdown edl
  | .powerUp => s.mhiAsyncPowerUp
  | .powerUpDone failed execEnv => s.powerUpDone failed execEnv
  | .power inp =>
    if inp.Plain then (stepPower s.power inp).map fun power => { s with power := power } else none

/-- A ring after `mhi_init_dev_ctxt`. -/
def EventCfg.init (cfg : EventCfg) : EventRing where
  cfg := cfg
  rp := 0
  wp := 0
  ctxtWp := cfg.iommuBase
  armed := false

/-- Before the first power-up. -/
def EvSt.initial {n : ℕ} (cfg : Fin n → EventCfg) (preInit : Bool) : EvSt n where
  power := Power.initial
  ee := .pbl
  preInit := preInit
  transitionList := []
  mission := none
  readying := 0
  disabling := []
  inLoop := fun _ => false
  ring := fun r => (cfg r).init

end Mhi

end BananaWrt
