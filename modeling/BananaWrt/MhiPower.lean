import BananaWrt.MhiPm

/-!
# What the host knows of the modem's state

All sections of the driver that write `pm_state` or `dev_state`. The modem's state-change events go
to `mhi_pm_m0_transition`, `mhi_pm_m1_transition` and `mhi_pm_m3_transition`; the others are those
of suspend and resume, of power-up and power-down, and of what follows an error or the download of
firmware. But for the waits of `mhi_pm_suspend` and the order within power-up, a section may come at
any time, which gives more runs than the code has. `dev_wake` is always 0.
-/

namespace BananaWrt

namespace Mhi

/-- `mhi_pm_suspend` before and after it has waited for M0. -/
inductive SuspendWait where
  | waiting
  | waited
  deriving DecidableEq, Repr

/-- `poweringUp` says that `mhi_async_power_up` is between the sections in which it has set
`MHI_PM_DISABLE` and sets `MHI_PM_POR`. -/
structure Power where
  pmState : PmState
  devState : DevState
  suspend : Option SuspendWait
  poweringUp : Bool
  deriving DecidableEq, Repr

/-- `reset` is the section that `mhi_fw_load_worker` and `BhiWrite` have, `sysErr` that of those who
read the state SYS_ERR from the modem, and `linkDown` that of a power-down which is not graceful.
`disable` and `disableEnd` are the sections of `mhi_pm_disable_transition`. -/
inductive PowerInput where
  | stateChange (new : DevState)
  | sysErr
  | suspend
  | suspendWaited (timeout : Bool)
  | m3Enter
  | resume
  | ready
  | reset
  | powerUp
  | powerUpDone (failed : Bool)
  | linkDown
  | disable (shutdown : Bool)
  | disableEnd (shutdown : Bool)
  | panic
  deriving DecidableEq, Repr

namespace Power

variable (s : Power)

def tryset (state : PmState) : Power := { s with pmState := mhiTrysetPmState s.pmState state }

def mhiPmM0Transition : Power := { s with devState := .m0 }.tryset .m0

def mhiPmM1Transition : Power :=
  if mhiTrysetPmState s.pmState .m2 = .m2 then { s with pmState := .m2, devState := .m2 } else s

def mhiPmM3Transition : Power := { s with devState := .m3 }.tryset .m3

/-- A state-change event. -/
def stateChange : DevState → Power
  | .m0 => s.mhiPmM0Transition
  | .m1 => s.mhiPmM1Transition
  | .m3 => s.mhiPmM3Transition
  | .sysErr => s.tryset .sysErrDetect
  | _ => s

def mhiPmSuspend : Power :=
  if s.pmState = .disable ∨ s.pmState.InError then s else { s with suspend := some .waiting }

/-- The end of the wait, which does not look at `pm_state` but for errors. -/
def suspendWaited (timeout : Bool) : Option Power :=
  if s.suspend ≠ some .waiting then none
  else if timeout ∨ s.pmState.InError then some { s with suspend := none }
  else if s.devState = .m0 ∨ s.devState = .m1 then some { s with suspend := some .waited }
  else none

def m3Enter : Option Power :=
  if s.suspend = some .waited then some ({ s with suspend := none }.tryset .m3Enter) else none

def mhiPmResume : Power :=
  if s.pmState = .disable ∨ s.pmState.InError then s else s.tryset .m3Exit

/-- The section of `mhi_ready_state_transition`. -/
def mhiReadyStateTransition : Power := { s.tryset .por with devState := .ready }

/-- The section of `mhi_pm_disable_transition`, to `MHI_PM_SHUTDOWN_PROCESS` or
`MHI_PM_SYS_ERR_PROCESS`. -/
def mhiPmDisableTransition (shutdown : Bool) : Power :=
  let state : PmState := if shutdown then .shutdownProcess else .sysErrProcess
  if mhiTrysetPmState s.pmState state = state then
    { s with pmState := state, devState := .reset }
  else s

def mhiAsyncPowerUp : Power :=
  { s with pmState := .disable, devState := .reset, poweringUp := true }

def powerUpDone (failed : Bool) : Option Power :=
  if s.poweringUp then
    some (if failed then { s with poweringUp := false }
      else { s with pmState := .por, poweringUp := false })
  else none

end Power

def stepPower (s : Power) : PowerInput → Option Power
  | .stateChange new => some (s.stateChange new)
  | .sysErr => some (s.tryset .sysErrDetect)
  | .suspend => if s.suspend = none then some s.mhiPmSuspend else none
  | .suspendWaited timeout => s.suspendWaited timeout
  | .m3Enter => s.m3Enter
  | .resume => some s.mhiPmResume
  | .ready => some s.mhiReadyStateTransition
  | .reset => some { s with devState := .reset }
  | .powerUp => if s.poweringUp then none else some s.mhiAsyncPowerUp
  | .powerUpDone failed => s.powerUpDone failed
  | .linkDown => some (s.tryset .ldErrFatalDetect)
  | .disable shutdown => some (s.mhiPmDisableTransition shutdown)
  | .disableEnd shutdown => some (s.tryset (if shutdown then .disable else .por))
  | .panic => some { s with pmState := .ldErrFatalDetect }

/-- Before the first power-up. -/
def Power.initial : Power where
  pmState := .disable
  devState := .reset
  suspend := none
  poweringUp := false

end Mhi

end BananaWrt
