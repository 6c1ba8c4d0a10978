import BananaWrt.MhiPower
import BananaWrt.MhiXfer

/-!
# Suspend and resume, call by call

`mhi_pm_suspend` waits for M0 or M1, sets `MHI_PM_M3_ENTER` and asks the modem for M3, and waits for
M3; `mhi_pm_resume` does so for M0. Between two sections of a call the events of the modem may come,
and each wait ends by its condition or by a timeout. The tests that follow a wait come later than
its end, and the call returns later than its last test, after clients have been notified. `dev_wake`
is always 0.
-/

namespace BananaWrt

namespace Mhi

def EINVAL : ℤ := 22

/-- An event that acts on the power states: a state-change event, or SYS_ERR read from the modem. -/
inductive DevEvent where
  | stateChange (new : DevState)
  | sysErr
  deriving DecidableEq, Repr

def DevEvent.apply (s : Power) : DevEvent → Power
  | stateChange new => s.stateChange new
  | sysErr => s.tryset .sysErrDetect

/-- `go` is the next section of the call, `timeout` the other end of a wait. -/
inductive CallInput where
  | event (ev : DevEvent)
  | go
  | timeout
  deriving DecidableEq, Repr

/-- What the call does next. `wokenM0` and `wokenM3` are the tests after a wait that has not timed
out, `m3Enter` is the section under `pm_lock`. -/
inductive SuspendAt where
  | start
  | waitM0
  | wokenM0
  | m3Enter
  | waitM3
  | wokenM3
  | notify
  | returned (ret : ℤ)
  deriving DecidableEq, Repr

/-- The condition of the wait for M0 or M1. -/
def Power.SeesM0M1 (s : Power) : Prop := s.devState = .m0 ∨ s.devState = .m1 ∨ s.pmState.InError

/-- The condition of the wait for M3. -/
def Power.SeesM3 (s : Power) : Prop := s.devState = .m3 ∨ s.pmState.InError

/-- The condition of the wait of `mhi_pm_resume`. -/
def Power.SeesM0 (s : Power) : Prop := s.devState = .m0 ∨ s.pmState.InError

instance (s : Power) : Decidable s.SeesM0M1 := inferInstanceAs (Decidable (_ ∨ _))

instance (s : Power) : Decidable s.SeesM3 := inferInstanceAs (Decidable (_ ∨ _))

instance (s : Power) : Decidable s.SeesM0 := inferInstanceAs (Decidable (_ ∨ _))

def suspendGo (s : Power) : SuspendAt → Option (Power × SuspendAt)
  | .start =>
    if s.pmState = .disable then some (s, .returned (- EINVAL))
    else if s.pmState.InError then some (s, .returned (- EIO))
    else some (s, .waitM0)
  | .waitM0 => if s.SeesM0M1 then some (s, .wokenM0) else none
  | .wokenM0 => some (s, if s.pmState.InError then .returned (- EIO) else .m3Enter)
  | .m3Enter =>
    let s' := s.tryset .m3Enter
    some (s', if s'.pmState = .m3Enter then .waitM3 else .returned (- EIO))
  | .waitM3 => if s.SeesM3 then some (s, .wokenM3) else none
  | .wokenM3 => some (s, if s.pmState.InError then .returned (- EIO) else .notify)
  | .notify => some (s, .returned 0)
  | .returned _ => none

def suspendTimeout (s : Power) : SuspendAt → Option (Power × SuspendAt)
  | .waitM0 => if s.SeesM0M1 then none else some (s, .returned (- EIO))
  | .waitM3 => if s.SeesM3 then none else some (s, .returned (- EIO))
  | _ => none

/-- The call has not returned. -/
def SuspendAt.Running : SuspendAt → Prop
  | returned _ => False
  | _ => True

instance (p : SuspendAt) : Decidable p.Running := by
  unfold SuspendAt.Running
  cases p <;> infer_instance

def stepSuspend (s : Power × SuspendAt) : CallInput → Option (Power × SuspendAt)
  | .event ev => if s.2.Running then some (ev.apply s.1, s.2) else none
  | .go => suspendGo s.1 s.2
  | .timeout => suspendTimeout s.1 s.2

inductive ResumeAt where
  | start
  | m3Exit
  | waitM0
  | wokenM0
  | leave
  | returned (ret : ℤ)
  deriving DecidableEq, Repr

def resumeGo (s : Power) : ResumeAt → Option (Power × ResumeAt)
  | .start =>
    if s.pmState = .disable then some (s, .returned 0)
    else if s.pmState.InError then some (s, .returned (- EIO))
    else some (s, .m3Exit)
  | .m3Exit =>
    let s' := s.tryset .m3Exit
    some (s', if s'.pmState = .m3Exit then .waitM0 else .returned (- EIO))
  | .waitM0 => if s.SeesM0 then some (s, .wokenM0) else none
  | .wokenM0 => some (s, if s.pmState.InError then .returned (- EIO) else .leave)
  | .leave => some (s, .returned 0)
  | .returned _ => none

def resumeTimeout (s : Power) : ResumeAt → Option (Power × ResumeAt)
  | .waitM0 => if s.SeesM0 then none else some (s, .returned (- EIO))
  | _ => none

def ResumeAt.Running : ResumeAt → Prop
  | returned _ => False
  | _ => True

instance (p : ResumeAt) : Decidable p.Running := by
  unfold ResumeAt.Running
  cases p <;> infer_instance

def stepResume (s : Power × ResumeAt) : CallInput → Option (Power × ResumeAt)
  | .event ev => if s.2.Running then some (ev.apply s.1, s.2) else none
  | .go => resumeGo s.1 s.2
  | .timeout => resumeTimeout s.1 s.2

end Mhi

end BananaWrt
