import BananaWrt.Lib.Ring

/-!
# Commands of MHI

The host starts and resets a channel by a command on the one command ring. Each channel has a
completion, re-armed before a command of the channel is sent; `mhi_process_cmd_completion` finds the
channel in the element of the ring that the event points to, and completes it there. A wait for it
may time out, and the event may come later.

Calls of `__mhi_prepare_channel` and `__mhi_unprepare_channel` hold the mutex of their channel. A
step is what a call does up to the next place where another context matters, or the event of a
completion. Events come in the order of the ring. The modem's answers to `mhi_init_timesync`
go the same way. What `mhi_driver_remove` and `mhi_pm_disable_transition` do is left out.
-/

namespace BananaWrt

namespace Mhi

/-- `MHI_MAX_CHANNELS`. -/
def mhiMaxChannels : ℕ := 128

/-- `CMD_EL_PER_RING`. -/
def cmdElPerRing : ℕ := 128

/-- `MHI_EV_CC_SUCCESS`. -/
def evCcSuccess : ℕ := 1

/-- The commands that are sent, of `enum mhi_cmd_type`. -/
inductive CmdType where
  | reset
  | start
  | tsync
  deriving DecidableEq, Repr

def CmdType.code : CmdType → ℕ
  | reset => 16
  | start => 18
  | tsync => 24

/-- `MHI_TRE_CMD_RESET_DWORD1` and `MHI_TRE_CMD_START_DWORD1` for a channel, and
`MHI_TRE_CMD_TSYNC_CFG_DWORD1` for an event ring. -/
def treCmdDword1 (type : CmdType) (id : ℕ) : ℕ := id <<< 24 ||| type.code <<< 16

/-- `MHI_TRE_GET_CMD_CHID`. -/
def treGetCmdChid (dword1 : ℕ) : ℕ := dword1 >>> 24 &&& 0xFF

/-- `MHI_TRE_GET_CMD_TYPE`. -/
def treGetCmdType (dword1 : ℕ) : ℕ := dword1 >>> 16 &&& 0xFF

/-- Which command it is: the how manyth on the ring, what it asks for, and the channel whose call
has sent it. The driver does not keep this; it is there to say whose completion it is. -/
structure Cmd where
  serial : ℕ
  type : CmdType
  chan : Option ℕ
  deriving DecidableEq, Repr

structure CmdTre where
  dword1 : ℕ
  cmd : Cmd
  deriving DecidableEq, Repr

inductive ChanOp where
  | prepare
  | unprepare
  deriving DecidableEq, Repr

def ChanOp.cmdType : ChanOp → CmdType
  | prepare => .start
  | unprepare => .reset

/-- Where a call is: before `reinit_completion`, after it, in `wait_for_completion_timeout` with its
command on the ring, and after it, woken by the completion of the command `cause`. -/
inductive ChanCall where
  | checked (op : ChanOp)
  | armed (op : ChanOp)
  | waiting (op : ChanOp) (own : Cmd)
  | woken (op : ChanOp) (own cause : Cmd)
  deriving DecidableEq, Repr

/-- `enabled` is `MHI_CH_STATE_ENABLED`, otherwise the state is `MHI_CH_STATE_DISABLED`.
`completion` holds the commands that it has been completed for and nobody has waited for; the
driver has their number. `call` is the call that has the mutex, and `startCmd` the START command of
the call that has enabled the channel. -/
structure CmdChan where
  enabled : Bool
  ccs : ℕ
  completion : List Cmd
  call : Option ChanCall
  startCmd : Option Cmd
  deriving DecidableEq, Repr

/-- `slots`, `rp` and `wp` are the command ring, `log` has the commands that the modem has
completed, with its codes. -/
structure CmdSt where
  chan : ℕ → CmdChan
  tsyncCcs : ℕ
  tsyncDone : ℕ
  slots : ℕ → CmdTre
  rp : ℕ
  wp : ℕ
  sent : ℕ
  log : List (Cmd × ℕ)

/-- `get_nr_avail_ring_elements`, in elements. -/
def getNrAvailRingElements (n rp wp : ℕ) : ℕ :=
  if wp < rp then rp - wp - 1 else rp + (n - wp) - 1

namespace CmdSt

variable (s : CmdSt)

/-- The elements of the ring that the modem has not completed. -/
def outstanding : List CmdTre := Ring.contents s.slots cmdElPerRing s.rp s.wp

def setChan (c : ℕ) (ch : CmdChan) : CmdSt := { s with chan := Function.update s.chan c ch }

def setCall (c : ℕ) (call : Option ChanCall) : CmdSt :=
  s.setChan c { s.chan c with call := call }

/-- `mhi_send_cmd` and the command it has sent, `none` for `(- ENOMEM)`. -/
def mhiSendCmd (type : CmdType) (id : ℕ) (chan : Option ℕ) : Option (CmdSt × Cmd) :=
  if getNrAvailRingElements cmdElPerRing s.rp s.wp = 0 then none
  else
    let cmd : Cmd := ⟨s.sent, type, chan⟩
    some ({ s with
      slots := Function.update s.slots s.wp ⟨treCmdDword1 type id, cmd⟩
      wp := Ring.succ cmdElPerRing s.wp
      sent := s.sent + 1 }, cmd)

/-- `mhi_process_cmd_completion`, for an event that points to the element at `rp`. -/
def mhiProcessCmdCompletion (code : ℕ) : CmdSt :=
  let pkt := s.slots s.rp
  let s' := { s with
    rp := Ring.succ cmdElPerRing s.rp
    log := s.log ++ [(pkt.cmd, code)] }
  if treGetCmdType pkt.dword1 = CmdType.tsync.code then
    { s' with tsyncCcs := code, tsyncDone := s.tsyncDone + 1 }
  else
    let ch := s.chan (treGetCmdChid pkt.dword1)
    s'.setChan (treGetCmdChid pkt.dword1)
      { ch with ccs := code, completion := ch.completion ++ [pkt.cmd] }

/-- `__mhi_prepare_channel` up to `reinit_completion`: `ee` says that the execution environment is
one of the channel's, and `init` that `mhi_init_chan_ctxt` succeeds. -/
def mhiPrepareChannel (c : ℕ) (ee init : Bool) : CmdSt :=
  if ¬ ee ∨ (s.chan c).enabled ∨ ¬ init then s else s.setCall c (some (.checked .prepare))

/-- `__mhi_unprepare_channel` up to `reinit_completion`. -/
def mhiUnprepareChannel (c : ℕ) : CmdSt :=
  if (s.chan c).enabled then
    s.setChan c { s.chan c with enabled := false, call := some (.checked .unprepare) }
  else s

def reinitCompletion (c : ℕ) (op : ChanOp) : CmdSt :=
  s.setChan c { s.chan c with completion := [], call := some (.armed op) }

/-- From the check of `pm_state` to the wait. A call that goes wrong here ends. -/
def sendCmd (c : ℕ) (op : ChanOp) (pmError : Bool) : CmdSt :=
  if pmError then s.setCall c none
  else
    match s.mhiSendCmd op.cmdType c (some c) with
    | none => s.setCall c none
    | some (s', cmd) => s'.setCall c (some (.waiting op cmd))

/-- After the wait, given that it has not timed out. -/
def finish (c : ℕ) (op : ChanOp) (own : Cmd) : CmdSt :=
  match op with
  | .prepare =>
    if (s.chan c).ccs = evCcSuccess then
      s.setChan c { s.chan c with enabled := true, call := none, startCmd := some own }
    else s.setCall c none
  | .unprepare => s.setCall c none

end CmdSt

/-- `timsync` is the command of `mhi_init_timesync`, for an event ring. `timeout` and `wake` are the
two ends of a wait. -/
inductive CmdInput where
  | prepare (c : ℕ) (ee init : Bool)
  | unprepare (c : ℕ)
  | reinit (c : ℕ)
  | send (c : ℕ) (pmError : Bool)
  | timeout (c : ℕ)
  | wake (c : ℕ)
  | finish (c : ℕ)
  | timsync (erIndex : ℕ)
  | completion (code : ℕ)
  deriving DecidableEq, Repr

def stepCmd (s : CmdSt) : CmdInput → Option CmdSt
  | .prepare c ee init =>
    if c < mhiMaxChannels ∧ (s.chan c).call = none then some (s.mhiPrepareChannel c ee init) else none
  | .unprepare c =>
    if c < mhiMaxChannels ∧ (s.chan c).call = none then some (s.mhiUnprepareChannel c) else none
  | .reinit c =>
    match (s.chan c).call with
    | some (.checked op) => some (s.reinitCompletion c op)
    | _ => none
  | .send c pmError =>
    match (s.chan c).call with
    | some (.armed op) => some (s.sendCmd c op pmError)
    | _ => none
  | .timeout c =>
    match (s.chan c).call, (s.chan c).completion with
    | some (.waiting _ _), [] => some (s.setCall c none)
    | _, _ => none
  | .wake c =>
    match (s.chan c).call, (s.chan c).completion with
    | some (.waiting op own), cause :: rest =>
      some (s.setChan c { s.chan c with completion := rest, call := some (.woken op own cause) })
    | _, _ => none
  | .finish c =>
    match (s.chan c).call with
    | some (.woken op own _) => some (s.finish c op own)
    | _ => none
  | .timsync erIndex => some ((s.mhiSendCmd .tsync erIndex none).elim s Prod.fst)
  | .completion code => if s.rp = s.wp then none else some (s.mhiProcessCmdCompletion code)

/-- All channels are disabled and the command ring is empty. -/
def CmdSt.initial : CmdSt where
  chan _ := { enabled := false, ccs := 0, completion := [], call := none, startCmd := none }
  tsyncCcs := 0
  tsyncDone := 0
  slots _ := ⟨0, ⟨0, .tsync, none⟩⟩
  rp := 0
  wp := 0
  sent := 0
  log := []

end Mhi

end BananaWrt
