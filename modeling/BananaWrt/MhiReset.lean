import BananaWrt.MhiCmd
import BananaWrt.MhiPoll

/-!
# The reset of a channel and the events that are left

The transfer events of a channel that is reset may still be on its event ring, which other channels
share. `mhi_mark_stale_events` goes through the ring up to the position of the modem and gives those
of the channel another type. Later `mhi_process_data_event_ring` or `mhi_process_ctrl_ev_ring` comes
to them; the latter also has the events of the power state, of the commands and of the execution
environment.

The doorbells of the command ring and of the event rings that M0 rings are left out, as is
`pending_pkts`, which goes down by one with each call for an uplink buffer. `dev_wake` is always 0.
-/

namespace BananaWrt

namespace Mhi

namespace Tre

def MHI_PKT_TYPE_STATE_CHANGE_EVENT : ℕ := 0x20
def MHI_PKT_TYPE_CMD_COMPLETION_EVENT : ℕ := 0x21
def MHI_PKT_TYPE_EE_EVENT : ℕ := 0x40
def MHI_PKT_TYPE_STALE_EVENT : ℕ := 0x49

def MHI_EV_CC_BAD_TRE : ℕ := 0x11

variable (event : Tre)

def evState : ℕ := ((event.dword0 >>> 24) &&& 0xFF).toNat

def evExecenv : ℕ := ((event.dword0 >>> 24) &&& 0xFF).toNat

/-- `MHI_TRE_EV_DWORD1`. -/
def evDword1 (chid type : ℕ) : BitVec 32 :=
  BitVec.ofNat 32 chid <<< 24 ||| BitVec.ofNat 32 type <<< 16

/-- The body of the loop of `mhi_mark_stale_events`. -/
def markStale (chan : ℕ) : Tre :=
  if event.evType = MHI_PKT_TYPE_TX_EVENT ∧ chan = event.evChid then
    { event with dword1 := evDword1 chan MHI_PKT_TYPE_STALE_EVENT }
  else event

end Tre

/-- The loop of `mhi_mark_stale_events`: `none` if it has not come to an end after `fuel` of its
tests. -/
def mhiMarkStaleEvents (elements chan devRp : ℕ) : ℕ → (ℕ → Tre) → ℕ → Option (ℕ → Tre)
  | 0, _, _ => none
  | fuel + 1, slots, localRp =>
    if devRp ≠ localRp then
      mhiMarkStaleEvents elements chan devRp fuel
        (Function.update slots localRp ((slots localRp).markStale chan))
        (Ring.succ elements localRp)
    else some slots

/-- The states that `mhi_process_ctrl_ev_ring` knows. -/
def devStateOf : ℕ → Option DevState
  | 0x2 => some .m0
  | 0x3 => some .m1
  | 0x5 => some .m3
  | 0xFF => some .sysErr
  | _ => none

/-- So for the execution environments. -/
def eeOf : ℕ → Option Ee
  | 0x1 => some .sbl
  | 0x2 => some .amss
  | 0x3 => some .rddm
  | 0x4 => some .wfw
  | 0x7 => some .fp
  | _ => none

/-- The assertions that an event can fail: "Received BAD TRE event for ring", "Invalid Cookie", "TRE
already Freed", "Out of order cmd completion" and "Unsupported ev type". -/
inductive Asserted where
  | badTre
  | invalidCookie
  | treFreed
  | outOfOrder
  | unsupported
  deriving DecidableEq, Repr

/-- What `status_cb` is called with. -/
inductive MhiCb where
  | idle
  | eeRddm
  deriving DecidableEq, Repr

/-- The command ring; `slots` are the second words of its elements. -/
structure CmdRing where
  iommuBase : ℕ
  slots : ℕ → ℕ
  rp : ℕ

/-- The element that an address points to, if one starts there. -/
def CmdRing.pktAt (ring : CmdRing) (ptr : BitVec 64) : Option ℕ :=
  let offset := (ptr.toNat + 2 ^ 64 - ring.iommuBase) % 2 ^ 64
  if sizeofTre ∣ offset ∧ offset < sizeofTre * cmdElPerRing then some (offset / sizeofTre) else none

/-- What is not of one channel's rings: `ccs` and `completion` are those of the channels, and
`syserrWork` says how often `syserr_worker` has been scheduled. `count` is the number of events. -/
structure Ctl where
  power : Power
  ee : Ee
  transitionList : List StTransition
  syserrWork : ℕ
  statusCb : List MhiCb
  cmd : CmdRing
  ccs : ℕ → ℕ
  completion : ℕ → ℕ
  tsyncCcs : ℕ
  tsyncDone : ℕ
  count : ℕ

/-- `used` is that of the `mhi_buf_info` at an offset of the ring of a channel. `calls` are the
calls of `xfer_cb` with their channel, and `failed` the assertions that have failed. -/
structure CtrlSt (maxChan : ℕ) where
  chans : ChanTable maxChan
  used : ℕ → ℕ → Bool
  ctl : Ctl
  calls : List (ℕ × XferCall)
  failed : List Asserted

/-- What `xfer_cb` queues, as in `DataEnv`, and the fuel of `parse_xfer_event`. -/
structure ParseEnv where
  cb : ℕ → ℕ → List BufInfo
  fuel : ℕ

/-- `MHI_ASSERT`, which goes on unless the driver is built for debugging. -/
def mhiAssert (cond : Prop) [Decidable cond] (asserted : Asserted) : List Asserted :=
  if cond then [asserted] else []

namespace Ctl

variable (ctl : Ctl)

def stateChange : Option DevState → Ctl
  | some .m1 =>
    { ctl with
      power := ctl.power.stateChange .m1
      statusCb :=
        if mhiTrysetPmState ctl.power.pmState .m2 = .m2 then ctl.statusCb ++ [.idle]
        else ctl.statusCb }
  | some .sysErr =>
    { ctl with
      power := ctl.power.stateChange .sysErr
      syserrWork :=
        if mhiTrysetPmState ctl.power.pmState .sysErrDetect = .sysErrDetect then ctl.syserrWork + 1
        else ctl.syserrWork }
  | some new => { ctl with power := ctl.power.stateChange new }
  | none => ctl

/-- `mhi_queue_state_transition`. -/
def mhiQueueStateTransition (st : StTransition) : Ctl :=
  { ctl with transitionList := ctl.transitionList ++ [st] }

def eeEvent : Option Ee → Ctl
  | some .sbl => ctl.mhiQueueStateTransition .sbl
  | some .fp => ctl.mhiQueueStateTransition .fp
  | some .wfw | some .amss => ctl.mhiQueueStateTransition .missionMode
  | some .rddm => { ctl with statusCb := ctl.statusCb ++ [.eeRddm], ee := .rddm }
  | _ => ctl

/-- `mhi_process_cmd_completion`, for `maxChan` channels, and the assertion it has failed. -/
def mhiProcessCmdCompletion (maxChan : ℕ) (event : Tre) : Option (Ctl × List Asserted) :=
  match ctl.cmd.pktAt event.ptr with
  | none => none
  | some pkt =>
    let dword1 := ctl.cmd.slots pkt
    let chan := treGetCmdChid dword1
    let ctl' := { ctl with cmd := { ctl.cmd with rp := Ring.succ cmdElPerRing ctl.cmd.rp } }
    let failed := mhiAssert (pkt ≠ ctl.cmd.rp) .outOfOrder
    if treGetCmdType dword1 = CmdType.tsync.code then
      some ({ ctl' with tsyncCcs := event.evCode, tsyncDone := ctl.tsyncDone + 1 }, failed)
    else if chan < maxChan then
      some ({ ctl' with
        ccs := Function.update ctl.ccs chan event.evCode
        completion := Function.update ctl.completion chan (ctl.completion chan + 1) }, failed)
    else none

end Ctl

/-- What `mhi_pm_m0_transition` does to a channel with rings. -/
def Chan.ringAgain (c : Chan) : Chan :=
  let c := if c.cfg.resetReq then { c with dbMode := true } else c
  if c.twp ≠ c.trp then c.ringChanDb else c

namespace CtrlSt

variable {maxChan : ℕ} (s : CtrlSt maxChan)

def chanOf (event : Tre) : Option Chan :=
  if h : event.evChid < maxChan then s.chans ⟨event.evChid, h⟩ else none

/-- The assertions that fail in `parse_xfer_event` and `parse_rsc_event`. -/
def transferAsserts (event : Tre) : List Asserted :=
  match s.chanOf event with
  | none => []
  | some c =>
    if event.evType = Tre.MHI_PKT_TYPE_TX_EVENT then
      mhiAssert (c.enabled ∧ event.evCode = Tre.MHI_EV_CC_BAD_TRE) .badTre
    else if event.evType = Tre.MHI_PKT_TYPE_RSC_TX_EVENT then
      mhiAssert (sizeofBufInfo * c.cfg.elements ≤ event.evCookie) .invalidCookie
        ++ mhiAssert (c.enabled ∧ ¬ s.used event.evChid event.evCookie) .treFreed
    else []

/-- `parse_rsc_event` has the element free. -/
def usedAfter (event : Tre) : ℕ → ℕ → Bool :=
  match s.chanOf event with
  | none => s.used
  | some c =>
    if event.evType = Tre.MHI_PKT_TYPE_RSC_TX_EVENT ∧ c.enabled then
      Function.update s.used event.evChid
        (Function.update (s.used event.evChid) event.evCookie false)
    else s.used

/-- The channel of an event, and what parses the event. -/
def parseTransfer (env : ParseEnv) (event : Tre) : Option (CtrlSt maxChan) :=
  (processTransfer s.ctl.power.pmState (env.cb s.ctl.count) env.fuel s.chans event).map fun r =>
    { s with
      chans := r.1
      used := s.usedAfter event
      calls := s.calls ++ r.2.map (event.evChid, ·)
      failed := s.failed ++ s.transferAsserts event }

/-- `MHI_PKT_TYPE_STATE_CHANGE_EVENT`. In the state M0 the channels are rung again. -/
def stateChange (new : Option DevState) : CtrlSt maxChan :=
  let ctl := s.ctl.stateChange new
  { s with
    ctl := ctl
    chans :=
      if new = some .m0 ∧ ctl.power.pmState = .m0 then fun i => (s.chans i).map Chan.ringAgain
      else s.chans }

/-- The `switch` of `mhi_process_ctrl_ev_ring`. -/
def ctrlEvent (env : ParseEnv) (event : Tre) : Option (CtrlSt maxChan) :=
  if event.evType = Tre.MHI_PKT_TYPE_STATE_CHANGE_EVENT then
    some (s.stateChange (devStateOf event.evState))
  else if event.evType = Tre.MHI_PKT_TYPE_CMD_COMPLETION_EVENT then
    (s.ctl.mhiProcessCmdCompletion maxChan event).map fun r =>
      { s with ctl := r.1, failed := s.failed ++ r.2 }
  else if event.evType = Tre.MHI_PKT_TYPE_EE_EVENT then
    some { s with ctl := s.ctl.eeEvent (eeOf event.evExecenv) }
  else if event.IsTransfer then s.parseTransfer env event
  else some { s with failed := s.failed ++ mhiAssert True .unsupported }

def counted : CtrlSt maxChan := { s with ctl := { s.ctl with count := s.ctl.count + 1 } }

/-- The body of the loop of `mhi_process_data_event_ring`, or of `mhi_process_ctrl_ev_ring`. -/
def processEvent (env : ParseEnv) (kind : EvRing) (event : Tre) : Option (CtrlSt maxChan) :=
  let processed :=
    match kind with
    | .data => s.parseTransfer env event
    | .ctrl => s.ctrlEvent env event
  processed.map CtrlSt.counted

/-- The quota, of which the loop of `mhi_process_ctrl_ev_ring` takes no notice. -/
def quotaAfter (kind : EvRing) (event : Tre) (eventQuota : ℕ) : ℕ :=
  if kind = .data ∧ event.IsTransfer then eventQuota - 1 else eventQuota

section Process

variable (env : ParseEnv) (kind : EvRing) (elements : ℕ) (slots : ℕ → Tre) (devRp : ℕ)

/-- The loop, and the position it comes to: `none` once an event has led the driver out of its
tables or has kept it in a loop, or if it has not come to an end after `fuel` of its tests. -/
def processLoop : ℕ → CtrlSt maxChan → ℕ → ℕ → Option (CtrlSt maxChan × ℕ)
  | 0, _, _, _ => none
  | fuel + 1, s, localRp, eventQuota =>
    if devRp ≠ localRp ∧ (kind = .data → 0 < eventQuota) then
      (s.processEvent env kind (slots localRp)).bind fun s =>
        processLoop fuel s (Ring.succ elements localRp)
          (quotaAfter kind (slots localRp) eventQuota)
    else some (s, localRp)

/-- `mhi_process_data_event_ring`, or `mhi_process_ctrl_ev_ring`, while the modem is at `devRp`. -/
def mhiProcessEventRing (fuel localRp eventQuota : ℕ) : Option (CtrlSt maxChan × ℕ) :=
  if s.ctl.power.pmState.EventAccessInvalid then some (s, localRp)
  else processLoop env kind elements slots devRp fuel s localRp eventQuota

end Process

end CtrlSt

/-- The loop of `mhi_reset_data_chan`; buffers that have been allocated for the channel are freed,
others handed over. -/
def Chan.mhiResetDataChan (preAlloc : Bool) : ℕ → Chan → Option (Chan × List XferCall)
  | 0, _ => none
  | fuel + 1, c =>
    if c.trp ≠ c.twp then
      let call : XferCall := ⟨true, (c.slots c.brp).len, 0⟩
      (Chan.mhiResetDataChan preAlloc fuel (c.handOver 0)).map fun r =>
        (r.1, if preAlloc then r.2 else call :: r.2)
    else some (c, [])

namespace CtrlSt

variable {maxChan : ℕ} (s : CtrlSt maxChan)

/-- `mhi_reset_data_chan` or, if `rsc`, `mhi_reset_rsc_chan`, for a channel with rings. -/
def mhiResetRings (rsc preAlloc : Bool) (c : Fin maxChan) (ch : Chan) : Option (CtrlSt maxChan) :=
  if rsc then
    let used := (List.range ch.cfg.elements).filter fun i => s.used c (sizeofBufInfo * i)
    let calls : List XferCall := used.map fun i => ⟨true, (ch.slots i).len, 0⟩
    some { s with
      used := Function.update s.used c fun _ => false
      calls := s.calls ++ calls.map (c.val, ·) }
  else
    (ch.mhiResetDataChan preAlloc ch.cfg.elements).map fun r =>
      { s with
        chans := Function.update s.chans c (some r.1)
        calls := s.calls ++ r.2.map (c.val, ·) }

end CtrlSt

/-- `mhi_reset_chan`: the slots of the event ring, and the channel. -/
def mhiResetChan {maxChan : ℕ} (elements devRp : ℕ) (slots : ℕ → Tre) (localRp : ℕ)
    (rsc preAlloc : Bool) (c : Fin maxChan) (s : CtrlSt maxChan) :
    Option ((ℕ → Tre) × CtrlSt maxChan) :=
  match mhiMarkStaleEvents elements c devRp elements slots localRp, s.chans c with
  | some marked, some ch => (s.mhiResetRings rsc preAlloc c ch).map (marked, ·)
  | some marked, none => some (marked, s)
  | none, _ => none

/-- The calls of `xfer_cb` for a channel. -/
def CtrlSt.callsOf {maxChan : ℕ} (s : CtrlSt maxChan) (c : ℕ) : List (ℕ × XferCall) :=
  s.calls.filter fun call => call.1 = c

/-- The states differ in one channel at most: all others are the same, with the calls of `xfer_cb`
for them, and so are the power state and the rest of the controller. -/
structure SameBut {maxChan : ℕ} (c : Fin maxChan) (s s' : CtrlSt maxChan) : Prop where
  chans : ∀ d, d ≠ c → s'.chans d = s.chans d
  used : ∀ d, d ≠ c.val → s'.used d = s.used d
  ctl : s'.ctl = s.ctl
  calls : ∀ d, d ≠ c.val → s'.callsOf d = s.callsOf d

/-- Where processing without the reset comes from `s` to `a`, processing with it comes from `s'` to
a state that is the same but for the channel, without a call of `xfer_cb` for the channel and
without a failed assertion. -/
def Discards {maxChan : ℕ} (c : Fin maxChan) (s' a b : CtrlSt maxChan) : Prop :=
  SameBut c a b ∧ b.callsOf c = s'.callsOf c ∧ b.failed = s'.failed

/-- An event of the channel `c` that a ring of this kind is rid of: one of `parse_rsc_event`, which
is not marked, finds the channel off, and its element on the ring. -/
def Tre.Discarded (kind : EvRing) (c : ℕ) (ch : Option Chan) (event : Tre) : Prop :=
  event.evChid = c →
    (event.evType = Tre.MHI_PKT_TYPE_TX_EVENT → kind = .data)
      ∧ (event.evType = Tre.MHI_PKT_TYPE_RSC_TX_EVENT →
        ∃ ch' ∈ ch, ¬ ch'.enabled ∧ event.evCookie + sizeofBufInfo ≤ sizeofBufInfo * ch'.cfg.elements)

end Mhi

end BananaWrt
