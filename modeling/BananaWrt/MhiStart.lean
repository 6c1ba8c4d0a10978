import BananaWrt.Lib.Ring
import BananaWrt.Lib.Run
import Mathlib.Algebra.Group.Int.Defs

/-!
# Starting and stopping the channels of MHI

`__mhi_prepare_channel` sets up the rings of a channel and its context, which the modem reads, sends
the START command, waits for its completion and, on some channels, puts buffers on the ring.
`__mhi_unprepare_channel` sends RESET and takes all of that down, whatever comes of the command.
What a call meets on its way is its argument. `mhi_prepare_for_transfer` starts the channels of a
device.

Memory is counted by blocks: each allocation is a new one. `wake` and `runtime` are the calls of
`wake_get` and `runtime_get` less those of `wake_put` and `runtime_put`.
-/

namespace BananaWrt

namespace MhiStart

def EIO : ℤ := 5
def ENOMEM : ℤ := 12
def ENOTCONN : ℤ := 107

/-- `sizeof(struct mhi_tre)`. -/
def sizeofTre : ℕ := 16

/-- `MHI_EV_CC_SUCCESS`. -/
def evCcSuccess : ℕ := 1

inductive Dir where
  | toDevice
  | fromDevice
  | bidirectional
  deriving DecidableEq, Repr

/-- `enum MHI_CH_STATE`. -/
inductive ChState where
  | disabled
  | enabled
  | running
  | suspended
  | stop
  | error
  deriving DecidableEq, Repr

/-- What the driver has set at first. A channel without elements is an offload channel, whose
context its client manages. `base` and `iommuBase` are the addresses of the ring of descriptors. -/
structure ChanCfg where
  dir : Dir
  elements : ℕ
  base : ℕ
  iommuBase : ℕ
  eeMask : ℕ
  preAlloc : Bool
  offload_iff : elements = 0 ↔ dir = .bidirectional
  preAlloc_dir : preAlloc → dir = .fromDevice

def ChanCfg.offloadCh (cfg : ChanCfg) : Prop := cfg.elements = 0

instance (cfg : ChanCfg) : Decidable cfg.offloadCh := inferInstanceAs (Decidable (_ = _))

/-- `struct mhi_chan_ctxt`. -/
structure ChanCtxt where
  chstate : ChState
  rbase : ℕ
  rlen : ℕ
  rp : ℕ
  wp : ℕ
  deriving DecidableEq, Repr

/-- `treBase` and `bufBase` are the base pointers of the two rings, the latter as a block, and
`none` for `NULL`; the other positions are those of elements. `slots` has the buffer of each
element. -/
structure MhiChan where
  chState : ChState
  treBase : Option ℕ
  bufBase : Option ℕ
  trp : ℕ
  twp : ℕ
  brp : ℕ
  bwp : ℕ
  slots : ℕ → ℕ
  ctxt : ChanCtxt

/-- Blocks below `next` have been allocated, those in `freed` freed. -/
structure Ctl where
  chan : ℕ → MhiChan
  wake : ℤ
  runtime : ℤ
  pendingPkts : ℤ
  next : ℕ
  freed : List ℕ

namespace Ctl

variable (s : Ctl)

def set (ch : ℕ) (c : MhiChan) : Ctl := { s with chan := Function.update s.chan ch c }

def wakeGet : Ctl := { s with wake := s.wake + 1 }

def wakePut : Ctl := { s with wake := s.wake - 1 }

def runtimeGet : Ctl := { s with runtime := s.runtime + 1 }

def runtimePut : Ctl := { s with runtime := s.runtime - 1 }

/-- `kmalloc`, which returns the block `s.next`. -/
def kmalloc : Ctl := { s with next := s.next + 1 }

def kfree (block : Option ℕ) : Ctl := { s with freed := s.freed ++ block.toList }

end Ctl

variable (cfgs : ℕ → ChanCfg)

def mhiDeinitChanCtxt (ch : ℕ) (s : Ctl) : Ctl :=
  let c := s.chan ch
  (s.kfree c.bufBase).set ch
    { c with bufBase := none, treBase := none, ctxt := { c.ctxt with rbase := 0 } }

/-- The rings and the context, with `block` for the array of `buf_ring`. -/
def MhiChan.setUp (c : MhiChan) (cfg : ChanCfg) (block : ℕ) : MhiChan :=
  { c with
    treBase := some cfg.base
    bufBase := some block
    trp := 0
    twp := 0
    brp := 0
    bwp := 0
    ctxt := {
      chstate := .enabled
      rbase := cfg.iommuBase
      rlen := sizeofTre * cfg.elements
      rp := cfg.iommuBase
      wp := cfg.iommuBase } }

/-- `allocated` says whether `kzalloc` has memory for `buf_ring`. -/
def mhiInitChanCtxt (ch : ℕ) (allocated : Bool) (s : Ctl) : Ctl × ℤ :=
  let cfg := cfgs ch
  let c := s.chan ch
  if allocated then (s.kmalloc.set ch (c.setUp cfg s.next), 0)
  else (s.set ch { c with treBase := some cfg.base, bufBase := none }, - ENOMEM)

/-- `mhi_ring_chan_db`, without the doorbell itself. -/
def mhiRingChanDb (ch : ℕ) (s : Ctl) : Ctl :=
  let c := s.chan ch
  s.set ch { c with ctxt := { c.ctxt with wp := (cfgs ch).iommuBase + sizeofTre * c.twp } }

/-- `mhi_gen_tre`; the buffer can be mapped or not. -/
def mhiGenTre (ch buf : ℕ) (mapped : Bool) (s : Ctl) : Ctl × ℤ :=
  let c := s.chan ch
  let n := (cfgs ch).elements
  let c := { c with slots := Function.update c.slots c.bwp buf }
  if mapped then
    (s.set ch { c with twp := Ring.succ n c.twp, bwp := Ring.succ n c.bwp }, 0)
  else (s.set ch c, - ENOMEM)

/-- `get_nr_avail_ring_elements`, in elements. -/
def getNrAvailRingElements (n rp wp : ℕ) : ℕ :=
  if wp < rp then rp - wp - 1 else rp + (n - wp) - 1

/-- The loop of `mhi_reset_data_chan`, which comes around once at most. -/
def mhiResetDataChan (ch : ℕ) : ℕ → Ctl → Ctl
  | 0, s => s
  | fuel + 1, s =>
    let c := s.chan ch
    let cfg := cfgs ch
    if c.trp = c.twp then s
    else
      let s :=
        if cfg.dir = .toDevice then
          let s := { s with pendingPkts := s.pendingPkts - 1 }
          (if s.pendingPkts = 0 then s.runtimePut else s).wakePut
        else s
      let s := s.set ch
        { c with brp := Ring.succ cfg.elements c.brp, trp := Ring.succ cfg.elements c.trp }
      -- otherwise the buffer is handed back to the client
      let s := if cfg.preAlloc then s.kfree (some (c.slots c.brp)) else s
      mhiResetDataChan ch fuel s

/-- `__mhi_unprepare_channel`. What comes of the command is not looked at. -/
def mhiUnprepareChannel (ch : ℕ) (inErrorState : Bool) (s : Ctl) : Ctl :=
  let c := s.chan ch
  if c.chState ≠ .enabled then s
  else
    let s := s.set ch { c with chState := .disabled }
    let s := if inErrorState then s else s.wakeGet.runtimeGet.runtimePut.wakePut
    if (cfgs ch).offloadCh then s
    else mhiDeinitChanCtxt ch (mhiResetDataChan cfgs ch (cfgs ch).elements s)

/-- What the buffers of a channel meet: each may not be had, or not be mapped. -/
structure BufferEnv where
  allocated : Bool
  mapped : Bool
  deriving DecidableEq, Repr

/-- `completed` is what the command is completed with, `none` for a timeout. `buffers` is for each
buffer that is put on the ring, the first one having the highest number. `resetInErrorState` is for
the call of `__mhi_unprepare_channel` after one of them has failed. -/
structure PrepareEnv where
  ee : ℕ
  ringAllocated : Bool
  inErrorState : Bool
  cmdRingFull : Bool
  completed : Option ℕ
  buffers : ℕ → BufferEnv
  dbAccessValid : Bool
  resetInErrorState : Bool

/-- The loop over `nr_el`. -/
def preAllocLoop (ch : ℕ) (buffers : ℕ → BufferEnv) : ℕ → Ctl → Ctl × ℤ
  | 0, s => (s, 0)
  | nrEl + 1, s =>
    if ¬ (buffers nrEl).allocated then (s, - ENOMEM)
    else
      let (s', ret) := mhiGenTre cfgs ch s.next (buffers nrEl).mapped s.kmalloc
      if ret ≠ 0 then (s'.kfree (some s.next), ret) else preAllocLoop ch buffers nrEl s'

/-- The label `error_pm_state`. -/
def errorPmState (ch : ℕ) (s : Ctl) : Ctl :=
  if (cfgs ch).offloadCh then s else mhiDeinitChanCtxt ch s

/-- The label `error_send_cmd`. -/
def errorSendCmd (ch : ℕ) (s : Ctl) : Ctl := errorPmState cfgs ch s.runtimePut.wakePut

/-- The part after the completion of the command. -/
def mhiPreAlloc (ch : ℕ) (e : PrepareEnv) (s : Ctl) : Ctl × ℤ :=
  let cfg := cfgs ch
  let s := s.runtimePut
  let s := s.set ch { s.chan ch with chState := .enabled }
  if cfg.preAlloc then
    let c := s.chan ch
    let (s, ret) :=
      preAllocLoop cfgs ch e.buffers (getNrAvailRingElements cfg.elements c.trp c.twp) s
    if ret ≠ 0 then (mhiUnprepareChannel cfgs ch e.resetInErrorState s.wakePut, ret)
    else ((if e.dbAccessValid then mhiRingChanDb cfgs ch s else s).wakePut, 0)
  else (s.wakePut, 0)

/-- `__mhi_prepare_channel`. -/
def mhiPrepareChannel (ch : ℕ) (e : PrepareEnv) (s : Ctl) : Ctl × ℤ :=
  let cfg := cfgs ch
  if 1 <<< e.ee &&& cfg.eeMask = 0 then (s, - ENOTCONN)
  else if (s.chan ch).chState ≠ .disabled then (s, - EIO)
  else
    let (s, ret) := if cfg.offloadCh then (s, 0) else mhiInitChanCtxt cfgs ch e.ringAllocated s
    if ret ≠ 0 then (s, ret)
    else if e.inErrorState then (errorPmState cfgs ch s, - EIO)
    else
      let s := s.wakeGet.runtimeGet
      if e.cmdRingFull then (errorSendCmd cfgs ch s, - ENOMEM)
      else if e.completed ≠ some evCcSuccess then (errorSendCmd cfgs ch s, - EIO)
      else mhiPreAlloc cfgs ch e s

/-- A bidirectional channel is both. -/
structure MhiDevice where
  ulChan : Option ℕ
  dlChan : Option ℕ
  deriving DecidableEq, Repr

def MhiDevice.chans (d : MhiDevice) : List ℕ := d.ulChan.toList ++ d.dlChan.toList

/-- What the two iterations meet, and the call of `__mhi_unprepare_channel` after the second one has
failed. -/
structure DeviceEnv where
  ul : PrepareEnv
  dl : PrepareEnv
  resetInErrorState : Bool

def prepareOpt (ch : Option ℕ) (e : PrepareEnv) (s : Ctl) : Ctl × ℤ :=
  match ch with
  | none => (s, 0)
  | some ch => mhiPrepareChannel cfgs ch e s

def mhiPrepareForTransfer (d : MhiDevice) (e : DeviceEnv) (s : Ctl) : Ctl × ℤ :=
  let (s, ret) := prepareOpt cfgs d.ulChan e.ul s
  if ret ≠ 0 then (s, ret)
  else if d.ulChan.isSome ∧ d.dlChan = d.ulChan then (s, 0)
  else
    let (s, ret) := prepareOpt cfgs d.dlChan e.dl s
    if ret ≠ 0 then
      match d.ulChan with
      | none => (s, ret)
      | some ch => (mhiUnprepareChannel cfgs ch e.resetInErrorState s, ret)
    else (s, 0)

/-- The part of `mhi_init_dev_ctxt` for the channels. -/
def mhiInitDevCtxt (s : Ctl) : Ctl :=
  { s with chan := fun ch =>
      let c := s.chan ch
      if (cfgs ch).offloadCh then c
      else { c with ctxt := { c.ctxt with chstate := .disabled }, chState := .disabled } }

/-- `mhi_queue_buf`, which takes a reference for a channel to the modem. -/
def mhiQueueBuf (ch buf : ℕ) (inErrorState mapped dbAccessValid : Bool) (s : Ctl) : Ctl × ℤ :=
  let cfg := cfgs ch
  let c := s.chan ch
  if inErrorState then (s, - EIO)
  else if Ring.succ cfg.elements c.twp = c.trp then (s, - ENOMEM)
  else
    let (s, ret) := mhiGenTre cfgs ch buf mapped s
    if ret ≠ 0 then (s, ret)
    else
      let s :=
        if cfg.dir = .toDevice then
          let s := { s.wakeGet with pendingPkts := s.pendingPkts + 1 }
          if s.pendingPkts = 1 then s.runtimeGet else s
        else s
      (if dbAccessValid then mhiRingChanDb cfgs ch s else s, 0)

/-- `start` and `stop` are calls of `__mhi_prepare_channel` and `__mhi_unprepare_channel`. A client
queues buffers on channels that have been started, unless the driver does that. -/
inductive Input where
  | start (ch : ℕ) (e : PrepareEnv)
  | stop (ch : ℕ) (inErrorState : Bool)
  | queue (ch buf : ℕ) (inErrorState mapped dbAccessValid : Bool)

def step (s : Ctl) : Input → Option Ctl
  | .start ch e => some (mhiPrepareChannel cfgs ch e s).1
  | .stop ch inErrorState => some (mhiUnprepareChannel cfgs ch inErrorState s)
  | .queue ch buf inErrorState mapped dbAccessValid =>
    if (s.chan ch).chState = .enabled ∧ ¬ (cfgs ch).offloadCh ∧ ¬ (cfgs ch).preAlloc then
      some (mhiQueueBuf cfgs ch buf inErrorState mapped dbAccessValid s).1
    else none

/-- An address in the ring of descriptors, as the modem sees it. -/
def ChanCfg.InRing (cfg : ChanCfg) (addr : ℕ) : Prop :=
  cfg.iommuBase ≤ addr ∧ addr < cfg.iommuBase + sizeofTre * cfg.elements

/-- The rings exist, and the context lies in the ring of descriptors. -/
structure MhiChan.Linked (c : MhiChan) (cfg : ChanCfg) : Prop where
  treBase : c.treBase ≠ none
  rbase : cfg.iommuBase ≤ c.ctxt.rbase
  rlen : c.ctxt.rbase + c.ctxt.rlen ≤ cfg.iommuBase + sizeofTre * cfg.elements
  rp : cfg.InRing c.ctxt.rp
  wp : cfg.InRing c.ctxt.wp

/-- Where the modem sees a channel enabled, it sees a ring. -/
def NoDeadRing (s : Ctl) : Prop :=
  ∀ ch, ¬ (cfgs ch).offloadCh → (s.chan ch).ctxt.chstate = .enabled →
    (s.chan ch).Linked (cfgs ch)

/-- Nothing fails after the rings have been set up. -/
def PrepareEnv.Succeeds (e : PrepareEnv) (cfg : ChanCfg) : Prop :=
  e.inErrorState = false ∧ e.cmdRingFull = false ∧ e.completed = some evCcSuccess
    ∧ (cfg.preAlloc → ∀ k < cfg.elements - 1, (e.buffers k).allocated ∧ (e.buffers k).mapped)

/-- The call takes the rings of a channel down: it stops a channel that has been started, or what it
meets after it has set the rings up fails. -/
def TakesDown (s : Ctl) : Input → Prop
  | .start ch e => ¬ (cfgs ch).offloadCh ∧ 1 <<< e.ee &&& (cfgs ch).eeMask ≠ 0
    ∧ (s.chan ch).chState = .disabled ∧ e.ringAllocated ∧ ¬ e.Succeeds (cfgs ch)
  | .stop ch _ => ¬ (cfgs ch).offloadCh ∧ (s.chan ch).chState = .enabled
  | .queue .. => False

end MhiStart

end BananaWrt
