import Mathlib.Algebra.BigOperators.Fin
import BananaWrt.Lib.Ring
import BananaWrt.MhiPm

/-!
# Transfers of MHI

A channel of the quectel MHI driver has two rings: `tre_ring` with the descriptors that the modem
reads, and `buf_ring` with what the host remembers of each. `mhi_queue_skb`, `mhi_queue_dma` and
`mhi_queue_buf` put an element on both, `parse_xfer_event` takes off those that the modem has
finished and hands them to `xfer_cb`, and `mhi_reset_chan` takes off the rest. The modem learns of
new elements by the doorbell of the channel, which may only be written in the power state M0.

A step is a section under `pm_lock` or the lock of a channel, or one of the parts that a call of
`xfer_cb` divides an iteration into: other contexts, and `xfer_cb` itself, may act between steps.
What holds `pm_lock` for reading does not keep the power state from changing here, so there are
more runs than the code has.
-/

namespace BananaWrt

namespace Mhi

inductive Dir where
  | toDevice
  | fromDevice
  deriving DecidableEq, Repr

/-- `sizeof(struct mhi_tre)`. -/
def sizeofTre : ℕ := 16

/-- What does not change while a channel is started: its direction, the rings, which have the same
number of elements, whether its doorbell is that of `mhi_db_brstmode`, and `reset_req`. The ring of
descriptors lies below the end of the address space. -/
structure ChanCfg where
  dir : Dir
  elements : ℕ
  base : ℕ
  iommuBase : ℕ
  brstmode : Bool
  resetReq : Bool
  pos : 0 < elements
  fits : base + sizeofTre * elements < 2 ^ 64
  iommuFits : iommuBase + sizeofTre * elements < 2 ^ 64

/-- The address of an element, for the host and for the modem. -/
def ChanCfg.addr (cfg : ChanCfg) (i : ℕ) : ℕ := cfg.base + sizeofTre * i

def ChanCfg.bus (cfg : ChanCfg) (i : ℕ) : ℕ := cfg.iommuBase + sizeofTre * i

/-- `mhi_to_virtual`, in 64 bits. -/
def ChanCfg.toVirtual (cfg : ChanCfg) (ptr : ℕ) : ℕ :=
  (ptr + 2 ^ 64 - cfg.iommuBase + cfg.base) % 2 ^ 64

/-- `dev_rp`: the element after the one that an event points to. -/
def ChanCfg.devRp (cfg : ChanCfg) (ptr : ℕ) : ℕ :=
  let next := (cfg.toVirtual ptr + sizeofTre) % 2 ^ 64
  if cfg.base + sizeofTre * cfg.elements ≤ next then cfg.base else next

/-- The fields of `struct mhi_buf_info` that are used here. -/
structure BufInfo where
  cbBuf : ℕ
  len : ℕ
  deriving DecidableEq, Repr

/-- What a channel is in the middle of: nothing, the loop of `parse_xfer_event` before an iteration
and after `xfer_cb` has returned, or the loop of `mhi_reset_data_chan`. -/
inductive Busy where
  | idle
  | loop (devRp len : ℕ)
  | called (devRp len : ℕ)
  | resetting
  deriving DecidableEq, Repr

/-- A call that queues a buffer, and what it returns. -/
structure QueueCall where
  buf : ℕ
  ret : ℤ
  deriving DecidableEq, Repr

/-- A call of `xfer_cb`: `buf_addr` and `bytes_xferd`. -/
structure Handed where
  buf : ℕ
  bytesXferd : ℕ
  deriving DecidableEq, Repr

/-- Positions are those of elements: `trp` and `twp` on the ring of descriptors, `brp` and `bwp` on
that of buffers, whose elements are `slots`. `doorbell` is the last value written there, and
`answered` says that it has been written since the modem last asked for it. `queueing` is the number
of calls of `mhi_queue_buf` that have put their element on the rings and do not hold `pm_lock` yet.
`calls` and `handed` are the calls so far. -/
structure Chan where
  cfg : ChanCfg
  enabled : Bool
  trp : ℕ
  twp : ℕ
  brp : ℕ
  bwp : ℕ
  slots : ℕ → BufInfo
  ctxtWp : ℕ
  dbMode : Bool
  doorbell : Option ℕ
  answered : Bool
  busy : Busy
  queueing : ℕ
  calls : List QueueCall
  handed : List Handed

namespace Chan

variable (c : Chan)

/-- `mhi_is_ring_full`. -/
def Full : Prop := Ring.succ c.cfg.elements c.twp = c.trp

instance : Decidable c.Full := inferInstanceAs (Decidable (_ = _))

/-- The `mhi_buf_info` at `wp` is filled in, before the buffer is mapped. -/
def fill (buf len : ℕ) : Chan :=
  { c with slots := Function.update c.slots c.bwp ⟨buf, len⟩ }

/-- `mhi_add_ring_element` for both rings. -/
def add : Chan :=
  { c with
    twp := Ring.succ c.cfg.elements c.twp
    bwp := Ring.succ c.cfg.elements c.bwp }

/-- `mhi_del_ring_element` for both rings, and `xfer_cb`. -/
def handOver (bytesXferd : ℕ) : Chan :=
  { c with
    trp := Ring.succ c.cfg.elements c.trp
    brp := Ring.succ c.cfg.elements c.brp
    handed := c.handed ++ [⟨(c.slots c.brp).cbBuf, bytesXferd⟩] }

/-- A call has returned, or is bound to return, `ret`. -/
def returns (buf : ℕ) (ret : ℤ) : Chan := { c with calls := c.calls ++ [⟨buf, ret⟩] }

/-- `mhi_write_db`. -/
def writeDb (db : ℕ) : Chan := { c with doorbell := some db, answered := true }

/-- `mhi_ring_chan_db` with `mhi_db_brstmode` or `mhi_db_brstmode_disable`. -/
def ringChanDb : Chan :=
  let db := c.cfg.bus c.twp
  if c.cfg.brstmode then
    if c.dbMode then { c.writeDb db with ctxtWp := db, dbMode := false }
    else { c with ctxtWp := db }
  else { c.writeDb db with ctxtWp := db }

/-- The doorbell is rung if `MHI_DB_ACCESS_VALID`. -/
def ringIf (pm : PmState) : Chan := if pm = .m0 then c.ringChanDb else c

/-- The buffers whose call returned 0. -/
def accepted : List ℕ := (c.calls.filter fun call => call.ret = 0).map (·.buf)

/-- How many of them have not been handed over. -/
def outstanding : ℤ := c.accepted.length - c.handed.length

end Chan

def EIO : ℤ := 5
def ENOMEM : ℤ := 12

/-- `mhi_pm_m0_transition` before and after it takes `pm_lock` for reading; it has come to
channel `i`. -/
inductive M0 where
  | entered
  | visiting (i : ℕ)
  deriving DecidableEq, Repr

/-- `mhi_pm_m1_transition` after `pm_state` has become M2: whether it has looked at `dev_wake`, how
often the wake doorbell had been written, and whether there were uplink buffers. -/
structure M1 where
  checked : Bool
  wakeDb : ℕ
  uplink : Bool
  deriving DecidableEq, Repr

/-- `mhi_system_suspend` after its test of `pending_pkts`, and `mhi_pm_suspend` before and after it
has waited for M0. -/
inductive Suspend where
  | tested
  | waiting
  | waited
  deriving DecidableEq, Repr

/-- `wakeDb` is the number of writes to the wake doorbell, and `runtime` that of the references of
the runtime power management that are held for uplink buffers; `runtime_get` followed at once by
`runtime_put`, which asks for a resume, is left out. -/
structure St (n : ℕ) where
  pmState : PmState
  devState : DevState
  devWake : ℕ
  wakeDb : ℕ
  pendingPkts : ℤ
  runtime : ℤ
  chan : Fin n → Chan
  m0 : Option M0
  m1 : Option M1
  suspend : Option Suspend

namespace St

variable {n : ℕ} (s : St n)

/-- The uplink buffers that are outstanding, on all channels. -/
def uplink : ℤ := ∑ i, if (s.chan i).cfg.dir = .toDevice then (s.chan i).outstanding else 0

def setChan (i : Fin n) (c : Chan) : St n := { s with chan := Function.update s.chan i c }

/-- `wake_get`, which is `mhi_assert_dev_wake`. It does not count in `dev_wake`. -/
def wakeGet : St n :=
  if s.devState = .m2 then { s with wakeDb := s.wakeDb + 1 } else s

/-- `wake_put`, which is `mhi_deassert_dev_wake`. -/
def wakePut : St n := s

/-- An uplink buffer is counted, and the first one takes a reference. -/
def incPending : St n :=
  { s with
    pendingPkts := s.pendingPkts + 1
    runtime := if s.pendingPkts + 1 = 1 then s.runtime + 1 else s.runtime }

def decPending : St n :=
  { s with
    pendingPkts := s.pendingPkts - 1
    runtime := if s.pendingPkts - 1 = 0 then s.runtime - 1 else s.runtime }

/-- `assert_wake`. -/
def assertWake (dir : Dir) : St n :=
  if dir = .toDevice ∨ s.pmState ≠ .m0 then s.wakeGet else s

def incFor (dir : Dir) : St n := if dir = .toDevice then s.incPending else s

def decFor (dir : Dir) : St n := if dir = .toDevice then s.decPending else s

/-- `mhi_queue_skb`; `mapped` says whether `map_single` succeeds. `mhi_queue_dma` is the same, with
a buffer that has been mapped before. -/
def mhiQueueSkb (i : Fin n) (buf len : ℕ) (mapped : Bool) : St n :=
  let c := s.chan i
  if c.Full then s.setChan i (c.returns buf (- ENOMEM))
  else if s.pmState.InError then s.setChan i (c.returns buf (- EIO))
  else
    let s := s.assertWake c.cfg.dir
    let c := c.fill buf len
    if mapped then
      (s.incFor c.cfg.dir).setChan i ((c.add.ringIf s.pmState).returns buf 0)
    else s.setChan i (c.returns buf (- ENOMEM))

/-- `mhi_queue_buf` up to `gen_tre`, which is `mhi_gen_tre`. Once its element is on the rings the
call returns 0. -/
def mhiGenTre (i : Fin n) (buf len : ℕ) (mapped : Bool) : St n :=
  let c := s.chan i
  if s.pmState.InError then s.setChan i (c.returns buf (- EIO))
  else if c.Full then s.setChan i (c.returns buf (- ENOMEM))
  else
    let c := c.fill buf len
    if mapped then s.setChan i ({ c.add with queueing := c.queueing + 1 }.returns buf 0)
    else s.setChan i (c.returns buf (- ENOMEM))

/-- The rest of `mhi_queue_buf`. -/
def mhiQueueBuf (i : Fin n) : St n :=
  let c := s.chan i
  let s := (s.assertWake c.cfg.dir).incFor c.cfg.dir
  s.setChan i ({ c with queueing := c.queueing - 1 }.ringIf s.pmState)

def MHI_EV_CC_EOT : ℕ := 2
def MHI_EV_CC_OVERFLOW : ℕ := 3
def MHI_EV_CC_EOB : ℕ := 4
def MHI_EV_CC_OOB : ℕ := 5
def MHI_EV_CC_DB_MODE : ℕ := 6

/-- With one of these codes the modem asks for the doorbell, whatever is done with the event. -/
def asked (i : Fin n) (code : ℕ) : St n :=
  if code ∈ [MHI_EV_CC_OOB, MHI_EV_CC_DB_MODE] then
    s.setChan i { s.chan i with answered := false }
  else s

/-- `parse_xfer_event` up to its loop, for an event with this code, pointer and length. -/
def parseXferEvent (i : Fin n) (code ptr len : ℕ) : St n :=
  let c := s.chan i
  if ¬ c.enabled then s
  else if code ∈ [MHI_EV_CC_OVERFLOW, MHI_EV_CC_EOB, MHI_EV_CC_EOT] then
    s.setChan i { c with busy := .loop (c.cfg.devRp ptr) len }
  else if code ∈ [MHI_EV_CC_OOB, MHI_EV_CC_DB_MODE] then
    let c := { c with dbMode := true }
    s.setChan i (if c.twp ≠ c.trp then c.ringIf s.pmState else c)
  else s

/-- The test of the loop, and its body until `xfer_cb` returns. -/
def xferLoop (i : Fin n) (devRp len : ℕ) : St n :=
  let c := s.chan i
  if c.cfg.addr c.trp = devRp then s.setChan i { c with busy := .idle }
  else s.setChan i { c.handOver len with busy := .called devRp len }

/-- The rest of the body. -/
def xferCalled (i : Fin n) (devRp len : ℕ) : St n :=
  let c := s.chan i
  ((s.decFor c.cfg.dir).setChan i { c with busy := .loop devRp len }).wakePut

/-- An iteration of `mhi_reset_data_chan`, or its end. -/
def mhiResetDataChan (i : Fin n) : St n :=
  let c := s.chan i
  if c.trp = c.twp then s.setChan i { c with busy := .idle }
  else (s.decFor c.cfg.dir).wakePut.setChan i (c.handOver 0)

/-- The section of `mhi_pm_m0_transition` under `pm_lock`. -/
def mhiPmM0Transition : St n :=
  { s with
    devState := .m0
    pmState := mhiTrysetPmState s.pmState .m0
    m0 := if mhiTrysetPmState s.pmState .m0 = .m0 then some .entered else none }

/-- The loop over the channels. With `reset_req` the modem asks for the doorbell by being in M0
again. -/
def m0Visit (i : ℕ) : St n :=
  if h : i < n then
    let c := s.chan ⟨i, h⟩
    let c := if c.cfg.resetReq then { c with dbMode := true, answered := false } else c
    { s.setChan ⟨i, h⟩ (if c.twp ≠ c.trp then c.ringChanDb else c) with
      m0 := some (.visiting (i + 1)) }
  else { s.wakePut with m0 := none }

def mhiPmM1Transition : St n :=
  if mhiTrysetPmState s.pmState .m2 = .m2 then
    { s with
      pmState := .m2
      devState := .m2
      m1 := some ⟨false, s.wakeDb, decide (s.pmState ≠ .m2 ∧ 0 < s.uplink)⟩ }
  else s

/-- What follows the section: if `dev_wake` is not 0, M2 is left at once. -/
def m1Wake (m : M1) : St n :=
  let s := if s.devWake ≠ 0 then s.wakeGet.wakePut else s
  { s with m1 := some { m with checked := true } }

def mhiPmM3Transition : St n :=
  { s with devState := .m3, pmState := mhiTrysetPmState s.pmState .m3 }

/-- `suspends` says whether `mhi_runtime_suspend` is called and gets to `mhi_pm_suspend`. -/
def mhiSystemSuspend (suspends : Bool) : St n :=
  if s.pendingPkts ≠ 0 then s
  else if suspends then { s with suspend := some .tested } else s

/-- `mhi_pm_suspend` up to its wait for M0. -/
def mhiPmSuspend : St n :=
  if s.pmState = .disable ∨ s.pmState.InError ∨ s.devWake ≠ 0 then { s with suspend := none }
  else { s.wakeGet with suspend := some .waiting }

/-- The section of `mhi_pm_suspend` after the wait. -/
def m3Enter : St n :=
  if 1 < s.devWake then { s.wakePut with suspend := none }
  else { s.wakePut with
    pmState := mhiTrysetPmState s.pmState .m3Enter
    suspend := none }

def mhiPmResume : St n :=
  if s.pmState = .disable ∨ s.pmState.InError then s
  else if mhiTrysetPmState s.pmState .m3Exit = .m3Exit then
    { s with pmState := .m3Exit }.wakeGet
  else s

end St

/-! ## Runs -/

/-- `go` is for a channel, or a transition, that something is in the middle of. The section that
moves `pm_state` for another reason than the power states M0, M2 and M3_ENTER is `tryset`. -/
inductive Input (n : ℕ) where
  | queueSkb (i : Fin n) (buf len : ℕ) (mapped : Bool)
  | genTre (i : Fin n) (buf len : ℕ) (mapped : Bool)
  | queueBuf (i : Fin n)
  | event (i : Fin n) (code ptr len : ℕ)
  | go (i : Fin n)
  | disable (i : Fin n)
  | resetChan (i : Fin n)
  | m0Event
  | m0Go
  | m1Event
  | m1Go
  | m3Event
  | systemSuspend (suspends : Bool)
  | pmSuspend
  | suspendWaited (timeout : Bool)
  | m3Enter
  | resume
  | tryset (state : PmState)
  deriving DecidableEq, Repr

section Step

variable {n : ℕ} (s : St n)

/-- What is going on on a channel goes on. -/
def stepChan (i : Fin n) : Option (St n) :=
  match (s.chan i).busy with
  | .idle => none
  | .loop devRp len => some (s.xferLoop i devRp len)
  | .called devRp len => some (s.xferCalled i devRp len)
  | .resetting => some (s.mhiResetDataChan i)

def stepM0 : Option (St n) :=
  match s.m0 with
  | none => none
  | some .entered => some { s.wakeGet with m0 := some (.visiting 0) }
  | some (.visiting i) => some (s.m0Visit i)

def stepM1 : Option (St n) :=
  match s.m1 with
  | none => none
  | some m => some (if m.checked then { s with m1 := none } else s.m1Wake m)

/-- The end of the wait of `mhi_pm_suspend`. -/
def stepWaited (timeout : Bool) : Option (St n) :=
  if s.suspend ≠ some .waiting then none
  else if timeout ∨ s.pmState.InError then some { s.wakePut with suspend := none }
  else if s.devState = .m0 ∨ s.devState = .m1 then some { s with suspend := some .waited }
  else none

/-- `none` where the input cannot happen: a channel has one event or reset at a time, the events of
the modem are handled one after another, and there is one suspend at a time. -/
def step : Input n → Option (St n)
  | .queueSkb i buf len mapped => some (s.mhiQueueSkb i buf len mapped)
  | .genTre i buf len mapped => some (s.mhiGenTre i buf len mapped)
  | .queueBuf i => if (s.chan i).queueing = 0 then none else some (s.mhiQueueBuf i)
  | .event i code ptr len =>
    if (s.chan i).busy = .idle then some ((s.asked i code).parseXferEvent i code ptr len) else none
  | .go i => stepChan s i
  | .disable i =>
    if (s.chan i).busy = .idle then some (s.setChan i { s.chan i with enabled := false }) else none
  | .resetChan i =>
    if (s.chan i).busy = .idle ∧ ¬ (s.chan i).enabled then
      some (s.setChan i { s.chan i with busy := .resetting })
    else none
  | .m0Event => if s.m0.isSome ∨ s.m1.isSome then none else some s.mhiPmM0Transition
  | .m0Go => stepM0 s
  | .m1Event => if s.m0.isSome ∨ s.m1.isSome then none else some s.mhiPmM1Transition
  | .m1Go => stepM1 s
  | .m3Event => if s.m0.isSome ∨ s.m1.isSome then none else some s.mhiPmM3Transition
  | .systemSuspend suspends =>
    if s.suspend = none then some (s.mhiSystemSuspend suspends) else none
  | .pmSuspend => if s.suspend = some .tested then some s.mhiPmSuspend else none
  | .suspendWaited timeout => stepWaited s timeout
  | .m3Enter => if s.suspend = some .waited then some s.m3Enter else none
  | .resume => some s.mhiPmResume
  | .tryset state =>
    if state ∈ [.m0, .m2, .m3Enter] then none
    else some { s with pmState := mhiTrysetPmState s.pmState state }

end Step

/-- A channel after `mhi_init_chan_ctxt`, started. -/
def ChanCfg.start (cfg : ChanCfg) : Chan where
  cfg := cfg
  enabled := true
  trp := 0
  twp := 0
  brp := 0
  bwp := 0
  slots := fun _ => ⟨0, 0⟩
  ctxtWp := cfg.bus 0
  dbMode := true
  doorbell := none
  answered := false
  busy := .idle
  queueing := 0
  calls := []
  handed := []

def initial {n : ℕ} (cfg : Fin n → ChanCfg) (pmState : PmState) (devState : DevState) : St n where
  pmState := pmState
  devState := devState
  devWake := 0
  wakeDb := 0
  pendingPkts := 0
  runtime := 0
  chan := fun i => (cfg i).start
  m0 := none
  m1 := none
  suspend := none

end Mhi

end BananaWrt
