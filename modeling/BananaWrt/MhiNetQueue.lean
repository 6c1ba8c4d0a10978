import Mathlib.Data.Int.Notation
import BananaWrt.MhiCmd

/-!
# Stopped queues of the network driver

`mhi_netdev_xmit` stops the queues of all interfaces when the ring of the uplink channel is almost
full, `rmnet_vnd_start_xmit` stops that of its own interface when it finds the base queue stopped,
and `mhi_netdev_xfer_ul_cb` wakes them. A transmission, a completion and the two sections of
`rmnet_vnd_start_xmit` run beside each other, step by step. A reset completes all that is
outstanding and sets up the ring anew. While there is no ring, nothing is transmitted.
-/

namespace BananaWrt

namespace NetQueue

open Mhi (getNrAvailRingElements)

def NUM_MHI_IPA_OUT_RING_ELEMENTS : ℕ := 512

/-- `qmap_mode`, and which elements of `mpQmapNetDev` are there. -/
structure Cfg where
  qmapMode : ℕ
  mpQmapNetDev : ℕ → Bool

/-- What `mhi_netdev_xmit` does next: it stops the queue of `mpQmapNetDev[i]`, after the last one
the base queue, or it queues its packet. -/
inductive XmitAt where
  | stopping (i : ℕ)
  | queueing
  deriving DecidableEq, Repr

/-- What `mhi_netdev_xfer_ul_cb` does next: it tests whether to wake, wakes the base queue, or wakes
the queue of `mpQmapNetDev[i]`. -/
inductive UlCbAt where
  | called (transactionStatus : ℤ)
  | wake
  | waking (i : ℕ)
  deriving DecidableEq, Repr

/-- `ndevStopped` and `vndStopped` are the queues that are stopped, `vndBusy` the interfaces whose
`rmnet_vnd_start_xmit` has found the base queue stopped. `prepared` says that there is a ring. -/
structure TxState where
  outstanding : ℕ
  ndevStopped : Bool
  vndStopped : ℕ → Bool
  vndBusy : ℕ → Bool
  enabled : Bool
  prepared : Bool
  resetting : Bool
  xmit : Option XmitAt
  ulCb : Option UlCbAt

/-- After `mhi_netdev_enable_iface` and `mhi_netdev_open`. -/
def TxState.start : TxState where
  outstanding := 0
  ndevStopped := false
  vndStopped := fun _ => false
  vndBusy := fun _ => false
  enabled := true
  prepared := true
  resetting := false
  xmit := none
  ulCb := none

/-- `mhi_get_no_free_descriptors`, see `getNrAvailRingElements_used`. -/
def TxState.noFreeDescriptors (s : TxState) : ℕ :=
  NUM_MHI_IPA_OUT_RING_ELEMENTS - 1 - s.outstanding

/-- `xmit` is a call of `mhi_netdev_xmit` with a packet that is not dropped, `stopNext` and `queue`
its further steps, `mapped` the result of `map_single`. `complete` is the completion of the oldest
packet, `ulCb` a step of the callback, and `restart ok` the end of the reset, where `ok` says
whether the channels start. -/
inductive Input where
  | vndXmit (i : ℕ)
  | vndStop (i : ℕ)
  | xmit
  | stopNext
  | queue (mapped : Bool)
  | complete (transactionStatus : ℤ)
  | ulCb
  | reset
  | restart (ok : Bool)
  deriving DecidableEq, Repr

/-- An interface that is there is stopped or woken. -/
def Cfg.setStopped (c : Cfg) (vndStopped : ℕ → Bool) (i : ℕ) (stopped : Bool) : ℕ → Bool :=
  if c.mpQmapNetDev i then Function.update vndStopped i stopped else vndStopped

/-- The first test of `rmnet_vnd_start_xmit`. Where the base queue is not stopped, the packet goes
to it, and none of what is modelled here changes. -/
def vndStartXmit (s : TxState) (i : ℕ) : TxState :=
  if s.ndevStopped then { s with vndBusy := Function.update s.vndBusy i true } else s

/-- `mhi_netdev_xmit` up to the threshold. -/
def netdevXmit (s : TxState) : TxState :=
  { s with xmit := some (if s.noFreeDescriptors < 16 then .stopping 0 else .queueing) }

/-- An iteration of its loop, or what follows the loop. -/
def stopNext (c : Cfg) (s : TxState) (i : ℕ) : TxState :=
  if i < c.qmapMode then
    { s with vndStopped := c.setStopped s.vndStopped i true, xmit := some (.stopping (i + 1)) }
  else { s with ndevStopped := true, xmit := some .queueing }

/-- `mhi_queue_skb`, after which the call returns; the packet is dropped on an error. -/
def queueTransfer (s : TxState) (mapped : Bool) : TxState :=
  { s with
    outstanding := if mapped ∧ s.noFreeDescriptors ≠ 0 then s.outstanding + 1 else s.outstanding
    xmit := none }

/-- A step of `mhi_netdev_xfer_ul_cb`. -/
def xferUlCb (c : Cfg) (s : TxState) : UlCbAt → TxState
  | .called transactionStatus =>
    { s with
      ulCb :=
        if transactionStatus = 0 ∧ s.ndevStopped ∧ s.enabled ∧ 32 < s.noFreeDescriptors then
          some .wake
        else none }
  | .wake => { s with ndevStopped := false, ulCb := some (.waking 0) }
  | .waking i =>
    if i < c.qmapMode then
      { s with vndStopped := c.setStopped s.vndStopped i false, ulCb := some (.waking (i + 1)) }
    else { s with ulCb := none }

/-- The end of `mhi_netdev_debugfs_trigger_reset`: `mhi_netdev_enable_iface` with a new ring. -/
def enableIface (s : TxState) (ok : Bool) : TxState :=
  { s with outstanding := 0, enabled := ok, prepared := ok, resetting := false }

/-- The stack calls an interface whose queue is not stopped, one call at a time. -/
def step (c : Cfg) (s : TxState) : Input → Option TxState
  | .vndXmit i =>
    if i < c.qmapMode ∧ c.mpQmapNetDev i ∧ ¬ s.vndStopped i ∧ ¬ s.vndBusy i then
      some (vndStartXmit s i)
    else none
  | .vndStop i =>
    if s.vndBusy i then
      some { s with
        vndStopped := Function.update s.vndStopped i true
        vndBusy := Function.update s.vndBusy i false }
    else none
  | .xmit => if s.prepared ∧ ¬ s.ndevStopped ∧ s.xmit = none then some (netdevXmit s) else none
  | .stopNext =>
    match s.xmit with
    | some (.stopping i) => some (stopNext c s i)
    | _ => none
  | .queue mapped =>
    if s.prepared ∧ s.xmit = some .queueing then some (queueTransfer s mapped) else none
  | .complete transactionStatus =>
    if 0 < s.outstanding ∧ s.ulCb = none then
      some { s with
        outstanding := s.outstanding - 1
        ulCb := some (.called transactionStatus) }
    else none
  | .ulCb => s.ulCb.map (xferUlCb c s)
  | .reset => if s.resetting then none else some { s with enabled := false, resetting := true }
  | .restart ok =>
    if s.resetting ∧ s.outstanding = 0 ∧ s.ulCb = none then some (enableIface s ok) else none

/-- If the interface is enabled and nothing is outstanding or under way, no queue is stopped. -/
def TxState.NotStuck (c : Cfg) (s : TxState) : Prop :=
  s.enabled → s.outstanding = 0 → s.xmit = none → s.ulCb = none →
    ¬ s.ndevStopped ∧ ∀ i < c.qmapMode, c.mpQmapNetDev i → ¬ s.vndStopped i

/-- A completion is still to come, or has come and not yet been tested or acted upon. -/
def TxState.Pending (s : TxState) : Prop :=
  0 < s.outstanding ∨ ∃ p ∈ s.ulCb, ∀ i, p ≠ .waking i

/-- The queue of an interface will be woken together with the base queue: that is stopped, or about
to be, or has been woken by a callback that has not got to this interface yet. -/
def TxState.WithBase (s : TxState) (i : ℕ) : Prop :=
  s.ndevStopped ∨ (∃ k, s.xmit = some (.stopping k) ∧ i < k)
    ∨ ∃ j, s.ulCb = some (.waking j) ∧ j ≤ i

/-- The condition on an input under which no wake-up is lost. -/
def KeepsWake (s : TxState) : Input → Prop
  | .vndStop i => s.WithBase i
  | .queue mapped => s.enabled → s.ndevStopped → ¬ mapped → s.Pending
  | .ulCb => ∀ status, s.ulCb = some (.called status) → status ≠ 0 →
      s.enabled → s.ndevStopped → 0 < s.outstanding ∨ s.xmit = some .queueing
  | .restart ok => ok → s.ndevStopped → s.xmit = some .queueing
  | _ => True

end NetQueue

end BananaWrt
