import BananaWrt.MhiEvRing
import BananaWrt.MhiEvent

/-!
# Polling an event ring of MHI

`mhi_process_data_event_ring` goes through the events of a ring from `rp` on, up to the position
that the modem has written to the context of the ring, or until it has used up its quota. It reads
that position again where it has caught up with it. `mhi_netdev_poll` is called by the kernel with a
budget, which is the quota, and returns the number of events.

The modem may write events while the host works: what the slots hold, the position, and what other
contexts do meanwhile may differ from event to event.
-/

namespace BananaWrt

namespace Mhi

/-- `MHI_EVENT_ACCESS_INVALID`. -/
def PmState.EventAccessInvalid (s : PmState) : Prop := s = disable ∨ s.InError

instance (s : PmState) : Decidable s.EventAccessInvalid := inferInstanceAs (Decidable (_ ∨ _))

/-- What there is when `i` events have been processed: the slots of the ring, the position in its
context, the power state, and the buffers that are queued while `parse_xfer_event` is in its loop,
which ends after `fuel` tests or not at all. -/
structure DataEnv where
  slots : ℕ → ℕ → Tre
  devRp : ℕ → ℕ
  pm : ℕ → PmState
  cb : ℕ → ℕ → List BufInfo
  fuel : ℕ

/-- What the events do to the channels: `none` once one of them has led the driver out of its
tables, or has kept it in a loop. -/
abbrev Effect (maxChan : ℕ) : Type := Option (ChanTable maxChan × List XferCall)

/-- `processed` are the events so far, in order. -/
structure PollSt (maxChan : ℕ) where
  ring : EventRing
  count : ℕ
  processed : List Tre
  effect : Effect maxChan

section Poll

variable {maxChan : ℕ} (env : DataEnv)

/-- The part of the body of the loop that parses the event, the `i`-th. -/
def parseEvent (i : ℕ) (event : Tre) (effect : Effect maxChan) : Effect maxChan :=
  effect.bind fun t =>
    (processRecord (env.pm i) (env.cb i) env.fuel .data t.1 event).map fun t' =>
      (t'.1, t.2 ++ t'.2)

/-- The loop: `none` if it has not come to an end after `fuel` of its tests. -/
def dataLoop : ℕ → PollSt maxChan → ℕ → ℕ → Option (PollSt maxChan)
  | 0, _, _, _ => none
  | fuel + 1, s, devRp, eventQuota =>
    if devRp ≠ s.ring.rp ∧ 0 < eventQuota then
      let event := env.slots s.count s.ring.rp
      let eventQuota := if event.IsTransfer then eventQuota - 1 else eventQuota
      let ring := s.ring.recycle
      let devRp := if ring.rp = devRp ∨ eventQuota = 0 then env.devRp (s.count + 1) else devRp
      dataLoop fuel
        { ring := ring
          count := s.count + 1
          processed := s.processed ++ [event]
          effect := parseEvent env s.count event s.effect }
        devRp eventQuota
    else some s

/-- `mhi_process_data_event_ring`, and `mhi_poll`, which calls it with a lock held. -/
def mhiProcessDataEventRing (fuel : ℕ) (ring : EventRing) (t : ChanTable maxChan)
    (eventQuota : ℕ) : Option (ℤ × PollSt maxChan) :=
  let s : PollSt maxChan := ⟨ring, 0, [], some (t, [])⟩
  if (env.pm 0).EventAccessInvalid then some (- EIO, s)
  else (dataLoop env fuel s (env.devRp 0) eventQuota).map fun s => (s.count, s)

/-- What `mhi_netdev_poll` returns when `mhi_poll` has returned `rxWork`, and whether it calls
`napi_complete`. -/
def mhiNetdevPoll (rxWork : ℤ) (budget : ℕ) : ℤ × Bool :=
  if rxWork < 0 then (0, true) else (rxWork, rxWork < budget)

/-- The position after `i` events. -/
def rpAt (ring : EventRing) (i : ℕ) : ℕ := (Ring.succ ring.cfg.elements)^[i] ring.rp

/-- The event there. -/
def eventAt (ring : EventRing) (i : ℕ) : Tre := env.slots i (rpAt ring i)

/-- The position of the modem as it was read last, when `i` events have been processed. -/
def lastRead (ring : EventRing) : ℕ → ℕ
  | 0 => env.devRp 0
  | i + 1 => if rpAt ring (i + 1) = lastRead ring i then env.devRp (i + 1) else lastRead ring i

/-- How many of the first `k` events report transfers. -/
def transfers (ring : EventRing) (k : ℕ) : ℕ :=
  (List.range k).countP fun i => (eventAt env ring i).IsTransfer

/-- What the first `k` events do. -/
def effectOf (ring : EventRing) (t : ChanTable maxChan) (k : ℕ) : Effect maxChan :=
  (List.range k).foldl (fun effect i => parseEvent env i (eventAt env ring i) effect) (some (t, []))

/-- The events are processed in order from `rp` on, each once, `rp` moves by as many, the loop stops
only where it has caught up or has used up its quota, and the count is not above the quota, nor is
what `mhi_netdev_poll` returns. -/
structure PollRight (ring : EventRing) (t : ChanTable maxChan) (eventQuota : ℕ)
    (r : ℤ × PollSt maxChan) : Prop where
  inOrder : r.2.processed = (List.range r.2.count).map (eventAt env ring)
  effect : r.2.effect = effectOf env ring t r.2.count
  rp : r.2.ring.rp = rpAt ring r.2.count
  stops : ¬ (env.pm 0).EventAccessInvalid → r.1 = r.2.count
    ∧ (r.2.ring.rp = lastRead env ring r.2.count ∨ transfers env ring r.2.count = eventQuota)
  le_quota : r.1 ≤ eventQuota
  le_budget : (mhiNetdevPoll r.1 eventQuota).1 ≤ eventQuota

end Poll

end Mhi

end BananaWrt
