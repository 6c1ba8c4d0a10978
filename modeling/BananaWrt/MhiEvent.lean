import BananaWrt.MhiXfer

/-!
# Transfer events of MHI

What `mhi_process_data_event_ring` and `mhi_process_ctrl_ev_ring` do with one record of an event
ring that reports transfers. All of the record is what the modem has put there. The driver indexes
`mhi_chan`, and the ring of buffers, by it without a check; here that is `none` where the index is
out of bounds.

While `parse_xfer_event` is in its loop, `xfer_cb` and other contexts may queue buffers on the
channel; `cb k` are those that they queue in the iteration `k`.
-/

namespace BananaWrt

namespace Mhi

/-- `struct mhi_tre`. -/
structure Tre where
  ptr : BitVec 64
  dword0 : BitVec 32
  dword1 : BitVec 32
  deriving DecidableEq, Repr

namespace Tre

variable (event : Tre)

/-- `MHI_TRE_GET_EV_CODE`. -/
def evCode : ℕ := ((event.dword0 >>> 24) &&& 0xFF).toNat

def evLen : ℕ := (event.dword0 &&& 0xFFFF).toNat

def evChid : ℕ := ((event.dword1 >>> 24) &&& 0xFF).toNat

def evType : ℕ := ((event.dword1 >>> 16) &&& 0xFF).toNat

/-- The lower 32 bits of the pointer. -/
def evCookie : ℕ := (event.ptr.setWidth 32).toNat

def MHI_PKT_TYPE_TX_EVENT : ℕ := 0x22
def MHI_PKT_TYPE_RSC_TX_EVENT : ℕ := 0x28

/-- A record that reports transfers. -/
def IsTransfer : Prop :=
  event.evType = MHI_PKT_TYPE_TX_EVENT ∨ event.evType = MHI_PKT_TYPE_RSC_TX_EVENT

instance : Decidable event.IsTransfer := inferInstanceAs (Decidable (_ ∨ _))

end Tre

/-- `sizeof(struct mhi_buf_info)`. -/
def sizeofBufInfo : ℕ := 56

/-- A call of `xfer_cb`: whether the buffer had been queued and not been handed over yet, the length
it was queued with, and `bytes_xferd`. -/
structure XferCall where
  outstanding : Bool
  len : ℕ
  bytesXferd : ℕ
  deriving DecidableEq, Repr

/-- The buffer is outstanding, and `bytes_xferd` is not more than its length. -/
def XferCall.Good (call : XferCall) : Prop := call.outstanding ∧ call.bytesXferd ≤ call.len

instance (call : XferCall) : Decidable call.Good := inferInstanceAs (Decidable (_ ∧ _))

namespace Chan

variable (c : Chan)

/-- Buffers are queued one after another; those that find the ring full are refused. -/
def queued (bufs : List BufInfo) : Chan :=
  bufs.foldl (fun c buf => if c.Full then c else (c.fill buf.cbBuf buf.len).add) c

/-- The loop of `parse_xfer_event`, from its iteration `k`: `none` if it has not come to an end
after `fuel` of its tests. -/
def xferLoop (cb : ℕ → List BufInfo) (devRp len : ℕ) : ℕ → ℕ → Chan → Option (Chan × List XferCall)
  | 0, _, _ => none
  | fuel + 1, k, c =>
    if c.cfg.addr c.trp = devRp then some (c, [])
    else
      let call : XferCall :=
        ⟨decide (c.trp ≠ c.twp ∧ c.brp ≠ c.bwp), (c.slots c.brp).len, len⟩
      (xferLoop cb devRp len fuel (k + 1) ((c.handOver len).queued (cb k))).map fun r =>
        (r.1, call :: r.2)

/-- `parse_xfer_event`. -/
def parseXferEvent (pm : PmState) (cb : ℕ → List BufInfo) (fuel : ℕ) (event : Tre) :
    Option (Chan × List XferCall) :=
  if ¬ c.enabled then some (c, [])
  else if event.evCode ∈ [St.MHI_EV_CC_OVERFLOW, St.MHI_EV_CC_EOB, St.MHI_EV_CC_EOT] then
    xferLoop cb (c.cfg.devRp event.ptr.toNat) event.evLen fuel 0 c
  else if event.evCode ∈ [St.MHI_EV_CC_OOB, St.MHI_EV_CC_DB_MODE] then
    let c := { c with dbMode := true }
    some (if c.twp ≠ c.trp then c.ringIf pm else c, [])
  else some (c, [])

/-- The position of the element of `buf_ring` at the offset `cookie`, if one starts there. -/
def bufAt (cookie : ℕ) : Option ℕ :=
  if sizeofBufInfo ∣ cookie then some (cookie / sizeofBufInfo) else none

/-- The position is between `rp` and `wp`. -/
def OnRing (i : ℕ) : Prop :=
  ∃ j < Ring.used c.cfg.elements c.brp c.bwp, i = Ring.pos c.cfg.elements c.brp j

instance (i : ℕ) : Decidable (c.OnRing i) := inferInstanceAs (Decidable (∃ _ < _, _))

/-- `parse_rsc_event`. It reads the `mhi_buf_info` before it looks at the state of the channel, and
takes an element off `tre_ring` alone. -/
def parseRscEvent (event : Tre) : Option (Chan × List XferCall) :=
  if sizeofBufInfo * c.cfg.elements < event.evCookie + sizeofBufInfo then none
  else if ¬ c.enabled then some (c, [])
  else
    let call : XferCall :=
      match bufAt event.evCookie with
      | some i => ⟨decide (c.OnRing i), (c.slots i).len, event.evLen⟩
      | none => ⟨false, 0, event.evLen⟩
    some ({ c with trp := Ring.succ c.cfg.elements c.trp }, [call])

end Chan

/-- `mhi_chan`. An entry without rings is `none`: it has never been started, or been closed. -/
abbrev ChanTable (maxChan : ℕ) : Type := Fin maxChan → Option Chan

section Process

variable {maxChan : ℕ} (pm : PmState) (cb : ℕ → List BufInfo) (fuel : ℕ)

/-- The channel of a record, and what parses the record. -/
def processTransfer (t : ChanTable maxChan) (event : Tre) :
    Option (ChanTable maxChan × List XferCall) :=
  if h : event.evChid < maxChan then
    match t ⟨event.evChid, h⟩ with
    | none => if event.evType = Tre.MHI_PKT_TYPE_RSC_TX_EVENT then none else some (t, [])
    | some c =>
      let parsed :=
        if event.evType = Tre.MHI_PKT_TYPE_TX_EVENT then c.parseXferEvent pm cb fuel event
        else if event.evType = Tre.MHI_PKT_TYPE_RSC_TX_EVENT then c.parseRscEvent event
        else some (c, [])
      parsed.map fun r => (Function.update t ⟨event.evChid, h⟩ (some r.1), r.2)
  else none

/-- The two kinds of event rings. -/
inductive EvRing where
  | data
  | ctrl
  deriving DecidableEq, Repr

/-- The body of the loop of `mhi_process_data_event_ring`, which finds the channel for a record of
any type, and of `mhi_process_ctrl_ev_ring`, whose records of other types are left out. -/
def processRecord (ring : EvRing) (t : ChanTable maxChan) (event : Tre) :
    Option (ChanTable maxChan × List XferCall) :=
  match ring with
  | .data => processTransfer pm cb fuel t event
  | .ctrl => if event.IsTransfer then processTransfer pm cb fuel t event else some (t, [])

end Process

end Mhi

end BananaWrt
