import BananaWrt.Lib.Run
import Mathlib.Algebra.Group.Int.Defs
import Mathlib.Logic.Function.Basic

/-!
# The DTR control channel of MHI

`mhi_dtr_tiocmset` tells the modem of the lines DTR and RTS of a device by a message on the control
channel, and waits for the completion that `mhi_dtr_ul_xfer_cb` signals. It holds the mutex of the
channel meanwhile and frees the message at its end, also when the wait has timed out. All calls wait
for the one completion of the channel. `mhi_dtr_dl_xfer_cb` takes over the lines that the modem
tells of, and queues the buffer again.

A step is a section of a call, or the completion of the first message of the uplink ring or of an
inbound buffer, which may come between sections.
-/

namespace BananaWrt

namespace MhiDtr

def EIO : ℤ := 5
def ENOMEM : ℤ := 12
def ENOTCONN : ℤ := 107

def TIOCM_DTR : BitVec 32 := 0x002
def TIOCM_RTS : BitVec 32 := 0x004
def TIOCM_CD : BitVec 32 := 0x040
def TIOCM_RI : BitVec 32 := 0x080
def TIOCM_DSR : BitVec 32 := 0x100

/-- The lines of the host, and those of the modem. -/
def hostLines : BitVec 32 := TIOCM_DTR ||| TIOCM_RTS

def modemLines : BitVec 32 := TIOCM_CD ||| TIOCM_DSR ||| TIOCM_RI

def CTRL_MAGIC : BitVec 32 := 0x4C525443
def CTRL_MSG_DTR : BitVec 32 := 1
def CTRL_MSG_RTS : BitVec 32 := 2
def CTRL_MSG_DCD : BitVec 32 := 1
def CTRL_MSG_DSR : BitVec 32 := 2
def CTRL_MSG_RI : BitVec 32 := 8
def CTRL_HOST_STATE : BitVec 32 := 0x10

/-- `struct dtr_ctrl_msg`. -/
structure DtrCtrlMsg where
  preamble : BitVec 32
  msgId : BitVec 32
  destId : BitVec 32
  size : BitVec 32
  msg : BitVec 32
  deriving DecidableEq, Repr

def sizeofDtrCtrlMsg : ℕ := 20

/-- `CTRL_GET_CHID`. -/
def DtrCtrlMsg.chid (msg : DtrCtrlMsg) : ℕ := (msg.destId &&& 0xFF).toNat

/-- `mhiDev` is `mhi_chan[chan].mhi_dev`. -/
structure Cfg where
  maxChan : ℕ
  ulChanId : ℕ → BitVec 32
  mhiDev : ℕ → Option ℕ

/-- The message for a device. -/
def hostMsg (destId tiocm : BitVec 32) : DtrCtrlMsg where
  preamble := CTRL_MAGIC
  msgId := CTRL_HOST_STATE
  destId := destId
  size := 4
  msg := (if tiocm &&& TIOCM_DTR ≠ 0 then CTRL_MSG_DTR else 0)
    ||| (if tiocm &&& TIOCM_RTS ≠ 0 then CTRL_MSG_RTS else 0)

/-- What a call asks for, `tiocm` having the lines of the host only. -/
structure Request where
  dev : ℕ
  tiocm : BitVec 32
  deriving DecidableEq, Repr

/-- A buffer, the how manyth that was allocated, and what is in it. -/
structure Msg where
  serial : ℕ
  ctrl : DtrCtrlMsg
  deriving DecidableEq, Repr

/-- Where the call is that has the mutex: it has taken it; it has re-armed the completion; its
message is queued and it waits; the wait has ended by the completion, or by its time. -/
inductive Call where
  | locked (req : Request)
  | armed (req : Request) (msg : Msg)
  | waiting (req : Request) (msg : Msg)
  | woken (req : Request) (msg : Msg)
  | timedOut (req : Request) (msg : Msg)
  deriving DecidableEq, Repr

/-- A call that has returned: what it has asked for, the message that it has queued, if any, and
`ret`. -/
structure Returned where
  req : Request
  sent : Option ℕ
  ret : ℤ
  deriving DecidableEq, Repr

/-- `uplink` is the uplink ring, `inbound` the number of buffers on the downlink ring, and
`completion` how often the completion has been signalled. `transferred` and `freed` are messages. -/
structure DtrSt where
  tiocm : ℕ → BitVec 32
  waiting : List Request
  call : Option Call
  completion : ℕ
  next : ℕ
  uplink : List Msg
  transferred : List ℕ
  freed : List ℕ
  returned : List Returned
  inbound : ℕ

def start (tiocm : ℕ → BitVec 32) (inbound : ℕ) : DtrSt where
  tiocm := tiocm
  waiting := []
  call := none
  completion := 0
  next := 0
  uplink := []
  transferred := []
  freed := []
  returned := []
  inbound := inbound

namespace DtrSt

variable (s : DtrSt)

/-- The label `tiocm_exit`. -/
def exit (req : Request) (buf sent : Option ℕ) (ret : ℤ) : DtrSt :=
  { s with
    call := none
    freed := s.freed ++ buf.toList
    returned := s.returned ++ [⟨req, sent, ret⟩] }

/-- The part of `mhi_dtr_tiocmset` before it takes the mutex. -/
def mhiDtrTiocmset (dev : ℕ) (tiocm : BitVec 32) : DtrSt :=
  let curTiocm := s.tiocm dev &&& ~~~ modemLines
  let tiocm := tiocm &&& hostLines
  if curTiocm = tiocm then { s with returned := s.returned ++ [⟨⟨dev, tiocm⟩, none, 0⟩] }
  else { s with waiting := s.waiting ++ [⟨dev, tiocm⟩] }

/-- The lines are taken on. -/
def setLines (req : Request) : DtrSt :=
  { s with
    tiocm := Function.update s.tiocm req.dev (s.tiocm req.dev &&& ~~~ hostLines ||| req.tiocm) }

/-- `mhi_dtr_ul_xfer_cb`. -/
def mhiDtrUlXferCb (msg : Msg) (transactionStatus : ℤ) : DtrSt :=
  if transactionStatus = 0 then
    { s with completion := s.completion + 1, transferred := s.transferred ++ [msg.serial] }
  else s

end DtrSt

/-- The lines of the modem in a message. -/
def DtrCtrlMsg.lines (msg : DtrCtrlMsg) : BitVec 32 :=
  (if msg.msg &&& CTRL_MSG_DCD ≠ 0 then TIOCM_CD else 0)
    ||| (if msg.msg &&& CTRL_MSG_DSR ≠ 0 then TIOCM_DSR else 0)
    ||| (if msg.msg &&& CTRL_MSG_RI ≠ 0 then TIOCM_RI else 0)

variable (cfg : Cfg)

/-- `mhi_dtr_dl_xfer_cb`; `requeued` says whether `mhi_queue_transfer` succeeds. -/
def mhiDtrDlXferCb (s : DtrSt) (transactionStatus : ℤ) (bytesXferd : ℕ) (msg : DtrCtrlMsg)
    (requeued : Bool) : DtrSt :=
  if transactionStatus = - ENOTCONN then s
  else if bytesXferd ≠ sizeofDtrCtrlMsg then s
  else
    let s :=
      if cfg.maxChan ≤ msg.chid then s
      else
        match cfg.mhiDev msg.chid with
        | none => s
        | some dev =>
          { s with
            tiocm := Function.update s.tiocm dev (s.tiocm dev &&& ~~~ modemLines ||| msg.lines) }
    if requeued then { s with inbound := s.inbound + 1 } else s

/-- What `mhi_queue_transfer` returns. -/
inductive Queued where
  | ok
  | eio
  | enomem
  deriving DecidableEq, Repr

def Queued.ret : Queued → ℤ
  | ok => 0
  | eio => - EIO
  | enomem => - ENOMEM

/-- `tiocmset` starts a call, and `lock` is the mutex for the `k`-th that waits for it. The call
that has the mutex allocates its message and re-arms the completion (`arm`), queues the message,
waits until it is woken or its time is over, and comes to its end (`finish`). `ulDone` is the
completion of the first message of the uplink ring, and `dlDone` that of an inbound buffer. -/
inductive Input where
  | tiocmset (dev : ℕ) (tiocm : BitVec 32)
  | lock (k : ℕ)
  | arm (allocated : Bool)
  | queue (queued : Queued)
  | wake
  | timeout
  | finish
  | ulDone (transactionStatus : ℤ)
  | dlDone (transactionStatus : ℤ) (bytesXferd : ℕ) (msg : DtrCtrlMsg) (requeued : Bool)

def step (s : DtrSt) : Input → Option DtrSt
  | .tiocmset dev tiocm => some (s.mhiDtrTiocmset dev tiocm)
  | .lock k =>
    match s.call, s.waiting[k]? with
    | none, some req => some { s with waiting := s.waiting.eraseIdx k, call := some (.locked req) }
    | _, _ => none
  | .arm allocated =>
    match s.call with
    | some (.locked req) =>
      if allocated then
        let msg : Msg := ⟨s.next, hostMsg (cfg.ulChanId req.dev) req.tiocm⟩
        some { s with next := s.next + 1, completion := 0, call := some (.armed req msg) }
      else some (s.exit req none none (- ENOMEM))
    | _ => none
  | .queue queued =>
    match s.call with
    | some (.armed req msg) =>
      if queued.ret ≠ 0 then some (s.exit req (some msg.serial) none queued.ret)
      else some { s with uplink := s.uplink ++ [msg], call := some (.waiting req msg) }
    | _ => none
  | .wake =>
    match s.call with
    | some (.waiting req msg) =>
      if s.completion = 0 then none
      else some { s with completion := s.completion - 1, call := some (.woken req msg) }
    | _ => none
  | .timeout =>
    match s.call with
    | some (.waiting req msg) =>
      if s.completion = 0 then some { s with call := some (.timedOut req msg) } else none
    | _ => none
  | .finish =>
    match s.call with
    | some (.woken req msg) =>
      some ((s.setLines req).exit req (some msg.serial) (some msg.serial) 0)
    | some (.timedOut req msg) => some (s.exit req (some msg.serial) (some msg.serial) (- EIO))
    | _ => none
  | .ulDone transactionStatus =>
    match s.uplink with
    | msg :: uplink => some ({ s with uplink := uplink }.mhiDtrUlXferCb msg transactionStatus)
    | [] => none
  | .dlDone transactionStatus bytesXferd msg requeued =>
    if s.inbound = 0 then none
    else
      some (mhiDtrDlXferCb cfg { s with inbound := s.inbound - 1 } transactionStatus bytesXferd msg
        requeued)

/-- The completion is that of a connected channel. -/
def Input.Connected : Input → Prop
  | .dlDone transactionStatus _ _ _ => transactionStatus ≠ - ENOTCONN
  | _ => False

/-- A step is right: a call that returns 0 after it has queued a message, and one that sets lines of
the host, has had that message transferred; no message that is on the ring has been freed; and a
completion of a connected channel leaves as many inbound buffers queued as there were. -/
structure Right (s : DtrSt) (i : Input) (s' : DtrSt) : Prop where
  returned : ∀ r ∈ s'.returned, r.ret = 0 → ∀ msg ∈ r.sent, msg ∈ s'.transferred
  lines : ∀ dev, s'.tiocm dev &&& hostLines ≠ s.tiocm dev &&& hostLines →
    ∃ req msg, s.call = some (.woken req msg) ∧ req.dev = dev ∧ msg.serial ∈ s.transferred
      ∧ s'.tiocm dev &&& hostLines = req.tiocm
  freed : ∀ msg ∈ s'.uplink, msg.serial ∉ s'.freed
  inbound : i.Connected → s'.inbound = s.inbound

/-- No call whose time is over goes on while its message is on the ring, and every inbound message
of a connected channel has the size of a message and is queued again. -/
def InTime (s : DtrSt) : Input → Prop
  | .finish => ∀ req msg, s.call = some (.timedOut req msg) → msg ∉ s.uplink
  | .dlDone transactionStatus bytesXferd _ requeued =>
    transactionStatus ≠ - ENOTCONN → bytesXferd = sizeofDtrCtrlMsg ∧ requeued
  | _ => True

end MhiDtr

end BananaWrt
