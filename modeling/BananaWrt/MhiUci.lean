import BananaWrt.Lib.Bytes
import BananaWrt.Lib.Ring
import BananaWrt.Lib.Run

/-!
# Receiving on a character device

A channel has one buffer more than its transfer ring takes. `mhi_dl_xfer_cb` is called for the
buffers in the order of their numbers, and hands a buffer to the reader, or, on some channels, a
copy of it. The buffer that is then queued is its predecessor: in the callback if a copy was made,
and otherwise by the call of `mhi_uci_read` that has read the buffer to its end. Such a call holds
`r_mutex`, and between its sections under the lock of the channel buffers may complete. The modem
writes to the buffers that are queued.
-/

namespace BananaWrt

namespace Uci

def EIO : ℤ := 5
def EAGAIN : ℤ := 11
def ENOMEM : ℤ := 12
def EINVAL : ℤ := 22
def ENOTCONN : ℤ := 107
def ERESTARTSYS : ℤ := 512

/-- `nrFree` is what `mhi_get_no_free_descriptors` returns for the empty ring. `copies` says that
the channel is DUN, QMI or MBIM, and `mem` what the pages hold at first. -/
structure Cfg where
  nrFree : ℕ
  mtu : ℕ
  copies : Bool
  mem : ℕ → Bytes
  nrFree_pos : 0 < nrFree
  length_mem : ∀ i, (mem i).length = mtu

variable (c : Cfg)

def Cfg.nrTrbs : ℕ := c.nrFree + 1

/-- The number of the buffer before. -/
def Cfg.prevTrb (nrTrb : ℕ) : ℕ := if nrTrb ≠ 0 then nrTrb - 1 else c.nrTrbs - 1

/-- An element of `pending`: the buffer with that number, or a copy, which has no page. -/
inductive UciBuf where
  | page (nrTrb : ℕ)
  | copy (data : Bytes)
  deriving DecidableEq, Repr

/-- What `mhi_uci_read` does next: it waits for data, takes a buffer, copies from it to the user, or
is done with what it has copied. -/
inductive ReadAt where
  | waiting (count : ℕ)
  | woken (count : ℕ)
  | copying (count : ℕ)
  | copied (data : Bytes)
  deriving DecidableEq, Repr

/-- `mem` and `len` are those of `uci_buf`, `ring` the buffers that are queued. `completed` has what
the modem has received, `reads` what the calls have returned. -/
structure UciDev where
  mem : ℕ → Bytes
  len : ℕ → ℕ
  ring : List ℕ
  nrTrb : ℕ
  rxError : ℕ
  pending : List UciBuf
  curBuf : Option UciBuf
  rxSize : ℕ
  reader : Option ReadAt
  completed : List Bytes
  reads : List (Except ℤ Bytes)

namespace UciDev

variable (s : UciDev)

def dataOf : UciBuf → Bytes
  | .page nrTrb => s.mem nrTrb
  | .copy data => data

def lenOf : UciBuf → ℕ
  | .page nrTrb => s.len nrTrb
  | .copy data => data.length

/-- The call returns. -/
def ret (r : Except ℤ Bytes) : UciDev := { s with reader := none, reads := s.reads ++ [r] }

end UciDev

/-- `mhi_queue_transfer`, which fails when the ring is full. -/
def queueTransfer (ring : List ℕ) (nrTrb : ℕ) : Option (List ℕ) :=
  if ring.length < c.nrFree then some (ring ++ [nrTrb]) else none

/-- The loop of `mhi_queue_inbound`. -/
def mhiQueueInbound : Option (List ℕ) := (List.range c.nrFree).foldlM (queueTransfer c) []

/-- After `mhi_uci_open`, see `mhiQueueInbound_eq`. -/
def start : UciDev where
  mem := c.mem
  len := fun _ => 0
  ring := List.range c.nrFree
  nrTrb := 0
  rxError := 0
  pending := []
  curBuf := none
  rxSize := 0
  reader := none
  completed := []
  reads := []

/-- The part under the lock. A reader is open, so that a copy is made. -/
def receive (s : UciDev) (nrTrb bytesXferd : ℕ) : UciDev :=
  let s := { s with len := Function.update s.len nrTrb bytesXferd }
  if c.copies then
    { s with
      ring := (queueTransfer c s.ring (c.prevTrb nrTrb)).getD s.ring
      pending := s.pending ++ [.copy ((s.mem nrTrb).take bytesXferd)] }
  else { s with pending := s.pending ++ [.page nrTrb] }

/-- `bufAddr` is the number of the buffer that was queued. -/
def mhiDlXferCb (s : UciDev) (bufAddr : ℕ) (transactionStatus : ℤ) (bytesXferd : ℕ) : UciDev :=
  if bufAddr ≠ s.nrTrb then { s with rxError := s.rxError + 1 }
  else
    let nrTrb := s.nrTrb
    let s := { s with nrTrb := if nrTrb + 1 = c.nrTrbs then 0 else nrTrb + 1 }
    if transactionStatus = - ENOTCONN then s
    else if c.mtu < bytesXferd ∨ bytesXferd = 0 then s
    else receive c s nrTrb bytesXferd

/-- The part of the first section that takes the next buffer. -/
def takeBuf (s : UciDev) (count : ℕ) : UciDev :=
  match s.curBuf, s.pending with
  | some _, _ => { s with reader := some (.copying count) }
  | none, [] => s.ret (.error (- EIO))
  | none, b :: pending =>
    { s with
      pending := pending
      curBuf := some b
      rxSize := s.lenOf b
      reader := some (.copying count) }

def readStart (s : UciDev) (count : ℕ) (nonblock : Bool) : UciDev :=
  if s.rxError ≠ 0 then s.ret (.error (- EINVAL))
  else if s.curBuf = none ∧ s.pending = [] then
    if nonblock then s.ret (.error (- EAGAIN)) else { s with reader := some (.waiting count) }
  else takeBuf s count

/-- `copy_to_user`, from the current buffer. -/
def copyToUser (s : UciDev) (b : UciBuf) (count : ℕ) : UciDev :=
  let toCopy := min count s.rxSize
  { s with
    rxSize := s.rxSize - toCopy
    reader := some (.copied (((s.dataOf b).drop (s.lenOf b - s.rxSize)).take toCopy)) }

/-- The section after it, with the current buffer. -/
def recycle (s : UciDev) (b : UciBuf) (data : Bytes) : UciDev :=
  if s.rxSize ≠ 0 then s.ret (.ok data)
  else
    let s := { s with curBuf := none }
    match b with
    | .copy _ => s.ret (.ok data)
    | .page nrTrb =>
      match queueTransfer c s.ring (c.prevTrb nrTrb) with
      | some ring => { s with ring := ring }.ret (.ok data)
      | none => s.ret (.error (- ENOMEM))

/-- `dma` is a write of the modem to the `k`-th buffer that is queued, `complete` the completion of
the first one. `read` starts a call, `signal` interrupts one that waits, and the others are its
sections. -/
inductive Input where
  | dma (k : ℕ) (data : Bytes)
  | complete (transactionStatus : ℤ) (bytesXferd : ℕ)
  | read (count : ℕ) (nonblock : Bool)
  | signal
  | wake
  | take
  | copy
  | finish

def step (s : UciDev) : Input → Option UciDev
  | .dma k data =>
    match s.ring[k]? with
    | some b =>
      if data.length = c.mtu then some { s with mem := Function.update s.mem b data } else none
    | none => none
  | .complete transactionStatus bytesXferd =>
    match s.ring with
    | b :: ring =>
      some (mhiDlXferCb c
        { s with ring := ring, completed := s.completed ++ [(s.mem b).take bytesXferd] }
        b transactionStatus bytesXferd)
    | [] => none
  | .read count nonblock => if s.reader = none then some (readStart s count nonblock) else none
  | .signal =>
    match s.reader with
    | some (.waiting _) => if s.pending = [] then some (s.ret (.error (- ERESTARTSYS))) else none
    | _ => none
  | .wake =>
    match s.reader with
    | some (.waiting count) =>
      if s.pending = [] then none else some { s with reader := some (.woken count) }
    | _ => none
  | .take =>
    match s.reader with
    | some (.woken count) => some (takeBuf s count)
    | _ => none
  | .copy =>
    match s.reader, s.curBuf with
    | some (.copying count), some b => some (copyToUser s b count)
    | _, _ => none
  | .finish =>
    match s.reader, s.curBuf with
    | some (.copied data), some b => some (recycle c s b data)
    | _, _ => none

/-- The modem completes buffers with status 0 and a length from 1 to `mtu`. -/
def CompletesWell : Input → Prop
  | .complete transactionStatus bytesXferd =>
    transactionStatus = 0 ∧ 1 ≤ bytesXferd ∧ bytesXferd ≤ c.mtu
  | _ => True

/-- The bytes that a call has returned. -/
def bytesOf : Except ℤ Bytes → Bytes
  | .ok data => data
  | .error _ => []

def UciDev.returned (s : UciDev) : Bytes := (s.reads.map bytesOf).flatten

/-- The buffers that the reader has not read to their end. -/
def UciDev.bufs (s : UciDev) : List UciBuf := s.curBuf.toList ++ s.pending

structure UciDev.Right (s : UciDev) : Prop where
  inOrder : s.returned <+: s.completed.flatten
  caughtUp : s.returned = s.completed.flatten → s.pending = [] ∧ s.curBuf = none
  queuedOnce : s.ring.Nodup
  queuedRead : ∀ nrTrb ∈ s.ring, .page nrTrb ∉ s.bufs
  rxError : s.rxError = 0

end Uci

end BananaWrt
