import Mathlib.Data.List.Basic
import Mathlib.Data.Int.Notation
import Mathlib.Data.Nat.Notation
import Mathlib.Algebra.Ring.Nat
import BananaWrt.Lib.Printf

/-!
# The monitor of the MHI bus

What is queued to the modem, received from it and completed is shown as text to whoever has `mhimon`
open. `mon_bus_submit`, `mon_bus_receive` and `mon_bus_complete` hand an event to each reader, which
keeps it in a list of its own; a read prints the first one to a buffer, copies as much of it as is
asked for, and leaves the rest of the text to the next reads.

The calls for one file are one after the other, as the kernel makes them. A read that would wait is
left out: it goes on when there is an event, or ends with an error and nothing done.
-/

namespace BananaWrt

namespace MhiMon

open Printf (Sink)

def EFAULT : ℤ := 14
def EWOULDBLOCK : ℤ := 11
def PAGE_SIZE : ℕ := 4096
def PRINTF_DFL : ℕ := 250

/-- The size of `data`, and that of `struct mon_event_text` on a 64-bit kernel. -/
def dataSize : ℕ := 32
def sizeofEvent : ℕ := 96

def EVENT_MAX : ℕ := 16 * PAGE_SIZE / sizeofEvent

inductive EvType where
  | submit
  | receive
  | complete
  deriving DecidableEq, Repr

def EvType.char : EvType → Char
  | .submit => 'W'
  | .receive => 'R'
  | .complete => 'E'

/-- `struct mon_event_text`. -/
structure Event where
  type : EvType
  tstamp : BitVec 32
  chan : BitVec 32
  wp : BitVec 64
  ptr : BitVec 64
  dword0 : BitVec 32
  dword1 : BitVec 32
  data : List (BitVec 8)
  data_le : data.length ≤ dataSize
  deriving DecidableEq

/-- What the functions of the bus are called with. `mon_bus_complete` has no `buf`. -/
structure Call where
  type : EvType
  chan : BitVec 32
  wp : BitVec 64
  ptr : BitVec 64
  dword0 : BitVec 32
  dword1 : BitVec 32
  buf : List (BitVec 8)
  deriving DecidableEq

/-- What `mon_text_submit`, `mon_text_receive` and `mon_text_complete` pass on. -/
def Call.bytes (c : Call) : List (BitVec 8) := if c.type = .complete then [] else c.buf

/-- What `mon_text_event` keeps of it. -/
def Call.event (c : Call) (tstamp : BitVec 32) : Event where
  type := c.type
  tstamp := tstamp
  chan := c.chan
  wp := c.wp
  ptr := c.ptr
  dword0 := c.dword0
  dword1 := c.dword1
  data := c.bytes.take dataSize
  data_le := List.length_take_le dataSize c.bytes

namespace Event

variable (e : Event)

/-- The first `snprintf`, with its conversions in order. -/
def headText : List Char :=
  Printf.number 10 0 e.tstamp.toNat ++ ' ' :: e.type.char :: ' ' ::
    (Printf.signed 3 e.chan.toInt ++ ' ' :: 'W' :: 'P' :: ':' ::
      (Printf.number 16 0 e.wp.toNat ++ ' ' :: 'T' :: 'R' :: 'E' :: ':' :: ' ' ::
        (Printf.number 16 0 e.ptr.toNat ++ ' ' ::
          (Printf.number 16 8 e.dword0.toNat ++ ' ' :: Printf.number 16 8 e.dword1.toNat))))

/-- Those of the loop, from byte `i` on. -/
def dataPieces : ℕ → List (BitVec 8) → List (List Char)
  | _, [] => []
  | i, b :: bs =>
    (if i % 4 = 0 then [[' ']] else []) ++ Printf.number 16 2 b.toNat :: dataPieces (i + 1) bs

def pieces : List (List Char) :=
  e.headText :: (if e.data.length ≠ 0 then dataPieces 0 e.data else []) ++ [['\n']]

/-- The buffer after the event has been printed. -/
def print : Sink := e.pieces.foldl (Sink.put PRINTF_DFL) (Sink.full [])

end Event

/-- `struct mon_reader_text`. -/
structure Reader where
  nevents : ℕ
  eList : List Event
  printfBuf : List Char
  leftSize : ℕ
  leftPos : ℕ
  deriving DecidableEq

/-- `kzalloc`. -/
def Reader.new : Reader := ⟨0, [], [], 0, 0⟩

namespace Reader

variable (rp : Reader)

/-- `mon_text_event`. `none` where the event is lost; `alloc` says whether there is memory. -/
def monTextEvent (e : Event) (alloc : Bool) : Option Reader :=
  if EVENT_MAX ≤ rp.nevents ∨ alloc = false then none
  else some { rp with nevents := rp.nevents + 1, eList := rp.eList ++ [e] }

/-- `mon_text_fetch`. -/
def monTextFetch : Option (Event × Reader) :=
  match rp.eList with
  | [] => none
  | e :: es => some (e, { rp with nevents := rp.nevents - 1, eList := es })

/-- The rest of what has been printed. -/
def readLeft (nbytes : ℕ) (fault : Bool) : Reader × Except ℤ (List Char) :=
  let cnt := min rp.leftSize nbytes
  if fault then (rp, .error (- EFAULT))
  else ({ rp with leftPos := rp.leftPos + cnt, leftSize := rp.leftSize - cnt },
    .ok ((rp.printfBuf.drop rp.leftPos).take cnt))

/-- The buffer has been printed to; what does not go out now is left for the next reads. -/
def keepRest (buf : Sink) (nbytes : ℕ) : Reader :=
  let rp := { rp with printfBuf := buf.text }
  if nbytes < buf.cnt then { rp with leftPos := nbytes, leftSize := buf.cnt - nbytes } else rp

/-- `mon_text_read_u` once it has got an event. -/
def readEvent (e : Event) (nbytes : ℕ) (fault : Bool) : Reader × Except ℤ (List Char) :=
  let buf := e.print
  let rp := rp.keepRest buf nbytes
  (rp, if fault then .error (- EFAULT) else .ok (rp.printfBuf.take (min buf.cnt nbytes)))

/-- `fault` is whether `copy_to_user` fails. -/
def monTextReadU (nbytes : ℕ) (fault : Bool) : Reader × Except ℤ (List Char) :=
  if rp.leftSize ≠ 0 then rp.readLeft nbytes fault
  else
    match rp.monTextFetch with
    | none => (rp, .error (- EWOULDBLOCK))
    | some (e, rp) => rp.readEvent e nbytes fault

end Reader

/-- A file that is open: its reader, and as a history the number of events on the bus before it was
opened, the events it has kept and how many it has lost, what the user has got, and whether a read
has failed that had taken an event. -/
structure File where
  fd : ℕ
  reader : Reader
  since : ℕ
  kept : List Event
  lost : ℕ
  got : List Char
  failed : Bool
  deriving DecidableEq

def File.new (fd since : ℕ) : File := ⟨fd, .new, since, [], 0, [], false⟩

/-- `rList` in order. `log` are the events that there have been, and `closedLost` is the number of
those that readers had lost which are closed. Each reader takes the time of an event itself: in
`log` it is 0. -/
structure St where
  nreaders : ℕ
  rList : List File
  cntEvents : BitVec 32
  cntTextLost : BitVec 32
  log : List Event
  closedLost : ℕ

def initial : St := ⟨0, [], 0, 0, [], 0⟩

namespace File

/-- `rnf_submit`, `rnf_receive`, `rnf_complete`, with `cnt_text_lost` of the bus. -/
def offer (f : File) (e : Event) (alloc : Bool) (cntTextLost : BitVec 32) : File × BitVec 32 :=
  match f.reader.monTextEvent e alloc with
  | none => ({ f with lost := f.lost + 1 }, cntTextLost + 1)
  | some rp => ({ f with reader := rp, kept := f.kept ++ [e] }, cntTextLost)

/-- A read has an event to take. -/
def Takes (f : File) : Prop := f.reader.leftSize = 0 ∧ f.reader.eList ≠ []

instance (f : File) : Decidable f.Takes := inferInstanceAs (Decidable (_ ∧ _))

def read (f : File) (nbytes : ℕ) (fault : Bool) : File :=
  match f.reader.monTextReadU nbytes fault with
  | (rp, .ok text) => { f with reader := rp, got := f.got ++ text }
  | (rp, .error _) => { f with reader := rp, failed := f.failed || decide f.Takes }

end File

/-- The loop over `r_list`. `tstamp i` and `alloc i` are for its entry `i`. -/
def offerAll (c : Call) (tstamp : ℕ → BitVec 32) (alloc : ℕ → Bool) :
    ℕ → List File → BitVec 32 → List File × BitVec 32
  | _, [], cnt => ([], cnt)
  | i, f :: fs, cnt =>
    let (f, cnt) := f.offer (c.event (tstamp i)) (alloc i) cnt
    let (fs, cnt) := offerAll c tstamp alloc (i + 1) fs cnt
    (f :: fs, cnt)

namespace St

variable (s : St)

/-- `mon_bus_submit`, `mon_bus_receive` and `mon_bus_complete`, with the test of `nreaders` that all
their callers make. -/
def monBus (c : Call) (tstamp : ℕ → BitVec 32) (alloc : ℕ → Bool) : St :=
  if s.nreaders = 0 then { s with log := s.log ++ [c.event 0] }
  else
    let (files, cnt) := offerAll c tstamp alloc 0 s.rList s.cntTextLost
    { s with
      rList := files
      cntEvents := s.cntEvents + 1
      cntTextLost := cnt
      log := s.log ++ [c.event 0] }

/-- `mon_text_open`, if all allocations succeed. -/
def monTextOpen (fd : ℕ) : St :=
  { s with nreaders := s.nreaders + 1, rList := s.rList ++ [File.new fd s.log.length] }

def monTextRelease (f : File) : St :=
  if s.nreaders = 0 then s
  else
    { s with
      nreaders := s.nreaders - 1
      rList := s.rList.filter fun f' => f'.fd ≠ f.fd
      closedLost := s.closedLost + f.lost }

end St

inductive Input where
  | bus (c : Call) (tstamp : ℕ → BitVec 32) (alloc : ℕ → Bool)
  | openFile (fd : ℕ)
  | release (fd : ℕ)
  | read (fd nbytes : ℕ) (fault : Bool)

/-- An open that fails changes nothing. No copy fails that copies nothing. -/
def step (s : St) : Input → Option St
  | .bus c tstamp alloc => some (s.monBus c tstamp alloc)
  | .openFile fd => if ∀ f ∈ s.rList, f.fd ≠ fd then some (s.monTextOpen fd) else none
  | .release fd => (s.rList.find? fun f => f.fd = fd).map s.monTextRelease
  | .read fd nbytes fault =>
    if (s.rList.any fun f => f.fd = fd) ∧ (fault = true → 0 < nbytes) then
      some { s with rList := s.rList.map fun f => if f.fd = fd then f.read nbytes fault else f }
    else none

/-- An event, whatever its time. -/
def Event.untimed (e : Event) : Event := { e with tstamp := 0 }

/-- An event as a line. -/
def Event.line (e : Event) : List Char := e.pieces.flatten

def textOf (es : List Event) : List Char := es.flatMap Event.line

/-- What has been printed and not yet read. -/
def Reader.left (rp : Reader) : List Char := (rp.printfBuf.drop rp.leftPos).take rp.leftSize

/-- What a file has shown and has still to show. -/
def File.shown (f : File) : List Char := f.got ++ (f.reader.left ++ textOf f.reader.eList)

/-- A file has kept the events since it was opened in order, but for those that it has counted as
lost, and has at most `EVENT_MAX` of them to show yet. Unless a read has failed that had taken an
event, what it has shown, with what is left to show, is the text of the events kept and of no
others; else something is missing. -/
structure File.Right (f : File) (log : List Event) : Prop where
  kept : (f.kept.map Event.untimed).Sublist (log.drop f.since)
  lost : f.kept.length + f.lost = (log.drop f.since).length
  pending : f.reader.eList <:+ f.kept
  nevents : f.reader.nevents = f.reader.eList.length
  bounded : f.reader.nevents ≤ EVENT_MAX
  shown : f.failed = false → ∀ es, f.shown = textOf es ↔ es = f.kept
  missing : f.failed = true → f.shown ≠ textOf f.kept

/-- All files are right, and the counters of the bus. -/
structure Right (s : St) : Prop where
  files : ∀ f ∈ s.rList, f.Right s.log
  nreaders : s.nreaders = s.rList.length
  cntTextLost : s.cntTextLost = BitVec.ofNat 32 (s.closedLost + (s.rList.map File.lost).sum)

end MhiMon

end BananaWrt
