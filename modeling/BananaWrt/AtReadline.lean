import BananaWrt.Lib.Bytes
import BananaWrt.Lib.Framing
import BananaWrt.Lib.Run

/-!
# Reading lines off the AT channel

`readline` in `atchannel.c` gives out what the modem sends line by line. What was read and not given
out stands in `cm_recv_buf` from `s_ATBufferCur` on, with a NUL behind it. A step is a call of
`readline` up to where it returns or calls `read`, or what `read` gives up to the next such point.
-/

namespace BananaWrt

namespace AtReadline

open Bytes

/-- `sizeof(cm_recv_buf)` -/
def MAX_AT_RESPONSE : ℕ := 4096

/-- `cur` is `s_ATBufferCur`, `pRead` the end of what was read, where `p_read` points, and `reading`
says that `readline` is in `read`. `outside` says that a byte that is not in the buffer was written
or looked at. `reads` is what `read` has given so far and `lines` what `readline` has returned. -/
structure State where
  buffer : Bytes
  cur : ℕ
  pRead : ℕ
  reading : Bool
  outside : Bool
  reads : List Bytes
  lines : List Bytes
  deriving DecidableEq, Repr

def State.init : State := ⟨List.replicate MAX_AT_RESPONSE 0, 0, 0, false, false, [], []⟩

def isNewline (b : UInt8) : Bool := b = 0x0D ∨ b = 0x0A

/-- The prompt for the text of a short message. -/
def prompt : Bytes := [0x3E, 0x20]

/-! These functions take what is in the buffer from a place on; they have no result where a loop
runs out of the buffer. -/

/-- How many leading newlines are skipped. -/
def skipNewlines : Bytes → Option ℕ
  | [] => none
  | b :: rest => if isNewline b then (skipNewlines rest).map (· + 1) else some 0

def findNewline : Bytes → Option (Option ℕ)
  | [] => none
  | b :: rest =>
    if b = 0 then some none
    else if isNewline b then some (some 0)
    else (findNewline rest).map (·.map (· + 1))

/-- `findNextEOL`, as the distance from the cursor. -/
def findNextEOL (cur : Bytes) : Option (Option ℕ) :=
  if cur.take 3 = prompt ++ [0] then some (some 2) else findNewline cur

/-- How many newlines are skipped, and where behind them the line ends. -/
def search (cur : Bytes) : Option (ℕ × Option ℕ) :=
  (skipNewlines cur).bind fun k => (findNextEOL (cur.drop k)).map fun eol => (k, eol)

/-- The line that ends at `eol` is returned. -/
def State.finish (s : State) (eol : ℕ) : State :=
  { s with
    buffer := s.buffer.set (s.cur + eol) 0
    cur := s.cur + eol + 1
    reading := false
    lines := s.lines ++ [(s.buffer.drop s.cur).take eol] }

/-- A partial line is moved to the front. -/
def State.moveUp (s : State) : State :=
  let len := ((s.buffer.drop s.cur).takeWhile (· ≠ 0)).length
  { s with
    buffer := write s.buffer 0 ((s.buffer.drop s.cur).take (len + 1))
    cur := 0
    pRead := len
    reading := true }

/-- `readline` up to its loop, and to its end if there is a line in the buffer. -/
def State.call (s : State) : State :=
  match s.buffer.drop s.cur with
  | [] => { s with outside := true }
  | b :: rest =>
    if b = 0 then { s with buffer := s.buffer.set 0 0, cur := 0, pRead := 0, reading := true }
    else
      match search (b :: rest) with
      | none => { s with outside := true }
      | some (k, none) => { s with cur := s.cur + k }.moveUp
      | some (k, some eol) => { s with cur := s.cur + k }.finish eol

/-- A full buffer without a line end is given up. -/
def State.ditch (s : State) : State :=
  if MAX_AT_RESPONSE - s.pRead = 0 then { s with buffer := s.buffer.set 0 0, cur := 0, pRead := 0 }
  else s

/-- How many bytes `read` is asked for. -/
def State.room (s : State) : ℕ := MAX_AT_RESPONSE - s.ditch.pRead

/-- What `read` gives is put into the buffer, with a NUL behind it. -/
def State.load (s : State) (bytes : Bytes) : State :=
  let s := s.ditch
  { s with
    buffer := write s.buffer s.pRead (bytes ++ [0])
    pRead := s.pRead + bytes.length
    outside := MAX_AT_RESPONSE ≤ s.pRead + bytes.length
    reads := s.reads ++ [bytes] }

/-- The loop of `readline` from one `read` to the next. -/
def State.read (s : State) (bytes : Bytes) : State :=
  let s := s.load bytes
  if s.outside then s
  else
    match search (s.buffer.drop s.cur) with
    | none => { s with outside := true }
    | some (k, none) => { s with cur := s.cur + k }
    | some (k, some eol) => { s with cur := s.cur + k }.finish eol

inductive Input where
  | call
  /-- `read` gives these bytes. -/
  | read (bytes : Bytes)
  /-- `read` gives nothing or an error, and `readline` returns `NULL`. -/
  | fail
  deriving DecidableEq, Repr

/-- Once something outside the buffer was touched there is nothing to say. -/
def step (s : State) (i : Input) : Option State :=
  if s.outside then none
  else
    match i with
    | .call => if s.reading then none else some s.call
    | .read bytes =>
      if s.reading ∧ bytes ≠ [] ∧ bytes.length ≤ s.room then some (s.read bytes) else none
    | .fail => if s.reading then some { s with reading := false } else none

abbrev exec : State → List Input → Option State := Runs.exec step

abbrev linesOf (stream : Bytes) : List Bytes := Framing.lines isNewline prompt [] stream

/-- If no byte is a NUL and prompts come at the end of what `read` gives only, then no line is
returned but those of the stream, in their order, and all of them before the next `read`. -/
def Framed (s : State) : Prop :=
  (∀ bytes ∈ s.reads, 0 ∉ bytes) → Framing.PromptsLast isNewline prompt [] s.reads →
    s.lines <+: linesOf s.reads.flatten ∧ (s.reading → s.lines = linesOf s.reads.flatten)

structure Right (s : State) : Prop where
  inside : s.outside = false
  cursor : s.cur ≤ s.pRead
  framed : Framed s

/-- What was read and not given out. -/
def State.data (s : State) : Bytes := (s.buffer.drop s.cur).take (s.pRead - s.cur)

/-- The prompt is all there is. -/
def State.Prompted (s : State) : Prop := s.data.dropWhile isNewline = prompt

instance (s : State) : Decidable s.Prompted := inferInstanceAs (Decidable (_ = _))

/-- Behind the NUL there is another one, or newlines up to the next. -/
def State.Clean (s : State) : Prop :=
  ((s.buffer.drop (s.pRead + 1)).dropWhile isNewline).head? = some 0

instance (s : State) : Decidable s.Clean := inferInstanceAs (Decidable (_ = _))

/-- There is room for the NUL, and no prompt. -/
def Calm (s : State) : Input → Prop
  | .call => ¬ s.Prompted
  | .read bytes => bytes.length < s.room ∧ ¬ (s.load bytes).Prompted
  | .fail => True

/-- There is room for the NUL, and nothing is left in the buffer behind a prompt. -/
def Tidy (s : State) : Input → Prop
  | .call => s.Prompted → s.Clean
  | .read bytes => bytes.length < s.room ∧ ((s.load bytes).Prompted → (s.load bytes).Clean)
  | .fail => True

instance (s : State) : DecidablePred (Tidy s)
  | .call => inferInstanceAs (Decidable (_ → _))
  | .read _ => inferInstanceAs (Decidable (_ ∧ _))
  | .fail => inferInstanceAs (Decidable True)

end AtReadline

end BananaWrt
