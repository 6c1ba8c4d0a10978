import BananaWrt.Lib.Run
import BananaWrt.AtChannel

/-!
# The AT command pipeline

Any number of callers of `at_send_command` share the one pending command of `atchannel.c`. What the
reader does with a line, and what a caller does until it waits or returns, they do holding
`cm_command_mutex`; that is a step.
-/

namespace BananaWrt

namespace AtChannel

/-- What `processLine` does with a line: it hands it to the handler, takes it as the final response
or as an intermediate line, or answers it with what a prompt is waiting for. -/
inductive Effect where
  | unsolicited
  | finalResponse (success : Bool)
  | intermediate
  | rawData
  | smsPDU
  deriving DecidableEq, Repr

/-- `processLine`, as what it does in its order. -/
def Channel.effects (ch : Channel) (atcProxy : Bool) (line : Line) : List Effect :=
  match ch.response with
  | none => [.unsolicited]
  | some r =>
    let proxy := if atcProxy then [Effect.unsolicited] else []
    if ch.rawData.isSome ∧ line = "CONNECT".toList then [.rawData]
    else if isFinalResponseSuccess line then proxy ++ [.finalResponse true]
    else if isFinalResponseError line then proxy ++ [.finalResponse false]
    else if ch.smsPDU.isSome ∧ line = "> ".toList then [.smsPDU]
    else
      match ch.type with
      | .noResult => [.unsolicited]
      | .numeric =>
        if r.intermediates = [] ∧ line.head?.any Char.isDigit then [.intermediate]
        else [.unsolicited]
      | .singleLine =>
        if r.intermediates = [] ∧ strStartsWith line ch.responsePrefix then [.intermediate]
        else [.unsolicited]
      | .multiLine =>
        if strStartsWith line ch.responsePrefix then [.intermediate] else [.unsolicited]

/-- What the channel becomes. -/
def Channel.apply (line : Line) (ch : Channel) : Effect → Channel
  | .unsolicited => ch
  | .finalResponse success => ch.response.elim ch fun r => ch.handleFinalResponse r success line
  | .intermediate => ch.response.elim ch fun r => ch.addIntermediate r line
  | .rawData => { ch with rawData := none }
  | .smsPDU => { ch with smsPDU := none }

/-- What is done besides. -/
def Channel.action (ch : Channel) : List Effect → Action
  | .unsolicited :: _ => .unsolicited
  | .rawData :: _ => .writeRaw (ch.rawData.getD [])
  | .smsPDU :: _ => .writeCtrlZ (ch.smsPDU.getD [])
  | _ => .keep

/-- The caller gets the intermediate lines in the order in which they came. -/
def Response.reverseIntermediates (r : Response) : Response :=
  { r with intermediates := r.intermediates.reverse }

end AtChannel

namespace AtPipeline

open AtChannel

/-- What was done with a line, or the two lines of a short message, which the handler gets at
once. -/
inductive Entry where
  | line (l : Line) (effects : List Effect)
  | sms (line1 line2 : Line)
  deriving DecidableEq, Repr

/-- A line is read, or `s_raw_data` is set. -/
inductive Arrival where
  | line (l : Line)
  | raw
  deriving DecidableEq, Repr

/-- How far the lines that arrive are read: whether the next one belongs to a short message, whether
there is something to answer `CONNECT` or a prompt with, and the lines that are neither of a short
message nor answered. -/
structure Reading where
  sms : Bool
  rawData : Bool
  smsPDU : Bool
  lines : List Line
  deriving DecidableEq, Repr

def Reading.take (rd : Reading) : Arrival → Reading
  | .raw => { rd with rawData := true }
  | .line l =>
    if rd.sms then { rd with sms := false }
    else if isSMSUnsolicited l then { rd with sms := true }
    else if rd.rawData ∧ l = "CONNECT".toList then { rd with rawData := false }
    else if rd.smsPDU ∧ l = "> ".toList then { rd with smsPDU := false }
    else { rd with lines := rd.lines ++ [l] }

/-- A caller that waits for its final response. The rest is what is told of it: whether no other
call was made while it waited, how things were when its command was written, and what has arrived
since, whatever was done with it. -/
structure Call where
  id : ℕ
  type : CommandType
  responsePrefix : Line
  alone : Bool
  written : Reading
  arrived : List Arrival
  deriving DecidableEq, Repr

def Call.arrive (c : Call) (a : Arrival) : Call := { c with arrived := c.arrived ++ [a] }

def Call.reading (c : Call) : Reading := c.arrived.foldl Reading.take c.written

/-- A call that returned 0, with what it hands out. -/
structure Completion where
  call : Call
  response : Response
  deriving DecidableEq, Repr

/-- `line1` is the first line of a short message in `readerLoop`, `ended` says that the reader is
gone and `fault` that `sp_response` was followed when it was `NULL`. `lines` is what `readline` has
returned. -/
structure State where
  channel : Channel
  atcProxy : Bool
  line1 : Option Line
  ended : Bool
  readerClosed : Bool
  calls : List Call
  nextId : ℕ
  fault : Bool
  lines : List Line
  entries : List Entry
  completions : List Completion
  deriving DecidableEq, Repr

/-- `at_open`, by someone who has a handler. -/
def State.init (atcProxy : Bool) : State :=
  ⟨⟨.noResult, [], none, none, none⟩, atcProxy, none, false, false, [], 0, false, [], [], []⟩

def State.arrive (s : State) (a : Arrival) : State :=
  { s with calls := s.calls.map (·.arrive a) }

/-- `readerLoop` with a line. -/
def State.line (s : State) (l : Line) : State :=
  let s := { s with lines := s.lines ++ [l] }.arrive (.line l)
  match s.line1 with
  | some l1 => { s with line1 := none, entries := s.entries ++ [.sms l1 l] }
  | none =>
    if isSMSUnsolicited l then { s with line1 := some l }
    else
      { s with
        channel := (s.channel.processLine s.atcProxy l).1
        entries := s.entries ++ [.line l (s.channel.effects s.atcProxy l)] }

/-- `at_send_command_full` up to the wait. A command is not written to a channel that is closed. -/
def State.send (s : State) (type : CommandType) (responsePrefix : Line) (smsPDU : Option Line)
    (wrote : Bool) : State :=
  let channel := s.channel.sendCommand type responsePrefix smsPDU (wrote && !s.readerClosed)
  let calls := s.calls.map fun c => { c with alone := false }
  if channel.response.isSome then
    let written : Reading :=
      ⟨s.line1.isSome, channel.rawData.isSome, channel.smsPDU.isSome, []⟩
    { s with
      channel := channel
      calls := calls ++ [⟨s.nextId, type, responsePrefix, s.calls.isEmpty, written, []⟩]
      nextId := s.nextId + 1 }
  else { s with channel := channel, calls := calls }

/-- The caller is back from its wait, and returns if there is a final response or the channel is
closed. -/
def State.wake (s : State) (c : Call) : State :=
  match s.channel.response with
  | none => { s with fault := true }
  | some r =>
    if r.finalResponse = none ∧ ¬ s.readerClosed then s
    else
      { s with
        channel := s.channel.clearPendingCommand
        calls := s.calls.eraseP (·.id = c.id)
        completions :=
          if s.readerClosed then s.completions
          else s.completions ++ [⟨c, r.reverseIntermediates⟩] }

def State.timeout (s : State) (c : Call) : State :=
  { s with
    channel := s.channel.clearPendingCommand
    calls := s.calls.eraseP (·.id = c.id) }

inductive Input where
  | line (l : Line)
  /-- `readline` returns `NULL`. -/
  | eof
  /-- `at_close` or `onReaderClosed` sets `s_readerClosed`. -/
  | close
  /-- `at_send_command_raw` sets `s_raw_data` before it asks for the mutex. -/
  | raw (data : Line)
  | send (type : CommandType) (responsePrefix : Line) (smsPDU : Option Line) (wrote : Bool)
  /-- The wait of this caller is over, for whatever reason. -/
  | wake (id : ℕ)
  | timeout (id : ℕ)
  deriving DecidableEq, Repr

def step (s : State) (i : Input) : Option State :=
  if s.fault then none
  else
    match i with
    | .line l => if s.ended then none else some (s.line l)
    | .eof => some { s with ended := true }
    | .close => some { s with readerClosed := true }
    | .raw data =>
      some ({ s with channel := { s.channel with rawData := some data } }.arrive .raw)
    | .send type responsePrefix smsPDU wrote => some (s.send type responsePrefix smsPDU wrote)
    | .wake id => (s.calls.find? (·.id = id)).map s.wake
    | .timeout id => (s.calls.find? (·.id = id)).map s.timeout

abbrev exec : State → List Input → Option State := Runs.exec step

def Entry.lines : Entry → List Line
  | .line l _ => [l]
  | .sms l1 l2 => [l1, l2]

/-- The line is delivered once. A proxy hands a final response to its handler too. -/
def Entry.Once (atcProxy : Bool) : Entry → Prop
  | .line l effects => effects.length = 1
    ∨ atcProxy ∧ isFinalResponse l ∧ ∃ success, effects = [.unsolicited, .finalResponse success]
  | .sms _ _ => True

/-- The line is one that the command asks for. -/
def accepts : CommandType → Line → Line → Bool
  | .noResult, _, _ => false
  | .numeric, _, l => l.head?.any Char.isDigit
  | .singleLine, responsePrefix, l | .multiLine, responsePrefix, l => strStartsWith l responsePrefix

/-- The intermediate lines of a command among the lines that come: all that it asks for, or the
first. -/
def collect (type : CommandType) (responsePrefix : Line) (ls : List Line) : List Line :=
  let ls := ls.filter (accepts type responsePrefix)
  if type = .multiLine then ls else ls.take 1

/-- A final response has come, and if no line came after it before the call returned, the caller
gets it with the intermediate lines that came before it. -/
def Completion.Gets (c : Completion) : Prop :=
  ∃ before l after, c.call.reading.lines = before ++ l :: after
    ∧ (∀ l' ∈ before, ¬ isFinalResponse l') ∧ isFinalResponse l
    ∧ (after = [] → c.response.finalResponse = some l
      ∧ c.response.intermediates = collect c.call.type c.call.responsePrefix before)

/-- Every line that was read was delivered once, but for the first one of a short message until the
second one comes, and every call that returned 0 without another call having been made got what is
its. -/
structure Right (s : State) : Prop where
  read : s.lines = s.entries.flatMap Entry.lines ++ s.line1.toList
  once : ∀ e ∈ s.entries, e.Once s.atcProxy
  gets : ∀ c ∈ s.completions, c.call.alone → c.Gets

end AtPipeline

end BananaWrt
