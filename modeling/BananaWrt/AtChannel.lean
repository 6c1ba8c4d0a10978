import Mathlib.Data.List.Basic

/-!
# The AT channel

`atchannel.c` sends one command at a time and has a thread that reads the modem's lines. A line is
part of the response to the command that is pending or is handed to the handler of unsolicited
lines; for a proxy the handler gets the final responses too.
-/

namespace BananaWrt

namespace AtChannel

/-- A line of the modem or a command, without its line end. -/
abbrev Line := List Char

def strStartsWith (line start : Line) : Bool := start.isPrefixOf line

def finalResponsesError : List Line :=
  ["ERROR".toList, "+CMS ERROR:".toList, "+CME ERROR:".toList, "NO CARRIER".toList,
    "NO ANSWER".toList, "NO DIALTONE".toList, "COMMAND NOT SUPPORT".toList]

def finalResponsesSuccess : List Line :=
  ["OK".toList, "+QIND: \"FOTA\",\"END\",0".toList, "CONNECT".toList]

def smsUnsoliciteds : List Line :=
  ["+CMT:".toList, "+CDS:".toList, "+CBM:".toList, "+CMTI:".toList]

def isFinalResponseError (line : Line) : Bool := finalResponsesError.any (strStartsWith line)

def isFinalResponseSuccess (line : Line) : Bool := finalResponsesSuccess.any (strStartsWith line)

def isSMSUnsolicited (line : Line) : Bool := smsUnsoliciteds.any (strStartsWith line)

def isFinalResponse (line : Line) : Bool := isFinalResponseSuccess line || isFinalResponseError line

inductive CommandType where
  | noResult
  | numeric
  | singleLine
  | multiLine
  deriving DecidableEq, Repr

/-- `ATResponse`; the intermediate lines stand in reverse order. -/
structure Response where
  success : Bool
  finalResponse : Option Line
  intermediates : List Line
  deriving DecidableEq, Repr

def Response.new : Response := ⟨false, none, []⟩

/-- `s_type`, `s_responsePrefix`, `s_smsPDU`, `s_raw_data` and `sp_response`. -/
structure Channel where
  type : CommandType
  responsePrefix : Line
  smsPDU : Option Line
  rawData : Option Line
  response : Option Response
  deriving DecidableEq, Repr

def Channel.clearPendingCommand (ch : Channel) : Channel :=
  { ch with responsePrefix := [], smsPDU := none, response := none }

/-- What `processLine` does with a line besides changing the channel. -/
inductive Action where
  | keep
  | unsolicited
  | writeRaw (data : Line)
  | writeCtrlZ (pdu : Line)
  deriving DecidableEq, Repr

def Channel.addIntermediate (ch : Channel) (r : Response) (line : Line) : Channel :=
  { ch with response := some { r with intermediates := line :: r.intermediates } }

def Channel.handleFinalResponse (ch : Channel) (r : Response) (success : Bool) (line : Line) :
    Channel :=
  { ch with response := some { r with success := success, finalResponse := some line } }

/-- `processLine`; `atcProxy` is `s_atc_proxy`. The channel changes once the action is done. -/
def Channel.processLine (ch : Channel) (atcProxy : Bool) (line : Line) : Channel × Action :=
  match ch.response with
  | none => (ch, .unsolicited)
  | some r =>
    let final := if atcProxy then Action.unsolicited else .keep
    if ch.rawData.isSome ∧ line = "CONNECT".toList then
      ({ ch with rawData := none }, .writeRaw (ch.rawData.getD []))
    else if isFinalResponseSuccess line then (ch.handleFinalResponse r true line, final)
    else if isFinalResponseError line then (ch.handleFinalResponse r false line, final)
    else if ch.smsPDU.isSome ∧ line = "> ".toList then
      ({ ch with smsPDU := none }, .writeCtrlZ (ch.smsPDU.getD []))
    else
      match ch.type with
      | .noResult => (ch, .unsolicited)
      | .numeric =>
        if r.intermediates = [] ∧ line.head?.any Char.isDigit then
          (ch.addIntermediate r line, .keep)
        else (ch, .unsolicited)
      | .singleLine =>
        if r.intermediates = [] ∧ strStartsWith line ch.responsePrefix then
          (ch.addIntermediate r line, .keep)
        else (ch, .unsolicited)
      | .multiLine =>
        if strStartsWith line ch.responsePrefix then (ch.addIntermediate r line, .keep)
        else (ch, .unsolicited)

/-- `at_send_command_full_nolock` up to the wait for the final response; `wrote` says whether
`writeline` succeeds. The command waits if its response is there. -/
def Channel.sendCommand (ch : Channel) (type : CommandType) (responsePrefix : Line)
    (smsPDU : Option Line) (wrote : Bool) : Channel :=
  if ch.response.isSome ∨ ¬ wrote then ch.clearPendingCommand
  else
    { ch with
      type := type
      responsePrefix := responsePrefix
      smsPDU := smsPDU
      response := some .new }

end AtChannel

end BananaWrt
