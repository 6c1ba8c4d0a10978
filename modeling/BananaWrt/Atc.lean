import BananaWrt.AtTok
import BananaWrt.Lib.Calls

/-!
# Registration and data call by AT commands

`requestRegistrationState` and, for modems that are driven as ASR modems are, `requestQueryDataCall`
of `atc.c`. A command is a call, its reply what `at_send_command_multiline` or
`at_send_command_singleline` returns, with the intermediate lines in the order in which they came.
-/

namespace BananaWrt

namespace Atc

open AtChannel (Line CommandType Response)
open AtTok

structure Command where
  type : CommandType
  command : Line
  responsePrefix : Line
  deriving DecidableEq, Repr

structure Reply where
  err : ℤ
  response : Option Response
  deriving DecidableEq, Repr

/-- The response, unless `at_response_error`. -/
def Reply.ok (r : Reply) : Option Response :=
  r.response.filter fun p => r.err = 0 ∧ p.finalResponse.isSome ∧ p.success

/-- Send a command and leave with `fail` if there is no response to it. -/
def send {α : Type} (c : Command) (fail : α) (k : List Line → Calls Command Reply α) :
    Calls Command Reply α :=
  .call c fun r =>
    match r.ok with
    | none => .ret fail
    | some p => k p.intermediates

/-- What is in the `int` that was given for a conversion, and was `v` before. -/
def intAt (r : ℕ × List (Option Out)) (k : ℕ) (v : ℤ) : ℤ :=
  match r.2[k]? with
  | some (some (.int v')) => v'
  | _ => v

/-- One of the three commands that ask for the registration. -/
inductive Registration where
  | cgreg
  | cereg
  | c5greg
  deriving DecidableEq, Repr

def Registration.command : Registration → Command
  | cgreg => ⟨.singleLine, "AT+CGREG?".toList, "+CGREG:".toList⟩
  | cereg => ⟨.singleLine, "AT+CEREG?".toList, "+CEREG:".toList⟩
  | c5greg => ⟨.singleLine, "AT+C5GREG?".toList, "+C5GREG:".toList⟩

/-- By `<AcT>` of `+COPS`. -/
def registrationOf (copsAct : ℤ) : Option Registration :=
  if copsAct = 2 ∨ copsAct = 4 ∨ copsAct = 5 ∨ copsAct = 6 then some .cgreg
  else if copsAct = 7 ∨ copsAct = 13 then some .cereg
  else if copsAct = 10 ∨ copsAct = 11 ∨ copsAct = 12 then some .c5greg
  else none

/-- The first line is looked at. -/
def parseCops : List Line → Option ℤ
  | [] => some (-1)
  | line :: _ =>
    let r := atTokScanf line "%d%d%s%d".toList
    if r.1 = 4 then some (intAt r 3 (-1)) else none

/-- `state`, by what the second conversion stores, if there are as many fields as expected. -/
def scanState (line fmt : Line) (expected : ℕ) : Option ℤ :=
  let r := atTokScanf line fmt
  if r.1 = expected then some (intAt r 1 0) else none

/-- By how many commas there are. -/
def parseRegistration (line : Line) : Option ℤ :=
  match atTokCount line with
  | 0 => (atTokNextint line).2.map fun _ => (atTokNextint line).1
  | 1 => scanState line "%d%d".toList 2
  | 2 => scanState line "%d%x%x".toList 3
  | 3 => scanState line "%d%d%x%x".toList 4
  | 4 | 5 | 6 | 7 => scanState line "%d%d%x%x%d".toList 5
  | _ => none

/-- What is returned, and `*pPSAttachedState`. -/
def requestRegistrationState : Calls Command Reply (ℤ × ℕ) :=
  send ⟨.multiLine, "AT+COPS=3,0;+COPS?;+COPS=3,1;+COPS?;+COPS=3,2;+COPS?".toList,
      "+COPS:".toList⟩ (-1, 0) fun lines =>
    match (parseCops lines).bind registrationOf with
    | none => .ret (0, 0)
    | some registration => send registration.command (0, 0) fun lines =>
      match lines.head?.bind parseRegistration with
      | none => .ret (0, 0)
      | some state => .ret (0, if state = 1 ∨ state = 5 then 1 else 0)

def QWDS_PKT_DATA_DISCONNECTED : ℕ := 1
def QWDS_PKT_DATA_CONNECTED : ℕ := 2

/-- The variables that the lines are scanned into. -/
structure Vars where
  bind : ℤ
  cid : ℤ
  state : ℤ
  deriving DecidableEq, Repr

/-- An iteration over the lines of `+QNETDEVCTL`. -/
def Vars.netdevctl (pdp : ℤ) (v : Vars) (line : Line) : Vars :=
  let r := atTokScanf line "%d%d%d%d".toList
  let v := ⟨intAt r 0 v.bind, intAt r 1 v.cid, intAt r 3 v.state⟩
  if r.1 ≠ 4 ∨ v.cid ≠ pdp then v
  else if v.bind ≠ 1 then { v with bind := 0 }
  else v

/-- The loop over the lines of `+CGACT`, up to the line of the context. -/
def Vars.cgact (pdp : ℤ) : Vars → List Line → Vars
  | v, [] => v
  | v, line :: lines =>
    let r := atTokScanf line "%d%d".toList
    let v := { v with cid := intAt r 0 v.cid, state := intAt r 1 0 }
    if v.cid = pdp then v else Vars.cgact pdp { v with state := 0 } lines

/-- `requestQueryDataCall` where `asr_style_atc` is set: what is returned, and `*pConnectionStatus`.
`cid` is what is in the variable of that name, which is not initialized. -/
def requestQueryDataCall (pdp cid : ℤ) : Calls Command Reply (ℤ × ℕ) :=
  send ⟨.multiLine, "AT+QNETDEVCTL?".toList, "+QNETDEVCTL:".toList⟩ (0, QWDS_PKT_DATA_DISCONNECTED)
    fun lines =>
      let v := lines.foldl (Vars.netdevctl pdp) ⟨0, cid, 0⟩
      if v.bind = 0 ∨ v.state = 0 then .ret (0, QWDS_PKT_DATA_DISCONNECTED)
      else send ⟨.multiLine, "AT+CGACT?".toList, "+CGACT:".toList⟩ (0, QWDS_PKT_DATA_DISCONNECTED)
        fun lines =>
          let v := v.cgact pdp lines
          .ret (0, if v.bind ≠ 0 ∧ v.state ≠ 0 then QWDS_PKT_DATA_CONNECTED
            else QWDS_PKT_DATA_DISCONNECTED)

/-- What comes after the colon of a registration line, by its shape. `further` are the fields
behind `<act>`, as they are written. -/
inductive Shape where
  | onlyStat (stat : Num 10)
  | nStat (n stat : Num 10)
  | statLacCid (stat : Num 10) (lac cid : Num 16)
  | nStatLacCid (n stat : Num 10) (lac cid : Num 16)
  | nStatLacCidAct (n stat : Num 10) (lac cid : Num 16) (act : Num 10) (further : List Line)

namespace Shape

def numbers : Shape → List Number
  | onlyStat stat => [.dec stat]
  | nStat n stat => [.dec n, .dec stat]
  | statLacCid stat lac cid => [.dec stat, .hex lac, .hex cid]
  | nStatLacCid n stat lac cid => [.dec n, .dec stat, .hex lac, .hex cid]
  | nStatLacCidAct n stat lac cid act _ => [.dec n, .dec stat, .hex lac, .hex cid, .dec act]

def further : Shape → Line
  | nStatLacCidAct _ _ _ _ _ further => further.flatMap (',' :: ·)
  | _ => []

/-- `<stat>`. -/
def status : Shape → Num 10
  | onlyStat stat => stat
  | nStat _ stat => stat
  | statLacCid stat _ _ => stat
  | nStatLacCid _ stat _ _ => stat
  | nStatLacCidAct _ stat _ _ _ _ => stat

def line (s : Shape) (registration : Registration) : Line :=
  registration.command.responsePrefix ++ (AtTok.numbers s.numbers ++ s.further)

/-- What is read of the numbers in the part of the line that `at_tok_scanf` copies. -/
def seen (s : Shape) (registration : Registration) : Option (List ℤ) :=
  AtTok.seen s.numbers (1023 - registration.command.responsePrefix.length)

def commas (s : Shape) : ℕ := s.numbers.length - 1 + s.further.count ','

/-- Home network or roaming. -/
def Registered (v : ℤ) : Prop := v = 1 ∨ v = 5

instance (v : ℤ) : Decidable (Registered v) := inferInstanceAs (Decidable (_ ∨ _))

/-- A line with no comma, or with more than seven, or with a number outside of what is copied, is
not of a registered modem. In all others the second number is read as 1 or 5 exactly if `<stat>` is;
it is `<lac>` if there are two commas. -/
def Sound (s : Shape) (registration : Registration) : Prop :=
  if s.commas = 0 ∨ 7 < s.commas then ¬ Registered s.status.numeral.value
  else match s.seen registration with
  | none => ¬ Registered s.status.numeral.value
  | some vs => Registered (vs.getD 1 0) ↔ Registered s.status.numeral.value

end Shape

/-- A number that is an `int`. -/
structure IntNum where
  num : Num 10
  range : -2 ^ 31 ≤ num.numeral.value ∧ num.numeral.value < 2 ^ 31

def IntNum.value (x : IntNum) : ℤ := x.num.numeral.value

/-- `+QNETDEVCTL: <op>,<cid>,<urc_en>,<state>`, not longer than what `at_tok_scanf` copies. -/
structure Netdevctl where
  op : IntNum
  cid : IntNum
  urcEn : IntNum
  state : IntNum
  short : ("+QNETDEVCTL:".toList
    ++ numbers ([op, cid, urcEn, state].map (.dec ·.num))).length ≤ 1023

def Netdevctl.line (l : Netdevctl) : Line :=
  "+QNETDEVCTL:".toList ++ numbers ([l.op, l.cid, l.urcEn, l.state].map (.dec ·.num))

/-- `+CGACT: <cid>,<state>`. -/
structure Cgact where
  cid : IntNum
  state : IntNum
  short : ("+CGACT:".toList ++ numbers ([cid, state].map (.dec ·.num))).length ≤ 1023

def Cgact.line (l : Cgact) : Line :=
  "+CGACT:".toList ++ numbers ([l.cid, l.state].map (.dec ·.num))

section
variable (pdp : ℤ) (calls : List Netdevctl) (contexts : List Cgact)

/-- The line of the context says that the call is up. -/
def OwnUp : Prop := ∃ l ∈ calls, l.cid.value = pdp ∧ l.op.value = 1 ∧ l.state.value ≠ 0

/-- The context is active. -/
def Active : Prop := ∃ l ∈ contexts, l.cid.value = pdp ∧ l.state.value ≠ 0

/-- The last line says that the call is up, but if it is of another context `<op>` need not be 1. -/
def LastUp : Prop :=
  ∃ l ∈ calls.getLast?, l.state.value ≠ 0 ∧ if l.cid.value = pdp then l.op.value = 1 else l.op.value ≠ 0

end

/-- The reply that has these lines. -/
def answer (lines : List Line) : Reply := ⟨0, some ⟨true, some "OK".toList, lines⟩⟩

end Atc

end BananaWrt
