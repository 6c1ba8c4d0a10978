import BananaWrt.QmiCompose
import Mathlib.Data.Int.Notation

/-!
# The command line of `quectel-CM`

`parse_user_input` of `main.c`. An argument is given without its NUL. `char` is unsigned, as on
the device. `requests` are the requests that a run composes from strings of the command line.
-/

namespace BananaWrt

namespace UserInput

open Bytes QmiRequests

def ch (c : Char) : UInt8 := UInt8.ofNat c.toNat

def isSpace (c : UInt8) : Bool := c = 0x20 || (0x09 ≤ c && c ≤ 0x0D)

def isDigit (c : UInt8) : Bool := ch '0' ≤ c && c ≤ ch '9'

def decimal (s : Bytes) : ℕ :=
  (s.takeWhile isDigit).foldl (fun n c => 10 * n + (c.toNat - (ch '0').toNat)) 0

/-- A number that is no `int` wraps, as in musl. -/
def atoi (s : Bytes) : ℤ :=
  match s.dropWhile isSpace with
  | [] => 0
  | c :: rest =>
    if c = ch '-' then Int.bmod (-decimal rest) (2 ^ 32)
    else if c = ch '+' then Int.bmod (decimal rest) (2 ^ 32)
    else Int.bmod (decimal (c :: rest)) (2 ^ 32)

def toLower (c : UInt8) : UInt8 := if ch 'A' ≤ c && c ≤ ch 'Z' then c + 32 else c

def strcasecmpEq (s t : Bytes) : Bool := s.map toLower = t.map toLower

/-- The fields of `PROFILE_T` that the user sets, and `debug_qmi`. -/
structure Input where
  apn : Option Bytes
  user : Option Bytes
  password : Option Bytes
  auth : ℤ
  pincode : Option Bytes
  proxy : Bytes
  muxid : ℤ
  pdp : ℤ
  logfile : Option Bytes
  expectAdapter : Bytes
  debugQmi : Bool
  replicationFactor : ℤ
  loopbackState : Bool
  enableIpv4 : Bool
  enableIpv6 : Bool
  usblogfile : Option Bytes
  enableBridge : Bool
  killPdp : ℤ
  deriving DecidableEq, Repr

def CONFIG_DEFAULT_PDP : ℤ := 1

def Input.init : Input where
  apn := none
  user := none
  password := none
  auth := 0
  pincode := none
  proxy := []
  muxid := 0
  pdp := CONFIG_DEFAULT_PDP
  logfile := none
  expectAdapter := []
  debugQmi := false
  replicationFactor := 0
  loopbackState := false
  enableIpv4 := false
  enableIpv6 := false
  usblogfile := none
  enableBridge := false
  killPdp := 0

/-- `has_more_argv` and the argument it lets through. -/
def takeArg : List Bytes → Option (Bytes × List Bytes)
  | [] => none
  | arg :: args => if arg.headD 0 = ch '-' then none else some (arg, args)

/-- An optional argument of an option. -/
def withArg (set : Bytes → Input → Input) (r : Input × List Bytes) : Input × List Bytes :=
  match takeArg r.2 with
  | none => r
  | some (arg, args) => (set arg r.1, args)

def parseAuth (auth : Bytes) : Option ℤ :=
  if auth = ascii "0" || strcasecmpEq auth (ascii "none") then some 0
  else if auth = ascii "1" || strcasecmpEq auth (ascii "pap") then some 1
  else if auth = ascii "2" || strcasecmpEq auth (ascii "chap") then some 2
  else if auth = ascii "3" || strcasecmpEq auth (ascii "MsChapV2") then some 3
  else none

/-- `-s`. A password selects CHAP unless the authentication is given. -/
def optionS (r : Input × List Bytes) : Option (Input × List Bytes) :=
  let r := ({ r.1 with apn := some [], user := some [], password := some [] }, r.2)
  let r := withArg (fun arg p => { p with apn := some arg }) r
  let r := withArg (fun arg p => { p with user := some arg }) r
  let r := withArg (fun arg p =>
    { p with password := some arg, auth := if arg = [] then p.auth else 2 }) r
  match takeArg r.2 with
  | none => some r
  | some (auth, args) => (parseAuth auth).map fun auth => ({ r.1 with auth }, args)

def proxies : List Bytes :=
  [ascii "quectel-qmi-proxy", ascii "quectel-mbim-proxy", ascii "qmi-proxy", ascii "mbim-proxy",
    ascii "quectel-atc-proxy"]

/-- `-p` -/
def optionP (r : Input × List Bytes) : Option (Input × List Bytes) :=
  match takeArg r.2 with
  | none => some r
  | some (arg, args) =>
    if arg ∈ proxies then some ({ r.1 with proxy := arg.take 31 }, args)
    else if 999 < atoi arg ∧ atoi arg < 10000 then some ({ r.1 with pincode := some arg }, args)
    else none

/-- `arg[0] - '0'` -/
def digit (arg : Bytes) : ℤ := (arg.headD 0).toNat - (ch '0').toNat

/-- The body of the `switch`, for an option letter and what follows it. `none` is the usage. -/
def option (letter : UInt8) (r : Input × List Bytes) : Option (Input × List Bytes) :=
  if letter = ch 's' then optionS r
  else if letter = ch 'p' then optionP r
  else if letter = ch 'm' then some (withArg (fun arg p => { p with muxid := digit arg + 0x80 }) r)
  else if letter = ch 'n' then some (withArg (fun arg p => { p with pdp := digit arg }) r)
  else if letter = ch 'f' then some (withArg (fun arg p => { p with logfile := some arg }) r)
  else if letter = ch 'i' then
    some (withArg (fun arg p => { p with expectAdapter := arg.take 31 }) r)
  else if letter = ch 'v' then some ({ r.1 with debugQmi := true }, r.2)
  else if letter = ch 'l' then some (withArg (fun arg p =>
    { p with
      replicationFactor := atoi arg
      loopbackState := if 0 < atoi arg then true else p.loopbackState }) r)
  else if letter = ch '4' then some ({ r.1 with enableIpv4 := true }, r.2)
  else if letter = ch '6' then some ({ r.1 with enableIpv6 := true }, r.2)
  else if letter = ch 'u' then some (withArg (fun arg p => { p with usblogfile := some arg }) r)
  else if letter = ch 'b' then some ({ r.1 with enableBridge := true }, r.2)
  else if letter = ch 'k' then some (withArg (fun arg p => { p with killPdp := digit arg }) r)
  else none

/-- The loop over the arguments, which takes at least one of them each time. -/
def parseLoop : (fuel : ℕ) → Input × List Bytes → Option Input
  | _, (p, []) => some p
  | 0, (_, _ :: _) => none
  | fuel + 1, (p, arg :: args) =>
    if arg.headD 0 = ch '-' then (option (arg.getD 1 0) (p, args)).bind (parseLoop fuel) else none

/-- The profile, if `parse_user_input` does not show the usage. -/
def parseUserInput (argv : List Bytes) : Option Input :=
  let args := (if argv.getLast? = some (ascii "&") then argv.dropLast else argv).tail
  (parseLoop args.length (Input.init, args)).map fun p =>
    if p.enableIpv4 = false ∧ p.enableIpv6 = false then { p with enableIpv4 := true } else p

/-- The device's profile has what the user set. -/
structure Input.Sets (p : Input) (s : State) : Prop where
  apn : s.profile.apn = p.apn
  user : s.profile.user = p.user
  password : s.profile.password = p.password
  pdp : s.profile.pdp = p.pdp

/-- The requests that `main` may have composed from strings of the command line: the PIN is
verified, the profile is set and a data call is set up. With `-k` another process is killed
instead. -/
def requests (p : Input) (s : State) (f : IpFamily) (TransactionId : ℕ) :
    List QmiCompose.Composed :=
  if p.killPdp ≠ 0 then []
  else
    (if s.is9x07 then p.pincode.toList.map (QmiCompose.composeVerifyPin · TransactionId) else [])
      ++ (if (p.apn.isSome ∨ p.user.isSome ∨ p.password.isSome) ∧ p.pdp ≠ 0 then
        [QmiCompose.composeModify s.profile TransactionId] else [])
      ++ [QmiCompose.composeStartNw s f TransactionId]

end UserInput

end BananaWrt
