import BananaWrt.QmiRequests

/-!
# The event loop of `qmi_main`

`qmi_main` with `qmi_request_ops`, from the moment its loop is entered. An event comes with the
replies to the requests that its handler makes and with the clock readings that it takes; a reply
to a request that is not made is not looked at. Which signal comes when is the environment's
choice, so the signals that `qmi_main` sends to itself and its alarms are not part of the state.

The handles are static and start at zero. The rest of the profile and of the static variables is
whatever the initialisation has left.
-/

namespace BananaWrt

namespace QmiMain

open QmiRequests

/-- The variables of `qmi_main`, `s_link`, and what the operations share. -/
structure Main where
  state : State
  psAttachedState : ℕ
  ipv4ConnectionStatus : ℕ
  ipv6ConnectionStatus : ℕ
  setupCallFail : ℕ
  setupCallAllowTime : ℕ
  link : ℤ
  /-- Each call of `requestSetupDataCall`, with the handle that the family had then. -/
  setups : List (IpFamily × ℕ)
  quit : Bool
  deriving DecidableEq, Repr

def Main.init (s : State) (psAttachedState now : ℕ) (link : ℤ) : Main where
  state := { s with wdsConnectionIPv4Handle := 0, wdsConnectionIPv6Handle := 0 }
  psAttachedState := psAttachedState
  ipv4ConnectionStatus := QWDS_PKT_DATA_UNKNOW
  ipv6ConnectionStatus := QWDS_PKT_DATA_UNKNOW
  setupCallFail := 0
  setupCallAllowTime := now
  link := link
  setups := []
  quit := false

def Main.enabled (m : Main) : IpFamily → Bool
  | .v4 => m.state.profile.enableIpv4
  | .v6 => m.state.profile.enableIpv6

def Main.status (m : Main) : IpFamily → ℕ
  | .v4 => m.ipv4ConnectionStatus
  | .v6 => m.ipv6ConnectionStatus

def Main.setStatus (m : Main) (f : IpFamily) (status : ℕ) : Main :=
  match f with
  | .v4 => { m with ipv4ConnectionStatus := status }
  | .v6 => { m with ipv6ConnectionStatus := status }

def linkBit (f : IpFamily) : ℕ := 2 ^ f.code

/-- `usbnet_link_change`. Starting and stopping the DHCP client leaves the profile alone. -/
def Main.usbnetLinkChange (m : Main) (link : ℕ) : Main :=
  if m.link = link then m
  else
    let p := m.state.profile
    let p := if link &&& linkBit .v4 = 0 then { p with ipv4 := Ipv4.zero } else p
    let p := if link &&& linkBit .v6 = 0 then { p with ipv6 := Ipv6.zero } else p
    { m with link := link, state := { m.state with profile := p } }

def Main.setupDataCall (m : Main) (f : IpFamily) (r : Reply) : ℤ × Main :=
  let x := (requestSetupDataCall m.state f).feed fun _ => r
  (x.1, { m with state := x.2, setups := m.setups ++ [(f, m.state.handle f)] })

def Main.getIPAddress (m : Main) (f : IpFamily) (r : Reply) : ℤ × Main :=
  let x := (requestGetIPAddress m.state f).feed fun _ => r
  (x.1, { m with state := x.2 })

def Main.queryDataCall (m : Main) (f : IpFamily) (r : Reply) : ℤ × Main :=
  let x := (requestQueryDataCall m.state (m.status f) f).feed fun _ => r
  (x.1, { m with state := x.2.2 }.setStatus f x.2.1)

def Main.deactivateDefaultPDP (m : Main) (f : IpFamily) (r : Reply) : Main :=
  { m with state := ((requestDeactivateDefaultPDP m.state f).feed fun _ => r).2 }

def Main.registrationState (m : Main) (rs : ℕ → Reply) : Main :=
  let x := (requestRegistrationState m.state m.psAttachedState).feed rs
  { m with psAttachedState := x.2.1, state := x.2.2 }

structure StartReplies where
  setup4 : Reply
  retry4 : Reply
  addr4 : Reply
  setup6 : Reply
  addr6 : Reply
  deriving DecidableEq, Repr

def Main.setAuth (m : Main) (auth : ℤ) : Main :=
  { m with state := { m.state with profile := { m.state.profile with auth } } }

/-- The second attempt, with the other auth mode, which is kept if it helps. -/
def Main.retryAuth (m : Main) (r : Reply) : ℤ × Main :=
  let oldAuth := m.state.profile.auth
  let x := (m.setAuth (if oldAuth = 1 then 2 else 1)).setupDataCall .v4 r
  if x.1 = 0 then x else (x.1, x.2.setAuth oldAuth)

def Main.connect (f : IpFamily) (addr : Reply) (x : ℤ × Main) : Main :=
  if x.1 = 0 then
    let y := x.2.getIPAddress f addr
    if y.1 = 0 then y.2.setStatus f QWDS_PKT_DATA_CONNECTED else y.2
  else x.2

def Main.startIpv4 (m : Main) (r : StartReplies) : Main :=
  if m.enabled .v4 ∧ m.status .v4 ≠ QWDS_PKT_DATA_CONNECTED then
    let x := m.setupDataCall .v4 r.setup4
    let p := x.2.state.profile
    Main.connect .v4 r.addr4
      (if 0 < x.1 ∧ ¬ IsBlank p.user ∧ ¬ IsBlank p.password then x.2.retryAuth r.retry4 else x)
  else m

def Main.startIpv6 (m : Main) (r : StartReplies) : Main :=
  if m.enabled .v6 ∧ m.status .v6 ≠ QWDS_PKT_DATA_CONNECTED then
    Main.connect .v6 r.addr6 (m.setupDataCall .v6 r.setup6)
  else m

def Main.AnyDown (m : Main) : Prop :=
  ∃ f ∈ [IpFamily.v4, .v6], m.enabled f ∧ m.status f = QWDS_PKT_DATA_DISCONNECTED

instance (m : Main) : Decidable m.AnyDown := inferInstanceAs (Decidable (∃ f ∈ _, _))

def Main.AnyUp (m : Main) : Prop :=
  ∃ f ∈ [IpFamily.v4, .v6], m.status f = QWDS_PKT_DATA_CONNECTED

instance (m : Main) : Decidable m.AnyUp := inferInstanceAs (Decidable (∃ f ∈ _, _))

def Main.backOff (m : Main) (now : ℕ) : Main :=
  if m.AnyDown then
    { m with
      setupCallAllowTime := [5, 10, 20, 40, 60].getD m.setupCallFail 60 * 1000 + now
      setupCallFail := (m.setupCallFail + 1) % 2 ^ 32 }
  else if m.AnyUp then { m with setupCallFail := 0, setupCallAllowTime := now }
  else m

def Main.onStart (m : Main) (now later : ℕ) (r : StartReplies) : Main :=
  if m.psAttachedState ≠ 1 ∧ m.state.profile.loopbackState = 0 then m
  else if now < m.setupCallAllowTime then m
  else ((m.startIpv4 r).startIpv6 r).backOff later

structure CheckReplies where
  query4 : Reply
  addr4 : Reply
  verify4 : Reply
  stop4 : Reply
  query6 : Reply
  deriving DecidableEq, Repr

/-- `check_ipv4_address`: the modem still has the address that the profile has. -/
def Main.checkIpv4Address (m : Main) (r : Reply) : Bool × Main :=
  let x := m.getIPAddress .v4 r
  (x.1 = 0 ∧ x.2.state.profile.ipv4.address = m.state.profile.ipv4.address, x.2)

def Main.recallAddress (m : Main) (addr : Reply) : Main :=
  if m.status .v4 = QWDS_PKT_DATA_CONNECTED ∧ m.state.profile.ipv4.address = 0 then
    let x := m.getIPAddress .v4 addr
    if x.1 = 0 then x.2 else x.2.setStatus .v4 QWDS_PKT_DATA_DISCONNECTED
  else m

def Main.verifyAddress (m : Main) (verify stop : Reply) : Main :=
  if m.status .v4 = QWDS_PKT_DATA_CONNECTED then
    let x := m.checkIpv4Address verify
    if x.1 then x.2
    else (x.2.deactivateDefaultPDP .v4 stop).setStatus .v4 QWDS_PKT_DATA_DISCONNECTED
  else m

def Main.checkIpv4 (m : Main) (r : CheckReplies) : Main :=
  if m.enabled .v4 ∧ m.status .v4 ≠ QWDS_PKT_DATA_DISCONNECTED then
    let x := m.queryDataCall .v4 r.query4
    if x.1 = 0 then (x.2.recallAddress r.addr4).verifyAddress r.verify4 r.stop4
    else x.2.setStatus .v4 QWDS_PKT_DATA_DISCONNECTED
  else m.setStatus .v4 QWDS_PKT_DATA_DISCONNECTED

/-- The value that the query returns is not looked at. -/
def Main.checkIpv6 (m : Main) (r : CheckReplies) : Main :=
  if m.enabled .v6 ∧ m.status .v6 ≠ QWDS_PKT_DATA_DISCONNECTED then
    (m.queryDataCall .v6 r.query6).2
  else m.setStatus .v6 QWDS_PKT_DATA_DISCONNECTED

def Main.checkLink (m : Main) : Main :=
  if m.status .v4 = QWDS_PKT_DATA_DISCONNECTED ∧ m.status .v6 = QWDS_PKT_DATA_DISCONNECTED then
    m.usbnetLinkChange 0
  else if m.AnyUp then
    m.usbnetLinkChange
      ((if m.status .v4 = QWDS_PKT_DATA_CONNECTED then linkBit .v4 else 0)
        ||| (if m.status .v6 = QWDS_PKT_DATA_CONNECTED then linkBit .v6 else 0))
  else m

def Main.onCheck (m : Main) (registration : ℕ → Reply) (r : CheckReplies) : Main :=
  let m := if m.psAttachedState ≠ 1 then m.registrationState registration else m
  ((m.checkIpv4 r).checkIpv6 r).checkLink

def Main.stopFamily (m : Main) (f : IpFamily) (r : Reply) : Main :=
  if m.enabled f ∧ m.status f = QWDS_PKT_DATA_CONNECTED then m.deactivateDefaultPDP f r else m

def Main.onStop (m : Main) (stop4 stop6 : Reply) : Main :=
  { ((m.stopFamily .v4 stop4).stopFamily .v6 stop6).usbnetLinkChange 0 with quit := true }

/-- `RIL_UNSOL_RESPONSE_VOICE_NETWORK_STATE_CHANGED`. -/
def Main.onNetworkStateChanged (m : Main) (now : ℕ) (registration : ℕ → Reply) : Main :=
  let m := m.registrationState registration
  if m.psAttachedState = 1 then m else { m with setupCallAllowTime := now }

/-- `RIL_UNSOL_DATA_CALL_LIST_CHANGED`. -/
def Main.onDataCallListChanged (m : Main) (now : ℕ) : Main :=
  if m.AnyUp then { m with setupCallAllowTime := now + 1000 } else m

/-- `RIL_UNSOL_LOOPBACK_CONFIG_IND`. -/
def Main.onLoopbackConfig (m : Main) (loopbackState replicationFactor : ℕ) : Main :=
  { m with state := { m.state with
      profile := { m.state.profile with loopbackState, replicationFactor } } }

inductive Event where
  | start (now later : ℕ) (replies : StartReplies)
  | check (registration : ℕ → Reply) (replies : CheckReplies)
  | stop (stop4 stop6 : Reply)
  | networkStateChanged (now : ℕ) (registration : ℕ → Reply)
  | dataCallListChanged (now : ℕ)
  | loopbackConfig (loopbackState replicationFactor : ℕ)
  /-- The device is gone, the modem reports a reset or `poll` fails. -/
  | leave

def step (m : Main) (e : Event) : Option Main :=
  if m.quit then none
  else some (match e with
    | .start now later replies => m.onStart now later replies
    | .check registration replies => m.onCheck registration replies
    | .stop stop4 stop6 => m.onStop stop4 stop6
    | .networkStateChanged now registration => m.onNetworkStateChanged now registration
    | .dataCallListChanged now => m.onDataCallListChanged now
    | .loopbackConfig loopbackState replicationFactor =>
      m.onLoopbackConfig loopbackState replicationFactor
    | .leave => { m.usbnetLinkChange 0 with quit := true })

end QmiMain

end BananaWrt
