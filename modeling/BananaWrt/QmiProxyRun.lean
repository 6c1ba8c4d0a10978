import BananaWrt.Lib.Run
import BananaWrt.QmiProxy

/-!
# Runs of the QMI proxy

The proxy with its clients and the device. The clients connect, close and send requests; the
device answers the control messages that were written to it, gives some up, and sends
indications and service messages. A run takes these in any order; each is one event that
`qmi_proxy_loop` handles from start to end. The loop is left once `modem_reset_flag` is set, so
nothing happens after that.

Next to the state of the proxy a `World` keeps what the device holds and the history: the control
requests accepted, the ones written, and the answers given to clients.
-/

namespace BananaWrt

namespace QmiProxy

open Bytes Qmi

structure Written where
  tag : Tag
  qmi : Bytes
  deriving DecidableEq, Repr

structure Delivery where
  con : ℕ
  answers : Tag
  deriving DecidableEq, Repr

structure World where
  proxy : Proxy
  /-- The control messages written to the device and not answered or given up. -/
  outstanding : List Written
  /-- The client ids the device holds granted, each with the connection whose request it
  answered with it. -/
  granted : List (Client × ℕ)
  accepted : List Tag
  written : List Tag
  delivered : List Delivery
  nextCon : ℕ
  deriving DecidableEq, Repr

/-- What happens next. `wr` says whether the device takes what is written to it in this event. -/
inductive Input where
  | connect (clientfd : ℕ)
  | disconnect (clientfd : ℕ)
  | request (clientfd : ℕ) (pQMI : Bytes) (wr : Bool)
  /-- The device answers the `k`-th of its control messages. -/
  | response (k : ℕ) (pQMI : Bytes) (wr : Bool)
  /-- The device gives up the oldest of its control messages. -/
  | lose
  | indication (pQMI : Bytes) (wr : Bool)
  | data (pQMI : Bytes)
  deriving DecidableEq, Repr

def World.init (fd : ℕ) : World where
  proxy := ⟨fd + 1, [], [], true, false⟩
  outstanding := []
  granted := []
  accepted := []
  written := []
  delivered := []
  nextCon := 0

def ctlWrites (out : List Out) : List Written :=
  out.filterMap fun
    | .cdcWdm qmi (some tag) => some ⟨tag, qmi⟩
    | _ => none

def deliveries (tag : Tag) (out : List Out) : List Delivery :=
  out.filterMap fun
    | .client _ con _ => some ⟨con, tag⟩
    | _ => none

def World.emit (w : World) (wr : Bool) (out : List Out) : World :=
  if wr then
    { w with
      outstanding := w.outstanding ++ ctlWrites out
      written := w.written ++ (ctlWrites out).map (·.tag) }
  else w

/-- The device's own record of the ids it granted, after it answered `q` with `pQMI`. -/
def settleGrants (granted : List (Client × ℕ)) (q : Written) (pQMI : Bytes) :
    List (Client × ℕ) :=
  if ctlResult pQMI = 0 ∧ ctlError pQMI = 0 then
    if ctlType pQMI = QMICTL_GET_CLIENT_ID_RESP then granted ++ [(ctlRspPair pQMI, q.tag.con)]
    else if ctlType pQMI = QMICTL_RELEASE_CLIENT_ID_RESP then
      granted.filter (·.1 ≠ ctlRspPair pQMI)
    else granted
  else granted

def World.accept (w : World) (clientfd : ℕ) (c : Connection) (pQMI : Bytes) (wr : Bool) : World :=
  let tag : Tag := ⟨c.con, w.accepted.length⟩
  let r := recvQmiFromClient w.proxy pQMI (hdrLength pQMI + 1) clientfd tag
  { w with
    proxy := r.1
    accepted :=
      if hdrQMIType pQMI = QMUX_TYPE_CTL ∧ ctlType pQMI ≠ QMICTL_SYNC_REQ then
        w.accepted ++ [tag]
      else w.accepted }.emit wr r.2

def World.answer (w : World) (k : ℕ) (q : Written) (pQMI : Bytes) (wr : Bool) : World :=
  let r := recvQmiFromDev w.proxy pQMI
  { w with
    proxy := r.1
    outstanding := w.outstanding.eraseIdx k
    granted := settleGrants w.granted q pQMI
    delivered := w.delivered ++ deliveries q.tag r.2 }.emit wr r.2

/-- One event. A descriptor is free for a new connection only if no open one has it. -/
def step (w : World) (i : Input) : Option World :=
  if w.proxy.modemResetFlag then none
  else match i with
  | .connect fd =>
    if fd ∈ w.proxy.connections.map (·.clientFd) then none
    else some { w with
      proxy := acceptQmiConnection w.proxy fd w.nextCon
      nextCon := w.nextCon + 1 }
  | .disconnect fd =>
    if fd ∈ w.proxy.connections.map (·.clientFd) then
      some { w with proxy := cleanupQmiConnection w.proxy fd }
    else none
  | .request fd pQMI wr =>
    (w.proxy.connections.find? (·.clientFd = fd)).map fun c => w.accept fd c pQMI wr
  | .response k pQMI wr =>
    if hdrQMIType pQMI = QMUX_TYPE_CTL ∧ ctlFlags pQMI = QMICTL_CTL_FLAG_RSP then
      w.outstanding[k]?.map fun q => w.answer k q pQMI wr
    else none
  | .lose => if w.outstanding = [] then none else some { w with outstanding := w.outstanding.tail }
  | .indication pQMI wr =>
    if hdrQMIType pQMI = QMUX_TYPE_CTL ∧ ctlFlags pQMI ≠ QMICTL_CTL_FLAG_RSP then
      some ({ w with proxy := (recvQmiFromDev w.proxy pQMI).1 }.emit wr
        (recvQmiFromDev w.proxy pQMI).2)
    else none
  | .data pQMI => if hdrQMIType pQMI = QMUX_TYPE_CTL then none else some w

abbrev run (fd : ℕ) (is : List Input) : Option World := Runs.exec step (World.init fd) is

end QmiProxy

end BananaWrt
