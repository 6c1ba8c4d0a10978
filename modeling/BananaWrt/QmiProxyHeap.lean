import BananaWrt.Lib.Circular
import BananaWrt.Lib.Run
import BananaWrt.QmiProxy

/-!
# The lists of the QMI proxy

`BananaWrt.QmiProxy` has the connections, their clients and the pending control requests as lists.
In `quectel-qmi-proxy.c` they are records from `malloc`, linked through the nodes of `qlist.h` that
they contain; here are the same functions on a heap. `qlist_init`, `qlist_add_tail` and
`qlist_remove` are those of `Circular.Heap`, `qlist_for_each` is `Circular.forEach`.

A record is known by its address, and its nodes by the record and the field. Reading a record or a
node that has been freed, freeing it again or taking a node for one of another record fails
(`none`). `out` is what has been written to the device and to clients so far.
-/

namespace BananaWrt

namespace QmiProxyHeap

open Bytes Qmi QmiProxy Circular

/-- `qmi_proxy_connection`, `qmi_proxy_ctl_msg`, and the nodes `qnode` and `client_qnode` of the
records at an address. -/
inductive Node where
  | qmiProxyConnection
  | qmiProxyCtlMsg
  | con (a : ℕ)
  | clientQnode (a : ℕ)
  | client (a : ℕ)
  | msg (a : ℕ)
  deriving DecidableEq, Repr

/-- `QMI_PROXY_CONNECTION` without its nodes. -/
structure ConRec where
  clientFd : ℕ
  con : ℕ
  deriving DecidableEq, Repr

structure Mem where
  links : Heap Node
  conRec : ℕ → ConRec
  client : ℕ → Client
  msg : ℕ → Msg
  serverFd : ℤ
  syncDone : Bool
  modemResetFlag : Bool
  out : List Out

def Mem.readCon (m : Mem) : Node → Option (ℕ × ConRec)
  | .con a => if m.links.live (.con a) then some (a, m.conRec a) else none
  | _ => none

def Mem.readClient (m : Mem) : Node → Option Client
  | .client a => if m.links.live (.client a) then some (m.client a) else none
  | _ => none

def Mem.readMsg (m : Mem) : Node → Option Msg
  | .msg a => if m.links.live (.msg a) then some (m.msg a) else none
  | _ => none

def Mem.forEach (m : Mem) (head : Node) (fuel : ℕ) (body : Node → Mem → Option (Mem × Bool)) :
    Option Mem := do
  Circular.forEach Mem.links body head fuel (← m.links.getNext head) m

/-- `qlist_remove` of a record's node and `free` of the record. -/
def Mem.drop (m : Mem) (node : Node) : Option Mem := do
  let h ← m.links.remove node
  let h ← h.free node
  some { m with links := h }

def Mem.send (m : Mem) (o : Out) : Mem := { m with out := m.out ++ [o] }

/-- `a` is what `malloc` returns. -/
def Mem.acceptQmiConnection (m : Mem) (a clientfd con : ℕ) : Option Mem := do
  let h := (m.links.alloc (.con a)).alloc (.clientQnode a)
  let h ← h.init (.con a)
  let h ← h.init (.clientQnode a)
  let h ← h.addTail .qmiProxyConnection (.con a)
  some { m with links := h, conRec := Function.update m.conRec a ⟨clientfd, con⟩ }

/-- The first loop of `cleanup_qmi_connection`. -/
def Mem.freeClients (a : ℕ) : ℕ → Mem → Option Mem
  | 0, _ => none
  | fuel + 1, m => do
    let first ← m.links.getNext (.clientQnode a)
    if first = .clientQnode a then some m
    else do
      let _ ← m.readClient first
      let m ← m.drop first
      m.freeClients a fuel

/-- The second one. -/
def Mem.dropMsg (m : Mem) (fuel clientFd : ℕ) : Option Mem :=
  m.forEach .qmiProxyCtlMsg fuel fun qmiNode m => do
    let qmiMsg ← m.readMsg qmiNode
    if qmiMsg.clientFd = clientFd then do
      let m ← m.drop qmiNode
      some (m, true)
    else some (m, false)

/-- What is done to the connection that is found. Both its nodes are gone when it is freed. -/
def Mem.closeConnection (m : Mem) (fuel a clientFd : ℕ) : Option Mem := do
  let m ← m.freeClients a fuel
  let m ← m.dropMsg fuel clientFd
  let m ← m.drop (.con a)
  let h ← m.links.free (.clientQnode a)
  some { m with links := h }

def Mem.cleanupQmiConnection (m : Mem) (fuel clientfd : ℕ) : Option Mem :=
  m.forEach .qmiProxyConnection fuel fun conNode m => do
    let (a, qmiCon) ← m.readCon conNode
    if qmiCon.clientFd = clientfd then do
      let m ← m.closeConnection fuel a qmiCon.clientFd
      some (m, true)
    else some (m, false)

def Mem.getClientId (m : Mem) (a new : ℕ) (pQMI : Bytes) : Option Mem :=
  if ctlResult pQMI = 0 ∧ ctlError pQMI = 0 then do
    let h := m.links.alloc (.client new)
    let h ← h.init (.client new)
    let h ← h.addTail (.clientQnode a) (.client new)
    some { m with links := h, client := Function.update m.client new (ctlRspPair pQMI) }
  else some m

def Mem.releaseClientId (m : Mem) (fuel a : ℕ) (pQMI : Bytes) : Option Mem :=
  if ctlResult pQMI = 0 ∧ ctlError pQMI = 0 then
    m.forEach (.clientQnode a) fuel fun clientNode m => do
      let qmiClient ← m.readClient clientNode
      if qmiClient = ctlRspPair pQMI then do
        let m ← m.drop clientNode
        some (m, true)
      else some (m, false)
  else some m

def Mem.settleClients (m : Mem) (fuel a new : ℕ) (pQMI : Bytes) : Option Mem :=
  if ctlType pQMI = QMICTL_GET_CLIENT_ID_RESP then m.getClientId a new pQMI
  else if ctlType pQMI = QMICTL_RELEASE_CLIENT_ID_RESP
      ∨ ctlType pQMI = QMICTL_REVOKE_CLIENT_ID_IND then m.releaseClientId fuel a pQMI
  else some m

def Mem.answerCon (qmiMsg : Msg) (fuel new : ℕ) (pQMI : Bytes) (conNode : Node) (m : Mem) :
    Option (Mem × Bool) := do
  let (a, qmiCon) ← m.readCon conNode
  if qmiCon.clientFd = qmiMsg.clientFd then do
    let m := m.send (.client qmiMsg.clientFd qmiCon.con (wire pQMI))
    let m ← m.settleClients fuel a new pQMI
    some (if ctlType pQMI = QMICTL_REVOKE_CLIENT_ID_IND then { m with modemResetFlag := true }
      else m, false)
  else some (m, false)

def Mem.answerHead (m : Mem) (fuel new : ℕ) (pQMI : Bytes) : Option Mem := do
  let node ← m.links.getNext .qmiProxyCtlMsg
  if node = .qmiProxyCtlMsg then some m
  else do
    let qmiMsg ← m.readMsg node
    let m ← m.forEach .qmiProxyConnection fuel (Mem.answerCon qmiMsg fuel new pQMI)
    m.drop node

def Mem.sendHead (m : Mem) (fuel : ℕ) : Option Mem := do
  let node ← m.links.getNext .qmiProxyCtlMsg
  if node = .qmiProxyCtlMsg then some m
  else do
    let qmiMsg ← m.readMsg node
    m.forEach .qmiProxyConnection fuel fun conNode m => do
      let (_, qmiCon) ← m.readCon conNode
      if qmiCon.clientFd = qmiMsg.clientFd then
        some (m.send (.cdcWdm (wire qmiMsg.qmi) (some qmiMsg.tag)), false)
      else some (m, false)

def Mem.forwardMux (m : Mem) (fuel : ℕ) (pQMI : Bytes) : Option Mem :=
  m.forEach .qmiProxyConnection fuel fun conNode m => do
    let (a, qmiCon) ← m.readCon conNode
    let m ← m.forEach (.clientQnode a) fuel fun clientNode m => do
      let qmiClient ← m.readClient clientNode
      if hdrQMIType pQMI = qmiClient.1
          ∧ (hdrClientId pQMI = 0 ∨ hdrClientId pQMI = qmiClient.2) then
        some (m.send (.client qmiCon.clientFd qmiCon.con (wire pQMI)), false)
      else some (m, false)
    some (m, false)

def Mem.recvQmiFromDev (m : Mem) (fuel new : ℕ) (pQMI : Bytes) : Option Mem :=
  if m.serverFd = -1 then some { m with syncDone := true }
  else if hdrQMIType pQMI = QMUX_TYPE_CTL then do
    let m ← if ctlFlags pQMI = QMICTL_CTL_FLAG_RSP then m.answerHead fuel new pQMI else some m
    m.sendHead fuel
  else m.forwardMux fuel pQMI

def Mem.recvQmiFromClient (m : Mem) (new : ℕ) (pQMI : Bytes) (size clientfd : ℕ) (tag : Tag) :
    Option Mem :=
  if m.serverFd ≤ 0 then some (m.send (.cdcWdm (wire pQMI) none))
  else if hdrQMIType pQMI = QMUX_TYPE_CTL then
    if ctlType pQMI = QMICTL_SYNC_REQ then some m
    else do
      let node ← m.links.getNext .qmiProxyCtlMsg
      let m := if node = .qmiProxyCtlMsg then m.send (.cdcWdm (wire pQMI) (some tag)) else m
      let h := m.links.alloc (.msg new)
      let h ← h.init (.msg new)
      let h ← h.addTail .qmiProxyCtlMsg (.msg new)
      some { m with
        links := h
        msg := Function.update m.msg new ⟨clientfd, pQMI.take size, tag⟩ }
  else some (m.send (.cdcWdm (wire pQMI) none))

/-! What `qmi_proxy_loop` calls, on the lists and on the heap. -/

inductive Event where
  | accept (clientfd con : ℕ)
  | cleanup (clientfd : ℕ)
  | fromClient (pQMI : Bytes) (size clientfd : ℕ) (tag : Tag)
  | fromDev (pQMI : Bytes)
  deriving DecidableEq, Repr

def handle (p : Proxy) : Event → Proxy × List Out
  | .accept clientfd con => (QmiProxy.acceptQmiConnection p clientfd con, [])
  | .cleanup clientfd => (QmiProxy.cleanupQmiConnection p clientfd, [])
  | .fromClient pQMI size clientfd tag => QmiProxy.recvQmiFromClient p pQMI size clientfd tag
  | .fromDev pQMI => QmiProxy.recvQmiFromDev p pQMI

def handleAll (p : Proxy) : List Event → Proxy × List Out
  | [] => (p, [])
  | e :: es => ((handleAll (handle p e).1 es).1, (handle p e).2 ++ (handleAll (handle p e).1 es).2)

/-- An event on the heap, with the address that `malloc` returns in it. -/
def step (fuel : ℕ) (m : Mem) (i : Event × ℕ) : Option Mem :=
  match i.1 with
  | .accept clientfd con => m.acceptQmiConnection i.2 clientfd con
  | .cleanup clientfd => m.cleanupQmiConnection fuel clientfd
  | .fromClient pQMI size clientfd tag => m.recvQmiFromClient i.2 pQMI size clientfd tag
  | .fromDev pQMI => m.recvQmiFromDev fuel i.2 pQMI

/-- The start of `qmi_proxy_loop`. The two heads are static. -/
def Mem.start (m : Mem) : Option Mem := do
  let h : Heap Node :=
    { m.links with live := fun n => n = Node.qmiProxyConnection ∨ n = Node.qmiProxyCtlMsg }
  let h ← h.init .qmiProxyConnection
  let h ← h.init .qmiProxyCtlMsg
  some { m with links := h }

/-- Where the records are: each connection with its clients, and the messages. -/
structure Layout where
  cons : List (ℕ × List ℕ)
  msgs : List ℕ
  deriving DecidableEq, Repr

def Layout.clientRing (x : ℕ × List ℕ) : Node × List Node := (.clientQnode x.1, x.2.map .client)

def Layout.rings (y : Layout) : List (Node × List Node) :=
  (.qmiProxyConnection, y.cons.map fun x => .con x.1) ::
    (.qmiProxyCtlMsg, y.msgs.map .msg) :: y.cons.map Layout.clientRing

def Mem.absCon (m : Mem) (x : ℕ × List ℕ) : Connection :=
  ⟨(m.conRec x.1).clientFd, x.2.map m.client, (m.conRec x.1).con⟩

/-- The state of `BananaWrt.QmiProxy` that the records stand for. -/
def Mem.abs (m : Mem) (y : Layout) : Proxy :=
  ⟨m.serverFd, y.cons.map m.absCon, y.msgs.map m.msg, m.syncDone, m.modemResetFlag⟩

/-- The nodes are linked as the layout says, no other node is live, and no two connections have
the same descriptor. -/
structure Holds (m : Mem) (y : Layout) : Prop where
  owns : Owns m.links y.rings
  fds : (y.cons.map fun x => (m.conRec x.1).clientFd).Nodup

/-- No list has more than `k` items. -/
structure Layout.Within (y : Layout) (k : ℕ) : Prop where
  cons : y.cons.length ≤ k
  clients : ∀ x ∈ y.cons, x.2.length ≤ k
  msgs : y.msgs.length ≤ k

/-- What the system promises: `malloc` returns an address that no live record has, and a new
connection gets a descriptor that no open connection has. -/
structure Env (m : Mem) (i : Event × ℕ) : Prop where
  fresh : ∀ n, n = .con i.2 ∨ n = .clientQnode i.2 ∨ n = .client i.2 ∨ n = .msg i.2 →
    m.links.live n = false
  newFd : ∀ clientfd con, i.1 = .accept clientfd con →
    ∀ a, m.links.live (.con a) = true → (m.conRec a).clientFd ≠ clientfd

end QmiProxyHeap

end BananaWrt
