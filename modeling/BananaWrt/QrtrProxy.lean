import BananaWrt.Lib.Run
import BananaWrt.QmiMsg
import Mathlib.Logic.Function.Basic

/-!
# The QRTR proxy

`quectel-qrtr-proxy.c` lets local QMI clients talk to the services of a modem behind `mhi_IPCR`.
The modem announces and removes its servers; the proxy keeps them in `qrtr_server_list`. A client
asks it for client ids, of which each gets a QRTR port of its own, and the proxy carries messages
between the two.

The writes a function makes are its output. A message is read off the receive buffer that it lies
in. `allocated` says whether `malloc` succeeds where the source checks it.
-/

namespace BananaWrt

namespace QrtrProxy

open Bytes Qmi

def QRTR_NODE_BCAST : ℕ := 0xFFFFFFFF
def QRTR_PORT_CTRL : ℕ := 0xFFFFFFFE

def QRTR_TYPE_DATA : ℕ := 1
def QRTR_TYPE_HELLO : ℕ := 2
def QRTR_TYPE_NEW_SERVER : ℕ := 4
def QRTR_TYPE_DEL_SERVER : ℕ := 5
def QRTR_TYPE_DEL_CLIENT : ℕ := 6
def QRTR_TYPE_RESUME_TX : ℕ := 7

def nodeModem : ℕ := 3
def nodeMyself : ℕ := 1

section
variable (hdr : Bytes)

/-! `struct qrtr_hdr_v1` -/

def hdrType : ℕ := le32 hdr 4
def srcNodeId : ℕ := le32 hdr 8
def srcPortId : ℕ := le32 hdr 12
def confirmRx : ℕ := le32 hdr 16
def hdrSize : ℕ := le32 hdr 20
def dstNodeId : ℕ := le32 hdr 24
def dstPortId : ℕ := le32 hdr 28

def sizeofQrtrHdr : ℕ := 32

/-! `struct qrtr_ctrl_pkt` behind it -/

def pktService : ℕ := le32 hdr 36
def pktInstance : ℕ := le32 hdr 40
def pktNode : ℕ := le32 hdr 44
def pktPort : ℕ := le32 hdr 48

end

structure Addr where
  node : ℕ
  port : ℕ
  deriving DecidableEq, Repr

def align4 (len : ℕ) : ℕ := (len + 3) / 4 * 4

/-- The packet that `qrtr_node_enqueue` writes. What fills it up to a multiple of four bytes is not
initialised in the source; here it is zero. -/
def enqueue (data : Bytes) (type : ℕ) (src dst : Addr) : Bytes :=
  ofLe32 1 ++ ofLe32 type ++ ofLe32 src.node ++ ofLe32 src.port ++ ofLe32 0 ++ ofLe32 data.length
    ++ ofLe32 dst.node ++ ofLe32 dst.port ++ data
    ++ List.replicate (align4 data.length - data.length) 0

/-- A `struct qrtr_ctrl_pkt` with a command and the first two fields of its union. -/
def ctrlPkt (cmd a b : ℕ) : Bytes := ofLe32 cmd ++ ofLe32 a ++ ofLe32 b ++ ofLe32 0 ++ ofLe32 0

structure Service where
  service : ℕ
  version : ℕ
  inst : ℕ
  node : ℕ
  port : ℕ
  srcNodeId : ℕ
  srcPortId : ℕ
  deriving DecidableEq, Repr

structure Client where
  QMIType : ℕ
  ClientId : ℕ
  nodeId : ℕ
  portId : ℕ
  deriving DecidableEq, Repr

structure Connection where
  clientFd : ℤ
  clients : List Client
  deriving DecidableEq, Repr

structure State where
  services : List Service
  connections : List Connection
  clientBitmap : ℕ → ℕ
  portBitmap : ℕ → ℕ

inductive Out where
  | dev (packet : Bytes)
  | client (clientFd : ℤ) (qmi : Bytes)
  deriving DecidableEq, Repr

def State.init : State := ⟨[], [], fun _ => 0, fun _ => 0⟩

/-- The clients of all connections. -/
def State.clients (s : State) : List Client := s.connections.flatMap (·.clients)

def findQrtrService (s : State) (QMIType : ℕ) : Option Service :=
  s.services.find? (·.service = QMIType)

/-- The first id from 1 on whose cell is zero, which becomes the id; a cell is one byte. -/
def allocId (size : ℕ) (bitmap : ℕ → ℕ) : ℕ × (ℕ → ℕ) :=
  match (List.range' 1 (size - 1)).find? fun id => bitmap id = 0 with
  | some id => (id, Function.update bitmap id (id % 256))
  | none => (0, bitmap)

def freeId (size : ℕ) (bitmap : ℕ → ℕ) (id : ℕ) : ℕ → ℕ :=
  if id < size ∧ bitmap id = id then Function.update bitmap id 0 else bitmap

def sizeofClientBitmap : ℕ := 0xF0
def sizeofPortBitmap : ℕ := 0xFF0

def allocClientId : (ℕ → ℕ) → ℕ × (ℕ → ℕ) := allocId sizeofClientBitmap
def freeClientId : (ℕ → ℕ) → ℕ → ℕ → ℕ := freeId sizeofClientBitmap
def allocPortId : (ℕ → ℕ) → ℕ × (ℕ → ℕ) := allocId sizeofPortBitmap
def freePortId : (ℕ → ℕ) → ℕ → ℕ → ℕ := freeId sizeofPortBitmap

/-- Change the clients of the first connection on `fd`. -/
def updateConnection (fd : ℤ) (f : List Client → List Client) : List Connection → List Connection
  | [] => []
  | con :: cons =>
    if con.clientFd = fd then { con with clients := f con.clients } :: cons
    else con :: updateConnection fd f cons

/-- The clients of the first connection on `fd`. -/
def clientsOn (fd : ℤ) (cons : List Connection) : List Client :=
  match cons.find? (·.clientFd = fd) with
  | some con => con.clients
  | none => []

/-- `ClientId` has eight bits. -/
def allocQrtrClientId (s : State) (fd : ℤ) (QMIType : ℕ) : ℕ × State :=
  let c := allocClientId s.clientBitmap
  let p := allocPortId s.portBitmap
  (c.1 % 256, { s with
    connections := updateConnection fd (· ++ [⟨QMIType, c.1 % 256, 1, p.1⟩]) s.connections
    clientBitmap := c.2
    portBitmap := p.2 })

def ctrlCmdDelClient (s : State) (sqNode sqPort QMIType : ℕ) : Bytes :=
  let toNode := match findQrtrService s QMIType with
    | some srv => srv.srcNodeId
    | none => QRTR_NODE_BCAST
  enqueue (ctrlPkt QRTR_TYPE_DEL_CLIENT sqNode sqPort) QRTR_TYPE_DATA ⟨sqNode, sqPort⟩
    ⟨toNode, QRTR_PORT_CTRL⟩

/-- The client record that a request to release the pair is about. -/
def Client.Is (QMIType ClientId : ℕ) (c : Client) : Prop :=
  QMIType = c.QMIType ∧ ClientId = c.ClientId

instance (QMIType ClientId : ℕ) (c : Client) : Decidable (c.Is QMIType ClientId) :=
  inferInstanceAs (Decidable (_ ∧ _))

def releaseQrtrClientId (s : State) (fd : ℤ) (QMIType ClientId : ℕ) : State × List Out :=
  match (clientsOn fd s.connections).find? (·.Is QMIType ClientId) with
  | none => (s, [])
  | some c =>
    ({ s with
      connections := updateConnection fd (·.eraseP (·.Is QMIType ClientId)) s.connections
      clientBitmap := freeClientId s.clientBitmap c.ClientId
      portBitmap := freePortId s.portBitmap c.portId },
      [.dev (ctrlCmdDelClient s c.nodeId c.portId c.QMIType)])

def acceptQrtrConnection (s : State) (fd : ℤ) (allocated : Bool) : State :=
  if allocated then { s with connections := s.connections ++ [⟨fd, []⟩] } else s

/-- The loop of `cleanup_qrtr_connection`, which releases the first client until none is left. -/
def releaseAll (fd : ℤ) : ℕ → State → State × List Out
  | 0, s => (s, [])
  | fuel + 1, s =>
    match clientsOn fd s.connections with
    | [] => (s, [])
    | c :: _ =>
      let r := releaseQrtrClientId s fd c.QMIType c.ClientId
      let rest := releaseAll fd fuel r.1
      (rest.1, r.2 ++ rest.2)

def cleanupQrtrConnection (s : State) (fd : ℤ) : State × List Out :=
  if s.connections.any (·.clientFd = fd) then
    let r := releaseAll fd (clientsOn fd s.connections).length s
    ({ r.1 with connections := r.1.connections.eraseP (·.clientFd = fd) }, r.2)
  else (s, [])

/-! ## Messages of a client -/

/-- `QMICTLMsgHdrRsp` and what follows it, in answer to the request. -/
def ctlResponse (pQMI : Bytes) (result error : ℕ) (parameter : Bytes) : Bytes :=
  [0x01] ++ ofLe16 (21 + parameter.length) ++ [0x00, UInt8.ofNat QMUX_TYPE_CTL, 0x00]
    ++ [0x01, UInt8.ofNat (ctlTransactionId pQMI)] ++ ofLe16 (ctlType pQMI)
    ++ ofLe16 (10 + parameter.length)
    ++ tlv 0x02 (ofLe16 result ++ ofLe16 error) ++ tlv 0x01 parameter

/-- The service that a `GetClientIdReq` is for. -/
def ctlGetReqType (pQMI : Bytes) : ℕ := u8 pQMI 15

def getClientIdReq (s : State) (fd : ℤ) (pQMI : Bytes) : State × List Out :=
  let QMIType := ctlGetReqType pQMI
  let r := if (findQrtrService s QMIType).isSome then allocQrtrClientId s fd QMIType else (0, s)
  (r.2, [.client fd (ctlResponse pQMI (if r.1 = 0 then 1 else 0) (if r.1 = 0 then 3 else 0)
    [UInt8.ofNat QMIType, UInt8.ofNat r.1])])

def releaseClientIdReq (s : State) (fd : ℤ) (pQMI : Bytes) (allocated : Bool) :
    State × List Out :=
  let pair := ctlReleaseReqPair pQMI
  let r := releaseQrtrClientId s fd pair.1 pair.2
  (r.1, r.2 ++ if allocated then
    [.client fd (ctlResponse pQMI 0 0 [UInt8.ofNat pair.1, UInt8.ofNat pair.2])] else [])

/-- The length of what follows the header, a `size_t` that wraps below zero. -/
def bodyLength (pQMI : Bytes) : ℕ := (hdrLength pQMI + 1 + 2 ^ 64 - sizeofHdr) % 2 ^ 64

/-- A message for a service goes to the server that is found for it. -/
def forwardToServer (s : State) (con : Connection) (pQMI : Bytes) : List Out :=
  match con.clients.find? (·.Is (hdrQMIType pQMI) (hdrClientId pQMI)) with
  | none => []
  | some c =>
    match findQrtrService s (hdrQMIType pQMI) with
    | none => []
    | some srv =>
      if srv.service = 0 then []
      else [.dev (enqueue ((pQMI.drop sizeofHdr).take (bodyLength pQMI)) QRTR_TYPE_DATA
        ⟨c.nodeId, c.portId⟩ ⟨srv.node, srv.port⟩)]

def recvQmiFromClient (s : State) (pQMI : Bytes) (fd : ℤ) (allocated : Bool) : State × List Out :=
  match s.connections.find? (·.clientFd = fd) with
  | none => (s, [])
  | some con =>
    if hdrQMIType pQMI = QMUX_TYPE_CTL then
      if ctlType pQMI = QMICTL_SYNC_REQ then (s, [])
      else if ctlType pQMI = QMICTL_GET_CLIENT_ID_REQ then
        if allocated then getClientIdReq s fd pQMI else (s, [])
      else if ctlType pQMI = QMICTL_RELEASE_CLIENT_ID_REQ then
        releaseClientIdReq s fd pQMI allocated
      else if ctlType pQMI = QMICTL_GET_VERSION_REQ then
        (s, if allocated then [.client fd (ctlResponse pQMI 0 0 [0])] else [])
      else (s, [])
    else (s, forwardToServer s con pQMI)

/-- For a removed server a record is made too, and taken out of the list that it alone is in. -/
def handleServerChange (s : State) (hdr : Bytes) (allocated : Bool) : State :=
  if pktNode hdr ≠ nodeModem then s
  else if allocated ∧ hdrType hdr = QRTR_TYPE_NEW_SERVER then
    { s with services := s.services ++ [⟨pktService hdr, pktInstance hdr % 256,
      pktInstance hdr / 256, pktNode hdr, pktPort hdr, srcNodeId hdr, srcPortId hdr⟩] }
  else s

/-- A data packet goes to the clients that have its destination. -/
def forwardToClients (s : State) (hdr : Bytes) (allocated : Bool) : List Out :=
  if allocated then
    s.connections.flatMap fun con =>
      (con.clients.filter fun c => c.nodeId = dstNodeId hdr ∧ c.portId = dstPortId hdr).map fun c =>
        .client con.clientFd ([0x01] ++ ofLe16 (hdrSize hdr + sizeofHdr - 1)
          ++ [0x00, UInt8.ofNat c.QMIType, UInt8.ofNat c.ClientId]
          ++ (hdr.drop sizeofQrtrHdr).take (hdrSize hdr))
  else []

def resumeTx (hdr : Bytes) : List Out :=
  if confirmRx hdr = 0 then []
  else [.dev (enqueue (ctrlPkt QRTR_TYPE_RESUME_TX (dstNodeId hdr) (dstPortId hdr))
    QRTR_TYPE_RESUME_TX ⟨dstNodeId hdr, dstPortId hdr⟩ ⟨srcNodeId hdr, srcPortId hdr⟩)]

def recvQrtrFromDev (s : State) (hdr : Bytes) (allocated : Bool) : State × List Out :=
  if hdrType hdr = QRTR_TYPE_HELLO then
    (s, [.dev (enqueue (ctrlPkt QRTR_TYPE_HELLO 0 0) QRTR_TYPE_HELLO ⟨nodeMyself, QRTR_PORT_CTRL⟩
      ⟨srcNodeId hdr, srcPortId hdr⟩)])
  else if hdrType hdr = QRTR_TYPE_NEW_SERVER ∨ hdrType hdr = QRTR_TYPE_DEL_SERVER then
    (handleServerChange s hdr allocated, [])
  else if hdrType hdr = QRTR_TYPE_DATA then
    (s, forwardToClients s hdr allocated ++ resumeTx hdr)
  else (s, [])

/-- The loop that closes every connection once the device is gone. -/
def cleanupAll : ℕ → State → State × List Out
  | 0, s => (s, [])
  | fuel + 1, s =>
    match s.connections with
    | [] => (s, [])
    | con :: _ =>
      let r := cleanupQrtrConnection s con.clientFd
      let rest := cleanupAll fuel r.1
      (rest.1, r.2 ++ rest.2)

/-- What `qrtr_proxy_loop` handles: a client connects, sends a message or hangs up, the modem sends
a packet, or the device goes away and is opened again. -/
inductive Input where
  | accept (fd : ℤ) (allocated : Bool)
  | client (fd : ℤ) (pQMI : Bytes) (allocated : Bool)
  | hangup (fd : ℤ)
  | device (hdr : Bytes) (allocated : Bool)
  | reopen
  deriving DecidableEq, Repr

def handle (s : State) : Input → State × List Out
  | .accept fd allocated => (acceptQrtrConnection s fd allocated, [])
  | .client fd pQMI allocated => recvQmiFromClient s pQMI fd allocated
  | .hangup fd => cleanupQrtrConnection s fd
  | .device hdr allocated => recvQrtrFromDev s hdr allocated
  | .reopen =>
    let r := cleanupAll s.connections.length s
    ({ r.1 with services := [], connections := [] }, r.2)

def step (s : State) (i : Input) : Option State := some (handle s i).1

abbrev exec : State → List Input → Option State := Runs.exec step

/-- The ids and ports of the clients are distinct and not zero, and those that are marked are those
that a client has. -/
structure Consistent (s : State) : Prop where
  clientIds : (s.clients.map (·.ClientId)).Nodup
  clientIds_ne : ∀ c ∈ s.clients, c.ClientId ≠ 0
  portIds : (s.clients.map (·.portId)).Nodup
  portIds_ne : ∀ c ∈ s.clients, c.portId ≠ 0
  clientMarks : ∀ id < sizeofClientBitmap,
    (s.clientBitmap id ≠ 0 ↔ ∃ c ∈ s.clients, c.ClientId = id)
  portMarks : ∀ id < sizeofPortBitmap, (s.portBitmap id ≠ 0 ↔ ∃ c ∈ s.clients, c.portId = id)
  empty : s.connections = [] → ∀ id, s.clientBitmap id = 0 ∧ s.portBitmap id = 0

def IsGetClientId (pQMI : Bytes) : Prop :=
  hdrQMIType pQMI = QMUX_TYPE_CTL ∧ ctlType pQMI = QMICTL_GET_CLIENT_ID_REQ

/-- The input is a request for a client id, and it is answered with a failure. -/
def Refused (s : State) (i : Input) : Prop :=
  ∃ fd pQMI allocated rsp, i = .client fd pQMI allocated ∧ IsGetClientId pQMI
    ∧ .client fd rsp ∈ (handle s i).2 ∧ ctlResult rsp ≠ 0

def HasFreeId (s : State) : Prop :=
  ∃ id ∈ List.range' 1 (sizeofClientBitmap - 1), s.clientBitmap id = 0

/-- A client id of a service that the modem has announced is asked for only while one is free. -/
def Supplied (s : State) : Input → Prop
  | .client _ pQMI _ =>
    IsGetClientId pQMI → (findQrtrService s (ctlGetReqType pQMI)).isSome → HasFreeId s
  | _ => True

/-! ## The servers over a run -/

/-- A server of the modem: service, node and port. -/
abbrev Server := ℕ × ℕ × ℕ

def Service.server (srv : Service) : Server := (srv.service, srv.node, srv.port)

def pktServer (hdr : Bytes) : Server := (pktService hdr, pktNode hdr, pktPort hdr)

/-- The proxy, and the servers of the modem node that were announced and not since removed. -/
structure Tracked where
  proxy : State
  live : List Server

def Tracked.init : Tracked := ⟨.init, []⟩

def track (live : List Server) : Input → List Server
  | .device hdr _ =>
    if pktNode hdr ≠ nodeModem then live
    else if hdrType hdr = QRTR_TYPE_NEW_SERVER then pktServer hdr :: live
    else if hdrType hdr = QRTR_TYPE_DEL_SERVER then live.filter (· ≠ pktServer hdr)
    else live
  | .reopen => []
  | _ => live

def trackedStep (t : Tracked) (i : Input) : Option Tracked :=
  some ⟨(handle t.proxy i).1, track t.live i⟩

/-- Every service has a record if and only if it has a server, and the record is one of a
server; what a client sends to a service goes to a server of that service. -/
structure TableAgrees (t : Tracked) : Prop where
  found : ∀ QMIType < 256, (findQrtrService t.proxy QMIType).isSome
    ↔ ∃ srv ∈ t.live, srv.1 = QMIType
  names : ∀ QMIType < 256, ∀ srv ∈ findQrtrService t.proxy QMIType, srv.server ∈ t.live
  sent : ∀ fd pQMI allocated packet, hdrQMIType pQMI ≠ QMUX_TYPE_CTL →
    .dev packet ∈ (recvQmiFromClient t.proxy pQMI fd allocated).2 →
      (hdrQMIType pQMI, dstNodeId packet, dstPortId packet) ∈ t.live

/-- The server of a service that was announced first is not removed, and the record of the first
server of a service is made. -/
def FirstStays (t : Tracked) : Input → Prop
  | .device hdr allocated => pktNode hdr = nodeModem → pktService hdr < 256 →
    (hdrType hdr = QRTR_TYPE_NEW_SERVER →
      allocated ∨ (findQrtrService t.proxy (pktService hdr)).isSome)
    ∧ (hdrType hdr = QRTR_TYPE_DEL_SERVER →
      ∀ srv ∈ findQrtrService t.proxy (pktService hdr), srv.port ≠ pktPort hdr)
  | _ => True

end QrtrProxy

end BananaWrt
