import BananaWrt.QmiMsg

/-!
# The QMI proxy

`quectel-qmi-proxy.c` shares one `cdc-wdm` device between several local clients. It keeps a list
of connections, each with the client ids it was granted, and a queue of the control requests
whose answers it still waits for. A control answer carries nothing that names its client, so it
is given to the owner of the head of the queue.

The writes a function makes are its output: `cdcWdm` for `send_qmi_to_cdc_wdm`, `client` for
`send_qmi_to_client`. The fields `con` and `tag` say which connection and which request a record
stands for; the code has no such fields, and nothing here decides by them.
-/

namespace BananaWrt

namespace QmiProxy

open Bytes Qmi

/-- A control request: the connection it came in on, and its number among all requests. -/
structure Tag where
  con : ℕ
  seq : ℕ
  deriving DecidableEq, Repr

/-- `QMI_PROXY_CLINET`, a `(QMIType, ClientId)` pair. -/
abbrev Client := ℕ × ℕ

structure Connection where
  clientFd : ℕ
  clients : List Client
  con : ℕ
  deriving DecidableEq, Repr

structure Msg where
  clientFd : ℕ
  qmi : Bytes
  tag : Tag
  deriving DecidableEq, Repr

structure Proxy where
  serverFd : ℤ
  connections : List Connection
  ctlMsg : List Msg
  syncDone : Bool
  modemResetFlag : Bool
  deriving DecidableEq, Repr

/-- A write: to the device, with the control request it is if it is one, or to a client. -/
inductive Out where
  | cdcWdm (qmi : Bytes) (tag : Option Tag)
  | client (clientFd con : ℕ) (qmi : Bytes)
  deriving DecidableEq, Repr

/-- The bytes that `send_qmi_to_cdc_wdm` and `send_qmi_to_client` write: `QMIHdr.Length + 1`
bytes from where the message starts. -/
def wire (pQMI : Bytes) : Bytes := pQMI.take (hdrLength pQMI + 1)

def acceptQmiConnection (p : Proxy) (clientfd con : ℕ) : Proxy :=
  { p with connections := p.connections ++ [⟨clientfd, [], con⟩] }

/-- Closes the first connection on `clientfd`. Of its pending control requests only the first is
taken off the queue: the inner loop leaves at the first match. -/
def cleanupQmiConnection (p : Proxy) (clientfd : ℕ) : Proxy :=
  if p.connections.any (·.clientFd = clientfd) then
    { p with
      connections := p.connections.eraseP (·.clientFd = clientfd)
      ctlMsg := p.ctlMsg.eraseP (·.clientFd = clientfd) }
  else p

def getClientId (qmiCon : Connection) (pQMI : Bytes) : Connection :=
  if ctlResult pQMI = 0 ∧ ctlError pQMI = 0 then
    { qmiCon with clients := qmiCon.clients ++ [ctlRspPair pQMI] }
  else qmiCon

def releaseClientId (qmiCon : Connection) (pQMI : Bytes) : Connection :=
  if ctlResult pQMI = 0 ∧ ctlError pQMI = 0 then
    { qmiCon with clients := qmiCon.clients.erase (ctlRspPair pQMI) }
  else qmiCon

def settleClients (qmiCon : Connection) (pQMI : Bytes) : Connection :=
  if ctlType pQMI = QMICTL_GET_CLIENT_ID_RESP then getClientId qmiCon pQMI
  else if ctlType pQMI = QMICTL_RELEASE_CLIENT_ID_RESP
      ∨ ctlType pQMI = QMICTL_REVOKE_CLIENT_ID_IND then releaseClientId qmiCon pQMI
  else qmiCon

/-- A control answer goes to the connection on the descriptor of the queue's head, and the head
is taken off. -/
def answerHead (p : Proxy) (pQMI : Bytes) : Proxy × List Out :=
  match p.ctlMsg with
  | [] => (p, [])
  | qmiMsg :: rest =>
    ({ p with
        connections := p.connections.map fun qmiCon =>
          if qmiCon.clientFd = qmiMsg.clientFd then settleClients qmiCon pQMI else qmiCon
        ctlMsg := rest
        modemResetFlag := p.modemResetFlag ||
          (p.connections.any (·.clientFd = qmiMsg.clientFd)
            && ctlType pQMI = QMICTL_REVOKE_CLIENT_ID_IND) },
      (p.connections.filter (·.clientFd = qmiMsg.clientFd)).map fun qmiCon =>
        .client qmiMsg.clientFd qmiCon.con (wire pQMI))

/-- The head of the queue is written to the device if its connection is still there. -/
def sendHead (p : Proxy) : List Out :=
  match p.ctlMsg with
  | [] => []
  | qmiMsg :: _ => (p.connections.filter (·.clientFd = qmiMsg.clientFd)).map fun _ =>
      .cdcWdm (wire qmiMsg.qmi) (some qmiMsg.tag)

/-- A service message goes to each connection once for each of its clients it is for. -/
def forwardMux (p : Proxy) (pQMI : Bytes) : List Out :=
  p.connections.flatMap fun qmiCon =>
    (qmiCon.clients.filter fun qmiClient => hdrQMIType pQMI = qmiClient.1
        ∧ (hdrClientId pQMI = 0 ∨ hdrClientId pQMI = qmiClient.2)).map fun _ =>
      .client qmiCon.clientFd qmiCon.con (wire pQMI)

def recvQmiFromDev (p : Proxy) (pQMI : Bytes) : Proxy × List Out :=
  if p.serverFd = -1 then ({ p with syncDone := true }, [])
  else if hdrQMIType pQMI = QMUX_TYPE_CTL then
    let (p', out) :=
      if ctlFlags pQMI = QMICTL_CTL_FLAG_RSP then answerHead p pQMI else (p, [])
    (p', out ++ sendHead p')
  else (p, forwardMux p pQMI)

def recvQmiFromClient (p : Proxy) (pQMI : Bytes) (size clientfd : ℕ) (tag : Tag) :
    Proxy × List Out :=
  if p.serverFd ≤ 0 then (p, [.cdcWdm (wire pQMI) none])
  else if hdrQMIType pQMI = QMUX_TYPE_CTL then
    if ctlType pQMI = QMICTL_SYNC_REQ then (p, [])
    else
      ({ p with ctlMsg := p.ctlMsg ++ [⟨clientfd, pQMI.take size, tag⟩] },
        if p.ctlMsg.isEmpty then [.cdcWdm (wire pQMI) (some tag)] else [])
  else (p, [.cdcWdm (wire pQMI) none])

/-! A read returns up to `sizeof(qmi_buf)` bytes into `qmi_buf`, on top of whatever the last read on
any descriptor left there. -/

def sizeofQmiBuf : ℕ := 4096

/-- One read of `qmi_proxy_loop` from a client: the buffer and the size it hands to
`recv_qmi_from_client`, nothing if the header's length is not the length of the read. -/
def readClient (qmiBuf chunk : Bytes) : Option (Bytes × ℕ) :=
  let pQMI := overlay chunk qmiBuf
  if chunk.length ≠ hdrLength pQMI + 1 then none else some (pQMI, chunk.length)

/-- The messages handed to `recv_qmi_from_client` for the reads from a client, each given by what
`qmi_buf` held before it and what it returned. -/
def handed (reads : List (Bytes × Bytes)) : List Bytes :=
  reads.filterMap fun r => (readClient r.1 r.2).map fun msg => msg.1.take msg.2

end QmiProxy

end BananaWrt
