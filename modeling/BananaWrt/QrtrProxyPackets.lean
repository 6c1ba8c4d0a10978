import BananaWrt.QrtrProxy

/-!
# The QRTR proxy's packets with every copy checked

`recv_qmi_from_client` and `qrtr_node_enqueue` once more, with no result where `memcpy` leaves the
receive buffer or the packet that was allocated. The receive buffer is what lies in `rx_buf`, of
which the last read filled the front.
-/

namespace BananaWrt

namespace QrtrProxy

open Bytes Qmi

/-- `qrtr_node_enqueue` of `len` bytes at `off` in the receive buffer; sizes wrap as `size_t`. -/
def enqueueFrom (rx : Bytes) (off len type : ℕ) (src dst : Addr) : Option Bytes :=
  let size := (sizeofQrtrHdr + len) % 2 ^ 64
  if sizeofQrtrHdr + len ≤ align4 size ∧ off + len ≤ rx.length then
    some (enqueue ((rx.drop off).take len) type src dst)
  else none

def forwardChecked (s : State) (con : Connection) (pQMI : Bytes) : Option (List Out) :=
  match con.clients.find? (·.Is (hdrQMIType pQMI) (hdrClientId pQMI)) with
  | none => some []
  | some c =>
    match findQrtrService s (hdrQMIType pQMI) with
    | none => some []
    | some srv =>
      if srv.service = 0 then some []
      else (enqueueFrom pQMI sizeofHdr (bodyLength pQMI) QRTR_TYPE_DATA ⟨c.nodeId, c.portId⟩
        ⟨srv.node, srv.port⟩).map fun packet => [.dev packet]

/-- What is sent for a message that is not a control message. -/
def recvQmiChecked (s : State) (pQMI : Bytes) (fd : ℤ) : Option (List Out) :=
  match s.connections.find? (·.clientFd = fd) with
  | none => some []
  | some con => forwardChecked s con pQMI

/-- What follows the header of a packet. -/
def payload (packet : Bytes) : Bytes := (packet.drop sizeofQrtrHdr).take (hdrSize packet)

/-- What follows the header in the message that was read. -/
def body (pQMI : Bytes) : Bytes := (pQMI.take (hdrLength pQMI + 1)).drop sizeofHdr

/-- The message is for this client of the connection, and a server is known for its service. -/
def Addressed (s : State) (fd : ℤ) (pQMI : Bytes) (c : Client) : Prop :=
  (∃ con ∈ s.connections.find? (·.clientFd = fd),
      c ∈ con.clients.find? (·.Is (hdrQMIType pQMI) (hdrClientId pQMI)))
    ∧ ∃ srv ∈ findQrtrService s (hdrQMIType pQMI), srv.service ≠ 0

/-- A data packet from the client's port that carries the bytes. -/
structure Carried (packet : Bytes) (c : Client) (data : Bytes) : Prop where
  type : hdrType packet = QRTR_TYPE_DATA
  node : srcNodeId packet = c.nodeId
  port : srcPortId packet = c.portId
  size : hdrSize packet = data.length
  data : payload packet = data

/-- The message is dropped, or one data packet is sent from the client's port with exactly the
bytes after the header. -/
def Encapsulated (s : State) (fd : ℤ) (pQMI : Bytes) : Prop :=
  ∃ outs, recvQmiChecked s pQMI fd = some outs ∧ (outs = [] ∨ ∃ c packet,
    Addressed s fd pQMI c ∧ outs = [.dev packet] ∧ Carried packet c (body pQMI))

/-- A message for the client with its type and id, its own length and the bytes as its body. -/
structure Delivered (msg : Bytes) (c : Client) (data : Bytes) : Prop where
  type : hdrQMIType msg = c.QMIType
  id : hdrClientId msg = c.ClientId
  length : hdrLength msg + 1 = msg.length
  data : body msg = data

/-- The clients that have the port, with the connections they are on. -/
def holders (s : State) (port : ℕ) : List (ℤ × Client) :=
  s.connections.flatMap fun con =>
    (con.clients.filter fun c => c.portId = port).map fun c => (con.clientFd, c)

/-- Of the messages for clients that a packet leads to, there is one, to the client on `fd`. -/
def Decapsulated (s : State) (hdr : Bytes) (fd : ℤ) (c : Client) : Prop :=
  ∃ msg, (recvQrtrFromDev s hdr true).2 = .client fd msg :: resumeTx hdr
    ∧ Delivered msg c (payload hdr)

end QrtrProxy

end BananaWrt
