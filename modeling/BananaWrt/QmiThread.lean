import BananaWrt.Lib.Counter
import BananaWrt.Lib.Run
import BananaWrt.QmiMsg

/-!
# Requests and answers of `quectel-CM`

`QmiThreadSendQMITimeout` puts its request into `s_pRequest`, writes it and waits on a condition
variable. The reader thread calls `QmiThreadRecvQMI` for every message of the device, and for a
message that `is_response` takes for the answer puts a copy into `s_pResponse` and signals. Both
hold `cm_command_mutex`, so between them a run is a list of steps: a send up to the wait, the
receipt of a message, the receipt of `NULL` when the reader thread quits or polls out, the
wake-up and the time-out of the waiting call. Only the main thread sends, so there is at most one
waiting call.

A message carries where it comes from (`Origin`): it answers a certain call, or it is an
indication. The code knows nothing of this.
-/

namespace BananaWrt

namespace QmiThread

open Bytes Qmi

def ENODEV : ℤ := 19
def EINVAL : ℤ := 22

/-- What a request is composed from: `QMIType`, message type and the TLVs that the custom function
fills in. -/
inductive Request where
  | mux (QMIType : UInt8) (msgType : ℕ) (tlvs : Bytes)
  | ctl (QMICTLType : ℕ) (tlvs : Bytes)
  deriving DecidableEq, Repr

/-- A QMUX request for the control service, which no caller composes. -/
def Request.IsCtlMux : Request → Prop
  | .mux QMIType _ _ => QMIType = 0
  | .ctl _ _ => False

instance : DecidablePred Request.IsCtlMux
  | .mux _ _ _ => inferInstanceAs (Decidable (_ = _))
  | .ctl _ _ => .isFalse id

def getQMUXTransactionId (TransactionId : ℕ) : ℕ := Counter.next 0xFFFF TransactionId

def getQCTLTransactionId (TransactionId : ℕ) : ℕ := Counter.next 0xFF TransactionId

def composeQMUXMsg (QMIType : UInt8) (msgType TransactionId : ℕ) (tlvs : Bytes) : Bytes :=
  [1] ++ ofLe16 (tlvs.length + 12) ++ [0, QMIType, 0] ++ [0] ++ ofLe16 TransactionId
    ++ ofLe16 msgType ++ ofLe16 tlvs.length ++ tlvs

def composeQCTLMsg (QMICTLType TransactionId : ℕ) (tlvs : Bytes) : Bytes :=
  [1] ++ ofLe16 (tlvs.length + 11) ++ [0, 0, 0] ++ [0, UInt8.ofNat TransactionId]
    ++ ofLe16 QMICTLType ++ ofLe16 tlvs.length ++ tlvs

/-- What the system calls of `QmiWwanSendQMI` find: whether `cdc_wdm_fd` is open, what `poll`
returns and whether it reports `POLLOUT`, and what `write` returns. -/
structure Dev where
  isOpen : Bool
  pollRet : ℤ
  pollOut : Bool
  writeRet : ℤ
  deriving DecidableEq, Repr

/-- The end of `QmiWwanSendQMI`. If the device is not ready for writing, nothing is written and
the value of `poll` is returned, zero on a time-out. -/
def pollAndWrite (dev : Dev) (pRequest : Bytes) : ℤ :=
  if dev.pollOut then
    if dev.writeRet = hdrLength pRequest + 1 then 0 else dev.writeRet
  else dev.pollRet

/-- What `QmiWwanSendQMI` returns, and the request as it leaves it. `clientId` is the entry of
`qmiclientId` for the request's `QMIType`. -/
def qmiWwanSendQMI (dev : Dev) (clientId : UInt8) (pRequest : Bytes) : ℤ × Bytes :=
  if dev.isOpen = false then (-ENODEV, pRequest)
  else if hdrQMIType pRequest ≠ QMUX_TYPE_CTL then
    let owned := pRequest.set 5 clientId
    if clientId = 0 then (-ENODEV, owned)
    else
      let sent :=
        if hdrQMIType pRequest = QMUX_TYPE_WDS_IPV6 then owned.set 4 (UInt8.ofNat QMUX_TYPE_WDS)
        else owned
      (pollAndWrite dev sent, sent)
  else (pollAndWrite dev pRequest, pRequest)

def transactionId (b : Bytes) : ℕ :=
  if hdrQMIType b = QMUX_TYPE_CTL then ctlTransactionId b else muxTransactionId b

def isResponse (pRequest pResponse : Bytes) : Bool :=
  if hdrQMIType pRequest = hdrQMIType pResponse ∧ hdrClientId pRequest = hdrClientId pResponse then
    if hdrQMIType pRequest = QMUX_TYPE_CTL then
      ctlTransactionId pRequest = ctlTransactionId pResponse
    else muxTransactionId pRequest = muxTransactionId pResponse
  else false

def IsRsp (b : Bytes) : Prop :=
  if hdrQMIType b = QMUX_TYPE_CTL then ctlFlags b = QMICTL_CTL_FLAG_RSP
  else muxCtlFlags b &&& QMUX_CTL_FLAG_MASK_TYPE = QMUX_CTL_FLAG_TYPE_RSP

instance : DecidablePred IsRsp := fun _ => inferInstanceAs (Decidable (ite _ _ _))

def IsInd (b : Bytes) : Prop :=
  if hdrQMIType b = QMUX_TYPE_CTL then ctlFlags b = QMICTL_CTL_FLAG_IND
  else muxCtlFlags b &&& QMUX_CTL_FLAG_MASK_TYPE = QMUX_CTL_FLAG_TYPE_IND

instance : DecidablePred IsInd := fun _ => inferInstanceAs (Decidable (ite _ _ _))

inductive MainEvent where
  | modemReset
  | networkStateChanged
  | dataCallListChanged
  | loopbackConfig
  deriving DecidableEq, Repr

def eventOf (pResponse : Bytes) : Option MainEvent :=
  if hdrQMIType pResponse = QMUX_TYPE_CTL ∧ ctlType pResponse = QMICTL_REVOKE_CLIENT_ID_IND then
    some .modemReset
  else if hdrQMIType pResponse = QMUX_TYPE_NAS
      ∧ muxType pResponse = QMINAS_SERVING_SYSTEM_IND then some .networkStateChanged
  else if hdrQMIType pResponse = QMUX_TYPE_WDS
      ∧ muxType pResponse = QMIWDS_GET_PKT_SRVC_STATUS_IND then some .dataCallListChanged
  else if hdrQMIType pResponse = QMUX_TYPE_NAS ∧ muxType pResponse = QMINAS_SYS_INFO_IND then
    some .networkStateChanged
  else if hdrQMIType pResponse = QMUX_TYPE_WDS_ADMIN
      ∧ muxType pResponse = QMI_WDA_SET_LOOPBACK_CONFIG_IND then some .loopbackConfig
  else none

inductive Origin where
  | response (call : ℕ)
  | indication
  deriving DecidableEq, Repr

structure Received where
  msg : Bytes
  origin : Origin
  deriving DecidableEq, Repr

/-- A call of `QmiThreadSendQMITimeout` that got as far as `qmidev_send`: its number, its request
as sent, and how many ids of its counter had been drawn with its own. -/
structure Call where
  number : ℕ
  request : Bytes
  serial : ℕ
  deriving DecidableEq, Repr

/-- What a call returned, and what it put into `*ppResponse`. A call without a request has no
number. -/
structure Return where
  call : Option ℕ
  err : ℤ
  response : Option Received
  deriving DecidableEq, Repr

structure World where
  sRequest : Option Bytes
  sResponse : Option Received
  qmuxId : ℕ
  qctlId : ℕ
  qmuxDrawn : ℕ
  qctlDrawn : ℕ
  calls : List Call
  /-- The waiting call, and whether its caller gave a `ppResponse`. -/
  waiting : Option (Call × Bool)
  returned : List Return
  posted : List MainEvent
  deriving DecidableEq, Repr

def World.init : World where
  sRequest := none
  sResponse := none
  qmuxId := 0
  qctlId := 0
  qmuxDrawn := 0
  qctlDrawn := 0
  calls := []
  waiting := none
  returned := []
  posted := []

inductive Input where
  /-- A call, up to the wait. `alloc` says whether the request could be allocated, `pp` whether
  `ppResponse` was given. -/
  | send (req : Request) (alloc : Bool) (clientId : UInt8) (dev : Dev) (pp : Bool)
  /-- A message of the device. `alloc` says whether the copy could be allocated. -/
  | recv (msg : Bytes) (origin : Origin) (alloc : Bool)
  | recvNull
  | wake
  | timeout (err : ℤ)
  deriving DecidableEq, Repr

def World.compose (w : World) : Request → World × Bytes
  | .mux QMIType msgType tlvs =>
    ({ w with qmuxId := getQMUXTransactionId w.qmuxId, qmuxDrawn := w.qmuxDrawn + 1 },
      composeQMUXMsg QMIType msgType (getQMUXTransactionId w.qmuxId) tlvs)
  | .ctl QMICTLType tlvs =>
    ({ w with qctlId := getQCTLTransactionId w.qctlId, qctlDrawn := w.qctlDrawn + 1 },
      composeQCTLMsg QMICTLType (getQCTLTransactionId w.qctlId) tlvs)

def World.drawn (w : World) (b : Bytes) : ℕ :=
  if hdrQMIType b = QMUX_TYPE_CTL then w.qctlDrawn else w.qmuxDrawn

/-- `QmiThreadSendQMITimeout` up to the wait, with a request that was allocated. -/
def World.send (w : World) (pRequest : Bytes) (clientId : UInt8) (dev : Dev) (pp : Bool) : World :=
  let r := qmiWwanSendQMI dev clientId pRequest
  let call : Call := ⟨w.calls.length, r.2, w.drawn r.2⟩
  let w' := { w with sRequest := some r.2, sResponse := none, calls := w.calls ++ [call] }
  if r.1 = 0 then { w' with waiting := some (call, pp) }
  else { w' with returned := w.returned ++ [⟨some call.number, r.1, none⟩] }

/-- A call, up to the wait: `QmiThreadSendQMITimeout` refuses a `NULL` request. -/
def World.call (w : World) (req : Request) (alloc : Bool) (clientId : UInt8) (dev : Dev)
    (pp : Bool) : World :=
  let r := w.compose req
  if alloc then r.1.send r.2 clientId dev pp
  else { r.1 with returned := r.1.returned ++ [⟨none, -EINVAL, none⟩] }

def World.recv (w : World) (pResponse : Bytes) (origin : Origin) (alloc : Bool) : World :=
  if w.sRequest.any (isResponse · pResponse) then
    { w with
      sRequest := none
      sResponse :=
        if alloc then some ⟨pResponse.take (hdrLength pResponse + 1), origin⟩ else none }
  else { w with posted := w.posted ++ (eventOf pResponse).toList }

def World.recvNull (w : World) : World :=
  if w.sRequest.isSome then { w with sRequest := none, sResponse := none } else w

/-- The messages the device can send: an answer has the type, the client and the id of its
request. -/
def World.CanReceive (w : World) (msg : Bytes) : Origin → Prop
  | .response n => IsRsp msg ∧ ∃ c ∈ w.calls[n]?, isResponse c.request msg = true
  | .indication => IsInd msg

instance (w : World) (msg : Bytes) : ∀ origin, Decidable (w.CanReceive msg origin)
  | .response _ => inferInstanceAs (Decidable (_ ∧ ∃ c ∈ _, _))
  | .indication => inferInstanceAs (Decidable (IsInd _))

/-- One step. The reader thread hands on only messages of the length their header gives. -/
def step (w : World) : Input → Option World
  | .send req alloc clientId dev pp =>
    if w.waiting.isSome ∨ req.IsCtlMux then none else some (w.call req alloc clientId dev pp)
  | .recv msg origin alloc =>
    if msg.length = hdrLength msg + 1 ∧ w.CanReceive msg origin then
      some (w.recv msg origin alloc)
    else none
  | .recvNull => some w.recvNull
  | .wake => w.waiting.map fun c =>
    { w with
      waiting := none
      sResponse := if c.2 then w.sResponse else none
      returned := w.returned ++ [⟨some c.1.number, 0, if c.2 then w.sResponse else none⟩] }
  | .timeout err =>
    if err = 0 then none
    else w.waiting.map fun c =>
      { w with waiting := none, returned := w.returned ++ [⟨some c.1.number, err, none⟩] }

abbrev run (is : List Input) : Option World := Runs.exec step World.init is

end QmiThread

end BananaWrt
