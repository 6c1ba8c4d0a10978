import BananaWrt.QmiRequests
import Mathlib.Data.Finset.Option

/-!
# The client ids of `QmiWwanCM.c`

`QmiWwanInit` asks the modem for one client id per service and keeps them in `qmiclientId`;
`QmiWwanDeInit` gives them back. The modem has a set of `(service, id)` pairs that are allocated:
a request for an id may add a pair that is not in it, and a release takes out the pair that it
names.
-/

namespace BananaWrt

namespace QmiWwanCM

open Bytes Tlv Qmi QmiThread QmiRequests

/-- The fields of `PROFILE_T` that `QmiWwanInit` uses. -/
structure Profile where
  proxy : Bytes
  qmichannel : Bytes
  qmapMode : ℤ
  qmapVersion : ℤ
  enableIpv6 : Bool
  wdaClient : ℤ
  deriving DecidableEq, Repr

/-- `qmiclientId`, of which the entries below `QMUX_TYPE_ALL` exist. -/
abbrev Table := UInt8 → UInt8

/-- `LIBQMI_PROXY`, which is `"qmi-proxy"`. -/
def libqmiProxy : Bytes := [0x71, 0x6D, 0x69, 0x2D, 0x70, 0x72, 0x6F, 0x78, 0x79]

def ctlGetVersionReq : Bytes := tlv 0x01 [UInt8.ofNat QMUX_TYPE_ALL]

def ctlGetClientIdReq (QMIType : UInt8) : Bytes := tlv 0x01 [QMIType]

def ctlReleaseClientIdReq (QMIType ClientId : UInt8) : Bytes := tlv 0x01 [QMIType, ClientId]

def ctlLibQmiProxyOpenReq (devicePath : Bytes) : Bytes := tlv 0x01 devicePath

def libqmiProxyOpen (cdcWdm : Bytes) : Calls Request Reply ℤ :=
  .call (.ctl QMI_MESSAGE_CTL_INTERNAL_PROXY_OPEN (ctlLibQmiProxyOpenReq cdcWdm)) fun r =>
    match r.response with
    | some b => .ret (if r.err = 0 ∧ ctlResult b = 0 ∧ ctlError b = 0 then 0 else -1)
    | none => .ret (-1)

/-- The client id that the response grants for the service, zero if it grants none. -/
def clientIdOf (QMIType : UInt8) (r : Reply) : UInt8 :=
  match r.response with
  | some b =>
    if ctlResult b = 0 ∧ ctlError b = 0 ∧ QMIType.toNat = (ctlRspPair b).1 then
      UInt8.ofNat (ctlRspPair b).2
    else 0
  | none => 0

def qmiWwanGetClientID (QMIType : UInt8) : Calls Request Reply UInt8 :=
  .call (.ctl QMICTL_GET_CLIENT_ID_REQ (ctlGetClientIdReq QMIType)) fun r =>
    .ret (clientIdOf QMIType r)

/-- The attempts at `QMICTL_SYNC_REQ` that are left, after one that returned `ret`. -/
def syncLoop : ℕ → ℤ → Calls Request Reply ℤ
  | 0, ret => .ret ret
  | n + 1, _ =>
    .call (.ctl QMICTL_SYNC_REQ []) fun r => if r.err = 0 then .ret 0 else syncLoop n r.err

/-- The minor version of the WDA service, of the elements of `TypeVersion` from 23 on. -/
def readVersion (p : Profile) (b : Bytes) : Profile :=
  (List.range (u8 b 22)).foldl
    (fun p n =>
      if u8 b (23 + 5 * n) = QMUX_TYPE_WDS_ADMIN then
        { p with qmapVersion := if 16 < le16 b (23 + 5 * n + 3) then 1 else 0 }
      else p) p

def getVersion (p : Profile) : Calls Request Reply Profile :=
  .call (.ctl QMICTL_GET_VERSION_REQ ctlGetVersionReq) fun r =>
    match r.response with
    | some b =>
      .ret (if p.qmapMode ≠ 0 ∧ ctlResult b = 0 ∧ ctlError b = 0 then readVersion p b else p)
    | none => .ret p

/-- An entry of `qmiclientId` and the service that the id in it is asked of. -/
structure Client where
  slot : UInt8
  service : UInt8
  deriving DecidableEq, Repr

def Client.of (QMIType : ℕ) : Client := ⟨UInt8.ofNat QMIType, UInt8.ofNat QMIType⟩

/-- The second client of WDS is kept under the number of a service that the modem does not have. -/
def Client.wdsIpv6 : Client := ⟨UInt8.ofNat QMUX_TYPE_WDS_IPV6, UInt8.ofNat QMUX_TYPE_WDS⟩

/-- The client ids that are asked for, in order. -/
def clients (enableIpv6 : Bool) : List Client :=
  [.of QMUX_TYPE_WDS] ++ (if enableIpv6 then [.wdsIpv6] else [])
    ++ [.of QMUX_TYPE_DMS, .of QMUX_TYPE_NAS, .of QMUX_TYPE_UIM, .of QMUX_TYPE_WDS_ADMIN]

def getClientIDs : List Client → Table → Calls Request Reply Table
  | [], t => .ret t
  | c :: cs, t => (qmiWwanGetClientID c.service).bind fun id =>
    getClientIDs cs (Function.update t c.slot id)

/-- The part before the client ids: the value that `QmiWwanInit` returns if it is not zero. -/
def openDevice (p : Profile) : Calls Request Reply ℤ :=
  (if p.proxy = libqmiProxy then libqmiProxyOpen p.qmichannel else .ret 0).bind fun ret =>
    if ret ≠ 0 then .ret ret else if p.proxy = [] then syncLoop 10 0 else .ret 0

def qmiWwanInit (p : Profile) (t : Table) : Calls Request Reply (ℤ × Profile × Table) :=
  (openDevice p).bind fun ret =>
    if ret ≠ 0 then .ret (ret, p, t)
    else
      (getVersion p).bind fun p =>
        (getClientIDs (clients p.enableIpv6) t).map fun t =>
          (0, { p with wdaClient := (t (UInt8.ofNat QMUX_TYPE_WDS_ADMIN)).toNat }, t)

def qmiWwanReleaseClientID (QMIType ClientId : UInt8) : Calls Request Reply ℤ :=
  .call (.ctl QMICTL_RELEASE_CLIENT_ID_REQ (ctlReleaseClientIdReq QMIType ClientId)) fun _ =>
    .ret 0

def deInitLoop : List UInt8 → Table → Calls Request Reply Table
  | [], t => .ret t
  | i :: is, t =>
    if t i ≠ 0 then
      (qmiWwanReleaseClientID i (t i)).bind fun _ => deInitLoop is (Function.update t i 0)
    else deInitLoop is t

/-- The indices of `qmiclientId`. -/
def slots : List UInt8 := (List.range QMUX_TYPE_ALL).map UInt8.ofNat

def qmiWwanDeInit (t : Table) : Calls Request Reply Table := deInitLoop slots t

/-- `QmiWwanInit` and `QmiWwanDeInit` after it. -/
def initDeInit (p : Profile) (t : Table) : Calls Request Reply (ℤ × Table) :=
  (qmiWwanInit p t).bind fun x => (qmiWwanDeInit x.2.2).map fun t => (x.1, t)

/-- What became of a request for a client id: the id that the modem allocated for it, if any, and
what came back to the program. -/
structure Outcome where
  granted : Option UInt8
  reply : Reply
  deriving DecidableEq, Repr

def Outcome.pairs (service : UInt8) (o : Outcome) : Finset (UInt8 × UInt8) :=
  (o.granted.map (service, ·)).toFinset

/-- An id is allocated at most once at a time, and the response tells of no other one. The response
may be lost, or tell of none. -/
structure Outcome.Allowed (ids : Finset (UInt8 × UInt8)) (service : UInt8) (o : Outcome) :
    Prop where
  fresh : ∀ id ∈ o.granted, (service, id) ∉ ids
  told : clientIdOf service o.reply ≠ 0 → o.granted = some (clientIdOf service o.reply)

/-- The pairs that are allocated, and what became of the requests for ids so far. -/
structure Modem where
  ids : Finset (UInt8 × UInt8)
  outcomes : List Outcome

/-- The required parameter of a control request. -/
def parameter (tlvs : Bytes) : Bytes := ((decode tlvs).lookup 0x01).getD []

def Serves (m : Modem) : Request → Reply → Modem → Prop
  | .ctl QMICTLType tlvs, r, m' =>
    if QMICTLType = QMICTL_GET_CLIENT_ID_REQ then
      ∃ o : Outcome, o.reply = r ∧ o.Allowed m.ids ((parameter tlvs).getD 0 0)
        ∧ m' = ⟨m.ids ∪ o.pairs ((parameter tlvs).getD 0 0), m.outcomes ++ [o]⟩
    else if QMICTLType = QMICTL_RELEASE_CLIENT_ID_REQ then
      m' = { m with ids := m.ids.erase ((parameter tlvs).getD 0 0, (parameter tlvs).getD 1 0) }
    else m' = m
  | .mux _ _ _, _, m' => m' = m

/-- The id that the modem allocates for the request is the one that `QmiWwanDeInit` gives back: it
is told to the program, and the service it is kept under is its own. -/
def Returned (c : Client) (o : Outcome) : Prop :=
  ∀ id ∈ o.granted, c.slot = c.service ∧ id ≠ 0 ∧ clientIdOf c.service o.reply = id

instance (c : Client) (o : Outcome) : Decidable (Returned c o) :=
  Option.decidableForallMem o.granted

/-- An entry that `QmiWwanInit` did not set names no id that is allocated. -/
def Unused (ids : Finset (UInt8 × UInt8)) (t : Table) (set : List Client) : Prop :=
  ∀ i ∈ slots, i ∉ set.map Client.slot → t i ≠ 0 → (i, t i) ∉ ids

end QmiWwanCM

end BananaWrt
