import BananaWrt.Lib.Calls
import BananaWrt.QmiThread

/-!
# The request operations of `qmi_request_ops`

An operation composes a request, hands it to `QmiThreadSendQMITimeout` and acts on what comes
back. It is a program of `Calls`: a call is a request, a reply is the value returned by
`QmiThreadSendQMITimeout` with what it put into `pResponse`. The operations share the static
variables of `QMIThread.c` and the profile (`State`). A value returned through a pointer stands
before the state in the result.

What an operation only logs (country and network codes, call end reasons, the name of the data
class) is left out.
-/

namespace BananaWrt

namespace QmiRequests

open Bytes Qmi QmiThread

inductive IpFamily where
  | v4
  | v6
  deriving DecidableEq, Repr

def IpFamily.code : IpFamily → ℕ
  | .v4 => 0x04
  | .v6 => 0x06

def IpFamily.qmiType : IpFamily → UInt8
  | .v4 => UInt8.ofNat QMUX_TYPE_WDS
  | .v6 => UInt8.ofNat QMUX_TYPE_WDS_IPV6

structure Ipv4 where
  address : ℕ
  gateway : ℕ
  subnetMask : ℕ
  dnsPrimary : ℕ
  dnsSecondary : ℕ
  mtu : ℕ
  deriving DecidableEq, Repr

def Ipv4.zero : Ipv4 := ⟨0, 0, 0, 0, 0, 0⟩

structure Ipv6 where
  address : Bytes
  gateway : Bytes
  subnetMask : Bytes
  dnsPrimary : Bytes
  dnsSecondary : Bytes
  prefixLengthIPAddr : ℕ
  prefixLengthGateway : ℕ
  mtu : ℕ
  deriving DecidableEq, Repr

def zero16 : Bytes := List.replicate 16 0

def Ipv6.zero : Ipv6 := ⟨zero16, zero16, zero16, zero16, zero16, 0, 0, 0⟩

/-- The fields of `PROFILE_T` that the operations and `qmi_main` use. -/
structure Profile where
  apn : Option Bytes
  user : Option Bytes
  password : Option Bytes
  auth : ℤ
  iptype : ℤ
  pdp : ℤ
  enableIpv4 : Bool
  enableIpv6 : Bool
  curIpFamily : ℕ
  ipv4 : Ipv4
  ipv6 : Ipv6
  pcscfIpv4Addr1 : ℕ
  pcscfIpv4Addr2 : ℕ
  pcscfIpv6Addr1 : Bytes
  pcscfIpv6Addr2 : Bytes
  loopbackState : ℕ
  replicationFactor : ℕ
  oldApn : Bytes
  oldUser : Bytes
  oldPassword : Bytes
  oldAuth : ℤ
  oldIptype : ℤ
  deriving DecidableEq, Repr

structure State where
  profile : Profile
  wdsConnectionIPv4Handle : ℕ
  wdsConnectionIPv6Handle : ℕ
  isCdma : Bool
  hdrPersonality : ℕ
  type5g : ℕ
  is9x07 : Bool
  deriving DecidableEq, Repr

/-- Nothing set and nothing asked for yet. -/
def blankState : State where
  profile := ⟨none, none, none, 0, 0, 1, true, false, 4, Ipv4.zero, Ipv6.zero, 0, 0, zero16, zero16,
    0, 0, [], [], [], 0, 0⟩
  wdsConnectionIPv4Handle := 0
  wdsConnectionIPv6Handle := 0
  isCdma := false
  hdrPersonality := 0
  type5g := 0
  is9x07 := true

def State.handle (s : State) : IpFamily → ℕ
  | .v4 => s.wdsConnectionIPv4Handle
  | .v6 => s.wdsConnectionIPv6Handle

def State.setHandle (s : State) (f : IpFamily) (h : ℕ) : State :=
  match f with
  | .v4 => { s with wdsConnectionIPv4Handle := h }
  | .v6 => { s with wdsConnectionIPv6Handle := h }

def ascii (s : String) : Bytes := s.toUTF8.toList

def optTlv (type : UInt8) : Option Bytes → Bytes
  | some value => tlv type value
  | none => []

def IsBlank (s : Option Bytes) : Prop := s.getD [] = []

instance (s : Option Bytes) : Decidable (IsBlank s) := inferInstanceAs (Decidable (_ = _))

def credentials (s : State) : Option Bytes × Option Bytes × ℤ :=
  if s.isCdma ∧ IsBlank s.profile.user ∧ IsBlank s.profile.password then
    (some (ascii "ctnet@mycdma.cn"), some (ascii "vnet.mobi"), 2)
  else (s.profile.user, s.profile.password, s.profile.auth)

def authTlv (type : UInt8) (user password : Option Bytes) (auth : ℤ) : Bytes :=
  if user.isSome ∧ password.isSome then tlv type [UInt8.ofInt auth] else []

/-- `profile_index_3gpp2` (0x32) is unreachable in the source. -/
def wdsStartNwInterfaceReq (s : State) : Bytes :=
  let c := credentials s
  tlv 0x30 [if s.isCdma then 0x02 else 0x01]
    ++ (if s.isCdma then [] else optTlv 0x14 s.profile.apn)
    ++ optTlv 0x17 c.1 ++ optTlv 0x18 c.2.1 ++ authTlv 0x16 c.1 c.2.1 c.2.2
    ++ tlv 0x19 [UInt8.ofNat s.profile.curIpFamily]
    ++ (if s.profile.pdp ≠ 0 ∧ s.isCdma = false then tlv 0x31 [UInt8.ofInt s.profile.pdp] else [])

def wdsStopNwInterfaceReq (s : State) (f : IpFamily) : Bytes := tlv 0x01 (ofLe32 (s.handle f))

def wdsModifyProfileSettingsReq (p : Profile) : Bytes :=
  tlv 0x01 [0, UInt8.ofInt p.pdp] ++ tlv 0x11 [UInt8.ofInt p.iptype] ++ optTlv 0x14 p.apn
    ++ optTlv 0x1B p.user ++ optTlv 0x1C p.password ++ authTlv 0x1D p.user p.password p.auth

/-- Bits 4, 8, 9, 11, 13 and 14: addresses, gateway, MTU and P-CSCF. -/
def wdsGetRuntimeSettingReq : Bytes := tlv 0x10 (ofLe32 0x6B10)

/-- What `QmiThreadSendQMITimeout` returned and put into `pResponse`. -/
structure Reply where
  err : ℤ
  response : Option Bytes
  deriving DecidableEq, Repr

/-- The macro `qmi_rsp_check`: the value it returns, or the response to go on with. -/
def qmiRspCheck (r : Reply) : Except ℤ Bytes :=
  match r.response with
  | none => .error r.err
  | some b => if r.err < 0 then .error r.err else .ok b

/-- The macro `qmi_rsp_check_and_return`. -/
def qmiRspCheckAndReturn (r : Reply) : Except ℤ Bytes :=
  match qmiRspCheck r with
  | .error e => .error e
  | .ok b => if muxResult b ≠ 0 ∨ muxError b ≠ 0 then .error (muxError b) else .ok b

/-- The value that the check returns for the reply, zero if it passes. -/
def Reply.code (r : Reply) : ℤ :=
  match qmiRspCheckAndReturn r with
  | .error e => e
  | .ok _ => 0

theorem code_of_ok {r : Reply} {b : Bytes} (h : qmiRspCheckAndReturn r = .ok b) : r.code = 0 := by
  unfold Reply.code
  rw [h]

theorem code_of_error {r : Reply} {e : ℤ} (h : qmiRspCheckAndReturn r = .error e) :
    r.code = e := by
  unfold Reply.code
  rw [h]

variable {α : Type}

/-- Send a request and leave with `fail` unless the response passes `qmi_rsp_check_and_return`. -/
def request (q : Request) (fail : ℤ → α) (k : Bytes → Calls Request Reply α) :
    Calls Request Reply α :=
  .call q fun r =>
    match qmiRspCheckAndReturn r with
    | .error e => .ret (fail e)
    | .ok b => k b

theorem feed_request_ok {q : Request} {fail : ℤ → α} {k : Bytes → Calls Request Reply α} {b : Bytes}
    (rs : ℕ → Reply) (h : qmiRspCheckAndReturn (rs 0) = .ok b) :
    (request q fail k).feed rs = (k b).feed fun n => rs (n + 1) := by
  unfold request
  rw [Calls.feed, h]

theorem feed_request_error {q : Request} {fail : ℤ → α} {k : Bytes → Calls Request Reply α} {e : ℤ}
    (rs : ℕ → Reply) (h : qmiRspCheckAndReturn (rs 0) = .error e) :
    (request q fail k).feed rs = fail e := by
  unfold request
  rw [Calls.feed, h]
  rfl

/-! ## Data calls -/

def QWDS_PKT_DATA_UNKNOW : ℕ := 0x00
def QWDS_PKT_DATA_DISCONNECTED : ℕ := 0x01
def QWDS_PKT_DATA_CONNECTED : ℕ := 0x02

/-- The connection status a response reports. -/
def connectionStatus (b : Bytes) : ℕ :=
  match getTLV b 0x01 with
  | none => QWDS_PKT_DATA_DISCONNECTED
  | some p =>
    if le16 b (p + 1) = 2 ∧ u8 b (p + 4) = 0x01 then QWDS_PKT_DATA_DISCONNECTED else u8 b (p + 3)

def requestQueryDataCall (s : State) (status : ℕ) (f : IpFamily) :
    Calls Request Reply (ℤ × ℕ × State) :=
  request (.mux f.qmiType QMIWDS_GET_PKT_SRVC_STATUS_REQ []) (fun e => (e, status, s)) fun b =>
    .ret (0, connectionStatus b,
      if connectionStatus b = QWDS_PKT_DATA_DISCONNECTED then s.setHandle f 0 else s)

def startNwInterfaceHandle (b : Bytes) : ℕ := le32 b 23

/-- The error value is read from the response after it has been freed. -/
def requestSetupDataCall (s : State) (f : IpFamily) : Calls Request Reply (ℤ × State) :=
  let s := { s with profile := { s.profile with curIpFamily := f.code } }
  .call (.mux f.qmiType QMIWDS_START_NETWORK_INTERFACE_REQ (wdsStartNwInterfaceReq s)) fun r =>
    match qmiRspCheck r with
    | .error e => .ret (e, s)
    | .ok b =>
      if muxResult b ≠ 0 ∨ muxError b ≠ 0 then .ret (muxError b, s)
      else .ret (0, s.setHandle f (startNwInterfaceHandle b))

def requestDeactivateDefaultPDP (s : State) (f : IpFamily) : Calls Request Reply (ℤ × State) :=
  if s.handle f = 0 then .ret (0, s)
  else
    request (.mux f.qmiType QMIWDS_STOP_NETWORK_INTERFACE_REQ (wdsStopNwInterfaceReq s f))
      (fun e => (e, s)) fun _ => .ret (0, s.setHandle f 0)

def bytes16 (b : Bytes) (i : ℕ) : Bytes := (List.range 16).map fun j => b.getD (i + j) 0

def onTlv (b : Bytes) (type : ℕ) (set : ℕ → Profile → Profile) (p : Profile) : Profile :=
  match getTLV b type with
  | some off => set off p
  | none => p

def clearAddress (f : IpFamily) (p : Profile) : Profile :=
  match f with
  | .v4 => { p with ipv4 := Ipv4.zero }
  | .v6 => { p with ipv6 := Ipv6.zero }

def setPcscfIpv6 (b : Bytes) (off : ℕ) (p : Profile) : Profile :=
  if u8 b (off + 3) = 1 then { p with pcscfIpv6Addr1 := bytes16 b (off + 4) }
  else if u8 b (off + 3) = 2 then
    { p with pcscfIpv6Addr1 := bytes16 b (off + 4), pcscfIpv6Addr2 := bytes16 b (off + 20) }
  else p

def setPcscfIpv4 (b : Bytes) (off : ℕ) (p : Profile) : Profile :=
  if u8 b (off + 3) = 1 then { p with pcscfIpv4Addr1 := le32 b (off + 4) }
  else if u8 b (off + 3) = 2 then
    { p with pcscfIpv4Addr1 := le32 b (off + 4), pcscfIpv4Addr2 := le32 b (off + 8) }
  else p

/-- Both families' TLVs are read, whichever was asked for. -/
def readAddress (b : Bytes) (f : IpFamily) (p : Profile) : Profile :=
  onTlv b 0x2E (setPcscfIpv6 b) p
    |> onTlv b 0x23 (setPcscfIpv4 b)
    |> onTlv b 0x15 (fun o p => { p with ipv4 := { p.ipv4 with dnsPrimary := le32 b (o + 3) } })
    |> onTlv b 0x16 (fun o p => { p with ipv4 := { p.ipv4 with dnsSecondary := le32 b (o + 3) } })
    |> onTlv b 0x20 (fun o p => { p with ipv4 := { p.ipv4 with gateway := le32 b (o + 3) } })
    |> onTlv b 0x21 (fun o p => { p with ipv4 := { p.ipv4 with subnetMask := le32 b (o + 3) } })
    |> onTlv b 0x1E (fun o p => { p with ipv4 := { p.ipv4 with address := le32 b (o + 3) } })
    |> onTlv b 0x27 (fun o p => { p with ipv6 := { p.ipv6 with dnsPrimary := bytes16 b (o + 3) } })
    |> onTlv b 0x28
      (fun o p => { p with ipv6 := { p.ipv6 with dnsSecondary := bytes16 b (o + 3) } })
    |> onTlv b 0x26 (fun o p => { p with ipv6 := { p.ipv6 with
        gateway := bytes16 b (o + 3), prefixLengthGateway := u8 b (o + 19) } })
    |> onTlv b 0x25 (fun o p => { p with ipv6 := { p.ipv6 with
        address := bytes16 b (o + 3), prefixLengthIPAddr := u8 b (o + 19) } })
    |> onTlv b 0x29 (fun o p => match f with
        | .v4 => { p with ipv4 := { p.ipv4 with mtu := le32 b (o + 3) } }
        | .v6 => { p with ipv6 := { p.ipv6 with mtu := le32 b (o + 3) } })

def requestGetIPAddress (s : State) (f : IpFamily) : Calls Request Reply (ℤ × State) :=
  let s := { s with profile := clearAddress f s.profile }
  if s.handle f = 0 then .ret (0, s)
  else
    request (.mux f.qmiType QMIWDS_GET_RUNTIME_SETTINGS_REQ wdsGetRuntimeSettingReq)
      (fun e => (e, s)) fun b => .ret (0, { s with profile := readAddress b f s.profile })

def Profile.IsSet (p : Profile) : Prop :=
  p.oldApn = p.apn.getD [] ∧ p.oldUser = p.user.getD [] ∧ p.oldPassword = p.password.getD []
    ∧ p.oldIptype = p.iptype ∧ p.oldAuth = p.auth

instance (p : Profile) : Decidable p.IsSet := inferInstanceAs (Decidable (_ ∧ _))

def requestSetProfile (s : State) : Calls Request Reply (ℤ × State) :=
  if s.profile.pdp = 0 then .ret (-1, s)
  else if s.profile.IsSet then .ret (0, s)
  else
    request (.mux (UInt8.ofNat QMUX_TYPE_WDS) QMIWDS_MODIFY_PROFILE_SETTINGS_REQ
        (wdsModifyProfileSettingsReq s.profile))
      (fun e => (e, s)) fun _ => .ret (1, s)

def wdsCreateProfileSettingsReq (p : Profile) : Bytes :=
  tlv 0x01 [0] ++ tlv 0x25 [UInt8.ofInt p.pdp]

def wdsGetProfileSettingsReq (p : Profile) : Bytes := tlv 0x01 [0, UInt8.ofInt p.pdp]

def sizeofOld : ℕ := 64

/-- `uchar2char` into a buffer of `sizeofOld` bytes, as a string: it ends at the first zero. -/
def uchar2char (b : Bytes) (i srcLen : ℕ) : Bytes :=
  ((List.range (min (sizeofOld - 1) srcLen)).map fun j => b.getD (i + j) 0).takeWhile (· ≠ 0)

def readString (b : Bytes) (off : ℕ) : Bytes := uchar2char b (off + 3) (le16 b (off + 1))

def readProfile (b : Bytes) (p : Profile) : Profile :=
  onTlv b 0x14 (fun o p => { p with oldApn := readString b o }) p
    |> onTlv b 0x1B (fun o p => { p with oldUser := readString b o })
    |> onTlv b 0x1C (fun o p => { p with oldPassword := readString b o })
    |> onTlv b 0x1D (fun o p => { p with oldAuth := u8 b (o + 3) })
    |> onTlv b 0x11 (fun o p => { p with oldIptype := u8 b (o + 3) })

def familiesIptype (p : Profile) : ℤ :=
  if p.enableIpv4 ∧ p.enableIpv6 then 3 else if p.enableIpv6 then 2 else 0

/-- A profile that the modem does not have is created and asked for again, at most `fuel` times
here. -/
def getProfileLoop (s : State) : (fuel : ℕ) → Calls Request Reply (Option (ℤ × State))
  | 0 => .ret none
  | fuel + 1 =>
    .call (.mux (UInt8.ofNat QMUX_TYPE_WDS) QMIWDS_GET_PROFILE_SETTINGS_REQ
        (wdsGetProfileSettingsReq s.profile)) fun r =>
      if r.err = 0 ∧ ∃ b ∈ r.response, muxResult b ≠ 0 ∧ muxError b = QMI_ERR_EXTENDED_INTERNAL then
        request (.mux (UInt8.ofNat QMUX_TYPE_WDS) QMIWDS_CREATE_PROFILE_REQ
            (wdsCreateProfileSettingsReq s.profile))
          (fun e => some (e, s)) fun _ => getProfileLoop s fuel
      else
        match qmiRspCheckAndReturn r with
        | .error e => .ret (some (e, s))
        | .ok b => .ret (some (0, { s with profile := readProfile b s.profile }))

def requestGetProfile (s : State) (fuel : ℕ) : Calls Request Reply (Option (ℤ × State)) :=
  let s := { s with profile := { s.profile with
    oldApn := [], oldUser := [], oldPassword := [], oldAuth := 0, oldIptype := 0
    iptype := familiesIptype s.profile } }
  if s.profile.pdp = 0 then .ret (some (0, s)) else getProfileLoop s fuel

def WWAN_DATA_CLASS_LTE : ℕ := 0x20
def WWAN_DATA_CLASS_5G_NSA : ℕ := 0x40
def WWAN_DATA_CLASS_5G_SA : ℕ := 0x80

inductive DeviceClass where
  | unknown
  | cdma
  | gsm
  deriving DecidableEq, Repr

/-- The home network's country and network code, zero unless the response has them. -/
def requestGetHomeNetwork : Calls Request Reply (ℤ × ℕ × ℕ) :=
  request (.mux (UInt8.ofNat QMUX_TYPE_NAS) QMINAS_GET_HOME_NETWORK_REQ []) (fun e => (e, 0, 0))
    fun b => .ret (0, match getTLV b 0x01 with
      | some p => (le16 b (p + 3), le16 b (p + 5))
      | none => (0, 0))

structure SysInfo where
  psAttachedState : ℕ
  isCdma : Bool
  hdrPersonality : ℕ
  isLte : Bool
  dataCapList : ℕ
  deviceClass : DeviceClass
  endcAvailable : Option ℕ
  restrictDcnr : Option ℕ
  deriving DecidableEq, Repr

def SysInfo.init : SysInfo := ⟨0, false, 0, false, 0, .unknown, none, none⟩

/-- `SrvDomainValid` is set and `SrvDomain` has the packet-switched bit. -/
def PsDomain (b : Bytes) (off : ℕ) : Prop := u8 b (off + 3) = 0x01 ∧ u8 b (off + 4) &&& 0x02 ≠ 0

instance (b : Bytes) (off : ℕ) : Decidable (PsDomain b off) := inferInstanceAs (Decidable (_ ∧ _))

def SysInfo.service (a : SysInfo) (dataCapList : ℕ) : DeviceClass → SysInfo
  | .cdma => { a with dataCapList, deviceClass := .cdma, isCdma := !a.isLte }
  | c => { a with dataCapList, deviceClass := c }

def SysInfo.lte (a : SysInfo) : SysInfo := { a with isLte := true, isCdma := false }

def SysInfo.onTlv (b : Bytes) (off : ℕ) (a : SysInfo) : SysInfo :=
  let served := u8 b (off + 3) = 0x02
  match u8 b off with
  | 0x10 => if served then a.service 0x2F0000 .cdma else a
  | 0x11 => if served then a.service 0x500000 .cdma else a
  | 0x12 => if served then a.service 0x3 .gsm else a
  | 0x13 => if served then a.service 0x4 .gsm else a
  | 0x14 => if served then (a.service WWAN_DATA_CLASS_LTE .gsm).lte else a
  | 0x4A => if served then (a.service (a.dataCapList ||| WWAN_DATA_CLASS_5G_SA) .gsm).lte else a
  | 0x4B => if PsDomain b off then { a with psAttachedState := 1 } else a
  | 0x4E => { a with endcAvailable := some (u8 b (off + 3)) }
  | 0x4F => { a with restrictDcnr := some (u8 b (off + 3)) }
  | 0x15 => if PsDomain b off then { a with psAttachedState := 1, isCdma := !a.isLte } else a
  | 0x16 =>
    let a := if PsDomain b off then { a with psAttachedState := 1, isCdma := !a.isLte } else a
    if a.psAttachedState ≠ 0 ∧ u8 b (off + 13) = 0x01 ∧ u8 b (off + 14) = 0x03 then
      { a with hdrPersonality := 0x02 }
    else a
  | 0x17 => if PsDomain b off then { a with psAttachedState := 1 } else a
  | 0x18 => if PsDomain b off then { a with psAttachedState := 1 } else a
  | 0x19 => if PsDomain b off then { a with psAttachedState := 1 }.lte else a
  | 0x25 => if PsDomain b off then { a with psAttachedState := 1 } else a
  | _ => a

/-- The loop over the TLVs. The HDR system info (0x16) also asks for the home network, whose
answer is only logged. -/
def sysInfoLoop (b : Bytes) : (fuel remainingLen off : ℕ) → SysInfo → Calls Request Reply SysInfo
  | 0, _, _, a => .ret a
  | fuel + 1, remainingLen, off, a =>
    if remainingLen = 0 then .ret a
    else
      let next := sysInfoLoop b fuel (remainingLen - (le16 b (off + 1) + 3))
        (off + le16 b (off + 1) + 3) (a.onTlv b off)
      if u8 b off = 0x16 then requestGetHomeNetwork.bind fun _ => next else next

def SysInfo.dataClass (a : SysInfo) : ℕ :=
  if a.dataCapList &&& WWAN_DATA_CLASS_LTE ≠ 0 ∧ (∃ e ∈ a.endcAvailable, e ≠ 0)
      ∧ (∃ r ∈ a.restrictDcnr, r = 0) then
    a.dataCapList ||| WWAN_DATA_CLASS_5G_NSA
  else a.dataCapList

def SysInfo.type5g (a : SysInfo) : ℕ :=
  if a.deviceClass = .cdma then 0
  else if a.dataClass &&& WWAN_DATA_CLASS_5G_SA ≠ 0 then WWAN_DATA_CLASS_5G_SA
  else if a.dataClass &&& WWAN_DATA_CLASS_5G_NSA ≠ 0 then WWAN_DATA_CLASS_5G_NSA
  else 0

/-- The attach state is zero until a response says otherwise. -/
def requestRegistrationState2 (s : State) : Calls Request Reply (ℤ × ℕ × State) :=
  request (.mux (UInt8.ofNat QMUX_TYPE_NAS) QMINAS_GET_SYS_INFO_REQ []) (fun e => (e, 0, s))
    fun b => (sysInfoLoop b (muxLength b) (muxLength b) tlvOffset SysInfo.init).bind fun a =>
      .ret (0, a.psAttachedState,
        { s with isCdma := a.isCdma, hdrPersonality := a.hdrPersonality, type5g := a.type5g })

def servingPsAttached (b : Bytes) : ℕ :=
  match getTLV b 0x01 with
  | some p => if u8 b (p + 3) = 0x01 then u8 b (p + 5) else 0x02
  | none => 0

def ServingCdma (b : Bytes) : Prop :=
  ∃ p ∈ getTLV b 0x01, u8 b (p + 3) = 0x01 ∧ u8 b (p + 7) ≠ 0
    ∧ (u8 b (p + 8) = 0x01 ∨ u8 b (p + 8) = 0x02)

instance (b : Bytes) : Decidable (ServingCdma b) := inferInstanceAs (Decidable (∃ p ∈ _, _))

def requestRegistrationState (s : State) (psAttachedState : ℕ) :
    Calls Request Reply (ℤ × ℕ × State) :=
  if s.is9x07 then requestRegistrationState2 s
  else
    request (.mux (UInt8.ofNat QMUX_TYPE_NAS) QMINAS_GET_SERVING_SYSTEM_REQ [])
      (fun e => (e, psAttachedState, s)) fun b =>
      if ServingCdma b then
        requestGetHomeNetwork.bind fun _ =>
          .ret (0, servingPsAttached b,
            { s with
              isCdma := true
              hdrPersonality := match getTLV b 0x23 with
                | some p => u8 b (p + 3)
                | none => 0 })
      else .ret (0, servingPsAttached b, { s with isCdma := false })

end QmiRequests

end BananaWrt
