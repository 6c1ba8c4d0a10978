import BananaWrt.Lib.Writes
import BananaWrt.QmiRequests

/-!
# Composing a request in `QMIBuf`

`ComposeQMUXMsg` fills a buffer of `WDM_DEFAULT_BUFSIZE` bytes on the stack, field by field through
overlaid structures, and copies as much of it as the header says. Here every assignment is a write
at its place in the buffer. `QmiRequests` has the requests as strings of bytes.
-/

namespace BananaWrt

namespace QmiCompose

open Bytes Qmi QmiRequests

def WDM_DEFAULT_BUFSIZE : ℕ := 256

/-- Where `MUXMsg` starts in `QMIBuf`. -/
def offMUXMsg : ℕ := sizeofHdr

/-- Where `QMUXMsgHdr`, and with it every request structure, starts: behind `QMUXHdr`. -/
def offReq : ℕ := offMUXMsg + 3

/-- A string is given without its NUL, which is copied as well. -/
def qstrcpy (dst : ℕ) (src : Bytes) : Writes := [(dst, src ++ [0])]

/-- What a block sets: a TLV of one byte or one of a string. -/
inductive Item where
  | byte (type value : UInt8)
  | string (type : UInt8) (src : Bytes)
  deriving DecidableEq, Repr

def Item.writes (off : ℕ) : Item → Writes
  | .byte type value => [(off, [type]), (off + 1, ofLe16 1), (off + 3, [value])]
  | .string type src => [(off, [type]), (off + 1, ofLe16 src.length)] ++ qstrcpy (off + 3) src

/-- `TLVLength` of the block's TLV, as it is read back. -/
def Item.tlvLength : Item → ℕ
  | .byte _ _ => 1
  | .string _ src => src.length % 2 ^ 16

/-- The blocks one after another from `pTLV + TLVLength` on. `TLVLength` is a 16-bit number. -/
def setTLVs (pTLV : ℕ) : (TLVLength : ℕ) → List Item → Writes × ℕ
  | TLVLength, [] => ([], TLVLength)
  | TLVLength, item :: items =>
    let r := setTLVs pTLV ((TLVLength + (item.tlvLength + 3)) % 2 ^ 16) items
    (item.writes (pTLV + TLVLength) ++ r.1, r.2)

def optString (type : UInt8) : Option Bytes → List Item
  | some src => [.string type src]
  | none => []

def authItem (type : UInt8) (user password : Option Bytes) (auth : ℤ) : List Item :=
  if user.isSome ∧ password.isSome then [.byte type (UInt8.ofInt auth)] else []

/-- The blocks of `WdsStartNwInterfaceReq`. -/
def startNwItems (s : State) : List Item :=
  let c := credentials s
  [.byte 0x30 (if s.isCdma then 0x02 else 0x01)]
    ++ (if s.isCdma then [] else optString 0x14 s.profile.apn)
    ++ optString 0x17 c.1 ++ optString 0x18 c.2.1 ++ authItem 0x16 c.1 c.2.1 c.2.2
    ++ [.byte 0x19 (UInt8.ofNat s.profile.curIpFamily)]
    ++ (if s.profile.pdp ≠ 0 ∧ s.isCdma = false then [.byte 0x31 (UInt8.ofInt s.profile.pdp)]
      else [])

/-- What a custom function writes and the `USHORT` it returns. -/
def wdsStartNwInterfaceReq (s : State) : Writes × ℕ :=
  let r := setTLVs (offReq + 4) 0 (startNwItems s)
  ((offReq + 2, ofLe16 0) :: r.1, (4 + r.2) % 2 ^ 16)

/-- The blocks of `WdsModifyProfileSettingsReq` behind its fixed part. -/
def modifyItems (p : Profile) : List Item :=
  [.byte 0x11 (UInt8.ofInt p.iptype)] ++ optString 0x14 p.apn ++ optString 0x1B p.user
    ++ optString 0x1C p.password ++ authItem 0x1D p.user p.password p.auth

def wdsModifyProfileSettingsReq (p : Profile) : Writes × ℕ :=
  let r := setTLVs (offReq + 9) 0 (modifyItems p)
  ([(offReq + 2, ofLe16 5), (offReq + 4, [0x01]), (offReq + 5, ofLe16 2), (offReq + 7, [0]),
    (offReq + 8, [UInt8.ofInt p.pdp])] ++ r.1, (9 + r.2) % 2 ^ 16)

def uimVerifyPinReqSend (pin : Bytes) : Writes × ℕ :=
  ([(offReq + 4, [0x01]), (offReq + 5, ofLe16 2), (offReq + 7, [0x00]), (offReq + 8, [0x00]),
    (offReq + 9, [0x02]), (offReq + 10, ofLe16 (2 + pin.length)), (offReq + 12, [0x01]),
    (offReq + 13, [UInt8.ofNat pin.length])] ++ qstrcpy (offReq + 14) pin,
    (15 + pin.length - 1) % 2 ^ 16)

/-- The writes to `QMIBuf` behind the `memset`, and how much of it is copied. -/
structure Composed where
  writes : Writes
  length : ℕ
  deriving DecidableEq, Repr

def composeQMUXMsg (QMIType : UInt8) (msgType TransactionId : ℕ) (custom : Option (Writes × ℕ)) :
    Composed :=
  let muxLength := match custom with
    | some r => (r.2 + 2 ^ 16 - 4) % 2 ^ 16
    | none => 0
  let hdrLength := (muxLength + 4 + 3 + 6 - 1) % 2 ^ 16
  { writes := [(0, [1]), (3, [0]), (4, [QMIType]), (offMUXMsg, [0]),
        (offMUXMsg + 1, ofLe16 TransactionId), (offReq, ofLe16 msgType)]
      ++ (custom.getD ([], 0)).1 ++ [(offReq + 2, ofLe16 muxLength), (1, ofLe16 hdrLength)]
    length := hdrLength + 1 }

/-- `QMIBuf` in the end. -/
def Composed.buf (c : Composed) : Bytes :=
  Writes.run (List.replicate WDM_DEFAULT_BUFSIZE 0) c.writes

/-- The message that is returned, if it is no longer than the buffer. -/
def Composed.message (c : Composed) : Bytes := c.buf.take c.length

/-- Nothing is written past the end of `QMIBuf` or copied from there. -/
def Composed.InBounds (c : Composed) : Prop :=
  Writes.Within WDM_DEFAULT_BUFSIZE c.writes ∧ c.length ≤ WDM_DEFAULT_BUFSIZE

instance (c : Composed) : Decidable c.InBounds := inferInstanceAs (Decidable (_ ∧ _))

def QMIUIM_VERIFY_PIN_REQ : ℕ := 0x0026

/-- The request of `requestSetupDataCall`. -/
def composeStartNw (s : State) (f : IpFamily) (TransactionId : ℕ) : Composed :=
  composeQMUXMsg f.qmiType QMIWDS_START_NETWORK_INTERFACE_REQ TransactionId
    (some (wdsStartNwInterfaceReq s))

/-- The request of `requestSetProfile`. -/
def composeModify (p : Profile) (TransactionId : ℕ) : Composed :=
  composeQMUXMsg (UInt8.ofNat QMUX_TYPE_WDS) QMIWDS_MODIFY_PROFILE_SETTINGS_REQ TransactionId
    (some (wdsModifyProfileSettingsReq p))

/-- The request of `requestEnterSimPin`. -/
def composeVerifyPin (pin : Bytes) (TransactionId : ℕ) : Composed :=
  composeQMUXMsg (UInt8.ofNat QMUX_TYPE_UIM) QMIUIM_VERIFY_PIN_REQ TransactionId
    (some (uimVerifyPinReqSend pin))

end QmiCompose

end BananaWrt
