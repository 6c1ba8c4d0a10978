import BananaWrt.Lib.Tlv

/-!
# QMI messages

The packed layout of `QCQMIMSG` (`MPQMI.h`, `MPQCTL.h`, `MPQMUX.h`): a six-byte `QCQMI_HDR`,
then either a control message (`CTLMsg`) or a service message (`MUXMsg`). A field is read off
the buffer the message lies in, as the C code reads it through a pointer to that buffer.
-/

namespace BananaWrt

namespace Qmi

open Bytes

def QMUX_TYPE_CTL : ℕ := 0x00
def QMUX_TYPE_WDS : ℕ := 0x01
def QMUX_TYPE_DMS : ℕ := 0x02
def QMUX_TYPE_NAS : ℕ := 0x03
def QMUX_TYPE_UIM : ℕ := 0x0B
def QMUX_TYPE_WDS_IPV6 : ℕ := 0x11
def QMUX_TYPE_WDS_ADMIN : ℕ := 0x1A
def QMUX_TYPE_ALL : ℕ := 0xFF

def QMICTL_CTL_FLAG_RSP : ℕ := 0x01
def QMICTL_CTL_FLAG_IND : ℕ := 0x02

def QMICTL_GET_VERSION_REQ : ℕ := 0x0021
def QMICTL_GET_CLIENT_ID_REQ : ℕ := 0x0022
def QMICTL_RELEASE_CLIENT_ID_REQ : ℕ := 0x0023
def QMI_MESSAGE_CTL_INTERNAL_PROXY_OPEN : ℕ := 0xFF00
def QMICTL_GET_CLIENT_ID_RESP : ℕ := 0x0022
def QMICTL_RELEASE_CLIENT_ID_RESP : ℕ := 0x0023
def QMICTL_REVOKE_CLIENT_ID_IND : ℕ := 0x0024
def QMICTL_SYNC_REQ : ℕ := 0x0027

def QMIWDS_START_NETWORK_INTERFACE_REQ : ℕ := 0x0020
def QMIWDS_STOP_NETWORK_INTERFACE_REQ : ℕ := 0x0021
def QMIWDS_GET_PKT_SRVC_STATUS_REQ : ℕ := 0x0022
def QMIWDS_GET_PKT_SRVC_STATUS_IND : ℕ := 0x0022
def QMIWDS_CREATE_PROFILE_REQ : ℕ := 0x0027
def QMIWDS_MODIFY_PROFILE_SETTINGS_REQ : ℕ := 0x0028
def QMIWDS_GET_PROFILE_SETTINGS_REQ : ℕ := 0x002B
def QMIWDS_GET_RUNTIME_SETTINGS_REQ : ℕ := 0x002D

def QMINAS_GET_SERVING_SYSTEM_REQ : ℕ := 0x0024
def QMINAS_SERVING_SYSTEM_IND : ℕ := 0x0024
def QMINAS_GET_HOME_NETWORK_REQ : ℕ := 0x0025
def QMINAS_GET_SYS_INFO_REQ : ℕ := 0x004D
def QMI_WDA_SET_LOOPBACK_CONFIG_IND : ℕ := 0x002F
def QMINAS_SYS_INFO_IND : ℕ := 0x004E

def QMUX_CTL_FLAG_TYPE_RSP : ℕ := 0x02
def QMUX_CTL_FLAG_TYPE_IND : ℕ := 0x04
def QMUX_CTL_FLAG_MASK_TYPE : ℕ := 0x06

def QMI_ERR_EXTENDED_INTERNAL : ℕ := 0x0051

def sizeofHdr : ℕ := 6

variable (b : Bytes)

def hdrLength : ℕ := le16 b 1
def hdrQMIType : ℕ := u8 b 4
def hdrClientId : ℕ := u8 b 5

def ctlFlags : ℕ := u8 b 6
def ctlTransactionId : ℕ := u8 b 7
def ctlType : ℕ := le16 b 8

/-- `QMIResult` of `GetClientIdRsp` and `ReleaseClientIdRsp`. -/
def ctlResult : ℕ := le16 b 15

def ctlError : ℕ := le16 b 17

/-- The `(QMIType, ClientId)` pair of `GetClientIdRsp` and `ReleaseClientIdRsp`. -/
def ctlRspPair : ℕ × ℕ := (u8 b 22, u8 b 23)

/-- The `(QMIType, ClientId)` pair of `ReleaseClientIdReq`. -/
def ctlReleaseReqPair : ℕ × ℕ := (u8 b 15, u8 b 16)

def muxCtlFlags : ℕ := u8 b 6
def muxTransactionId : ℕ := le16 b 7
def muxType : ℕ := le16 b 9
def muxLength : ℕ := le16 b 11
def muxResult : ℕ := le16 b 16
def muxError : ℕ := le16 b 18

def tlvOffset : ℕ := 13

/-- The loop of `GetTLV`. `Length` is what remains, a 16-bit number that wraps below zero. -/
def getTLVLoop (b : Bytes) (TLVType : ℕ) : (fuel TLVFind Length off : ℕ) → Option ℕ
  | 0, _, _, _ => none
  | fuel + 1, TLVFind, Length, off =>
    if Length < 3 then none
    else if (if 0x1000 < TLVType then TLVFind + 1 + 0x1000 = TLVType else u8 b off = TLVType) then
      some off
    else
      getTLVLoop b TLVType fuel (TLVFind + 1) ((Length + 2 ^ 17 - (le16 b (off + 1) + 3)) % 2 ^ 16)
        (off + le16 b (off + 1) + 3)

def getTLV (TLVType : ℕ) : Option ℕ :=
  getTLVLoop b TLVType (b.length + 2 ^ 16) 0 (muxLength b) tlvOffset

/-- The value of the TLV that `GetTLV` finds, as long as its length field says. -/
def tlvValue (TLVType : ℕ) : Option Bytes :=
  (getTLV b TLVType).map fun off => (b.drop (off + 3)).take (le16 b (off + 1))

def tlv (type : UInt8) (value : Bytes) : Bytes := [type] ++ ofLe16 value.length ++ value

/-- The TLVs of the message are `fs`. -/
structure Carries (fs : Tlv.Fields) : Prop where
  here : Tlv.At b tlvOffset fs
  length : muxLength b = (Tlv.encode fs).length

end Qmi

end BananaWrt
