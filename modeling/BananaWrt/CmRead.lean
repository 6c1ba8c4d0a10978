import BananaWrt.Lib.TwoStep
import BananaWrt.MbimProxy
import BananaWrt.QmiMsg

/-!
# Reading from the proxies

The client of `quectel-qmi-proxy` and `quectel-mbim-proxy` reads their messages off a stream socket
into `cm_recv_buf`. `qmi_proxy_read` and `mbim_proxy_read` read a header first, and then as much as
it says.
-/

namespace BananaWrt

namespace CmRead

open Bytes Qmi MbimProxy TwoStep

/-- The size of `cm_recv_buf`. -/
def sizeofCmRecvBuf : ℕ := 4096

theorem hdrLength_append {c : Bytes} (b : Bytes) (h : sizeofHdr ≤ c.length) :
    hdrLength (c ++ b) = hdrLength c := by
  have h6 : 6 ≤ c.length := h
  unfold hdrLength le16
  rw [u8_append_left (by omega), u8_append_left (by omega)]

theorem messageLength_append {c : Bytes} (b : Bytes) (h : sizeofHeader ≤ c.length) :
    messageLength (c ++ b) = messageLength c := by
  have h12 : 12 ≤ c.length := h
  exact le32_append_left (by omega)

/-- `qmi_proxy_read`: the rest is read if `Length` is below the size of the buffer. -/
def qmiProxyRead : TwoStep where
  header := sizeofHdr
  room := sizeofCmRecvBuf
  total := fun b => hdrLength b + 1
  header_pos := by decide
  header_le := by decide
  room_lt := by decide
  total_append := fun _ b h => by rw [hdrLength_append b h]

/-- `mbim_proxy_read`: the rest is read if `MessageLength` is at most the size of the buffer. -/
def mbimProxyRead : TwoStep where
  header := sizeofHeader
  room := sizeofCmRecvBuf
  total := messageLength
  header_pos := by decide
  header_le := by decide
  room_lt := by decide
  total_append := fun _ b h => messageLength_append b h

/-- What `QmiWwanThread` hands to `QmiThreadRecvQMI`. -/
def qmiWwanThread (cmRecvBuf : Bytes) (nreads : ℤ) : Option Bytes :=
  if nreads ≤ 0 then none
  else if nreads ≠ hdrLength cmRecvBuf + 1 then none
  else some (cmRecvBuf.take (hdrLength cmRecvBuf + 1))

/-- What `mbim_read_thread` hands to `mbim_recv_command`. -/
def mbimReadThread (cmRecvBuf : Bytes) (nreads : ℤ) : Option Bytes :=
  if nreads ≤ 0 then none else some (cmRecvBuf.take nreads.toNat)

/-- A call of `mbim_proxy_read`: what arrives, and the `TransactionId` of `mbim_pRequest` if a
request waits for its answer. -/
structure MbimCall where
  arrival : Arrival
  request : Option ℕ
  deriving DecidableEq, Repr

def mbimStep (s : State) (c : MbimCall) : Option State := mbimProxyRead.step s c.arrival

/-- `mbim_recv_command` copies what it is handed: it is the answer to the request. -/
def Answers (s : State) (c : MbimCall) : Prop :=
  c.request = some (transactionId (mbimProxyRead.read s c.arrival).buf)

instance (s : State) (c : MbimCall) : Decidable (Answers s c) := inferInstanceAs (Decidable (_ = _))

/-- `mbim_recv_command` copies `MessageLength` bytes, no more than were received. -/
def CopiesWithin (s : State) (c : MbimCall) : Prop :=
  Answers s c → messageLength (mbimProxyRead.read s c.arrival).buf
    ≤ (mbimProxyRead.received s c.arrival).length

/-- An answer is there in full when it is read: the rest of it if its header was read and its
length fits the buffer, and otherwise no more than the first read returned. -/
def AnswerArrived (s : State) (c : MbimCall) : Prop :=
  Answers s c → if mbimProxyRead.HeaderRead s c.arrival then
      mbimProxyRead.stated s c.arrival - sizeofHeader
        ≤ min c.arrival.second (s.rest.length - sizeofHeader)
    else mbimProxyRead.stated s c.arrival ≤ (mbimProxyRead.head s c.arrival).length

end CmRead

end BananaWrt
