import BananaWrt.Lib.Bytes
import Mathlib.Data.List.FinRange
import Mathlib.Logic.Function.Basic

/-!
# The MBIM proxy

`quectel-mbim-proxy.c` shares one MBIM device between up to `CM_MAX_CLIENT` local clients. A
client's slot number goes into the top byte of the `TransactionId` of what it sends, and the
device's answer, which has the same id, is given to the client of that slot.

The writes a function makes are its output. The field `con` of a slot says which connection it
was last taken by; the code has no such field, and nothing here decides by it.
-/

namespace BananaWrt

namespace MbimProxy

open Bytes

def CM_MAX_CLIENT : ℕ := 32
def TID_MASK : ℕ := 0xFFFFFF
def TID_SHIFT : ℕ := 24

def MBIM_OPEN_MSG : ℕ := 1
def MBIM_CLOSE_MSG : ℕ := 2
def MBIM_OPEN_DONE : ℕ := 0x80000001

def sizeofHeader : ℕ := 12

section
variable (b : Bytes)

def messageType : ℕ := le32 b 0
def messageLength : ℕ := le32 b 4
def transactionId : ℕ := le32 b 8

/-- `Status` of `MBIM_OPEN_DONE_T`. -/
def openDoneStatus : ℕ := le32 b 12

def setTransactionId (tid : ℕ) : Bytes := putLe32 b 8 tid

end

/-- The `MBIM_OPEN_DONE_T` that answers a message of type `type`. -/
def openDone (type tid : ℕ) : Bytes :=
  ofLe32 (type ||| 0x80000000) ++ ofLe32 16 ++ ofLe32 tid ++ ofLe32 0

structure CmClient where
  clientFd : ℤ
  clientIdx : ℕ
  con : ℕ
  deriving DecidableEq, Repr

abbrev CmClients := Fin CM_MAX_CLIENT → CmClient

inductive Out where
  | dev (b : Bytes)
  | client (clientFd : ℤ) (con : ℕ) (b : Bytes)
  deriving DecidableEq, Repr

/-- The first slot that `p` holds of, as the loops over `cm_clients` find it. -/
def firstClient (cs : CmClients) (p : CmClient → Prop) [DecidablePred p] :
    Option (Fin CM_MAX_CLIENT) :=
  (List.finRange CM_MAX_CLIENT).find? fun i => p (cs i)

def safeClose (fd : ℤ) : ℤ := if 0 < fd then -1 else fd

/-- `client_fd` is what `accept` returned. Without a free slot it is closed again. -/
def handleClientConnect (cs : CmClients) (client_fd : ℤ) (con : ℕ) : CmClients :=
  if client_fd < 0 then cs
  else match firstClient cs (·.clientFd ≤ 0) with
  | some i => Function.update cs i ⟨client_fd, i + 1, con⟩
  | none => cs

def handleClientDisconnect (cs : CmClients) (client_fd : ℤ) : CmClients :=
  match firstClient cs (·.clientFd = client_fd) with
  | some i => Function.update cs i { cs i with clientFd := safeClose (cs i).clientFd }
  | none => cs

def IsOpenClose (b : Bytes) : Prop :=
  messageType b = MBIM_OPEN_MSG ∨ messageType b = MBIM_CLOSE_MSG

instance : DecidablePred IsOpenClose := fun _ => inferInstanceAs (Decidable (_ ∨ _))

/-- `pdata` is the receive buffer, of which the last read wrote the first `len` bytes. -/
def handleClientRequest (cs : CmClients) (client_fd : ℤ) (pdata : Bytes) (len : ℕ) : List Out :=
  match firstClient cs (·.clientFd = client_fd) with
  | none => []
  | some i =>
    if IsOpenClose pdata then
      [.client client_fd (cs i).con (openDone (messageType pdata) (transactionId pdata))]
    else
      [.dev ((setTransactionId pdata
        (transactionId pdata ||| (cs i).clientIdx <<< TID_SHIFT)).take len)]

def handleDeviceResponse (cs : CmClients) (pdata : Bytes) (len : ℕ) : List Out :=
  if transactionId pdata = 0 then
    ((List.finRange CM_MAX_CLIENT).filter fun i => 0 < (cs i).clientFd).map fun i =>
      .client (cs i).clientFd (cs i).con (pdata.take len)
  else
    match firstClient cs fun c =>
      c.clientIdx = transactionId pdata >>> TID_SHIFT ∧ 0 < c.clientFd with
    | none => []
    | some i => [.client (cs i).clientFd (cs i).con
        ((setTransactionId pdata (transactionId pdata &&& TID_MASK)).take len)]

end MbimProxy

end BananaWrt
