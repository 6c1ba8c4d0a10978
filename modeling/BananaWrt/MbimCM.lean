import BananaWrt.Lib.Run
import BananaWrt.MbimProxy

/-!
# Requests of the MBIM client

`mbim-cm.c` composes a request with the next transaction id and hands it to `mbim_send_command`,
which writes it to the device or the proxy. The proxy keeps a client number in the top byte of the
id, so the ids start again at 1 after `0xFFFFFF`; this is done where the request is sent.
-/

namespace BananaWrt

namespace MbimCM

open Bytes MbimProxy

def MBIM_COMMAND_MSG : ℕ := 3

def uuidBasicConnect : Bytes :=
  [0xA2, 0x89, 0xCC, 0x33, 0xBC, 0xBB, 0x8B, 0x4F, 0xB6, 0xB0, 0x13, 0x3E, 0xC2, 0xAA, 0xE6, 0xDF]

def uuidBasicConnectExt : Bytes :=
  [0x3D, 0x01, 0xDC, 0xC5, 0xFE, 0xF5, 0x4D, 0x05, 0x0D, 0x3A, 0xBE, 0xF7, 0x05, 0x8E, 0x9A, 0xAF]

def uuidExtQmux : Bytes :=
  [0xD1, 0xA3, 0x0B, 0xC2, 0xF9, 0x7A, 0x6E, 0x43, 0xBF, 0x65, 0xC7, 0xE2, 0x4F, 0xB0, 0xF0, 0xD3]

def messageHeader (type length tid : ℕ) : Bytes := ofLe32 type ++ ofLe32 length ++ ofLe32 tid

def composeOpenCommand (MaxControlTransfer tid : ℕ) : Bytes :=
  messageHeader MBIM_OPEN_MSG 16 tid ++ ofLe32 MaxControlTransfer

def composeCloseCommand (tid : ℕ) : Bytes := messageHeader MBIM_CLOSE_MSG 12 tid

/-- `compose_basic_connect_command` and its wrappers, which differ in `DeviceServiceId`. -/
def composeCommand (uuid : Bytes) (CID CommandType : ℕ) (informationBuffer : Bytes) (tid : ℕ) :
    Bytes :=
  messageHeader MBIM_COMMAND_MSG (48 + informationBuffer.length) tid
    ++ (ofLe32 1 ++ ofLe32 0 ++ uuid ++ ofLe32 CID ++ ofLe32 CommandType
      ++ ofLe32 informationBuffer.length ++ informationBuffer)

inductive Command where
  | openMsg (MaxControlTransfer : ℕ)
  | closeMsg
  | basicConnect (CID CommandType : ℕ) (informationBuffer : Bytes)
  | basicConnectExt (CID CommandType : ℕ) (informationBuffer : Bytes)
  | qmiOverMbim (CID CommandType : ℕ) (informationBuffer : Bytes)
  deriving DecidableEq, Repr

def Command.compose (tid : ℕ) : Command → Bytes
  | openMsg m => composeOpenCommand m tid
  | closeMsg => composeCloseCommand tid
  | basicConnect cid type info => composeCommand uuidBasicConnect cid type info tid
  | basicConnectExt cid type info => composeCommand uuidBasicConnectExt cid type info tid
  | qmiOverMbim cid type info => composeCommand uuidExtQmux cid type info tid

/-- The first id that the proxy has no room for. -/
def tidLimit : ℕ := 0xFFFFFF + 1

/-- `TransactionId`, the requests that were composed and not yet handed to `mbim_send_command`,
and the requests that were written, the last one first. -/
structure State where
  TransactionId : ℕ
  composed : List Bytes
  written : List Bytes
  deriving DecidableEq, Repr

def State.init : State := ⟨1, [], []⟩

/-- The ids of the requests that were written, the last one first. -/
def State.ids (s : State) : List ℕ := s.written.map transactionId

/-- A request is composed, or composing it fails for want of memory. -/
def State.compose (s : State) (c : Command) (allocated : Bool) : State :=
  if allocated then
    { s with
      TransactionId := (s.TransactionId + 1) % 2 ^ 32
      composed := s.composed ++ [c.compose s.TransactionId] }
  else s

/-- What `mbim_send_command` finds in `mbim_fd` and `s_tid_reader`, and what `write` returns. -/
structure Device where
  mbimFd : ℤ
  sTidReader : ℕ
  ret : ℤ
  deriving DecidableEq, Repr

def Device.Present (d : Device) : Prop := 0 < d.mbimFd ∧ d.sTidReader ≠ 0

instance (d : Device) : Decidable d.Present := inferInstanceAs (Decidable (_ ∧ _))

/-- `mbim_send_command`. Something of the request gets to the device if `write` returns more than
zero. -/
def State.send (s : State) (request : Bytes) (d : Device) : State :=
  if ¬ d.Present then s
  else
    let wraps := transactionId request = tidLimit
    { s with
      TransactionId := if wraps then 2 else s.TransactionId
      written :=
        if 0 < d.ret then (if wraps then setTransactionId request 1 else request) :: s.written
        else s.written }

inductive Input where
  | compose (c : Command) (allocated : Bool)
  | send (i : ℕ) (d : Device)
  deriving DecidableEq, Repr

/-- A request that has been handed to `mbim_send_command` is freed. Without a request there is
nothing to send. -/
def step (s : State) : Input → Option State
  | .compose c allocated => some (s.compose c allocated)
  | .send i d =>
    match s.composed[i]? with
    | none => some s
    | some request => some { s.send request d with composed := s.composed.eraseIdx i }

abbrev exec : State → List Input → Option State := Runs.exec step

/-- The ids that were written fit the proxy, and no two in succession are the same. -/
structure IdsFit (s : State) : Prop where
  range : ∀ id ∈ s.ids, 1 ≤ id ∧ id ≤ 0xFFFFFF
  chain : s.ids.IsChain (· ≠ ·)

/-- A request is composed once the one before it has been handed on, and the request that got the
first id too large is written, after a request that did not have the id 1. -/
def Orderly (s : State) : Input → Prop
  | .compose _ _ => s.composed = []
  | .send i d => ∀ request ∈ s.composed[i]?, transactionId request = tidLimit →
    d.Present ∧ 0 < d.ret ∧ 1 ∉ s.ids.head?

instance (s : State) : ∀ i, Decidable (Orderly s i)
  | .compose _ _ => inferInstanceAs (Decidable (_ = _))
  | .send i _ => inferInstanceAs (Decidable (∀ request ∈ s.composed[i]?, _ → _))

end MbimCM

end BananaWrt
