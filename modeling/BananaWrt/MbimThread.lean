import BananaWrt.MbimCM
import BananaWrt.QmiSession

/-!
# Requests, answers and indications of the MBIM client

`mbim_send_command` puts its request into `mbim_pRequest`, writes it and waits; the reader thread
calls `mbim_recv_command` for every message, which keeps a copy of the message that has the id of
the request, and otherwise looks at indications. Both hold `mbim_command_mutex`. The main thread
alone sends, and reads the answer when it no longer holds the mutex.

Of four of the device's states the client keeps the last value that an answer told it, the `old`
one, and an indication of another value makes it send an event to the main thread. The device is
part of the model: it answers requests in any order and as late as it likes, and changes its states
as it likes, but tells each change. A message on its way carries where it comes from (`Origin`); the
code knows nothing of this.
-/

namespace BananaWrt

namespace MbimThread

open Bytes MbimProxy MbimCM
open QmiThread (Received Origin MainEvent ENODEV EINVAL)

def MBIM_INDICATE_STATUS_MSG : ℕ := 0x80000007

def ENOMEM : ℤ := 12

/-- `ReadyState`, `RegisterState`, `PacketServiceState` and `ActivationState`. -/
inductive Field where
  | readyState
  | registerState
  | packetServiceState
  | activationState
  deriving DecidableEq, Repr

structure PerField (α : Type) where
  readyState : α
  registerState : α
  packetServiceState : α
  activationState : α
  deriving DecidableEq, Repr

namespace PerField

variable {α : Type}

def get (p : PerField α) : Field → α
  | .readyState => p.readyState
  | .registerState => p.registerState
  | .packetServiceState => p.packetServiceState
  | .activationState => p.activationState

def set (p : PerField α) (k : Field) (v : α) : PerField α :=
  match k with
  | .readyState => { p with readyState := v }
  | .registerState => { p with registerState := v }
  | .packetServiceState => { p with packetServiceState := v }
  | .activationState => { p with activationState := v }

def all (v : α) : PerField α := ⟨v, v, v, v⟩

@[simp] theorem get_set (p : PerField α) (k k' : Field) (v : α) :
    (p.set k v).get k' = if k' = k then v else p.get k' := by
  cases k <;> cases k' <;> rfl

@[simp] theorem get_all (v : α) (k : Field) : (all v).get k = v := by
  cases k <;> rfl

end PerField

def Field.CID : Field → ℕ
  | .readyState => 2
  | .registerState => 9
  | .packetServiceState => 10
  | .activationState => 12

/-- Where the information about a state has it. -/
def Field.offset : Field → ℕ
  | .readyState => 0
  | .registerState | .packetServiceState | .activationState => 4

def Field.event : Field → MainEvent
  | .readyState | .registerState | .packetServiceState => .networkStateChanged
  | .activationState => .dataCallListChanged

def Field.ofCID (CID : ℕ) : Option Field :=
  [Field.readyState, .registerState, .packetServiceState, .activationState].find? (·.CID = CID)

/-- The state that an indication tells, and its value. `InformationBuffer` is at 44, and
`SessionId` is the first of `MBIM_CONNECT_T`. -/
def indicated (sessionID : ℕ) (b : Bytes) : Option (Field × ℕ) :=
  if le32 b 0 = MBIM_INDICATE_STATUS_MSG ∧ (b.drop 20).take 16 = uuidBasicConnect then
    match Field.ofCID (le32 b 36) with
    | none => none
    | some k =>
      if k = .activationState ∧ le32 b 44 ≠ sessionID then none
      else some (k, le32 b (44 + k.offset))
  else none

/-- The state that a caller finds in an answer that `mbim_check_err` lets through.
`InformationBufferLength` is at 44, `InformationBuffer` behind it. -/
def answered (k : Field) (b : Bytes) : Option ℕ :=
  if le32 b 44 ≠ 0 then some (le32 b (48 + k.offset)) else none

/-- A message has the length it says, and an indication has what is read of it. -/
def Whole (b : Bytes) : Prop :=
  12 ≤ b.length ∧ le32 b 4 = b.length ∧
    (le32 b 0 = MBIM_INDICATE_STATUS_MSG →
      44 ≤ b.length ∧ ((Field.ofCID (le32 b 36)).isSome → 52 ≤ b.length))

instance : DecidablePred Whole := fun _ => inferInstanceAs (Decidable (_ ∧ _ ∧ (_ → _)))

/-- What a request is about: one of the four states, with the rest of the command, or something
else. -/
inductive Query where
  | state (k : Field) (CommandType : ℕ) (informationBuffer : Bytes)
  | other (c : Command)
  deriving DecidableEq, Repr

def Query.command : Query → Command
  | .state k CommandType informationBuffer => .basicConnect k.CID CommandType informationBuffer
  | .other c => c

def Query.field : Query → Option Field
  | .state k _ _ => some k
  | .other _ => none

/-- A call that got as far as `write`: its number, its request as written, and how many requests
had been composed before it. -/
structure Call where
  number : ℕ
  query : Query
  request : Bytes
  serial : ℕ
  deriving DecidableEq, Repr

/-- What `mbim_send_command` returned, and what it put into `*ppCmdDone`. A call that did not get as
far as `write` has no number. -/
structure Return where
  call : Option Call
  err : ℤ
  response : Option Received
  deriving DecidableEq, Repr

structure World where
  TransactionId : ℕ
  drawn : ℕ
  mbimRequest : Option Bytes
  mbimResponse : Option Received
  cmRecvBuf : Bytes
  sessionID : ℕ
  cur : PerField ℕ
  old : PerField ℕ
  posted : List MainEvent
  /-- A state is due while the main thread has not read it, or an event about it was posted since
  it last did. -/
  due : PerField Bool
  calls : List Call
  waiting : Option Call
  /-- What the last call returned, while its caller has not looked at it. -/
  held : Option Return
  returned : List Return
  dev : PerField ℕ
  /-- What the device has sent and the reader thread has not read, the first one first. -/
  channel : List Received
  deriving DecidableEq, Repr

def World.init (sessionID : ℕ) (cmRecvBuf : Bytes) (dev : PerField ℕ) : World where
  TransactionId := 1
  drawn := 0
  mbimRequest := none
  mbimResponse := none
  cmRecvBuf := cmRecvBuf
  sessionID := sessionID
  cur := .all 0
  old := .all 0
  posted := []
  due := .all true
  calls := []
  waiting := none
  held := none
  returned := []
  dev := dev
  channel := []

def World.post (w : World) (k : Field) : World :=
  { w with posted := w.posted ++ [k.event], due := w.due.set k true }

/-- `mbim_recv_command`, for what `cm_recv_buf` holds. -/
def World.mbimRecvCommand (w : World) (pResponse : Bytes) (origin : Origin) (alloc : Bool) :
    World :=
  if w.mbimRequest.any (transactionId · = transactionId pResponse) then
    { w with
      mbimResponse := if alloc then some ⟨pResponse.take (le32 pResponse 4), origin⟩ else none }
  else
    match indicated w.sessionID pResponse with
    | none => w
    | some (k, v) => if w.old.get k ≠ v then w.post k else w

/-- The reader thread reads the next message into `cm_recv_buf`. -/
def World.recv (w : World) (alloc : Bool) : World :=
  match w.channel with
  | [] => w
  | r :: channel =>
    { w with channel := channel, cmRecvBuf := overlay r.msg w.cmRecvBuf }.mbimRecvCommand
      (overlay r.msg w.cmRecvBuf) r.origin alloc

/-- The request is written and waited for, with `TransactionId` as it is then. -/
def World.writeRequest (w : World) (query : Query) (pRequest : Bytes) (TransactionId : ℕ)
    (d : Device) : World :=
  let call : Call := ⟨w.calls.length, query, pRequest, w.drawn - 1⟩
  let w := { w with TransactionId := TransactionId, calls := w.calls ++ [call] }
  if 0 < d.ret ∧ d.ret = le32 pRequest 4 then
    { w with mbimRequest := some pRequest, mbimResponse := none, waiting := some call }
  else { w with
    mbimRequest := none
    mbimResponse := none
    held := some ⟨some call, d.ret, none⟩ }

/-- `mbim_send_command` up to the wait, with a request that was allocated. -/
def World.mbimSendCommand (w : World) (query : Query) (pRequest : Bytes) (d : Device) : World :=
  if transactionId pRequest = tidLimit then
    w.writeRequest query (setTransactionId pRequest 1) 2 d
  else w.writeRequest query pRequest w.TransactionId d

/-- A caller composes its request and hands it on. -/
def World.send (w : World) (query : Query) (allocated : Bool) (d : Device) : World :=
  let composed := query.command.compose w.TransactionId
  let w := if allocated then
      { w with TransactionId := (w.TransactionId + 1) % 2 ^ 32, drawn := w.drawn + 1 }
    else w
  if d.mbimFd ≤ 0 then { w with held := some ⟨none, -ENODEV, none⟩ }
  else if d.sTidReader = 0 then { w with held := some ⟨none, -EINVAL, none⟩ }
  else if ¬ allocated then { w with held := some ⟨none, -ENOMEM, none⟩ }
  else w.mbimSendCommand query composed d

/-- The wait is over. -/
def World.wake (w : World) (call : Call) (err : ℤ) : World :=
  { w with
    mbimRequest := none
    mbimResponse := none
    waiting := none
    held := some ⟨some call, err, if err = 0 then w.mbimResponse else none⟩ }

def World.mbimUpdateState (w : World) : World := { w with old := w.cur }

/-- What the callers that ask for a state do with the answer. -/
def World.noteState (w : World) (k : Field) (b : Bytes) : World :=
  match answered k b with
  | none => w
  | some v => { w with cur := w.cur.set k v, due := w.due.set k false }.mbimUpdateState

/-- The caller looks at what its call returned. -/
def World.note (w : World) (r : Return) : World :=
  let w := { w with held := none, returned := w.returned ++ [r] }
  match r.call.bind (·.query.field),
    QmiSession.mbimCheckErr ⟨r.err, r.response.map Received.msg⟩ with
  | some k, .ok b => w.noteState k b
  | _, _ => w

inductive Input where
  | send (query : Query) (allocated : Bool) (d : Device)
  | recv (alloc : Bool)
  | wake
  | timeout (err : ℤ)
  | note
  /-- The device answers a call. -/
  | answer (call : ℕ) (msg : Bytes)
  /-- The device sends an indication; if it tells a state, this is the value from then on. -/
  | indicate (msg : Bytes)
  deriving DecidableEq, Repr

/-- An answer has the id of its request, and where it would be read for a state, it has the device's
value. -/
def World.CanAnswer (w : World) (call : Call) (msg : Bytes) : Prop :=
  Whole msg ∧ transactionId msg = transactionId call.request ∧
    ∀ k ∈ call.query.field, QmiSession.mbimStatusCode msg = 0 →
      ∀ v ∈ answered k msg, v = w.dev.get k

instance (w : World) (call : Call) (msg : Bytes) : Decidable (w.CanAnswer call msg) :=
  inferInstanceAs (Decidable (_ ∧ _ ∧ ∀ k ∈ call.query.field, _ → ∀ v ∈ answered k msg, _))

/-- An indication has the id 0. -/
def CanIndicate (msg : Bytes) : Prop :=
  Whole msg ∧ transactionId msg = 0 ∧ le32 msg 0 = MBIM_INDICATE_STATUS_MSG

instance : DecidablePred CanIndicate := fun _ => inferInstanceAs (Decidable (_ ∧ _))

def World.indicate (w : World) (msg : Bytes) : World :=
  { w with
    dev := match indicated w.sessionID msg with
      | none => w.dev
      | some (k, v) => w.dev.set k v
    channel := w.channel ++ [⟨msg, .indication⟩] }

def step (w : World) : Input → Option World
  | .send query allocated d =>
    if w.waiting.isSome ∨ w.held.isSome then none else some (w.send query allocated d)
  | .recv alloc => some (w.recv alloc)
  | .wake => w.waiting.map fun call => w.wake call 0
  | .timeout err => if err = 0 then none else w.waiting.map fun call => w.wake call err
  | .note => w.held.map w.note
  | .answer n msg =>
    match w.calls[n]? with
    | none => none
    | some call =>
      if w.CanAnswer call msg then
        some { w with channel := w.channel ++ [⟨msg, .response n⟩] }
      else none
  | .indicate msg => if CanIndicate msg then some (w.indicate msg) else none

/-- Fewer than `0xFFFFFF` requests have been composed since the one whose answer comes in, and no
request with the id of indications waits when one comes in. -/
def World.InTime (w : World) (r : Received) : Prop :=
  match r.origin with
  | .response n => ∀ call ∈ w.calls[n]?, w.drawn ≤ call.serial + 0xFFFFFF
  | .indication => ∀ pRequest ∈ w.mbimRequest, transactionId pRequest ≠ 0

instance (w : World) : ∀ r, Decidable (w.InTime r)
  | ⟨_, .response n⟩ => inferInstanceAs (Decidable (∀ call ∈ w.calls[n]?, _))
  | ⟨_, .indication⟩ => inferInstanceAs (Decidable (∀ pRequest ∈ w.mbimRequest, _))

def Timely (w : World) : Input → Prop
  | .recv _ => ∀ r ∈ w.channel.head?, w.InTime r
  | _ => True

instance (w : World) : ∀ i, Decidable (Timely w i)
  | .recv _ => inferInstanceAs (Decidable (∀ r ∈ w.channel.head?, _))
  | .send _ _ _ | .wake | .timeout _ | .note | .answer _ _ | .indicate _ => .isTrue trivial

/-- An indication is not taken in between an answer and its caller. -/
def Prompt (w : World) : Input → Prop
  | .recv _ => ∀ r ∈ w.channel.head?, r.origin = .indication →
    w.mbimResponse = none ∧ w.held = none
  | _ => True

instance (w : World) : ∀ i, Decidable (Prompt w i)
  | .recv _ => inferInstanceAs (Decidable (∀ r ∈ w.channel.head?, _ → _))
  | .send _ _ _ | .wake | .timeout _ | .note | .answer _ _ | .indicate _ => .isTrue trivial

end MbimThread

end BananaWrt
