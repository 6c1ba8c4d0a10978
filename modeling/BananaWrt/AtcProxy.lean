import BananaWrt.Lib.Run
import BananaWrt.AtChannel
import Mathlib.Data.Int.Notation

/-!
# The AT proxy

`quectel-atc-proxy.c` lets several clients use one AT channel. `atc_proxy_loop` accepts clients and
sends their commands, one at a time; the channel's reader hands the modem's lines to
`onUnsolicited`, which sends them to the client in `current_client_fd` or, without one, to every
client. The two threads share the list of connections and `current_client_fd` without a lock; a
step is what one of them does between two points at which the other can go on.
-/

namespace BananaWrt

namespace AtcProxy

open AtChannel

/-- `ATC_PROXY_CONNECTION`. A record is known by `id`, which no later record gets again. -/
structure Connection where
  id : ℕ
  ClientFd : ℤ
  deriving DecidableEq, Repr

/-- The socket was accepted. -/
def Connection.Connected (c : Connection) : Prop := 0 ≤ c.ClientFd

instance : DecidablePred Connection.Connected := fun _ => inferInstanceAs (Decidable (_ ≤ _))

/-- Where `atc_proxy_loop` is: in `poll`, with a command of a client just read, with the client
looked up, inside `at_send_command`, back from it, or at its end. -/
inductive Loop where
  | polling
  | received (client : Connection)
  | addressed (client : Connection)
  | waiting (client : Connection)
  | returned (client : Connection)
  | exited
  deriving DecidableEq, Repr

/-- A call of `onUnsolicited`. `next` is what the channel becomes after it, if `processLine` made
the call and holds the mutex. The rest is what is told of the call: whether it hands on a final
response, whose command was open and which clients were connected when the line came, and to which
records it was sent so far. -/
structure Delivery where
  next : Option Channel
  final : Bool
  owner : Option ℕ
  clients : List ℕ
  sent : List ℕ
  deriving DecidableEq, Repr

/-- Where the reader is: in `readline`, in `send_atc_to_client` for the client in
`current_client_fd` or for one of all, or at its end. -/
inductive Reader where
  | reading
  | single (d : Delivery) (con : ℕ)
  | walking (d : Delivery) (con : ℕ)
  | closed
  deriving DecidableEq, Repr

/-- `current` is `current_client_fd` and `fault` says that memory was used that must not be.
`owner` is the client whose command was written last and has no final response yet, and `log` holds
the calls of `onUnsolicited` that are over, with the clients connected at their end. -/
structure State where
  connections : List Connection
  nextId : ℕ
  current : Option ℕ
  loop : Loop
  channel : Channel
  reader : Reader
  fault : Bool
  owner : Option ℕ
  log : List (Delivery × List ℕ)
  deriving DecidableEq, Repr

/-- `type` is what the commands of `atc_proxy_init` left in `s_type`. -/
def State.init (type : CommandType) : State :=
  ⟨[], 0, none, .polling, ⟨type, [], none, none, none⟩, .reading, false, none, []⟩

def State.find (s : State) (con : ℕ) : Option Connection := s.connections.find? (·.id = con)

def State.remove (s : State) (con : ℕ) : State :=
  { s with connections := s.connections.filter (·.id ≠ con) }

def State.clients (s : State) : List ℕ := (s.connections.filter (·.Connected)).map (·.id)

/-- The reader holds `cm_command_mutex`. -/
def State.locked (s : State) : Bool :=
  match s.reader with
  | .single d _ | .walking d _ => d.next.isSome
  | _ => false

/-- The pending command has its final response. -/
def State.answered (s : State) : Bool := s.channel.response.any (·.finalResponse.isSome)

def State.done (s : State) (d : Delivery) : State :=
  { s with
    channel := d.next.getD s.channel
    reader := .reading
    owner := if d.final then none else s.owner
    log := (d, s.clients) :: s.log }

/-- The loop of `onUnsolicited` over the rest of the list, up to the next send. -/
def State.walk (s : State) (d : Delivery) : List Connection → State
  | [] => s.done d
  | c :: rest =>
    if 0 < c.ClientFd then
      { s with reader := .walking { d with sent := d.sent ++ [c.id] } c.id }
    else s.walk d rest

/-- The size of `buf` in `onUnsolicited`. -/
def bufSize : ℕ := 1024

/-- What `onUnsolicited` puts together in `buf`. -/
def text (line : Line) (smsPdu : Option Line) : Line :=
  line ++ "\r\n".toList ++ (smsPdu.map (· ++ "\r\n".toList)).getD []

/-- `onUnsolicited` up to the first send. -/
def State.onUnsolicited (s : State) (d : Delivery) (text : Line) : State :=
  if bufSize < text.length + 1 then { s with fault := true }
  else
    match s.current with
    | none => s.walk d s.connections
    | some con =>
      match s.find con with
      | none => { s with fault := true }
      | some c => { s with reader := .single { d with sent := [c.id] } con }

/-- `send_atc_to_client` returns `ret`. -/
def State.sent (s : State) (ret : ℤ) : Option State :=
  match s.reader with
  | .single d con =>
    if ret < 0 then
      match s.find con with
      | none => some { s with fault := true }
      | some _ => some ((s.remove con).done d)
    else some (s.done d)
  | .walking d con =>
    match s.find con with
    | none => some { s with fault := true }
    | some _ =>
      let rest := (s.connections.dropWhile (·.id ≠ con)).tail
      some ((if ret < 0 then s.remove con else s).walk d rest)
  | _ => none

/-- `readerLoop` hands a line to `processLine`. -/
def State.line (s : State) (l : Line) : State :=
  let (next, action) := s.channel.processLine true l
  let d : Delivery := ⟨some next, isFinalResponse l, s.owner, s.clients, []⟩
  match action with
  | .unsolicited => s.onUnsolicited d (text l none)
  | _ => s.done d

/-- The two lines of a short message go to `onUnsolicited` at once. -/
def State.sms (s : State) (l₁ l₂ : Line) : State :=
  s.onUnsolicited ⟨none, false, s.owner, s.clients, []⟩ (text l₁ (some l₂))

def State.acceptAtcConnection (s : State) (clientFd : ℤ) : State :=
  { s with
    connections := s.connections ++ [⟨s.nextId, clientFd⟩]
    nextId := s.nextId + 1 }

def State.cleanupAtcConnection (s : State) (clientFd : ℤ) : State :=
  match s.connections.find? (·.ClientFd = clientFd) with
  | none => s
  | some c =>
    { s.remove c.id with current := if s.current = some c.id then none else s.current }

/-- The command goes to `at_send_command`, which returns at once if it cannot be written. -/
def State.atSendCommand (s : State) (client : Connection) (wrote : Bool) : State :=
  let channel := s.channel.sendCommand .noResult [] none (wrote && s.reader ≠ .closed)
  if channel.response.isSome then
    { s with channel := channel, loop := .waiting client, owner := some client.id }
  else { s with channel := channel, loop := .returned client }

inductive Input where
  /-- `accept` returns `fd`. -/
  | accept (fd : ℤ)
  /-- `poll` reports an error or a hangup on a client's socket, or `read` returns nothing. -/
  | hangup (fd : ℤ)
  /-- A command is read from a client's socket. -/
  | receive (fd : ℤ)
  /-- The connection is looked up; `slot` is what `pollfds[nevents].fd` holds. -/
  | lookup (slot : ℤ)
  | write (wrote : Bool)
  | finish
  | timeout
  | clear
  | quit
  | line (l : Line)
  | sms (l₁ l₂ : Line)
  | sent (ret : ℤ)
  | close
  deriving DecidableEq, Repr

/-- A descriptor that `accept` returns is not in use, and `poll` reports nothing on a negative one.
The slot of `pollfds` after those in use was not written in this turn of the loop, so it can hold
anything. After a fault there is nothing to say. -/
def step (s : State) (i : Input) : Option State :=
  if s.fault then none
  else
    match i with
    | .accept fd =>
      if s.loop = .polling ∧ -1 ≤ fd ∧ (0 ≤ fd → ∀ c ∈ s.connections, c.ClientFd ≠ fd) then
        some (s.acceptAtcConnection fd)
      else none
    | .hangup fd =>
      if s.loop = .polling ∧ 0 ≤ fd then some (s.cleanupAtcConnection fd) else none
    | .receive fd =>
      if s.loop = .polling ∧ 0 ≤ fd then
        (s.connections.find? (·.ClientFd = fd)).map fun c => { s with loop := .received c }
      else none
    | .lookup slot =>
      match s.loop with
      | .received client =>
        let found := (s.connections.find? (·.ClientFd = slot)).map (·.id)
        some { s with loop := .addressed client, current := found.or s.current }
      | _ => none
    | .write wrote =>
      match s.loop with
      | .addressed client => if s.locked then none else some (s.atSendCommand client wrote)
      | _ => none
    | .finish =>
      match s.loop with
      | .waiting client =>
        if ¬ s.locked ∧ (s.reader = .closed ∨ s.answered) then
          some { s with loop := .returned client, channel := s.channel.clearPendingCommand }
        else none
      | _ => none
    | .timeout =>
      match s.loop with
      | .waiting client =>
        if s.locked then none
        else some { s with loop := .returned client, channel := s.channel.clearPendingCommand }
      | _ => none
    | .clear =>
      match s.loop with
      | .returned _ => some { s with loop := .polling, current := none }
      | _ => none
    | .quit =>
      if s.loop = .polling then
        some { s.connections.foldl (fun s c => s.cleanupAtcConnection c.ClientFd) s with
          loop := .exited }
      else none
    | .line l =>
      if s.reader = .reading ∧ ¬ isSMSUnsolicited l then some (s.line l) else none
    | .sms l₁ l₂ =>
      if s.reader = .reading ∧ isSMSUnsolicited l₁ then some (s.sms l₁ l₂) else none
    | .sent ret => s.sent ret
    | .close => if s.reader = .reading then some { s with reader := .closed } else none

abbrev exec : State → List Input → Option State := Runs.exec step

/-- The line was sent to the client whose command was open, if it was still connected, and to no
other. Without an open command it was sent at most once to each client and to every one that was
connected from its beginning to its end. -/
def Delivery.Routed (d : Delivery) (remaining : List ℕ) : Prop :=
  match d.owner with
  | some client => d.sent = d.clients.filter (· = client)
  | none => d.sent.Nodup ∧ ∀ c ∈ d.clients, c ∈ remaining → c ∈ d.sent

/-- So far the line was sent to no client twice and to none but the one whose command is open. -/
def Delivery.Confined (d : Delivery) : Prop :=
  d.sent.Nodup ∧ ∀ client ∈ d.owner, ∀ c ∈ d.sent, c = client

def Reader.delivery : Reader → Option Delivery
  | .single d _ | .walking d _ => some d
  | _ => none

structure Isolated (s : State) : Prop where
  fault : s.fault = false
  routed : ∀ e ∈ s.log, e.1.Routed e.2
  confined : ∀ d ∈ s.reader.delivery, d.Confined

/-- `current_client_fd` is what it has to be: it is not set before the command is written and not
kept after the final response. -/
def State.settled (s : State) : Bool :=
  match s.loop with
  | .polling | .received _ | .exited => true
  | .waiting _ => !s.answered
  | .addressed _ | .returned _ => false

/-- The client whose command was read and has no final response. -/
def State.engaged (s : State) : Option ℕ :=
  match s.loop with
  | .received client | .addressed client => some client.id
  | .waiting client => if s.answered then none else some client.id
  | _ => none

/-- The record `onUnsolicited` has come to on its way through the list. -/
def State.visited (s : State) : Option Connection :=
  match s.reader with
  | .walking _ con => s.find con
  | _ => none

/-- The record that a failed write removes is not needed any more. -/
def State.dispensable (s : State) : Bool :=
  match s.reader with
  | .single d _ => d.final
  | .walking _ con => s.engaged ≠ some con
  | _ => true

def Loop.asking : Loop → Option Connection
  | .received client => some client
  | _ => none

/-- The slot of `pollfds` that is looked up holds the descriptor of the client that sent the
command; no line comes while `current_client_fd` is set without an open command; every line fits
`buf`; a write to a client whose command is under way fails with the final response at most; the
loop removes no record that `onUnsolicited` has come to; no command times out; and no client gets
the descriptor 0. -/
def Calm (s : State) : Input → Prop
  | .accept fd => fd ≠ 0
  | .hangup fd => ∀ c ∈ s.visited, c.ClientFd ≠ fd
  | .lookup slot => ∀ client ∈ s.loop.asking, slot = client.ClientFd
  | .timeout => False
  | .quit => s.visited = none
  | .line l => s.settled ∧ (text l none).length < bufSize
  | .sms l₁ l₂ => s.settled ∧ (text l₁ (some l₂)).length < bufSize
  | .sent ret => 0 ≤ ret ∨ s.dispensable
  | _ => True

instance (s : State) : ∀ i, Decidable (Calm s i)
  | .accept _ => inferInstanceAs (Decidable (_ ≠ _))
  | .hangup _ => inferInstanceAs (Decidable (∀ c ∈ s.visited, _))
  | .lookup _ => inferInstanceAs (Decidable (∀ client ∈ s.loop.asking, _))
  | .timeout => inferInstanceAs (Decidable False)
  | .quit => inferInstanceAs (Decidable (_ = _))
  | .line _ | .sms _ _ => inferInstanceAs (Decidable (_ ∧ _))
  | .sent _ => inferInstanceAs (Decidable (_ ∨ _))
  | .receive _ | .write _ | .finish | .clear | .close => inferInstanceAs (Decidable True)

end AtcProxy

end BananaWrt
