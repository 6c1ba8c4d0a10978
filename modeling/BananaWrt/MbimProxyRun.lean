import BananaWrt.Lib.Run
import BananaWrt.MbimProxy

/-!
# The loop of the MBIM proxy

`proxy_loop` polls the device, then the server socket and the clients, and serves the descriptors
of one round in the order in which it polled them. A `World` is the loop between two of these:
`todo` has the descriptors of the round that are still to be served, `exited` what `proxy_loop`
returned once it has. The requests written to the device so far are kept as a history.

What the system calls return is the input: the loop is run over a list of polls and of the
outcomes at the descriptors.
-/

namespace BananaWrt

namespace MbimProxy

open Bytes

/-- A request that was written to the device: its connection and slot, the `TransactionId` the
client had put in, and what was written. -/
structure Request where
  con : ℕ
  slot : Fin CM_MAX_CLIENT
  tid : ℕ
  sent : Bytes
  deriving DecidableEq, Repr

structure World where
  devFd : ℤ
  serverFd : ℤ
  cmClients : CmClients
  todo : List ℤ
  exited : Option ℤ
  requests : List Request
  nextCon : ℕ

inductive Ready where
  | quiet
  /-- One of `POLLERR`, `POLLHUP` and `POLLNVAL`. -/
  | hangup
  /-- `POLLIN` on the server socket, and what `accept` returns. -/
  | accepted (client_fd : ℤ)
  /-- `POLLIN` on another descriptor, and `read` returns `len`, zero or negative. -/
  | noData (len : ℤ)
  /-- `POLLIN` on another descriptor, and `read` returns `chunk` into a receive buffer that held
  `stale`. `made` is what `proxy_make_server` returns if it is called. -/
  | data (stale chunk : Bytes) (made : ℤ)
  deriving DecidableEq, Repr

inductive Input where
  | poll (ok : Bool)
  | event (e : Ready)
  deriving DecidableEq, Repr

def World.init (devFd : ℤ) : World where
  devFd := devFd
  serverFd := -1
  cmClients := fun _ => ⟨0, 0, 0⟩
  todo := []
  exited := none
  requests := []
  nextCon := 0

def openFds (cs : CmClients) : List ℤ :=
  ((List.finRange CM_MAX_CLIENT).map fun i => (cs i).clientFd).filter (0 < ·)

def World.pollfds (w : World) : List ℤ :=
  w.devFd :: if 0 < w.serverFd then w.serverFd :: openFds w.cmClients else []

def World.error (w : World) : World :=
  { w with
    serverFd := safeClose w.serverFd
    cmClients := fun i => { w.cmClients i with clientFd := safeClose (w.cmClients i).clientFd }
    exited := some 0 }

/-- A descriptor that the system hands out is positive and not in use. -/
def World.FreshFd (w : World) (fd : ℤ) : Prop :=
  0 < fd ∧ fd ≠ w.devFd ∧ fd ≠ w.serverFd ∧ fd ∉ openFds w.cmClients

instance (w : World) (fd : ℤ) : Decidable (w.FreshFd fd) :=
  inferInstanceAs (Decidable (_ ∧ _ ∧ _ ∧ _))

def World.record (w : World) (fd : ℤ) (pdata : Bytes) (len : ℕ) : List Request :=
  match firstClient w.cmClients (·.clientFd = fd) with
  | none => w.requests
  | some i => w.requests ++ (handleClientRequest w.cmClients fd pdata len).filterMap fun
    | .dev sent => some ⟨(w.cmClients i).con, i, transactionId pdata, sent⟩
    | .client _ _ _ => none

/-- What the device sends: up to its `MBIM_OPEN_DONE` there is no server and there are no
clients. -/
def World.deviceData (w : World) (pdata : Bytes) (len : ℕ) (made : ℤ) : World × List Out :=
  if w.serverFd = -1 then
    if messageType pdata = MBIM_OPEN_DONE then
      if openDoneStatus pdata ≠ 0 then (w.error, []) else ({ w with serverFd := made }, [])
    else (w, [])
  else (w, handleDeviceResponse w.cmClients pdata len)

/-- One pass of the loop over the polled descriptors, `none` for what cannot be found at `fd`. -/
def serve (w : World) (fd : ℤ) : Ready → Option (World × List Out)
  | .quiet => some (w, [])
  | .hangup =>
    if fd = w.devFd then some (w.error, [])
    else if fd = w.serverFd then some (w, [])
    else some ({ w with cmClients := handleClientDisconnect w.cmClients fd }, [])
  | .accepted client_fd =>
    if fd = w.serverFd ∧ (client_fd < 0 ∨ w.FreshFd client_fd) then
      some ({ w with
        cmClients := handleClientConnect w.cmClients client_fd w.nextCon
        nextCon := w.nextCon + 1 }, [])
    else none
  | .noData len =>
    if fd = w.serverFd ∨ 0 < len then none
    else if fd = w.devFd then some (w.error, [])
    else some ({ w with
      cmClients := handleClientDisconnect w.cmClients fd
      exited := some len }, [])
  | .data stale chunk made =>
    if fd = w.serverFd ∨ chunk = [] ∨ ¬ (made = -1 ∨ w.FreshFd made) then none
    else if fd = w.devFd then some (w.deviceData (overlay chunk stale) chunk.length made)
    else some ({ w with requests := w.record fd (overlay chunk stale) chunk.length },
      handleClientRequest w.cmClients fd (overlay chunk stale) chunk.length)

def step (w : World) (i : Input) : Option World :=
  if w.exited.isSome then none
  else match w.todo, i with
  | [], .poll ok => some (if ok then { w with todo := w.pollfds } else w.error)
  | fd :: rest, .event e => (serve { w with todo := rest } fd e).map (·.1)
  | _, _ => none

abbrev run (devFd : ℤ) (is : List Input) : Option World := Runs.exec step (World.init devFd) is

end MbimProxy

end BananaWrt
