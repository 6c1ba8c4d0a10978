import BananaWrt.QmiRequests
import Mathlib.Algebra.Group.Int.Defs

/-!
# Operations over the two threads

The main thread runs one operation at a time. Each of its requests goes through the threads of
`QmiThread` and the operation goes on with what the call returned. Between operations the main
thread may make other calls.

The static variables and the profile are whatever they are when the operation starts. `own` is
the return of the operation's first call, the one its result is about; a later call only asks for
the home network.
-/

namespace BananaWrt

namespace QmiSession

open Bytes Qmi QmiThread QmiRequests

inductive Op where
  | setupDataCall (f : IpFamily)
  | queryDataCall (status : ℕ) (f : IpFamily)
  | deactivateDefaultPDP (f : IpFamily)
  | getIPAddress (f : IpFamily)
  | registrationState (psAttachedState : ℕ)
  | setProfile
  deriving DecidableEq, Repr

def Op.prog (s : State) : Op → Calls Request Reply ℤ
  | .setupDataCall f => (requestSetupDataCall s f).map Prod.fst
  | .queryDataCall status f => (requestQueryDataCall s status f).map Prod.fst
  | .deactivateDefaultPDP f => (requestDeactivateDefaultPDP s f).map Prod.fst
  | .getIPAddress f => (requestGetIPAddress s f).map Prod.fst
  | .registrationState psAttachedState =>
    (requestRegistrationState s psAttachedState).map Prod.fst
  | .setProfile => (requestSetProfile s).map Prod.fst

/-- There is no call to stop or to ask about, or the modem's profile needs no change. -/
def Op.EarlyExit (s : State) : Op → Prop
  | .deactivateDefaultPDP f | .getIPAddress f => s.handle f = 0
  | .setProfile => s.profile.IsSet
  | .setupDataCall _ | .queryDataCall _ _ | .registrationState _ => False

structure Task where
  op : Op
  start : State
  own : Option Return
  prog : Calls Request Reply ℤ

structure Outcome where
  op : Op
  start : State
  own : Option Return
  ret : ℤ
  deriving DecidableEq, Repr

structure Session where
  world : World
  task : Option Task
  outcomes : List Outcome

def Session.init : Session := ⟨World.init, none, []⟩

def Task.Sends (t : Task) (req : Request) : Prop :=
  match t.prog with
  | .ret _ => False
  | .call q _ => q = req

instance : ∀ (t : Task) (req : Request), Decidable (t.Sends req)
  | ⟨_, _, _, .ret _⟩, _ => .isFalse id
  | ⟨_, _, _, .call q _⟩, req => inferInstanceAs (Decidable (q = req))

def Task.resume (t : Task) (r : Return) : Task :=
  match t.prog with
  | .ret _ => t
  | .call _ k =>
    { t with own := t.own.or (some r), prog := k ⟨r.err, r.response.map Received.msg⟩ }

/-- An operation that has returned is recorded. -/
def Session.settle (s : Session) (w : World) (t : Task) : Session :=
  match t.prog with
  | .ret v => ⟨w, none, s.outcomes ++ [⟨t.op, t.start, t.own, v⟩]⟩
  | .call _ _ => ⟨w, some t, s.outcomes⟩

def Session.after (s : Session) (w : World) : Session :=
  match s.task, w.returned[s.world.returned.length]? with
  | some t, some r => s.settle w (t.resume r)
  | _, _ => { s with world := w }

inductive Input where
  | start (op : Op) (state : State)
  | thread (i : QmiThread.Input)
  deriving DecidableEq, Repr

/-- During an operation only its own request is sent. -/
def Session.CanTake (s : Session) : QmiThread.Input → Prop
  | .send req _ _ _ pp => ∀ t ∈ s.task, t.Sends req ∧ pp = true
  | _ => True

instance (s : Session) : ∀ i, Decidable (s.CanTake i)
  | .send _ _ _ _ _ => inferInstanceAs (Decidable (∀ t ∈ _, _))
  | .recv _ _ _ | .recvNull | .wake | .timeout _ => .isTrue trivial

def step (s : Session) : Input → Option Session
  | .start op state =>
    if s.task.isSome ∨ s.world.waiting.isSome then none
    else some (s.settle s.world ⟨op, state, none, op.prog state⟩)
  | .thread i => if s.CanTake i then (QmiThread.step s.world i).map s.after else none

abbrev run (is : List Input) : Option Session := Runs.exec step Session.init is

def int32 (n : ℕ) : ℤ := if n < 2 ^ 31 then n else n - 2 ^ 32

/-- Types 1, 2 and 4 are `OPEN_DONE`, `CLOSE_DONE` and `FUNCTION_ERROR_MSG`, 3 is
`COMMAND_DONE`. -/
def mbimStatusCode (b : Bytes) : ℤ :=
  if le32 b 0 = 0x80000001 ∨ le32 b 0 = 0x80000002 ∨ le32 b 0 = 0x80000004 then
    int32 (le32 b 12)
  else if le32 b 0 = 0x80000003 then int32 (le32 b 40)
  else 0

/-- The macro `mbim_check_err`: the value it returns, or the response to go on with. -/
def mbimCheckErr (r : Reply) : Except ℤ Bytes :=
  if r.err ≠ 0 then .error r.err
  else
    match r.response with
    | none => .error 8888
    | some b => if mbimStatusCode b ≠ 0 then .error (mbimStatusCode b) else .ok b

end QmiSession

end BananaWrt
