import BananaWrt.MhiUci

/-!
# Writing to a character device

`mhi_uci_write` splits what it is given into chunks of up to `mtu` bytes. For each it waits for free
descriptors, copies the chunk from the user and queues it, chained to the next one if there is a
descriptor for that too. `w_mutex` keeps other writes out; what a call meets on its way is a list of
rounds, one for each chunk.
-/

namespace BananaWrt

namespace Uci

/-- `enum MHI_FLAGS`. -/
inductive MhiFlags where
  | mhiEob
  | mhiEot
  | mhiChain
  deriving DecidableEq, Repr

def MhiFlags.toNat : MhiFlags → ℕ
  | .mhiEob => 0
  | .mhiEot => 1
  | .mhiChain => 2

/-- A descriptor of the uplink ring, with the bytes that it points to. -/
structure Tre where
  buf : Bytes
  eob : Bool
  eot : Bool
  chain : Bool
  deriving DecidableEq, Repr

/-- `mhi_gen_tre`. -/
def mhiGenTre (buf : Bytes) (flags : MhiFlags) : Tre where
  buf := buf
  eob := flags.toNat &&& MhiFlags.mhiEob.toNat ≠ 0
  eot := flags.toNat &&& MhiFlags.mhiEot.toNat ≠ 0
  chain := flags.toNat &&& MhiFlags.mhiChain.toNat ≠ 0

/-- What a call of `mhi_queue_buf` meets: `MHI_PM_IN_ERROR_STATE`, a full ring, or a buffer that
`map_single` cannot map. -/
structure Queueing where
  inErrorState : Bool
  ringFull : Bool
  mapFails : Bool
  deriving DecidableEq, Repr

def mhiQueueBuf (q : Queueing) (buf : Bytes) (mflags : MhiFlags) : Except ℤ Tre :=
  if q.inErrorState then .error (- EIO)
  else if q.ringFull then .error (- ENOMEM)
  else if q.mapFails then .error (- ENOMEM)
  else .ok (mhiGenTre buf mflags)

/-- How `wait_event_interruptible` ends: by a signal or with the device disabled, or with that many
free descriptors. -/
inductive Waited where
  | exit
  | avail (nrAvail : ℕ)
  deriving DecidableEq, Repr

/-- `nrAvail` is the number of free descriptors before the wait, `readable` how many bytes of the
chunk `copy_from_user` can read, and `enabled` whether the device is enabled when the lock is taken
again. -/
structure Round where
  nrAvail : ℕ
  waited : Waited
  allocated : Bool
  readable : ℕ
  enabled : Bool
  queueing : Queueing
  deriving DecidableEq, Repr

/-- The call: its file is opened with `O_NONBLOCK` or not. -/
structure WriteCfg where
  mtu : ℕ
  nonblock : Bool
  mtu_pos : 0 < mtu

variable (c : WriteCfg)

/-- What the call has returned, and the descriptors that it has queued. -/
structure Written where
  ret : ℤ
  queued : List Tre
  deriving DecidableEq, Repr

def xferSize (count : ℕ) : ℕ := min count c.mtu

/-- The loop, which needs one round for each chunk. -/
def writeLoop : List Round → Bytes → ℕ → List Tre → Option Written
  | _, [], bytesXfered, queued => some ⟨bytesXfered, queued⟩
  | [], _ :: _, _, _ => none
  | r :: rounds, b :: buf, bytesXfered, queued =>
    let count := buf.length + 1
    if r.nrAvail = 0 ∧ c.nonblock then some ⟨- EAGAIN, queued⟩
    else
      match r.waited with
      | .exit => some ⟨- ERESTARTSYS, queued⟩
      | .avail nrAvail =>
        let xferSize := xferSize c count
        if ¬ r.allocated then some ⟨- ENOMEM, queued⟩
        else
          let ret := xferSize - r.readable
          if ret ≠ 0 then some ⟨ret, queued⟩
          else
            let flags := if 1 < nrAvail ∧ count - xferSize ≠ 0 then .mhiChain else .mhiEot
            let ret :=
              if r.enabled then mhiQueueBuf r.queueing ((b :: buf).take xferSize) flags
              else .error (- ERESTARTSYS)
            match ret with
            | .error ret => some ⟨ret, queued⟩
            | .ok tre =>
              writeLoop rounds ((b :: buf).drop xferSize) (bytesXfered + xferSize) (queued ++ [tre])

/-- `none` where the rounds do not suffice, and a null pointer for `buf`. -/
def mhiUciWrite (rxError : ℕ) (enabled : Bool) (rounds : List Round) (buf : Option Bytes) :
    Option Written :=
  match buf with
  | none | some [] => some ⟨- EINVAL, []⟩
  | some buf =>
    if rxError ≠ 0 then some ⟨- EINVAL, []⟩
    else if ¬ enabled then some ⟨- ERESTARTSYS, []⟩
    else writeLoop c rounds buf 0 []

/-- The bytes that were queued, in order. -/
def Written.sent (w : Written) : Bytes := (w.queued.map Tre.buf).flatten

structure Written.Right (w : Written) (buf : Bytes) : Prop where
  reported : 0 ≤ w.ret → w.sent.length = w.ret ∧ w.sent <+: buf
  nothing : w.ret < 0 → w.sent = []
  ended : ∀ pre tre post, w.queued = pre ++ tre :: post → tre.chain → ∃ tre' ∈ post, tre'.eot

/-- The call leaves before it has copied the chunk. -/
def Round.Stops (r : Round) : Prop :=
  r.nrAvail = 0 ∧ c.nonblock ∨ r.waited = .exit ∨ ¬ r.allocated

instance (r : Round) : Decidable (r.Stops c) := inferInstanceAs (Decidable (_ ∨ _ ∨ _))

/-- It leaves because the chunk cannot be copied. -/
def Round.Faults (r : Round) (count : ℕ) : Prop := ¬ r.Stops c ∧ r.readable < xferSize c count

instance (r : Round) (count : ℕ) : Decidable (r.Faults c count) :=
  inferInstanceAs (Decidable (_ ∧ _))

/-- It leaves because the chunk cannot be queued. -/
def Round.Refuses (r : Round) : Prop :=
  ¬ r.enabled ∨ r.queueing.inErrorState ∨ r.queueing.ringFull ∨ r.queueing.mapFails

instance (r : Round) : Decidable r.Refuses := inferInstanceAs (Decidable (_ ∨ _ ∨ _ ∨ _))

/-- The chunk is queued. -/
def Round.Passes (r : Round) (count : ℕ) : Prop :=
  ¬ r.Stops c ∧ xferSize c count ≤ r.readable ∧ ¬ r.Refuses

instance (r : Round) (count : ℕ) : Decidable (r.Passes c count) :=
  inferInstanceAs (Decidable (_ ∧ _ ∧ _))

/-- The wait ends with one free descriptor, so that the chunk is not chained. -/
def Round.Single (r : Round) : Prop := ∀ nrAvail, r.waited = .avail nrAvail → nrAvail ≤ 1

/-- Every chunk of `count` bytes is queued. -/
def AllPass : List Round → ℕ → Prop
  | _, 0 => True
  | [], _ + 1 => False
  | r :: rounds, count + 1 =>
    r.Passes c (count + 1) ∧ AllPass rounds (count + 1 - xferSize c (count + 1))

/-- The first chunk is not, and not because it cannot be copied. -/
def LeavesFirst (rounds : List Round) (count : ℕ) : Prop :=
  ∃ r ∈ rounds.head?, ¬ r.Passes c count ∧ ¬ r.Faults c count

/-- The first chunk is queued, unchained, and nothing of the second one, which is as long, can be
copied. -/
def FaultsEven (rounds : List Round) (count : ℕ) : Prop :=
  ∃ r r' rest, rounds = r :: r' :: rest ∧ 2 * c.mtu ≤ count ∧ r.Passes c count ∧ r.Single
    ∧ r'.Faults c (count - c.mtu) ∧ r'.readable = 0

end Uci

end BananaWrt
