import BananaWrt.Lib.Run
import Mathlib.Algebra.Group.Int.Defs

/-!
# Opening and closing a character device

The first `mhi_uci_open` starts the channels and allocates a table of buffers with a page for each.
It leaves one reference more than there are open files, so that the channels stay started. The table
is freed by the last `mhi_uci_release`, or by the open that has failed, and the device by that or by
`mhi_uci_remove`. Before a device is removed, the driver core stops its channels.

Blocks of memory have the numbers in which they have been allocated. What an entry of the table
holds before it is filled in is in the environment of the call.
-/

namespace BananaWrt

namespace UciOpen

def EIO : ℤ := 5
def ENOMEM : ℤ := 12

/-- `uci_buf`: the block of the table, and the page of each entry. -/
structure BufTable where
  block : ℕ
  pages : List (Option ℕ)
  deriving DecidableEq, Repr

/-- `listed` says that the node is in `mhi_uci_drv.head`, `gone` that `uci_dev` has been freed, and
`files` is the number of open files. The blocks below `next` have been allocated. -/
structure UciDev where
  enabled : Bool
  listed : Bool
  refCount : ℤ
  started : Bool
  uciBuf : Option BufTable
  files : ℕ
  gone : Bool
  next : ℕ
  freed : List ℕ
  deriving DecidableEq, Repr

/-- What the steps of an open come to: `mhi_prepare_for_transfer`, `mhi_get_no_free_descriptors`,
the allocations, and `mhi_queue_transfer` for each buffer. `garbage` is what the memory of the table
holds in place of the pages. -/
structure OpenEnv where
  prepareRet : ℤ
  nrTrbs : ℕ
  tableAllocated : Bool
  pageAllocated : ℕ → Bool
  garbage : ℕ → Option ℕ
  queueRet : ℕ → ℤ

variable (env : OpenEnv)

/-- The loop that allocates the pages, from entry `i` on for `k` entries: the next block, the pages,
and whether all have been allocated. -/
def allocPages : ℕ → ℕ → ℕ → ℕ × List (Option ℕ) × Bool
  | 0, _, next => (next, [], true)
  | k + 1, i, next =>
    if env.pageAllocated i then
      let rest := allocPages k (i + 1) (next + 1)
      (rest.1, some next :: rest.2.1, rest.2.2)
    else (next, none :: (List.range' (i + 1) k).map env.garbage, false)

/-- The loop that queues the buffers, from `i` on for `k` of them. -/
def queueLoop : ℕ → ℕ → ℤ → ℤ
  | 0, _, ret => ret
  | k + 1, i, _ => if env.queueRet i ≠ 0 then env.queueRet i else queueLoop k (i + 1) 0

namespace UciDev

variable (s : UciDev)

/-- `mhi_queue_inbound`. -/
def mhiQueueInbound : UciDev × ℤ :=
  match s.uciBuf with
  | some _ => (s, queueLoop env env.nrTrbs 0 (- EIO))
  | none =>
    if ¬ env.tableAllocated then (s, - ENOMEM)
    else
      let pages := allocPages env (env.nrTrbs + 1) 0 (s.next + 1)
      let s := { s with uciBuf := some ⟨s.next, pages.2.1⟩, next := pages.1 }
      if ¬ pages.2.2 then (s, - ENOMEM) else (s, queueLoop env env.nrTrbs 0 (- EIO))

/-- The pages that are not NULL and the table are freed; `uci_buf` is left as it is. -/
def freeBuf : UciDev :=
  match s.uciBuf with
  | some table => { s with freed := s.freed ++ (table.pages.filterMap id ++ [table.block]) }
  | none => s

def mhiUciOpen : UciDev × ℤ :=
  if ¬ s.listed then (s, - EIO)
  else if ¬ s.enabled then (s, - EIO)
  else
    let s := { s with refCount := s.refCount + 1 }
    if s.refCount = 1 then
      if env.prepareRet ≠ 0 then ({ s with refCount := s.refCount - 1 }, env.prepareRet)
      else
        let (s, ret) := { s with started := true }.mhiQueueInbound env
        if ret ≠ 0 then ({ s with started := false }.freeBuf, ret)
        else ({ s with refCount := s.refCount + 1, files := s.files + 1 }, 0)
    else ({ s with files := s.files + 1 }, 0)

def mhiUciRelease : UciDev :=
  let s := { s with refCount := s.refCount - 1, files := s.files - 1 }
  if s.refCount = 0 then
    let s := (if s.enabled then { s with started := false } else s).freeBuf
    if ¬ s.enabled then { s with gone := true } else s
  else s

/-- `mhi_uci_remove`, the channels having been stopped. -/
def mhiUciRemove : UciDev :=
  let s := { s with
    started := false
    enabled := false
    listed := false
    refCount := if 0 < s.refCount then s.refCount - 1 else s.refCount }
  if s.refCount = 0 then { s with gone := true } else s

end UciDev

inductive Input where
  | openNode (env : OpenEnv)
  | release
  | remove

/-- A device is removed once, and only an open file is released. -/
def step (s : UciDev) : Input → Option UciDev
  | .openNode env => some (s.mhiUciOpen env).1
  | .release => if s.files = 0 ∨ s.gone then none else some s.mhiUciRelease
  | .remove => if s.listed then some s.mhiUciRemove else none

/-- After `mhi_uci_probe`. -/
def probed : UciDev where
  enabled := true
  listed := true
  refCount := 0
  started := false
  uciBuf := none
  files := 0
  gone := false
  next := 0
  freed := []

/-- A block can still be freed. -/
def UciDev.Holds (s : UciDev) (block : ℕ) : Prop :=
  ¬ s.gone ∧ ∃ table ∈ s.uciBuf, block = table.block ∨ some block ∈ table.pages

/-- A step is right: an open that fails has changed nothing, the channels are started exactly when
there are references and the device is enabled, what is freed has been allocated and is freed once,
what has been allocated is freed or can be freed, and while the channels are started `uci_buf` does
not refer to a table that has been freed. -/
structure Right (s : UciDev) (i : Input) (s' : UciDev) : Prop where
  failedOpen : ∀ env, i = .openNode env → (s.mhiUciOpen env).2 ≠ 0 →
    s'.refCount = s.refCount ∧ s'.started = s.started ∧ s'.uciBuf = s.uciBuf
  started : s'.started ↔ 0 < s'.refCount ∧ s'.enabled
  freed_nodup : s'.freed.Nodup
  freed_lt : ∀ block ∈ s'.freed, block < s'.next
  not_lost : ∀ block < s'.next, block ∉ s'.freed → s'.Holds block
  uciBuf : s'.started → ∀ table ∈ s'.uciBuf, table.block ∉ s'.freed

/-- `mhi_queue_inbound` succeeds for a table that it allocates. -/
def OpenEnv.InboundOk (env : OpenEnv) : Prop :=
  0 < env.nrTrbs ∧ env.tableAllocated ∧ (∀ i ≤ env.nrTrbs, env.pageAllocated i)
    ∧ ∀ i < env.nrTrbs, env.queueRet i = 0

/-- An open that starts the channels queues its buffers, and the device is removed while a file is
open or before its table has been allocated. -/
def Orderly (s : UciDev) : Input → Prop
  | .openNode env => s.listed → s.enabled → s.refCount = 0 → env.prepareRet = 0 → env.InboundOk
  | .release => True
  | .remove => s.uciBuf ≠ none → 0 < s.files

end UciOpen

end BananaWrt
