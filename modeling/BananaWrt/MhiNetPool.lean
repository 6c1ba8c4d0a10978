import Mathlib.Algebra.Group.Nat.Defs
import Mathlib.Data.Nat.Log
import BananaWrt.Lib.Bytes
import BananaWrt.Lib.Refcount

/-!
# The receive pages of the network driver

Where the driver hands pages to the network stack without copying, it has a pool of pages that are
queued to the modem in turn. A page goes with its packet to the stack, and is queued again once the
stack has given it back, which the driver sees from the reference count. If the next pages of the
pool are busy, pages are allocated for one packet.

`mhi_netdev_poll` runs step by step beside the stack, the modem and the removal of the device.
`mhi_driver_remove` suspends the channel, resets it and then calls `mhi_netdev_remove`; no packet
completes on a suspended channel. Without a pool `napi_disable` does not return, as NAPI has not
been enabled.
-/

namespace BananaWrt

namespace NetPool

/-- `els` is what `mhi_get_no_free_descriptors` returns for the empty ring, and `len` that of each
`mhi_buf`. -/
structure Cfg where
  els : ℕ
  len : ℕ
  els_pos : 0 < els

namespace Cfg

variable (c : Cfg)

/-- As `mhi_netdev_enable_iface` computes it. -/
def poolSize : ℕ :=
  let poolSize := 2 ^ Nat.log 2 c.els
  (if poolSize < c.els then poolSize * 2 else poolSize) * 2

/-- `cur_index` after a peek. -/
def nextIndex (curIndex : ℕ) : ℕ := (curIndex + 1) &&& (c.poolSize - 1)

end Cfg

def maxPeak : ℕ := 4

/-- What `unmap` of a `mhi_netbuf` is: `dma_sync_single_for_cpu` for those of the pool, and
`mhi_netdev_unmap_page`. -/
inductive Unmap where
  | sync
  | unmapPage
  deriving DecidableEq, Repr

/-- A packet in a page, with the bytes that it had when it was completed. -/
structure Frag where
  page : ℕ
  data : Bytes
  deriving DecidableEq

/-- `filling` is the loop of `mhi_netdev_alloc_pool`; `noPool` is after it has failed. `resetting`
is the loop of `mhi_reset_data_chan`. -/
inductive Phase where
  | filling
  | noPool
  | running
  | resetting
  | reset
  | removed
  deriving DecidableEq, Repr

/-- Where `mhi_netdev_poll` is: in `mhi_poll`, in the loop of `mhi_netdev_queue` with `left`
descriptors to go, of which it has peeked `peak` times at `curIndex`, or in that of
`mhi_netdev_tmp_alloc`. -/
inductive Poll where
  | idle
  | polling
  | queueing (left peak curIndex : ℕ)
  | allocating (left : ℕ)
  deriving DecidableEq, Repr

/-- `refcount` is that of each page, 0 for one that is free; `mapped` are the pages mapped for the
modem, `mem` what they hold, and `unmap` is that of the `mhi_netbuf` at their end. The references of
the network stack are in `stack`. `bug` is set by what must not happen: a page is freed that is free
already, or unmapped that is not mapped, or the pool is read past its end. -/
structure Store where
  refcount : ℕ → ℕ
  mapped : ℕ → Bool
  mem : ℕ → Bytes
  unmap : ℕ → Unmap
  netbufPool : List ℕ
  ring : List ℕ
  chain : List Frag
  stack : List Frag
  bug : Bool

/-- As a history, `received` and `delivered` are the packets, and `refilled` says that the last poll
has ended without an error. -/
structure St extends Store where
  currentIndex : ℕ
  poll : Poll
  phase : Phase
  received : List Bytes
  delivered : List Bytes
  refilled : Bool

def initial (mem : ℕ → Bytes) : St where
  refcount := fun _ => 0
  mapped := fun _ => false
  mem := mem
  unmap := fun _ => .sync
  netbufPool := []
  ring := []
  chain := []
  stack := []
  bug := false
  currentIndex := 0
  poll := .idle
  phase := .filling
  received := []
  delivered := []
  refilled := false

/-- What `mhi_netdev_alloc` gets: `page` is what `__dev_alloc_pages` returns, and `maps` whether it
can be mapped. -/
structure Alloc where
  page : Option ℕ
  maps : Bool
  deriving DecidableEq, Repr

namespace Store

variable (c : Cfg) (s : Store)

def getPage (p : ℕ) : Store := { s with refcount := Refcount.get s.refcount p }

/-- `__free_pages`, which is also how the stack gives a page back. -/
def freePages (p : ℕ) : Store :=
  match Refcount.put s.refcount p with
  | some refcount => { s with refcount := refcount }
  | none => { s with bug := true }

def dmaUnmapPage (p : ℕ) : Store :=
  if s.mapped p then { s with mapped := Function.update s.mapped p false }
  else { s with bug := true }

/-- `netbuf->unmap`. -/
def unmapBuf (p : ℕ) : Store :=
  match s.unmap p with
  | .sync => s
  | .unmapPage => s.dmaUnmapPage p

/-- `mhi_netdev_alloc`, with the `unmap` that its callers set. -/
def mhiNetdevAlloc (a : Alloc) (unmap : Unmap) : Store × Option ℕ :=
  match a.page with
  | none => (s, none)
  | some p =>
    let s := { s with refcount := Refcount.alloc s.refcount p }
    if a.maps then
      ({ s with
        mapped := Function.update s.mapped p true
        unmap := Function.update s.unmap p unmap }, some p)
    else (s.freePages p, none)

/-- The pages one after the other: the loops of `mhi_netdev_free_pool`, and at `error_alloc_page`.
-/
def freeAll (ps : List ℕ) : Store := ps.foldl (fun s p => (s.dmaUnmapPage p).freePages p) s

def mhiNetdevFreePool : Store := { s.freeAll s.netbufPool with netbufPool := [] }

/-- `mhi_queue_dma`. `xfers` says that the state of the controller allows it. -/
def mhiQueueDma (p : ℕ) (xfers : Bool) : Option Store :=
  if s.ring.length < c.els ∧ xfers then some { s with ring := s.ring ++ [p] } else none

/-- `mhi_netdev_xfer_dl_cb` if the status is `ENOTCONN`, or there is no `skb`. -/
def dropBuf (p : ℕ) : Store := (s.unmapBuf p).freePages p

/-- Else it is the next packet of the chain. -/
def chainBuf (p bytesXferd : ℕ) : Store :=
  let s := s.unmapBuf p
  { s with chain := s.chain ++ [⟨p, (s.mem p).take bytesXferd⟩] }

/-- A page of the pool that is idle is queued. -/
def reclaim (p : ℕ) (xfers : Bool) : Store × Bool :=
  let s := s.getPage p
  match s.mhiQueueDma c p xfers with
  | some s => (s, true)
  | none =>
    let s := s.unmapBuf p
    ({ s with refcount := Function.update s.refcount p (s.refcount p - 1) }, false)

/-- One turn of the loop of `mhi_netdev_tmp_alloc`. -/
def tmpAlloc (a : Alloc) (xfers : Bool) : Store × Bool :=
  match s.mhiNetdevAlloc a .unmapPage with
  | (s, none) => (s, false)
  | (s, some p) =>
    match s.mhiQueueDma c p xfers with
    | some s => (s, true)
    | none => ((s.dmaUnmapPage p).freePages p, false)

end Store

namespace St

variable (c : Cfg) (s : St)

/-- One turn of the loop of `mhi_netdev_alloc_pool`, and what follows the last. -/
def fillPool (a : Alloc) : St :=
  match s.toStore.mhiNetdevAlloc a .sync with
  | (t, some p) =>
    { s with
      toStore := { t with netbufPool := t.netbufPool ++ [p] }
      phase := if t.netbufPool.length + 1 = c.poolSize then .running else .filling }
  | (t, none) =>
    { s with
      toStore := { t.freeAll t.netbufPool.reverse with netbufPool := [] }
      phase := .noPool }

/-- `mhi_netdev_xfer_dl_cb`. `allocs` is whether there is an `skb`. -/
def mhiNetdevXferDlCb (p bytesXferd : ℕ) (allocs : Bool) : St :=
  if allocs then
    { s with
      toStore := s.toStore.chainBuf p bytesXferd
      received := s.received ++ [(s.mem p).take bytesXferd] }
  else { s with toStore := s.toStore.dropBuf p }

/-- `netif_receive_skb`, with all that is chained. -/
def deliver : St :=
  { s with
    chain := []
    stack := s.stack ++ s.chain
    delivered := s.delivered ++ s.chain.map Frag.data }

/-- The poll ends. -/
def pollDone (refilled : Bool) : St := { s with poll := .idle, refilled := refilled }

/-- The loop of `mhi_netdev_queue` goes on with `left` descriptors. -/
def queueMore (left : ℕ) : St :=
  if left = 0 then s.pollDone true else { s with poll := .queueing left 0 s.currentIndex }

/-- That of `mhi_netdev_tmp_alloc`. -/
def allocMore (left : ℕ) : St :=
  if left = 0 then s.pollDone true else { s with poll := .allocating left }

/-- The end of `mhi_poll`. -/
def polled (ok : Bool) : St :=
  if ok then s.deliver.queueMore (c.els - s.ring.length) else s.deliver.pollDone false

/-- One peek of the loop of `mhi_netdev_queue`. -/
def peek (left peak curIndex : ℕ) (xfers : Bool) : St :=
  match s.netbufPool[curIndex]? with
  | none => { s with bug := true }
  | some p =>
    if s.refcount p = 1 then
      match s.toStore.reclaim c p xfers with
      | (t, true) =>
        { s with toStore := t, currentIndex := c.nextIndex curIndex }.queueMore (left - 1)
      | (t, false) => { s with toStore := t }.pollDone false
    else if peak + 1 < maxPeak then
      { s with poll := .queueing left (peak + 1) (c.nextIndex curIndex) }
    else s.allocMore left

def mhiNetdevTmpAlloc (left : ℕ) (a : Alloc) (xfers : Bool) : St :=
  match s.toStore.tmpAlloc c a xfers with
  | (t, true) => { s with toStore := t }.allocMore (left - 1)
  | (t, false) => { s with toStore := t }.pollDone false

end St

/-- `dma` is a write of the modem to a page that is queued, `complete` the completion of the first.
The stack takes another reference of a packet with `clone`, and gives one back with `consume`. -/
inductive Input where
  | fill (a : Alloc)
  | schedule
  | dma (p : ℕ) (data : Bytes)
  | complete (bytesXferd : ℕ) (allocs : Bool)
  | polled (ok : Bool)
  | peek (xfers : Bool)
  | tmpAlloc (a : Alloc) (xfers : Bool)
  | clone (f : Frag)
  | consume (f : Frag)
  | suspend
  | resetOne
  | resetEnd
  | remove
  deriving DecidableEq

/-- A page that is allocated has been free. -/
def St.Fresh (s : St) (a : Alloc) : Prop := ∀ p ∈ a.page, s.refcount p = 0

instance (s : St) (a : Alloc) : Decidable (s.Fresh a) :=
  inferInstanceAs (Decidable (∀ p ∈ a.page, s.refcount p = 0))

def step (c : Cfg) (s : St) : Input → Option St
  | .fill a => if s.phase = .filling ∧ s.Fresh a then some (s.fillPool c a) else none
  | .schedule =>
    if s.poll = .idle ∧ s.phase ∉ [.filling, .noPool, .removed] then
      some { s with poll := .polling, refilled := false }
    else none
  | .dma p data =>
    if p ∈ s.ring ∧ data.length = c.len then
      some { s with mem := Function.update s.mem p data }
    else none
  | .complete bytesXferd allocs =>
    match s.ring with
    | [] => none
    | p :: ring =>
      if s.poll = .polling ∧ s.phase = .running ∧ bytesXferd ≤ c.len then
        some ({ s with ring := ring }.mhiNetdevXferDlCb p bytesXferd allocs)
      else none
  | .polled ok => if s.poll = .polling then some (s.polled c ok) else none
  | .peek xfers =>
    match s.poll with
    | .queueing left peak curIndex => some (s.peek c left peak curIndex xfers)
    | _ => none
  | .tmpAlloc a xfers =>
    match s.poll with
    | .allocating left => if s.Fresh a then some (s.mhiNetdevTmpAlloc c left a xfers) else none
    | _ => none
  | .clone f =>
    if f ∈ s.stack then
      some { s with toStore := { s.toStore.getPage f.page with stack := s.stack ++ [f] } }
    else none
  | .consume f =>
    if f ∈ s.stack then
      some { s with toStore := { s.toStore with stack := s.stack.erase f }.freePages f.page }
    else none
  | .suspend => if s.phase = .running then some { s with phase := .resetting } else none
  | .resetOne =>
    match s.ring with
    | [] => none
    | p :: ring =>
      if s.phase = .resetting then
        some { s with toStore := { s.toStore with ring := ring }.dropBuf p }
      else none
  | .resetEnd =>
    if s.phase = .resetting ∧ s.ring = [] then some { s with phase := .reset } else none
  | .remove =>
    if s.phase = .reset ∧ s.poll = .idle then
      some { s with toStore := s.toStore.mhiNetdevFreePool, phase := .removed }
    else none

/-- All that refers to a page: the pool, the modem and the packets. -/
def Store.owners (s : Store) : List ℕ :=
  s.netbufPool ++ (s.ring ++ (s.chain ++ s.stack).map Frag.page)

/-- Each page has as many references as there are owners of it. One that the modem may write to is
queued once, and is in no packet that the stack has or will have; so each packet holds what has been
received with it. They come in order, and a poll that meets no error leaves no descriptor free. -/
structure Right (c : Cfg) (s : St) : Prop where
  counts : Refcount.Owned s.refcount s.owners
  queuedOnce : s.ring.Nodup
  apart : ∀ f ∈ s.chain ++ s.stack, f.page ∉ s.ring
  contents : ∀ f ∈ s.chain ++ s.stack, (s.mem f.page).take f.data.length = f.data
  inOrder : s.delivered ++ s.chain.map Frag.data = s.received
  refilled : s.phase = .running → s.refilled = true → s.ring.length = c.els
  bug : s.bug = false

/-- The driver has no pages any more: what is there belongs to the stack, and nothing is mapped. -/
def Gone (s : St) : Prop :=
  Refcount.Owned s.refcount (s.stack.map Frag.page) ∧ ∀ p, s.mapped p = false

/-- The step queues a page, if there is room. -/
def St.queues (s : St) : Input → Bool
  | .peek xfers =>
    match s.poll with
    | .queueing _ _ curIndex => xfers && s.netbufPool[curIndex]?.any fun p => s.refcount p == 1
    | _ => false
  | .tmpAlloc a xfers => a.page.isSome && (a.maps && xfers)
  | _ => false

/-- No page is queued once the channel has been reset. -/
def Timely (s : St) (i : Input) : Prop := s.phase = .reset → s.queues i = false

instance (s : St) (i : Input) : Decidable (Timely s i) :=
  inferInstanceAs (Decidable (s.phase = .reset → s.queues i = false))

end NetPool

end BananaWrt
