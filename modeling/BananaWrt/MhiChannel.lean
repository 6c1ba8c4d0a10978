import BananaWrt.Lib.Records
import BananaWrt.Lib.Run
import BananaWrt.MhiEvent
import BananaWrt.MhiUciWrite

/-!
# Both ends of an MHI channel

The ring of descriptors of a channel is memory that the driver writes and the modem reads.
`mhi_queue_skb`, `mhi_queue_dma` and `mhi_gen_tre` store a descriptor at `wp`; the modem fetches
the descriptors up to the write pointer that it finds in the channel context, or at the doorbell.
When it has finished with some of them it writes an event that points to the last one, and
`parse_xfer_event` handles the events in order, whenever it gets to them.

What the driver does to a channel is that of `MhiXfer`. The modem may do what the protocol lets it:
it does not go past the write pointer that it has read, and it reports only what it has fetched. The
channel stays started, so that nothing here disables or resets it. The events of other channels that
lie between those of a channel are left out.
-/

namespace BananaWrt

namespace Mhi

namespace Tre

/-- `struct mhi_tre` in memory. -/
def toBytes (tre : Tre) : Bytes :=
  Bytes.ofLe32 tre.ptr.toNat ++ Bytes.ofLe32 (tre.ptr.toNat / 2 ^ 32)
    ++ Bytes.ofLe32 tre.dword0.toNat ++ Bytes.ofLe32 tre.dword1.toNat

def ofBytes (b : Bytes) : Tre where
  ptr := BitVec.ofNat 64 (Bytes.le32 b 0 + 2 ^ 32 * Bytes.le32 b 4)
  dword0 := BitVec.ofNat 32 (Bytes.le32 b 8)
  dword1 := BitVec.ofNat 32 (Bytes.le32 b 12)

def MHI_MAX_MTU : ℕ := 0xffff

/-- `MHI_TRE_DATA_DWORD0`. -/
def dataDword0 (len : ℕ) : BitVec 32 := BitVec.ofNat 32 (len &&& MHI_MAX_MTU)

/-- `MHI_TRE_DATA_DWORD1`. -/
def dataDword1 (bei ieot ieob chain : Bool) : BitVec 32 :=
  BitVec.ofNat 32 (2 <<< 16 ||| bei.toNat <<< 10 ||| ieot.toNat <<< 9 ||| ieob.toNat <<< 8
    ||| chain.toNat)

end Tre

/-- What an accepted call has asked for: its buffer, where `map_single` has put that, and the flags
of the descriptor. -/
structure Request where
  buf : ℕ
  dma : ℕ
  len : ℕ
  bei : Bool
  ieot : Bool
  ieob : Bool
  chain : Bool
  deriving DecidableEq, Repr

def Request.tre (r : Request) : Tre where
  ptr := BitVec.ofNat 64 r.dma
  dword0 := Tre.dataDword0 r.len
  dword1 := Tre.dataDword1 r.bei r.ieot r.ieob r.chain

/-- `eob`, `eot` and `chain` of `mhi_gen_tre`. -/
def Request.gen (buf dma len : ℕ) (intmod : Bool) (flags : Uci.MhiFlags) : Request where
  buf := buf
  dma := dma
  len := len
  bei := intmod
  ieot := flags.toNat &&& Uci.MhiFlags.mhiEot.toNat ≠ 0
  ieob := flags.toNat &&& Uci.MhiFlags.mhiEob.toNat ≠ 0
  chain := flags.toNat &&& Uci.MhiFlags.mhiChain.toNat ≠ 0

/-- The modem reports that it has finished with `count` more descriptors; `len` is what it has
transferred for the last one. -/
structure Report where
  count : ℕ
  code : ℕ
  len : ℕ
  deriving DecidableEq, Repr

def Report.event (r : Report) (ptr : ℕ) : Tre where
  ptr := BitVec.ofNat 64 ptr
  dword0 := BitVec.ofNat 32 (r.code <<< 24 ||| r.len)
  dword1 := BitVec.ofNat 32 (Tre.MHI_PKT_TYPE_TX_EVENT <<< 16)

/-- The code is one of a transfer that has come to its end, and the length has 16 bits. -/
def Report.Valid (r : Report) : Prop :=
  0 < r.count ∧ r.code ∈ [St.MHI_EV_CC_OVERFLOW, St.MHI_EV_CC_EOB, St.MHI_EV_CC_EOT]
    ∧ r.len < 2 ^ 16

instance (r : Report) : Decidable r.Valid := inferInstanceAs (Decidable (_ ∧ _ ∧ _))

/-- The lengths of reports, one for each descriptor that has been reported. -/
def lensOf (reports : List Report) : List ℕ :=
  reports.flatMap fun r => List.replicate r.count r.len

/-- `rp` is where the modem fetches the next descriptor and `limit` the write pointer that it has
read last. `fetched` are the descriptors so far, with their addresses; it has reported the first
`reported` of them. -/
structure Modem where
  rp : ℕ
  limit : ℕ
  fetched : List (ℕ × Tre)
  reported : ℕ

/-- What the two ends of a channel share, and the modem's. `ring` is the memory of `tre_ring`, and
`events` are the records of the event ring that are not processed yet. `requests` and `reports` are
those so far. -/
structure Side where
  intmod : Bool
  ring : Bytes
  events : List Bytes
  modem : Modem
  requests : List Request
  reports : List Report

namespace Side

variable (d : Side)

/-- The descriptor is stored at `wp`. -/
def storeTre (wp : ℕ) (r : Request) : Side :=
  { d with
    ring := Bytes.write d.ring (sizeofTre * wp) r.tre.toBytes
    requests := d.requests ++ [r] }

/-- The modem reads the write pointer. -/
def look (wp : ℕ) : Side := { d with modem := { d.modem with limit := wp } }

/-- The modem reads the descriptor at its `rp`. -/
def fetch (cfg : ChanCfg) : Option Side :=
  if d.modem.rp = d.modem.limit then none
  else
    let tre := Tre.ofBytes ((d.ring.drop (d.modem.rp - cfg.iommuBase)).take sizeofTre)
    let next := d.modem.rp + sizeofTre
    some { d with modem := { d.modem with
      rp := if cfg.iommuBase + sizeofTre * cfg.elements ≤ next then cfg.iommuBase else next
      fetched := d.modem.fetched ++ [(d.modem.rp, tre)] } }

/-- The modem writes an event that points to the last of the descriptors. -/
def report (r : Report) : Option Side :=
  if ¬ r.Valid then none
  else
    (d.modem.fetched[d.modem.reported + r.count - 1]?).map fun last =>
      { d with
        events := d.events ++ [(r.event last.1).toBytes]
        modem := { d.modem with reported := d.modem.reported + r.count }
        reports := d.reports ++ [r] }

end Side

/-- The driver, and each of the channels with its modem's end. -/
structure Sys (n : ℕ) where
  host : St n
  side : Fin n → Side

/-- What the driver does by itself while the channels stay started: it queues nothing, and handles
no transfer event but those of the doorbell mode. -/
def Input.Internal {n : ℕ} : Input n → Prop
  | .queueSkb .. | .genTre .. | .disable _ | .resetChan _ => False
  | .event _ code _ _ => code ∉ [St.MHI_EV_CC_OVERFLOW, St.MHI_EV_CC_EOB, St.MHI_EV_CC_EOT]
  | _ => True

instance {n : ℕ} : (inp : Input n) → Decidable inp.Internal
  | .queueSkb .. | .genTre .. | .disable _ | .resetChan _ => instDecidableFalse
  | .event .. => inferInstanceAs (Decidable (_ ∉ _))
  | .queueBuf _ | .go _ | .m0Event | .m0Go | .m1Event | .m1Go | .m3Event | .systemSuspend _
  | .pmSuspend | .suspendWaited _ | .m3Enter | .resume | .tryset _ => instDecidableTrue

/-- `dma` is the address that `map_single` gives, if it does not fail. -/
inductive Act (n : ℕ) where
  | queueSkb (i : Fin n) (buf len : ℕ) (dma : Option ℕ)
  | genTre (i : Fin n) (buf len : ℕ) (dma : Option ℕ) (flags : Uci.MhiFlags)
  | host (inp : Input n)
  | look (i : Fin n)
  | fetch (i : Fin n)
  | report (i : Fin n) (r : Report)
  | event (i : Fin n)
  deriving DecidableEq, Repr

namespace Sys

variable {n : ℕ} (s : Sys n)

def setSide (i : Fin n) (d : Side) : Sys n := { s with side := Function.update s.side i d }

/-- A call that queues a buffer stores its descriptor if it gets that far. -/
def store (i : Fin n) (dma : Option ℕ) (r : ℕ → Request) (host : St n) : Sys n :=
  let c := s.host.chan i
  if c.Full ∨ s.host.pmState.InError then { s with host := host }
  else
    match dma with
    | none => { s with host := host }
    | some p => { s with host := host }.setSide i ((s.side i).storeTre c.twp (r p))

/-- `mhi_queue_skb`, and `mhi_queue_dma` with an address that it is given. -/
def mhiQueueSkb (i : Fin n) (buf len : ℕ) (dma : Option ℕ) : Sys n :=
  s.store i dma (fun p => ⟨buf, p, len, true, true, false, false⟩)
    (s.host.mhiQueueSkb i buf len dma.isSome)

/-- `mhi_queue_buf` up to the end of `mhi_gen_tre`. -/
def mhiGenTre (i : Fin n) (buf len : ℕ) (dma : Option ℕ) (flags : Uci.MhiFlags) : Sys n :=
  s.store i dma (fun p => .gen buf p len (s.side i).intmod flags)
    (s.host.mhiGenTre i buf len dma.isSome)

/-- The next event of the channel is processed. -/
def parseEvent (i : Fin n) : Option (Sys n) :=
  match (s.side i).events with
  | [] => none
  | e :: es =>
    let event := Tre.ofBytes e
    (Mhi.step s.host (.event i event.evCode event.ptr.toNat event.evLen)).map fun host =>
      { s with host := host }.setSide i { s.side i with events := es }

def step : Act n → Option (Sys n)
  | .queueSkb i buf len dma => some (s.mhiQueueSkb i buf len dma)
  | .genTre i buf len dma flags => some (s.mhiGenTre i buf len dma flags)
  | .host inp =>
    if inp.Internal then (Mhi.step s.host inp).map fun host => { s with host := host } else none
  | .look i => some (s.setSide i ((s.side i).look (s.host.chan i).ctxtWp))
  | .fetch i => ((s.side i).fetch (s.host.chan i).cfg).map (s.setSide i)
  | .report i r => ((s.side i).report r).map (s.setSide i)
  | .event i => s.parseEvent i

end Sys

/-- A channel that has just been started: the memory of its ring is zeroed. -/
def ChanCfg.side (cfg : ChanCfg) (intmod : Bool) : Side where
  intmod := intmod
  ring := List.replicate (sizeofTre * cfg.elements) 0
  events := []
  modem := ⟨cfg.iommuBase, cfg.iommuBase, [], 0⟩
  requests := []
  reports := []

def Sys.initial {n : ℕ} (cfg : Fin n → ChanCfg) (intmod : Fin n → Bool) (pmState : PmState)
    (devState : DevState) : Sys n where
  host := Mhi.initial cfg pmState devState
  side := fun i => (cfg i).side (intmod i)

end Mhi

end BananaWrt
