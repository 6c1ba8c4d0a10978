import BananaWrt.QmapDecode
import BananaWrt.Lib.Links

/-!
# MBIM blocks of the PCIe driver

A block, an NTB16, has a header, NDPs that each name the next one, and for each NDP a table of
datagrams, all of one session. `rmnet_mbim_rx_handler` of `mhi_netdev_quectel.c` takes a block from
the modem apart, `add_mbim_hdr` makes one of a packet. The handler says here which bytes of `skb_in`
it reads and which elements of `mpQmapNetDev` it uses; a byte past the end reads as zero.
-/

namespace BananaWrt

namespace Mbim

open Bytes

def USB_CDC_NCM_NTH16_SIGN : ℕ := 0x484D434E
def USB_CDC_MBIM_NDP16_IPS_SIGN : ℕ := 0x00535049
def USB_CDC_MBIM_NDP16_DSS_SIGN : ℕ := 0x00535344

def sizeofNth16 : ℕ := 12
def sizeofNdp16 : ℕ := 8
def sizeofDpe16 : ℕ := 4

/-- `sizeof(struct mhi_mbim_hdr)`. -/
def sizeofMbimHdr : ℕ := sizeofNth16 + sizeofNdp16 + 2 * sizeofDpe16

/-- The fields of `struct mhi_netdev` that are used here, the parameter `qmap_mode`, and the byte
order of the host. The network interfaces are registered. -/
structure Dev where
  qmapMode : ℕ
  mbimMuxId : ℕ
  rxMax : ℕ
  littleEndian : Bool
  mpQmapNetDev : ℕ → Qmap.NetDev
  one_le : 1 ≤ qmapMode
  le_eight : qmapMode ≤ 8
  muxId_lt : mbimMuxId < 2 ^ 32

/-- A field that is used as it lies in memory. -/
def Dev.raw16 (d : Dev) (b : Bytes) (i : ℕ) : ℕ := if d.littleEndian then le16 b i else be16 b i

/-- What is handed to `netif_receive_skb`: the element of `mpQmapNetDev`, the Ethernet header if the
interface has one, and the packet. -/
structure Packet where
  idx : ℕ
  protocol : ℕ
  mac : Bytes
  data : Bytes
  deriving DecidableEq, Repr

/-- What a part of the handler does: the reads, as offsets and lengths, the elements of
`mpQmapNetDev`, and the packets that it queues. -/
structure Out where
  reads : List (ℕ × ℕ)
  nets : List ℕ
  pkts : List Packet
  deriving DecidableEq, Repr

namespace Out

def none : Out := ⟨[], [], []⟩

/-- Only reads. -/
def ofReads (reads : List (ℕ × ℕ)) : Out := ⟨reads, [], []⟩

def append (o o' : Out) : Out := ⟨o.reads ++ o'.reads, o.nets ++ o'.nets, o.pkts ++ o'.pkts⟩

instance : Append Out := ⟨append⟩

end Out

section
variable (b : Bytes) (o : ℕ)

def ndpLength : ℕ := le16 b (o + 4)

def nframes : ℕ := (ndpLength b o - sizeofNdp16) / sizeofDpe16

/-- The session that the signature stands for. -/
def tci : Option ℕ :=
  if le32 b o % 2 ^ 24 = USB_CDC_MBIM_NDP16_IPS_SIGN then some (u8 b (o + 3))
  else if le32 b o % 2 ^ 24 = USB_CDC_MBIM_NDP16_DSS_SIGN then some (u8 b (o + 3) + 256)
  else none

/-- `wNextNdpIndex`. -/
def nextNdpIndex : ℕ := le16 b (o + 6)

/-- `wDatagramIndex` and `wDatagramLength` of an entry. -/
def dpe (x : ℕ) : ℕ × ℕ :=
  (le16 b (o + sizeofNdp16 + sizeofDpe16 * x), le16 b (o + sizeofNdp16 + sizeofDpe16 * x + 2))

end

variable (d : Dev)

/-- The test of the session, in 32 bits. -/
def Dev.Unsupported (t : ℕ) : Prop :=
  d.qmapMode = 1 ∧ t ≠ d.mbimMuxId
    ∨ 1 < d.qmapMode ∧ d.qmapMode < (t + 2 ^ 32 - d.mbimMuxId) % 2 ^ 32

instance (t : ℕ) : Decidable (d.Unsupported t) := inferInstanceAs (Decidable (_ ∨ _))

/-- The index into `mpQmapNetDev`, in 32 bits. -/
def Dev.netIdx (t : ℕ) : ℕ :=
  if d.qmapMode = 1 then 0 else (t + 2 ^ 33 - 1 - d.mbimMuxId) % 2 ^ 32

def Dev.packet (idx protocol : ℕ) (data : Bytes) : Packet where
  idx := idx
  protocol := protocol
  mac := Qmap.ethHeader (d.mpQmapNetDev idx) protocol
  data := data

/-- The last entry of a table. -/
def IsEnd (e : ℕ × ℕ) : Prop := e.1 = 0 ∨ e.2 = 0

instance (e : ℕ × ℕ) : Decidable (IsEnd e) := inferInstanceAs (Decidable (_ ∨ _))

/-- The sanity check of an entry. -/
def Dev.Fits (b : Bytes) (e : ℕ × ℕ) : Prop := e.1 + e.2 ≤ b.length ∧ e.2 ≤ d.rxMax

instance (b : Bytes) (e : ℕ × ℕ) : Decidable (d.Fits b e) := inferInstanceAs (Decidable (_ ∧ _))

/-- The loop over the entries from `x` on, of which `n` are left. `k` packets have been queued, and
`alloc k` says whether `netdev_alloc_skb` succeeds then. The Boolean says that it goes to `error`.
-/
def dpeLoop (alloc : ℕ → Bool) (b : Bytes) (o idx : ℕ) : (n x k : ℕ) → Out × Bool
  | 0, _, _ => (.none, false)
  | n + 1, x, k =>
    let pos := o + sizeofNdp16 + sizeofDpe16 * x
    let e := dpe b o x
    if IsEnd e then (.ofReads [(pos, sizeofDpe16)], false)
    else if ¬ d.Fits b e ∨ ¬ alloc k then (.ofReads [(pos, sizeofDpe16)], true)
    else match Qmap.protocolOf (u8 b e.1) with
    | none => (.ofReads [(pos, sizeofDpe16), (e.1, 1)], true)
    | some protocol =>
      let rest := dpeLoop alloc b o idx n (x + 1) (k + 1)
      (⟨[(pos, sizeofDpe16), (e.1, 1), e], [], [d.packet idx protocol ((b.drop e.1).take e.2)]⟩
        ++ rest.1, rest.2)

/-- An iteration of the outer loop, and where it goes on. -/
def ndpIter (alloc : ℕ → Bool) (b : Bytes) (o k : ℕ) : Out × Option ℕ :=
  if b.length < o + sizeofNdp16 then (.none, none)
  else if ndpLength b o < 0x10 ∨ b.length < sizeofNdp16 + nframes b o * sizeofDpe16 then
    (.ofReads [(o + 4, 2)], none)
  else match tci b o with
  | none => (.ofReads [(o + 4, 2), (o, 4)], none)
  | some t =>
    if d.Unsupported t then (.ofReads [(o + 4, 2), (o, 4)], none)
    else
      let table := dpeLoop d alloc b o (d.netIdx t) (nframes b o) 0 k
      let out : Out := ⟨[(o + 4, 2), (o, 4)], [d.netIdx t], []⟩ ++ table.1
      if table.2 then (out, none) else (out ++ .ofReads [(o + 6, 2)], some (nextNdpIndex b o))

/-- The outer loop, `none` if it has not ended after `fuel` tests of its condition. -/
def ndpLoop (alloc : ℕ → Bool) (b : Bytes) : (fuel o k : ℕ) → Option Out
  | 0, _, _ => none
  | fuel + 1, o, k =>
    if o = 0 then some .none
    else match ndpIter d alloc b o k with
    | (out, none) => some out
    | (out, some o') => (ndpLoop alloc b fuel o' (k + out.pkts.length)).map (out ++ ·)

/-- `wNdpIndex`. -/
def firstNdp (b : Bytes) : ℕ := d.raw16 b 10

/-- The checks of the header. -/
def HeadOk (b : Bytes) : Prop :=
  sizeofNth16 + sizeofNdp16 ≤ b.length ∧ le32 b 0 = USB_CDC_NCM_NTH16_SIGN ∧ le16 b 8 ≤ d.rxMax

instance (b : Bytes) : Decidable (HeadOk d b) := inferInstanceAs (Decidable (_ ∧ _))

def rmnetMbimRxHandler (alloc : ℕ → Bool) (fuel : ℕ) (b : Bytes) : Option Out :=
  if b.length < sizeofNth16 + sizeofNdp16 then some .none
  else if le32 b 0 ≠ USB_CDC_NCM_NTH16_SIGN then some (.ofReads [(0, 4)])
  else if d.rxMax < le16 b 8 then some (.ofReads [(0, 4), (8, 2)])
  else
    (ndpLoop d alloc b fuel (firstNdp d b) 0).map (.ofReads [(0, 4), (8, 2), (6, 2), (10, 2)] ++ ·)

/-- Whatever allocations succeed, the handler ends, reads bytes of `skb_in` only, and uses no
element of `mpQmapNetDev` but the first `qmap_mode`. -/
structure InBounds (b : Bytes) : Prop where
  ends : ∀ alloc, ∃ fuel, (rmnetMbimRxHandler d alloc fuel b).isSome
  reads : ∀ alloc fuel out, rmnetMbimRxHandler d alloc fuel b = some out →
    ∀ r ∈ out.reads, r.1 + r.2 ≤ b.length
  nets : ∀ alloc fuel out, rmnetMbimRxHandler d alloc fuel b = some out →
    ∀ i ∈ out.nets, i < d.qmapMode

/-- An entry that is queued. -/
def Dev.Good (b : Bytes) (e : ℕ × ℕ) : Prop :=
  d.Fits b e ∧ (Qmap.protocolOf (u8 b e.1)).isSome

instance (b : Bytes) (e : ℕ × ℕ) : Decidable (d.Good b e) := inferInstanceAs (Decidable (_ ∧ _))

/-- The checks of an NDP before its table. -/
def Taken (b : Bytes) (o : ℕ) : Prop :=
  o + sizeofNdp16 ≤ b.length ∧ 0x10 ≤ ndpLength b o
    ∧ sizeofNdp16 + nframes b o * sizeofDpe16 ≤ b.length ∧ ∃ t ∈ tci b o, ¬ d.Unsupported t

/-- All entries before this one are queued. -/
def Passes (b : Bytes) (o x : ℕ) : Prop := ∀ y < x, ¬ IsEnd (dpe b o y) ∧ d.Good b (dpe b o y)

/-- No entry of the table makes the handler give up. -/
def Clean (b : Bytes) (o : ℕ) : Prop :=
  ∀ x < nframes b o, Passes d b o x → IsEnd (dpe b o x) ∨ d.Good b (dpe b o x)

instance (b : Bytes) (o : ℕ) : Decidable (Taken d b o) := inferInstanceAs (Decidable (_ ∧ _))

instance (b : Bytes) (o x : ℕ) : Decidable (Passes d b o x) :=
  inferInstanceAs (Decidable (∀ _ < x, _))

instance (b : Bytes) (o : ℕ) : Decidable (Clean d b o) := inferInstanceAs (Decidable (∀ _ < _, _))

/-- The NDP that is next in the chain, unless the chain or the handler ends. -/
def nextNdp (b : Bytes) (o : ℕ) : Option ℕ :=
  if Taken d b o ∧ Clean d b o ∧ nextNdpIndex b o ≠ 0 then some (nextNdpIndex b o) else none

/-- The chain comes to an NDP at `o`, and the handler to its table. -/
def ReachesTable (b : Bytes) (o : ℕ) : Prop :=
  HeadOk d b ∧ firstNdp d b ≠ 0 ∧ Links.Reaches (nextNdp d b) (firstNdp d b) o ∧ Taken d b o

/-- The entries of each table lie in the block, up to the one at which the handler leaves it; where
there is more than one interface no NDP has the number below that of the first session; and no NDP
of the chain leads back to itself. -/
structure Sound (b : Bytes) : Prop where
  tables : ∀ o, ReachesTable d b o → ∀ x < nframes b o, Passes d b o x →
    o + sizeofNdp16 + sizeofDpe16 * x + sizeofDpe16 ≤ b.length
  session : ∀ o, ReachesTable d b o → 1 < d.qmapMode → tci b o ≠ some d.mbimMuxId
  chain : HeadOk d b → firstNdp d b ≠ 0 → Links.Straight (nextNdp d b) (firstNdp d b)

/-- `QCUSB_MRECEIVE_MAX_BUFFER_SIZE`. -/
def dwNtbInMaxSize : ℕ := 1024 * 32

/-- `MBIM_MUX_ID_SDX7X`. -/
def MBIM_MUX_ID_SDX7X : ℕ := 112

/-- What `mhi_netdev_probe` sets for `IP_HW0`. -/
def mhiNetdevProbe (vendor devId qmapMode : ℕ) (littleEndian : Bool)
    (mpQmapNetDev : ℕ → Qmap.NetDev) (one_le : 1 ≤ qmapMode) (le_eight : qmapMode ≤ 8) : Dev where
  qmapMode := qmapMode
  mbimMuxId := if vendor = 0x17cb ∧ devId = 0x0309 then MBIM_MUX_ID_SDX7X else 0
  rxMax := dwNtbInMaxSize
  littleEndian := littleEndian
  mpQmapNetDev := mpQmapNetDev
  one_le := one_le
  le_eight := le_eight
  muxId_lt := by unfold MBIM_MUX_ID_SDX7X; split_ifs <;> omega

/-- `max_mtu` of `mhi_netdev_probe`. -/
def maxMtu : ℕ := dwNtbInMaxSize - sizeofMbimHdr

/-- `mux_id` of the virtual interface. -/
def Dev.muxId (i : ℕ) : ℕ := (d.mbimMuxId + i) % 256

/-- A field that is set as it lies in memory. -/
def Dev.ofRaw16 (v : ℕ) : Bytes := if d.littleEndian then ofLe16 v else ofBe16 v

/-- `seq` is what `wSequence` holds. -/
def addMbimHdr (muxId seq headroom : ℕ) (skb : Bytes) : Option Bytes :=
  if headroom < sizeofMbimHdr then none
  else
    let t := if 1 < d.qmapMode then muxId + 1 else muxId
    some (ofLe32 USB_CDC_NCM_NTH16_SIGN ++ ofLe16 sizeofNth16 ++ ofLe16 seq
      ++ ofLe16 (skb.length + sizeofMbimHdr) ++ ofLe16 sizeofNth16
      ++ ((ofLe32 USB_CDC_MBIM_NDP16_IPS_SIGN).take 3 ++ [UInt8.ofNat t])
      ++ ofLe16 (sizeofNdp16 + sizeofDpe16 * 2) ++ ofLe16 0
      ++ d.ofRaw16 sizeofMbimHdr ++ d.ofRaw16 skb.length ++ ofLe16 0 ++ ofLe16 0 ++ skb)

end Mbim

end BananaWrt
