import BananaWrt.MhiMbim

/-!
# QMAP packets of the PCIe driver

`rmnet_qmi_rx_handler` of `mhi_netdev_quectel.c` is the loop of `Qmap.qmapPacketDecode` but for its
command packets, which it carries out and acknowledges. An iteration says which bytes of what is
left of `skb_in` it reads, what it queues, and how far it pulls; it pulls nothing if it leaves the
loop.
-/

namespace BananaWrt

namespace Rmnet

open Bytes Qmap

/-- The fields of `struct mhi_netdev` that are used here; `mpQmapNetDev` has eight elements. `alloc`
says whether an allocation succeeds when so many bytes are left. The MTU of an interface is at most
`max_mtu`, so that a length that passes the test of the MTU is not negative. -/
structure Dev extends Qmap.Dev where
  le_eight : qmapMode ≤ 8

def RMNET_MAP_COMMAND_FLOW_DISABLE : ℕ := 1
def RMNET_MAP_COMMAND_FLOW_ENABLE : ℕ := 2
def RMNET_MAP_COMMAND_ACK : ℕ := 1
def RMNET_MAP_COMMAND_UNSUPPORTED : ℕ := 2
def RMNET_MAP_HEADER_TYPE_CSUM_OFFLOAD : ℕ := 2

def mru : ℕ := 15 * 1024

/-- Without the map header and the `rmnet_map_v5_csum_header`. -/
def maxMtu : ℕ := mru - (4 + sizeofMapHeader)

/-- `sizeof(struct rmnet_map_control_command)`. -/
def sizeofControlCommand : ℕ := 16

/-- What an iteration does: the reads, as offsets and lengths, the packet that it queues, the bit of
`flow_control` that it sets or clears, the acknowledgement that it sends, and how far it pulls. -/
structure Iter where
  reads : List (ℕ × ℕ)
  pkt : Option Mbim.Packet
  flow : Option (ℕ × Bool)
  ack : Option Bytes
  pull : Option ℕ
  deriving DecidableEq, Repr

variable (d : Dev)

def commandName (skb : Bytes) : ℕ := u8 skb sizeofMapHeader

/-- `mux_id` of `rmnet_map_do_flow_control`, in 8 bits. -/
def commandMux (skb : Bytes) : ℕ := (u8 skb 1 + 256 - QUECTEL_QMAP_MUX_ID) % 256

/-- `rmnet_map_do_flow_control`: the reads, the bit of `flow_control`, and what is returned. -/
def rmnetMapDoFlowControl (skb : Bytes) (enable : Bool) :
    List (ℕ × ℕ) × Option (ℕ × Bool) × ℕ :=
  if d.qmapMode ≤ commandMux skb ∨ d.mpQmapNetDev (commandMux skb) = none then
    ([(1, 1)], none, RMNET_MAP_COMMAND_UNSUPPORTED)
  else
    ([(1, 1), (13, 1), (14, 2), (16, 4)], some (commandMux skb, enable), RMNET_MAP_COMMAND_ACK)

/-- `rmnet_map_send_ack`: a copy of the header and the command with another `cmd_type`. -/
def rmnetMapSendAck (skb : Bytes) (type : ℕ) : Bytes :=
  (skb.take (sizeofMapHeader + sizeofControlCommand)).set 5
    (UInt8.ofNat (u8 skb 5 / 4 * 4 + type % 4))

/-- `rmnet_data_map_command`, without how far is pulled. -/
def rmnetDataMapCommand (skb : Bytes) : Iter :=
  let name := commandName skb
  if name = RMNET_MAP_COMMAND_FLOW_ENABLE ∨ name = RMNET_MAP_COMMAND_FLOW_DISABLE then
    let fc := rmnetMapDoFlowControl d skb (name = RMNET_MAP_COMMAND_FLOW_ENABLE)
    if fc.2.2 = RMNET_MAP_COMMAND_ACK ∧ d.alloc skb.length then
      ⟨[(sizeofMapHeader, 1)] ++ fc.1 ++ [(0, sizeofMapHeader + sizeofControlCommand)], none,
        fc.2.1, some (rmnetMapSendAck skb fc.2.2), none⟩
    else ⟨[(sizeofMapHeader, 1)] ++ fc.1, none, fc.2.1, none, none⟩
  else ⟨[(sizeofMapHeader, 1)], none, none, none, none⟩

/-- The packet that is queued. -/
def packet (net : NetDev) (skb : Bytes) (protocol : ℕ) : Mbim.Packet where
  idx := muxId skb
  protocol := protocol
  mac := ethHeader net protocol
  data := (skb.drop (hdrSize skb)).take (skbLen d.toDev skb)

def hdrReads : List (ℕ × ℕ) := [(2, 2), (0, 1), (1, 1)]

/-- The reads of the `ul_header`. -/
def ulReads (skb : Bytes) : List (ℕ × ℕ) :=
  if NextHdr skb then
    if u8 skb 4 / 2 = RMNET_MAP_HEADER_TYPE_CSUM_OFFLOAD then [(4, 1), (5, 1)] else [(4, 1)]
  else []

def iter (skb : Bytes) : Iter :=
  match verdict d.toDev skb with
  | .error => ⟨hdrReads, none, none, none, none⟩
  | .skip =>
    match d.mpQmapNetDev (muxId skb) with
    | none => ⟨hdrReads, none, none, none, some (pktLen skb + hdrSize skb)⟩
    | some _ =>
      let cmd := rmnetDataMapCommand d skb
      { cmd with reads := hdrReads ++ cmd.reads, pull := some (pktLen skb + hdrSize skb) }
  | .parse net =>
    match protocolOf (u8 skb (hdrSize skb)) with
    | none => ⟨hdrReads ++ [(hdrSize skb, 1)], none, none, none, none⟩
    | some protocol =>
      if d.alloc skb.length then
        ⟨hdrReads ++ [(hdrSize skb, 1), (hdrSize skb, skbLen d.toDev skb)] ++ ulReads skb,
          some (packet d net skb protocol), none, none, some (pktLen skb + hdrSize skb)⟩
      else ⟨hdrReads ++ [(hdrSize skb, 1)], none, none, none, none⟩

/-- The iterations, `none` if the loop has not ended after `fuel` of them. -/
def rmnetQmiRxHandler : (fuel : ℕ) → Bytes → Option (List Iter)
  | 0, _ => none
  | fuel + 1, skb =>
    if skb.length ≤ sizeofMapHeader then some []
    else match (iter d skb).pull with
    | none => some [iter d skb]
    | some len => (rmnetQmiRxHandler fuel (skbPull skb len)).map (iter d skb :: ·)

/-- The packet at the front is well formed: it is all there, it is for an interface in use, and if
that one is registered, its length without the padding, in 32 bits, is at most the MTU; a data
packet has a payload, which is no longer than the packet and an IP packet. -/
structure WellFormed (skb : Bytes) : Prop where
  whole : hdrSize skb + pktLen skb ≤ skb.length
  known : muxId skb < d.qmapMode
  fits : ∀ net ∈ d.mpQmapNetDev (muxId skb), skbLen d.toDev skb ≤ net.mtu
  data : d.mpQmapNetDev (muxId skb) ≠ none → ¬ CdBit skb →
    0 < skbLen d.toDev skb ∧ skbLen d.toDev skb ≤ pktLen skb
      ∧ (protocolOf (u8 skb (hdrSize skb))).isSome

/-- The packet, if it is a data packet for an interface that is registered. -/
def dataOf (skb : Bytes) : List Mbim.Packet :=
  match d.mpQmapNetDev (muxId skb) with
  | none => []
  | some net =>
    if CdBit skb then []
    else [packet d net skb ((protocolOf (u8 skb (hdrSize skb))).getD 0)]

/-- The data packets of the longest prefix of well-formed packets. -/
inductive Delivers : Bytes → List Mbim.Packet → Prop
  | stop {skb : Bytes} (h : ¬ (sizeofMapHeader < skb.length ∧ WellFormed d skb)) : Delivers skb []
  | packet {skb : Bytes} {pkts : List Mbim.Packet} (hlen : sizeofMapHeader < skb.length)
      (h : WellFormed d skb) (hrest : Delivers (skb.drop (pktLen skb + hdrSize skb)) pkts) :
      Delivers skb (dataOf d skb ++ pkts)

/-- The loop comes to an iteration on `skb'`. -/
inductive Reaches : Bytes → Bytes → Prop
  | here {skb : Bytes} (hlen : sizeofMapHeader < skb.length) : Reaches skb skb
  | next {skb skb' : Bytes} {len : ℕ} (hlen : sizeofMapHeader < skb.length)
      (hpull : (iter d skb).pull = some len) (hrest : Reaches (skbPull skb len) skb') :
      Reaches skb skb'

/-- The loop ends and reads bytes of `skb_in` only. -/
structure InBounds (skb : Bytes) : Prop where
  ends : ∃ fuel, (rmnetQmiRxHandler d fuel skb).isSome
  reads : ∀ skb', Reaches d skb skb' → ∀ r ∈ (iter d skb').reads, r.1 + r.2 ≤ skb'.length

/-- The device with other allocations. -/
def Dev.withAlloc (alloc : ℕ → Bool) : Dev := { d with alloc := alloc }

/-- Whatever allocations succeed, the loop is in bounds, and if all do it queues the data packets of
the longest prefix of well-formed packets. -/
structure Right (skb : Bytes) : Prop where
  inBounds : ∀ alloc, InBounds (d.withAlloc alloc) skb
  delivers : ∀ fuel its, rmnetQmiRxHandler (d.withAlloc fun _ => true) fuel skb = some its →
    Delivers d skb (its.filterMap Iter.pkt)

/-- What the loop asks of a header that it comes to: a packet for an interface that is not there is
not longer than what is left; what is left when a flow command is carried out has the whole of one;
a data packet that passes the tests has a first byte, and if this is that of an IP packet, a payload
that is not longer than the packet. -/
structure Sound (skb : Bytes) : Prop where
  orphan : muxId skb < d.qmapMode → d.mpQmapNetDev (muxId skb) = none →
    pktLen skb + hdrSize skb ≤ skb.length
  command : ∀ net, d.mpQmapNetDev (muxId skb) = some net → verdict d.toDev skb = .skip →
    commandName skb ∈ [RMNET_MAP_COMMAND_FLOW_ENABLE, RMNET_MAP_COMMAND_FLOW_DISABLE] →
      sizeofMapHeader + sizeofControlCommand ≤ skb.length
  first : ∀ net, verdict d.toDev skb = .parse net → hdrSize skb < skb.length
  payload : ∀ net, verdict d.toDev skb = .parse net →
    (protocolOf (u8 skb (hdrSize skb))).isSome →
      0 < skbLen d.toDev skb ∧ skbLen d.toDev skb ≤ pktLen skb

end Rmnet

end BananaWrt
