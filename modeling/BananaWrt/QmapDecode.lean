import Mathlib.Algebra.Group.Int.Defs
import BananaWrt.Lib.Bytes

/-!
# QMAP packets from the modem

`qmap_packet_decode` of `qmi_wwan_q.c` takes apart what the modem sends in one transfer: a sequence
of QMAP packets, each with a header that gives its length and the interface it is for. `skb_in` is
what is left of the transfer; `skb_pull` takes a packet off its front.

An iteration of the loop says which bytes of `skb_in` it reads, what it queues, and how far it
pulls; it pulls nothing if it leaves the loop.
-/

namespace BananaWrt

namespace Qmap

open Bytes

def QUECTEL_QMAP_MUX_ID : ℕ := 0x81

def ETH_P_IP : ℕ := 0x0800
def ETH_P_IPV6 : ℕ := 0x86DD

def defaultModemAddr : Bytes := [0x02, 0x50, 0xF3, 0x00, 0x00, 0x00]

/-- A network interface: its MTU and, if it has Ethernet frames, the address that they get, which
is its own or, in bridge mode, `bridge_mac`. -/
structure NetDev where
  mtu : ℕ
  dest : Option Bytes
  deriving DecidableEq, Repr

/-- The fields of `sQmiWwanQmap` that are used here. `alloc` says whether `netdev_alloc_skb`
succeeds when so many bytes are left. -/
structure Dev where
  qmapMode : ℕ
  qmapVersion : ℕ
  dlMinimumPadding : ℕ
  mpQmapNetDev : ℕ → Option NetDev
  alloc : ℕ → Bool

section
variable (skb : Bytes)

def sizeofMapHeader : ℕ := 4

def padLen : ℕ := u8 skb 0 % 64

def NextHdr : Prop := u8 skb 0 / 64 % 2 = 1

instance : Decidable (NextHdr skb) := inferInstanceAs (Decidable (_ = _))

def CdBit : Prop := u8 skb 0 / 128 = 1

instance : Decidable (CdBit skb) := inferInstanceAs (Decidable (_ = _))

def pktLen : ℕ := be16 skb 2

/-- With the `rmnet_map_v5_csum_header` if there is one. -/
def hdrSize : ℕ := if NextHdr skb then sizeofMapHeader + 4 else sizeofMapHeader

/-- `mux_id`, which is compared as an unsigned number. -/
def muxId : ℕ := (u8 skb 1 + 2 ^ 32 - QUECTEL_QMAP_MUX_ID) % 2 ^ 32

end

def Dev.padding (d : Dev) : ℕ := if d.qmapVersion = 9 then d.dlMinimumPadding else 0

/-- `skb_len` as an unsigned number, which it is compared as. -/
def skbLen (d : Dev) (skb : Bytes) : ℕ :=
  (pktLen skb + 2 ^ 33 - padLen skb - d.padding % 2 ^ 32) % 2 ^ 32

def toInt32 (n : ℕ) : ℤ := if n < 2 ^ 31 then n else n - 2 ^ 32

/-- What is queued: the interface and protocol, where the payload was copied from and how much, and
the data. -/
structure Packet where
  mux : ℕ
  protocol : ℕ
  offset : ℕ
  length : ℤ
  data : Bytes
  deriving DecidableEq, Repr

structure Iteration where
  reads : List ℕ
  queued : Option Packet
  pull : Option ℕ
  deriving DecidableEq, Repr

/-- What the header comes to: `error_pkt`, `skip_pkt`, or a packet for an interface. -/
inductive Verdict where
  | error
  | skip
  | parse (net : NetDev)
  deriving DecidableEq, Repr

def verdict (d : Dev) (skb : Bytes) : Verdict :=
  if d.qmapMode ≤ muxId skb then .error
  else match d.mpQmapNetDev (muxId skb) with
  | none => .skip
  | some net =>
    if net.mtu < skbLen d skb then .error
    else if skb.length < pktLen skb + hdrSize skb then .error
    else if CdBit skb then .skip
    else .parse net

def protocolOf (b : ℕ) : Option ℕ :=
  if b / 16 = 4 then some ETH_P_IP else if b / 16 = 6 then some ETH_P_IPV6 else none

/-- `skb_push` of the Ethernet header. -/
def ethHeader (net : NetDev) (protocol : ℕ) : Bytes :=
  match net.dest with
  | some dest =>
    dest ++ defaultModemAddr ++ [UInt8.ofNat (protocol / 256), UInt8.ofNat protocol]
  | none => []

def packet (d : Dev) (net : NetDev) (skb : Bytes) (protocol : ℕ) : Packet where
  mux := muxId skb
  protocol := protocol
  offset := hdrSize skb
  length := toInt32 (skbLen d skb)
  data := ethHeader net protocol
    ++ (skb.drop (hdrSize skb)).take (toInt32 (skbLen d skb)).toNat

/-- The bytes of the map header, the first byte of the payload, and the `ul_header` if there is
one. -/
def iteration (d : Dev) (skb : Bytes) : Iteration :=
  match verdict d skb with
  | .error => ⟨[0, 1, 2, 3], none, none⟩
  | .skip => ⟨[0, 1, 2, 3], none, some (pktLen skb + hdrSize skb)⟩
  | .parse net =>
    match protocolOf (u8 skb (hdrSize skb)) with
    | none => ⟨[0, 1, 2, 3, hdrSize skb], none, none⟩
    | some protocol =>
      if d.alloc skb.length then
        ⟨[0, 1, 2, 3, hdrSize skb] ++ (if NextHdr skb then [4, 5] else []),
          some (packet d net skb protocol), some (pktLen skb + hdrSize skb)⟩
      else ⟨[0, 1, 2, 3, hdrSize skb], none, none⟩

/-- Nothing is taken off if there is not that much. -/
def skbPull (skb : Bytes) (len : ℕ) : Bytes := if len ≤ skb.length then skb.drop len else skb

/-- The packets that are queued, `none` if the loop has not ended after `fuel` iterations. -/
def qmapPacketDecode (d : Dev) : (fuel : ℕ) → Bytes → Option (List Packet)
  | 0, _ => none
  | fuel + 1, skb =>
    if skb.length ≤ sizeofMapHeader then some []
    else match (iteration d skb).pull with
    | none => some (iteration d skb).queued.toList
    | some len =>
      (qmapPacketDecode d fuel (skbPull skb len)).map ((iteration d skb).queued.toList ++ ·)

/-- The loop comes to an iteration on `skb'`. -/
inductive Reaches (d : Dev) : Bytes → Bytes → Prop
  | here {skb : Bytes} : sizeofMapHeader < skb.length → Reaches d skb skb
  | next {skb skb' : Bytes} {len : ℕ} : sizeofMapHeader < skb.length →
    (iteration d skb).pull = some len → Reaches d (skbPull skb len) skb' → Reaches d skb skb'

/-- The loop ends, reads bytes of `skb_in` only, and what it copies has a length that is not
negative and lies in the packet that it was announced with, which lies in `skb_in`. -/
structure InBounds (d : Dev) (skb : Bytes) : Prop where
  ends : ∃ fuel, (qmapPacketDecode d fuel skb).isSome
  reads : ∀ skb', Reaches d skb skb' → ∀ i ∈ (iteration d skb').reads, i < skb'.length
  copies : ∀ skb', Reaches d skb skb' → ∀ p ∈ (iteration d skb').queued,
    0 ≤ p.length ∧ hdrSize skb' ≤ p.offset ∧ p.offset + p.length ≤ hdrSize skb' + pktLen skb'
      ∧ hdrSize skb' + pktLen skb' ≤ skb'.length

/-- The header is one that the loop can take. A packet for an interface that is not there is not
longer than what is left; a packet for one that is there does not end with its second header at the
end of `skb_in`; and the padding of one that is copied is not longer than the packet. -/
structure Sound (d : Dev) (skb : Bytes) : Prop where
  orphan : muxId skb < d.qmapMode → d.mpQmapNetDev (muxId skb) = none →
    pktLen skb + hdrSize skb ≤ skb.length
  empty : ∀ net, verdict d skb = .parse net →
    ¬ (NextHdr skb ∧ pktLen skb = 0 ∧ skb.length = hdrSize skb)
  padding : ∀ net, verdict d skb = .parse net →
    (protocolOf (u8 skb (hdrSize skb))).isSome → d.alloc skb.length →
      (padLen skb + d.padding) % 2 ^ 32 ≤ pktLen skb

end Qmap

end BananaWrt
