import BananaWrt.QmapEncode

/-!
# QMAP packets in the Fibocom driver

`qmi_wwan_f.c` has two loops of its own over the packets of a transfer. `_rmnet_usb_rx_handler`
copies each packet, as the Quectel driver does, with the checks in another order.
`qmap_qmi_wwan_rx_fixup` copies a packet only if there is no room before it: otherwise it clones
`skb_in`, which shares the bytes, and writes the Ethernet header over what is there before the
packet. What is before a packet may be written to once the packet before it has been copied.
-/

namespace BananaWrt

namespace Qmap

namespace Fibocom

open Bytes

def FIBOCOM_QMAP_MUX_ID : ℕ := 0x81

def FIBOCOM_WWAN_QMAP : ℕ := 4

def ETH_HLEN : ℕ := 14

def MacAddr : Type := { b : Bytes // b.length = 6 }

instance : DecidableEq MacAddr := inferInstanceAs (DecidableEq { b : Bytes // b.length = 6 })

/-- A network interface: whether it has Ethernet frames, and the address that they get, which is its
own or, in bridge mode, `bridge_mac`. -/
structure NetDev where
  ether : Bool
  dest : MacAddr
  deriving DecidableEq

/-- The fields of `sQmiWwanQmap` that are used here. `alloc` says whether a buffer can be had when
so many bytes are left. -/
structure Dev where
  qmapMode : ℕ
  qmapVersion : ℕ
  dlMinimumPadding : ℕ
  mpQmapNetDev : ℕ → Option NetDev
  alloc : ℕ → Bool

def muxId (skb : Bytes) : ℕ := (u8 skb 1 + 2 ^ 32 - FIBOCOM_QMAP_MUX_ID) % 2 ^ 32

def ethHeader (net : NetDev) (protocol : ℕ) : Bytes :=
  net.dest.1 ++ defaultModemAddr ++ ofBe16 protocol

/-- A packet that is handed on: the interface, the protocol and the data. -/
structure Delivered where
  mux : ℕ
  protocol : ℕ
  data : Bytes
  deriving DecidableEq, Repr

/-- What the checks of a header come to. -/
inductive Verdict where
  | error
  | skip
  | parse (net : NetDev) (protocol : ℕ)
  deriving DecidableEq

/-- The checks of both loops on a packet of `pktLen` bytes after a header of `hdr` bytes, of which
`skbLen` are the payload. -/
def verdict (d : Dev) (skb : Bytes) (hdr : ℕ) (skbLen : ℤ) : Verdict :=
  if 1500 < skbLen then .error
  else if skb.length < pktLen skb + hdr then .error
  else if CdBit skb then .skip
  else match protocolOf (u8 skb hdr) with
  | none => .error
  | some protocol =>
    if d.qmapMode ≤ muxId skb then .error
    else match d.mpQmapNetDev (muxId skb) with
    | none => .skip
    | some net => .parse net protocol

def Dev.padding (d : Dev) : ℕ := if d.qmapVersion = 9 then d.dlMinimumPadding else 0

/-- `skb_len`, an `int`. -/
def skbLen (d : Dev) (skb : Bytes) : ℤ :=
  ((pktLen skb : ℤ) - padLen skb - d.padding).bmod (2 ^ 32)

/-- What an iteration queues, the Ethernet header taken off again, and how far it pulls; it pulls
nothing if it leaves the loop. -/
def iteration (d : Dev) (skb : Bytes) : Option Delivered × Option ℕ :=
  match verdict d skb (hdrSize skb) (skbLen d skb) with
  | .error => (none, none)
  | .skip => (none, some (pktLen skb + hdrSize skb))
  | .parse _ protocol =>
    if d.alloc skb.length then
      (some ⟨muxId skb, protocol, (skb.drop (hdrSize skb)).take (skbLen d skb).toNat⟩,
        some (pktLen skb + hdrSize skb))
    else (none, none)

/-- The packets that go to `netif_receive_skb`, `none` if the loop has not ended after `fuel`
iterations. -/
def rmnetUsbRxHandler (d : Dev) : (fuel : ℕ) → Bytes → Option (List Delivered)
  | 0, _ => none
  | fuel + 1, skb =>
    if skb.length ≤ sizeofMapHeader then some []
    else match iteration d skb with
    | (queued, none) => some queued.toList
    | (queued, some len) => (rmnetUsbRxHandler d fuel (skbPull skb len)).map (queued.toList ++ ·)

/-- Where the frame of a queued packet is: a piece of the buffer that `skb_in` is in, or a buffer of
its own. -/
inductive Frame where
  | clone (off len : ℕ)
  | copy (data : Bytes)
  deriving DecidableEq, Repr

structure Queued where
  mux : ℕ
  protocol : ℕ
  frame : Frame
  deriving DecidableEq, Repr

def Queued.delivered (buf : Bytes) (q : Queued) : Delivered where
  mux := q.mux
  protocol := q.protocol
  data :=
    match q.frame with
    | .clone off len => (buf.drop off).take len
    | .copy data => data

/-- `buf` is the buffer that `skb_in` is in and `pos` where its data begin; `headroom` is how many
bytes before them may be written to. -/
structure Rx where
  buf : Bytes
  pos : ℕ
  headroom : ℕ
  chain : List Queued
  deriving DecidableEq, Repr

def Rx.skb (rx : Rx) : Bytes := rx.buf.drop rx.pos

/-- `cd_rsvd_pad` has the padding in its lower six bits. -/
def fixupLen (skb : Bytes) : ℤ := (pktLen skb : ℤ) - padLen skb

def Rx.pull (rx : Rx) (len : ℕ) : Rx :=
  if len ≤ rx.skb.length then { rx with pos := rx.pos + len } else rx

/-- How long the clone is after `skb_pull` and `skb_trim`, which takes `skb_len` as an unsigned
number and does nothing if there is less. -/
def trimmed (skb : Bytes) : ℕ :=
  min (skb.length - sizeofMapHeader) (fixupLen skb % 2 ^ 32).toNat

/-- `skb_clone`, and the Ethernet header before the packet. -/
def Rx.clone (rx : Rx) (net : NetDev) (protocol : ℕ) : Rx :=
  { rx with
    buf := write rx.buf (rx.pos + sizeofMapHeader - ETH_HLEN) (ethHeader net protocol)
    headroom := padLen rx.skb
    chain := rx.chain ++ [⟨muxId rx.skb, protocol,
      .clone (rx.pos + sizeofMapHeader - ETH_HLEN) (ETH_HLEN + trimmed rx.skb)⟩] }

/-- A negative `skb_len` does not get as far as this: `skb_put` or `memcpy` ends in a fault. -/
def Rx.copy (rx : Rx) (net : NetDev) (protocol : ℕ) : Rx :=
  { rx with
    headroom := pktLen rx.skb
    chain := rx.chain ++ [⟨muxId rx.skb, protocol, .copy (ethHeader net protocol
      ++ (rx.skb.drop sizeofMapHeader).take (fixupLen rx.skb).toNat)⟩] }

/-- An iteration, `none` if it leaves the loop by an error. -/
def Rx.iteration (d : Dev) (rx : Rx) : Option Rx :=
  match verdict d rx.skb sizeofMapHeader (fixupLen rx.skb) with
  | .error => none
  | .skip => some (rx.pull (pktLen rx.skb + sizeofMapHeader))
  | .parse net protocol =>
    if d.alloc rx.skb.length then
      some ((if ETH_HLEN ≤ rx.headroom then rx.clone net protocol else rx.copy net protocol).pull
        (pktLen rx.skb + sizeofMapHeader))
    else none

/-- Where the loop is left, and whether at its end or by an error; `none` if it has not ended after
`fuel` iterations. -/
def fixupLoop (d : Dev) : (fuel : ℕ) → Rx → Option (Bool × Rx)
  | 0, _ => none
  | fuel + 1, rx =>
    if rx.skb.length ≤ sizeofMapHeader then some (true, rx)
    else match rx.iteration d with
    | none => some (false, rx)
    | some rx' => fixupLoop d fuel rx'

/-- The call where `qmap_mode` is not 0. `room` is what is before the data of `skb_in`, and `left`
what an earlier call has left in `skb_chain`. The result is what is handed on, and what is left in
`skb_chain`: everything, if the loop was left by an error. -/
def qmapQmiWwanRxFixup (d : Dev) (fuel : ℕ) (left : List Delivered) (room skb : Bytes) :
    Option (List Delivered × List Delivered) :=
  (fixupLoop d fuel ⟨room ++ skb, room.length, room.length, []⟩).map fun (ended, rx) =>
    let chain := left ++ rx.chain.map (·.delivered rx.buf)
    if ended then (chain, []) else ([], chain)

end Fibocom

end Qmap

end BananaWrt
