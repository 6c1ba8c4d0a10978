import BananaWrt.QmapFibocom
import Mathlib.Logic.Relation

/-!
# How a Fibocom decoder gets through a transfer

A `Walk` takes packet after packet off the front of a byte string and copies them; it is what both
decoders are for. It keeps the room that is free before the packet, as `qmap_qmi_wwan_rx_fixup`
does, so that it can say which packets are cloned, but shares no byte.
-/

namespace BananaWrt

namespace Qmap

namespace Fibocom

open Bytes

/-- The length of the header, `skb_len`, and what is put before a payload. -/
structure Reader where
  hdr : Bytes → ℕ
  len : Bytes → ℤ
  eth : NetDev → ℕ → Bytes

def fixupReader : Reader := ⟨fun _ => sizeofMapHeader, fixupLen, ethHeader⟩

def handlerReader (d : Dev) : Reader := ⟨hdrSize, skbLen d, fun _ _ => []⟩

/-- What is left, how many bytes before it are free, and the packets so far. -/
structure Walk where
  skb : Bytes
  headroom : ℕ
  out : List Delivered

section
variable (R : Reader) (d : Dev)

def Walk.next (w : Walk) : Option Walk :=
  match verdict d w.skb (R.hdr w.skb) (R.len w.skb) with
  | .error => none
  | .skip => some { w with skb := w.skb.drop (pktLen w.skb + R.hdr w.skb) }
  | .parse net protocol =>
    if d.alloc w.skb.length then
      some {
        skb := w.skb.drop (pktLen w.skb + R.hdr w.skb)
        headroom := if ETH_HLEN ≤ w.headroom then padLen w.skb else pktLen w.skb
        out := w.out ++ [⟨muxId w.skb, protocol, R.eth net protocol
          ++ (w.skb.drop (R.hdr w.skb)).take (R.len w.skb).toNat⟩] }
    else none

def Walk.Step (w w' : Walk) : Prop := sizeofMapHeader < w.skb.length ∧ w.next R d = some w'

/-- The walk comes from `w` to `w'`. -/
def Walk.Comes : Walk → Walk → Prop := Relation.ReflTransGen (Walk.Step R d)

/-- There is no more packet, or the next one is malformed or cannot be had a buffer for. -/
def Walk.Over (w : Walk) : Prop := w.skb.length ≤ sizeofMapHeader ∨ w.next R d = none

end

/-- The length lies in its packet, and the packet in what is left. -/
def InPacket (skb : Bytes) (hdr : ℕ) (n : ℤ) : Prop :=
  0 ≤ n ∧ n ≤ pktLen skb ∧ pktLen skb + hdr ≤ skb.length

/-- The lengths that an iteration passes to `netdev_alloc_skb`, `skb_put` and `memcpy`. -/
def passed (d : Dev) (skb : Bytes) : List ℤ :=
  match verdict d skb (hdrSize skb) (skbLen d skb) with
  | .parse _ _ => [skbLen d skb]
  | _ => []

/-- An iteration passes its length to `skb_trim` if there is a clone, or to `netdev_alloc_skb`, and
then to `skb_put` and `memcpy`. -/
def Rx.passed (d : Dev) (rx : Rx) : List ℤ :=
  match verdict d rx.skb sizeofMapHeader (fixupLen rx.skb) with
  | .parse _ _ =>
    if ETH_HLEN ≤ rx.headroom ∧ ¬ d.alloc rx.skb.length then [] else [fixupLen rx.skb]
  | _ => []

/-- The packet at the front, if its length is passed on, is not shorter than its padding. -/
def Walk.Padded (d : Dev) (w : Walk) : Prop :=
  ∀ net protocol, verdict d w.skb sizeofMapHeader (fixupLen w.skb) = .parse net protocol →
    (ETH_HLEN ≤ w.headroom → d.alloc w.skb.length = true) → padLen w.skb ≤ pktLen w.skb

/-- From one iteration to the next. -/
def Rx.Step (d : Dev) (rx rx' : Rx) : Prop :=
  sizeofMapHeader < rx.skb.length ∧ rx.iteration d = some rx'

def Rx.Comes (d : Dev) : Rx → Rx → Prop := Relation.ReflTransGen (Rx.Step d)

/-- Before the first iteration. -/
def Rx.start (room skb : Bytes) : Rx := ⟨room ++ skb, room.length, room.length, []⟩

/-- What has been queued so far, as it is now. -/
def Rx.walk (rx : Rx) : Walk := ⟨rx.skb, rx.headroom, rx.chain.map (·.delivered rx.buf)⟩

/-- From one iteration of `_rmnet_usb_rx_handler` to the next. -/
def Step (d : Dev) (skb skb' : Bytes) : Prop :=
  sizeofMapHeader < skb.length ∧ ∃ len ∈ (iteration d skb).2, skb' = skbPull skb len

def Comes (d : Dev) : Bytes → Bytes → Prop := Relation.ReflTransGen (Step d)

section
variable (d : Dev) (left : List Delivered) (room skb : Bytes)

/-- No length outside of its packet is passed on, every packet before the first malformed one is
delivered, after what was left from earlier, and nothing is left. -/
structure FixupRight : Prop where
  lengths : ∀ rx, Rx.Comes d (Rx.start room skb) rx → sizeofMapHeader < rx.skb.length →
    ∀ n ∈ rx.passed d, InPacket rx.skb sizeofMapHeader n
  delivered : ∃ out, qmapQmiWwanRxFixup d (skb.length + 1) left room skb = some (out, [])
    ∧ ∀ w, Walk.Comes fixupReader d ⟨skb, room.length, []⟩ w → w.Over fixupReader d →
      out = left ++ w.out

/-- Every packet that is parsed is as long as its padding; and no packet is malformed, or nothing
was left from earlier and nothing comes before the malformed packet. -/
structure FixupSound : Prop where
  padded : ∀ w, Walk.Comes fixupReader d ⟨skb, room.length, []⟩ w →
    sizeofMapHeader < w.skb.length → w.Padded d
  ends : ∀ w, Walk.Comes fixupReader d ⟨skb, room.length, []⟩ w → w.Over fixupReader d →
    w.skb.length ≤ sizeofMapHeader ∨ (left = [] ∧ w.out = [])

/-- The same for `_rmnet_usb_rx_handler`, which leaves nothing. -/
structure HandlerRight : Prop where
  lengths : ∀ skb', Comes d skb skb' → sizeofMapHeader < skb'.length →
    ∀ n ∈ passed d skb', InPacket skb' (hdrSize skb') n
  delivered : ∃ out, rmnetUsbRxHandler d (skb.length + 1) skb = some out
    ∧ ∀ w, Walk.Comes (handlerReader d) d ⟨skb, 0, []⟩ w → w.Over (handlerReader d) d →
      out = w.out

def HandlerSound : Prop :=
  ∀ skb', Comes d skb skb' → sizeofMapHeader < skb'.length → ∀ net protocol,
    verdict d skb' (hdrSize skb') (skbLen d skb') = .parse net protocol →
      (padLen skb' + d.padding) % 2 ^ 32 ≤ pktLen skb'

end

/-- A transfer for one of the decoders. The interfaces and what can be allocated may differ from
call to call. -/
inductive Call where
  | fixup (d : Dev) (room skb : Bytes)
  | handler (d : Dev) (skb : Bytes)

/-- What is left in `skb_chain`. -/
def Call.step (left : List Delivered) : Call → Option (List Delivered)
  | fixup d room skb => (qmapQmiWwanRxFixup d (skb.length + 1) left room skb).map Prod.snd
  | handler _ _ => some left

def Call.Right (left : List Delivered) : Call → Prop
  | fixup d room skb => FixupRight d left room skb
  | handler d skb => HandlerRight d skb

/-- The condition on a transfer, with nothing left from earlier ones. -/
def Call.Sound : Call → Prop
  | fixup d room skb => FixupSound d [] room skb
  | handler d skb => HandlerSound d skb

end Fibocom

end Qmap

end BananaWrt
