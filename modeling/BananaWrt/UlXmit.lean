import BananaWrt.UlAgg
import BananaWrt.Lib.Run

/-!
# Packets on their way to the aggregation

`rmnet_vnd_start_xmit` of `qmi_wwan_q.c` takes the Ethernet header off a packet, puts the QMAP
header before it and calls `rmnet_usb_tx_agg`. How long a packet may be is a matter of the MTU,
which `rmnet_vnd_change_mtu` takes as it is given; how much the buffer holds is a matter of the
settings record. `putLen` says how long `agg_skb` gets where a section puts a packet into it.
-/

namespace BananaWrt

namespace UlAgg

open Bytes

def ETH_HLEN : ℕ := 14

/-- `pNet->type`, whether it is `ARPHRD_ETHER`, and the fields of `struct qmap_priv` that are
read. -/
structure NetDev where
  ether : Bool
  qmapVersion : ℕ
  muxId : ℕ
  deriving DecidableEq, Repr

/-- `skb_pull`, `none` if there is not that much. -/
def skbPull (skb : Qmap.Skb) (len : ℕ) : Option Qmap.Skb :=
  if len ≤ skb.data.length then some { skb with data := skb.data.drop len } else none

/-- What `rmnet_usb_tx_agg` is called with, `none` if it is not called. `stopped` is
`netif_queue_stopped`; `bridged` says that there is a bridge and `bridge_mode_tx_fixup` has kept the
packet. -/
def rmnetVndStartXmit (net : NetDev) (stopped bridged : Bool) (skb : Qmap.Skb) (protocol : ℕ) :
    Option Packet :=
  if stopped then none
  else
    let pulled := if net.ether then if bridged then none else skbPull skb ETH_HLEN else some skb
    pulled.bind fun skb =>
      let tail := skb.tail.drop skb.pad
      if net.qmapVersion = 5 then some ⟨⟨Qmap.addQhdr skb net.muxId, tail⟩, protocol⟩
      else if net.qmapVersion = 9 then some ⟨⟨Qmap.addQhdrV5 skb net.muxId, tail⟩, protocol⟩
      else none

/-- The new MTU; a negative one is refused, and there is nothing that it is compared with. -/
def rmnetVndChangeMtu (newMtu : ℤ) : Option ℕ := if newMtu < 0 then none else some newMtu.toNat

/-- How long `agg_skb` gets, `none` if the section puts nothing into it. -/
def putLen (ctx : TxAggCtx) (env : Env) (p : Packet) (xmitMore : Bool) (priv : Priv) : Option ℕ :=
  match priv.aggSkb with
  | some agg =>
    if UInt32.ofNat agg.data.length + UInt32.ofNat p.data.length < ctx.maxSize then
      some (agg.data.length + p.data.length)
    else none
  | none =>
    if (env.now.sub priv.aggTime).exceeds env.aggBypassTime || (!xmitMore && p.skip) then none
    else (allocSkb ctx.maxSize env.alloc).map fun _ => p.data.length

/-- What a section puts into `agg_skb` fits into the `max_size` bytes it was allocated with. -/
def PutFits (s : St) : Input → Prop
  | .newPacket env =>
    ∀ c ∈ s.call, ∀ n ∈ putLen s.ctx env c.packet c.xmitMore s.priv, n ≤ s.ctx.maxSize.toNat
  | _ => True

/-- The packets are what the interface makes of packets within the MTU, and there is one settings
record. -/
def Sends (net : NetDev) (mtu : ℕ) (maxDatagrams maxSize : UInt32) : Input → Prop
  | .txAgg p _ => ∃ stopped bridged skb protocol,
    skb.data.length ≤ mtu + (if net.ether then ETH_HLEN else 0)
      ∧ rmnetVndStartXmit net stopped bridged skb protocol = some p
  | .settingStore n m => n = maxDatagrams ∧ m = maxSize
  | _ => True

/-- In every run nothing is put into `agg_skb` that does not fit, so the kernel does not panic. -/
def NeverOverfills (net : NetDev) (mtu : ℕ) (maxDatagrams maxSize : UInt32) : Prop :=
  ∀ now is, (∀ i ∈ is, Sends net mtu maxDatagrams maxSize i) →
    Runs.Meets step PutFits (initial now) is
      ∧ ∀ s, Runs.exec step (initial now) is = some s → s.panicked = false

/-- With the QMAP header of the version in use, `none` if there is none for it. -/
def headerLen (net : NetDev) : Option ℕ :=
  if net.qmapVersion = 5 then some 4 else if net.qmapVersion = 9 then some 8 else none

/-- The record turns no aggregation on, or asks for more than can be allocated; or a packet of the
MTU, padded and with its header, fits. -/
def LeavesRoom (net : NetDev) (mtu : ℕ) (maxDatagrams maxSize : UInt32) : Prop :=
  maxDatagrams ≤ 1 ∨ 2 ^ 31 ≤ maxSize.toNat
    ∨ ∀ hdr ∈ headerLen net, hdr + (mtu + 3) / 4 * 4 ≤ maxSize.toNat

end UlAgg

end BananaWrt
