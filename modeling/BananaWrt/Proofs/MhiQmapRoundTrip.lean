import BananaWrt.Proofs.MhiQmap
import BananaWrt.Proofs.QmapRoundTrip

/-!
# What is sent comes back in the PCIe driver

`add_qhdr` and `add_qhdr_v5` are those of the USB driver, and an interface may have an MTU of nearly
15 KiB. A frame is an iteration of the receive loop that queues its packet and pulls all of it
(`iter_of_heads`), so that a sequence of frames gives the sequence of packets.
-/

namespace BananaWrt

namespace Rmnet

open Bytes Qmap

/-- The interface of a packet is there, and the packet is an IP packet that is not longer than its
MTU, which `rmnet_vnd_change_mtu` keeps at most `max_mtu`. -/
structure Dev.Serves (d : Dev) (p : Sent) (net : NetDev) : Prop where
  ip : u8 p.skb.data 0 / 16 = 4 ∨ u8 p.skb.data 0 / 16 = 6
  pos : 1 ≤ p.skb.data.length
  mux : p.offsetId < d.qmapMode
  registered : d.mpQmapNetDev p.offsetId = some net
  fits : p.skb.data.length ≤ net.mtu
  mtu : net.mtu ≤ maxMtu

/-- `dl_minimum_padding` is 0 and every buffer that is asked for can be had. -/
structure Dev.Ready (d : Dev) (v : Version) : Prop where
  version : d.qmapVersion = v.qmapVersion
  padding : d.dlMinimumPadding = 0
  alloc : ∀ n, d.alloc n = true

/-- What the loop queues for a packet. -/
def received (d : Dev) (p : Sent) : Mbim.Packet where
  idx := p.offsetId
  protocol := p.protocol
  mac := ((d.mpQmapNetDev p.offsetId).map (ethHeader · p.protocol)).getD []
  data := p.skb.data

variable {v : Version} {d : Dev} {p : Sent} {net : NetDev} {rest skb : Bytes}

theorem Dev.Serves.encodes (h : d.Serves p net) : p.Encodes := by
  have hpad := pad_le p.skb
  have hfits := h.fits
  have hmtu := h.mtu
  unfold maxMtu mru sizeofMapHeader at hmtu
  exact ⟨h.ip, h.pos, by omega⟩

theorem Dev.Ready.padding_eq (h : d.Ready v) : d.padding = 0 := by
  unfold Dev.padding
  split_ifs
  · exact h.padding
  · rfl

/-- A frame passes all the checks of its header. -/
theorem verdict_of_heads (h : Heads v p rest skb) (hp : d.Serves p net)
    (hmux : muxId skb = p.offsetId) (hskb : skbLen d.toDev skb = p.skb.data.length) :
    verdict d.toDev skb = .parse net := by
  have hlen := h.length
  unfold verdict
  rw [hmux, if_neg (Nat.not_le.2 hp.mux), hp.registered]
  dsimp only
  rw [hskb, if_neg (Nat.not_lt.2 hp.fits), if_neg (by rw [h.pktLen, h.hdrSize]; omega),
    if_neg h.cdBit]

/-- The loop queues the packet of a frame and goes on behind it. -/
theorem iter_of_heads (h : Heads v p rest skb) (hd : d.Ready v) (hp : d.Serves p net) :
    (iter d skb).pull = some (pktLen skb + hdrSize skb)
      ∧ (iter d skb).pkt = some (received d p) := by
  have hpad := pad_le p.skb
  have hshort := hp.encodes.short
  have hmux : muxId skb = p.offsetId := by
    refine muxId_of_heads h ?_
    have height := d.le_eight
    have hlt := hp.mux
    omega
  have hskb : skbLen d.toDev skb = p.skb.data.length := by
    unfold skbLen
    rw [h.pktLen, h.padLen, hd.padding_eq]
    omega
  have hpacket : packet d net skb p.protocol = received d p := by
    unfold packet received
    rw [hmux, hskb, h.hdrSize, h.payload, hp.registered]
    rfl
  unfold iter
  rw [verdict_of_heads h hp hmux hskb]
  dsimp only
  rw [h.hdrSize, h.protocolOf hp.encodes]
  dsimp only
  rw [if_pos (hd.alloc _), hpacket]
  exact ⟨rfl, rfl⟩

/-- The loop gives back the packets that the frames were made of, in their order and on their
interfaces. -/
theorem handler_frames (hd : d.Ready v) : ∀ ps : List Sent, (∀ p ∈ ps, ∃ net, d.Serves p net) →
    ∃ its, rmnetQmiRxHandler d (ps.length + 1) (ps.flatMap (·.frame v)) = some its
      ∧ its.filterMap Iter.pkt = ps.map (received d)
  | [], _ => ⟨[], rfl, rfl⟩
  | p :: ps, hps => by
    obtain ⟨net, hp⟩ := hps p List.mem_cons_self
    obtain ⟨its, hits, hpkts⟩ :=
      handler_frames hd ps fun q hq => hps q (List.mem_cons_of_mem p hq)
    have hoff : p.offsetId < 127 := by
      have height := d.le_eight
      have hlt := hp.mux
      omega
    have h := heads_frame v hp.encodes hoff (ps.flatMap (·.frame v))
    obtain ⟨hpull, hpkt⟩ := iter_of_heads h hd hp
    refine ⟨iter d (p.frame v ++ ps.flatMap (·.frame v)) :: its, ?_, ?_⟩
    · rw [List.flatMap_cons, List.length_cons, handler_of_pull (h.four_lt hp.encodes) hpull,
        h.skbPull, hits]
      rfl
    · rw [List.filterMap_cons, hpkt, hpkts]
      rfl

theorem rmnetQmiRxHandler_frames (v : Version) (d : Dev) (hd : d.Ready v) (ps : List Sent)
    (hps : ∀ p ∈ ps, ∃ net, d.Serves p net) :
    ∃ fuel its, rmnetQmiRxHandler d fuel (ps.flatMap (·.frame v)) = some its
      ∧ its.filterMap Iter.pkt = ps.map (received d) :=
  ⟨_, handler_frames hd ps hps⟩

/-- An IPv4 packet that is padded, and an IPv6 packet that has no room for its padding. -/
theorem rmnetQmiRxHandler_twoSent :
    ∃ fuel its, rmnetQmiRxHandler ⟨Qmap.twoNets, by decide⟩ fuel (twoSent.flatMap (·.frame .v5))
        = some its
      ∧ its.filterMap Iter.pkt = twoSent.map (received ⟨Qmap.twoNets, by decide⟩) := by
  refine rmnetQmiRxHandler_frames .v5 ⟨Qmap.twoNets, by decide⟩ ⟨rfl, rfl, fun _ => rfl⟩ twoSent
    fun p hp => ⟨⟨1500, none⟩, ?_⟩
  have hfits : ∀ p ∈ twoSent, p.Fits := by decide
  have hmux : ∀ p ∈ twoSent, p.offsetId < 2 := by decide
  exact ⟨(hfits p hp).ip, (hfits p hp).pos, hmux p hp, rfl, (hfits p hp).mtu, by decide⟩

end Rmnet

end BananaWrt
