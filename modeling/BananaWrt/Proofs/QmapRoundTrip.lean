import BananaWrt.Proofs.QmapMalformed

/-!
# What is sent comes back

The header that is put before a packet is read back by all three receive loops: `Heads` says what a
loop finds at the front of a frame. `qmap_qmi_wwan_rx_fixup` queues what a walk over the frames
comes to, which is every packet.
-/

namespace BananaWrt

namespace Qmap

open Bytes

/-- An IP packet that is not longer than the default MTU. -/
structure Sent.Fits (p : Sent) : Prop where
  ip : u8 p.skb.data 0 / 16 = 4 ∨ u8 p.skb.data 0 / 16 = 6
  pos : 1 ≤ p.skb.data.length
  mtu : p.skb.data.length ≤ 1500

instance (p : Sent) : Decidable p.Fits :=
  decidable_of_iff ((u8 p.skb.data 0 / 16 = 4 ∨ u8 p.skb.data 0 / 16 = 6)
    ∧ 1 ≤ p.skb.data.length ∧ p.skb.data.length ≤ 1500)
    ⟨fun h => ⟨h.1, h.2.1, h.2.2⟩, fun h => ⟨h.ip, h.pos, h.mtu⟩⟩

/-- An IP packet that the header can tell the length of, with its padding. -/
structure Sent.Encodes (p : Sent) : Prop where
  ip : u8 p.skb.data 0 / 16 = 4 ∨ u8 p.skb.data 0 / 16 = 6
  pos : 1 ≤ p.skb.data.length
  short : p.skb.data.length + p.skb.pad < 2 ^ 16

theorem Sent.Fits.encodes {p : Sent} (h : p.Fits) : p.Encodes := by
  have hpad := pad_le p.skb
  have hmtu := h.mtu
  exact ⟨h.ip, h.pos, by omega⟩

def Sent.protocol (p : Sent) : ℕ := if u8 p.skb.data 0 / 16 = 4 then ETH_P_IP else ETH_P_IPV6

def Version.hdrSize : Version → ℕ
  | v1 => 4
  | v5 => 8

/-- `skb` begins with the frame of `p`, and `rest` is what comes after it. -/
structure Heads (v : Version) (p : Sent) (rest skb : Bytes) : Prop where
  padLen : padLen skb = p.skb.pad
  hdrSize : hdrSize skb = v.hdrSize
  cdBit : ¬ CdBit skb
  pktLen : pktLen skb = p.skb.data.length + p.skb.pad
  muxId : u8 skb 1 = QUECTEL_QMAP_MUX_ID + p.offsetId
  body : skb.drop v.hdrSize = p.skb.padded ++ rest
  length : skb.length = v.hdrSize + (p.skb.data.length + p.skb.pad) + rest.length

/-- The byte with the flags, and what is between the map header and the packet. -/
def Version.flags : Version → ℕ
  | v1 => 0
  | v5 => 64

def Version.extension : Version → Bytes
  | v1 => []
  | v5 => [UInt8.ofNat (2 * RMNET_MAP_HEADER_TYPE_CSUM_OFFLOAD), 0, 0, 0]

theorem frame_eq (v : Version) (p : Sent) :
    p.frame v = UInt8.ofNat (v.flags + p.skb.pad)
      :: UInt8.ofNat (QUECTEL_QMAP_MUX_ID + p.offsetId)
      :: (ofBe16 (p.skb.data.length + p.skb.pad) ++ (v.extension ++ p.skb.padded)) := by
  cases v with
  | v1 =>
    simp only [Sent.frame, addQhdr, Version.flags, Version.extension, length_padded,
      List.cons_append, List.nil_append, Nat.zero_add]
  | v5 =>
    simp only [Sent.frame, addQhdrV5, Version.flags, Version.extension, List.cons_append,
      List.nil_append, List.append_assoc]

theorem heads_frame (v : Version) {p : Sent} (hp : p.Encodes) (hoff : p.offsetId < 127)
    (rest : Bytes) : Heads v p rest (p.frame v ++ rest) := by
  have hpad := pad_le p.skb
  have h0 : u8 (p.frame v ++ rest) 0 = v.flags + p.skb.pad := by
    rw [frame_eq]
    change (UInt8.ofNat (v.flags + p.skb.pad)).toNat = _
    rw [UInt8.toNat_ofNat']
    cases v <;> simp only [Version.flags] <;> omega
  have h1 : u8 (p.frame v ++ rest) 1 = QUECTEL_QMAP_MUX_ID + p.offsetId := by
    rw [frame_eq]
    change (UInt8.ofNat (QUECTEL_QMAP_MUX_ID + p.offsetId)).toNat = _
    rw [UInt8.toNat_ofNat']
    simp only [QUECTEL_QMAP_MUX_ID]
    omega
  have hlen : be16 (p.frame v ++ rest) 2 = p.skb.data.length + p.skb.pad := by
    rw [frame_eq]
    exact be16_ofBe16 hp.short (v.extension ++ p.skb.padded ++ rest)
  have hhdr : hdrSize (p.frame v ++ rest) = v.hdrSize := by
    have hcases := hdrSize_cases (p.frame v ++ rest)
    unfold NextHdr at hcases
    rw [h0] at hcases
    cases v <;> simp only [Version.flags, Version.hdrSize] at hcases ⊢ <;> omega
  refine ⟨?_, hhdr, ?_, hlen, h1, ?_, ?_⟩
  · unfold padLen
    rw [h0]
    cases v <;> simp only [Version.flags] <;> omega
  · unfold CdBit
    rw [h0]
    cases v <;> simp only [Version.flags] <;> omega
  · rw [frame_eq]
    cases v <;> rfl
  · rw [frame_eq]
    simp only [List.length_append, List.length_cons, length_padded, ofBe16]
    cases v <;> simp only [Version.extension, Version.hdrSize, List.length_cons, List.length_nil]
      <;> omega

namespace Heads

variable {v : Version} {p : Sent} {rest skb : Bytes}

theorem four_lt (h : Heads v p rest skb) (hp : p.Encodes) : sizeofMapHeader < skb.length := by
  have hlen := h.length
  have hpos := hp.pos
  simp only [sizeofMapHeader]
  cases v <;> simp only [Version.hdrSize] at hlen <;> omega

theorem protocolOf (h : Heads v p rest skb) (hp : p.Encodes) :
    protocolOf (u8 skb v.hdrSize) = some p.protocol := by
  have hu8 : u8 skb v.hdrSize = u8 p.skb.data 0 := by
    rw [← Nat.add_zero v.hdrSize, ← u8_drop, h.body, Skb.padded, List.append_assoc,
      u8_append_left (Nat.lt_of_lt_of_le Nat.zero_lt_one hp.pos)]
  unfold Qmap.protocolOf Sent.protocol
  rw [hu8]
  rcases hp.ip with h4 | h6
  · rw [if_pos h4, if_pos h4]
  · rw [if_neg (by omega), if_pos h6, if_neg (by omega)]

theorem payload (h : Heads v p rest skb) :
    (skb.drop v.hdrSize).take p.skb.data.length = p.skb.data := by
  rw [h.body, Skb.padded, List.append_assoc, List.take_left]

theorem skbPull (h : Heads v p rest skb) :
    skbPull skb (Qmap.pktLen skb + Qmap.hdrSize skb) = rest := by
  have hlen := h.length
  unfold Qmap.skbPull
  rw [h.pktLen, h.hdrSize, if_pos (by omega), Nat.add_comm, ← List.drop_drop, h.body,
    ← length_padded, List.drop_left]

end Heads

/-- What the loop queues for a packet. -/
def Sent.received (v : Version) (d : Dev) (p : Sent) : Packet where
  mux := p.offsetId
  protocol := p.protocol
  offset := v.hdrSize
  length := p.skb.data.length
  data := ((d.mpQmapNetDev p.offsetId).map (ethHeader · p.protocol)).getD [] ++ p.skb.data

/-- The interface is there and its MTU is at least the default. -/
structure Dev.Serves (d : Dev) (p : Sent) : Prop where
  mux : p.offsetId < d.qmapMode
  net : ∃ net ∈ d.mpQmapNetDev p.offsetId, 1500 ≤ net.mtu

theorem muxId_of_heads {v : Version} {p : Sent} {rest skb : Bytes} (h : Heads v p rest skb)
    (hoff : p.offsetId < 127) : muxId skb = p.offsetId := by
  unfold muxId
  rw [h.muxId]
  omega

theorem iteration_of_heads {v : Version} {d : Dev} {p : Sent} {rest skb : Bytes}
    (h : Heads v p rest skb) (hp : p.Fits) (hd : d.Serves p) (hoff : p.offsetId < 127)
    (hpadding : d.padding = 0) (halloc : ∀ n, d.alloc n = true) :
    (iteration d skb).pull = some (pktLen skb + hdrSize skb)
      ∧ (iteration d skb).queued = some (p.received v d) := by
  obtain ⟨net, hnet, hmtu⟩ := hd.net
  have hpad := pad_le p.skb
  have hmux := muxId_of_heads h hoff
  have hpos := hp.pos
  have hle := hp.mtu
  have hskb : skbLen d skb = p.skb.data.length := by
    unfold skbLen
    rw [h.pktLen, h.padLen, hpadding]
    omega
  have hverdict : verdict d skb = .parse net := by
    unfold verdict
    rw [hmux, if_neg (Nat.not_le.2 hd.mux), hnet]
    dsimp only
    rw [hskb, if_neg (by omega), if_neg (by rw [h.pktLen, h.hdrSize, h.length]; omega),
      if_neg h.cdBit]
  have hint : toInt32 (skbLen d skb) = p.skb.data.length := by
    unfold toInt32
    rw [hskb, if_pos (by omega)]
  have hpacket : packet d net skb p.protocol = p.received v d := by
    unfold packet Sent.received
    rw [hmux, h.hdrSize, hint, hnet, Int.toNat_natCast, h.payload]
    rfl
  unfold iteration
  rw [hverdict]
  dsimp only
  rw [h.hdrSize, h.protocolOf hp.encodes]
  dsimp only
  rw [if_pos (halloc _), hpacket]
  exact ⟨rfl, rfl⟩

theorem qmapPacketDecode_frames (v : Version) {d : Dev} (hpadding : d.padding = 0)
    (halloc : ∀ n, d.alloc n = true) :
    ∀ (ps : List Sent), (∀ p ∈ ps, p.Fits ∧ d.Serves p ∧ p.offsetId < 127) →
      qmapPacketDecode d (ps.length + 1) (ps.flatMap (·.frame v))
        = some (ps.map (·.received v d))
  | [], _ => rfl
  | p :: ps, hps => by
    obtain ⟨hp, hd, hoff⟩ := hps p List.mem_cons_self
    have ih := qmapPacketDecode_frames v hpadding halloc ps
      fun q hq => hps q (List.mem_cons_of_mem p hq)
    have h := heads_frame v hp.encodes hoff (ps.flatMap (·.frame v))
    obtain ⟨hpull, hqueued⟩ := iteration_of_heads h hp hd hoff hpadding halloc
    rw [List.flatMap_cons, List.length_cons, qmapPacketDecode,
      if_neg (Nat.not_le.2 (h.four_lt hp.encodes)), hpull, hqueued]
    dsimp only
    rw [h.skbPull, ih]
    rfl

namespace Fibocom

variable {v : Version} {d : Dev} {p : Sent} {rest skb : Bytes}

/-- The interface is there. -/
structure Dev.Serves (d : Dev) (p : Sent) : Prop where
  mux : p.offsetId < d.qmapMode
  net : ∃ net, d.mpQmapNetDev p.offsetId = some net

theorem muxId_of_heads (h : Heads v p rest skb) (hoff : p.offsetId < 127) :
    muxId skb = p.offsetId := by
  unfold muxId FIBOCOM_QMAP_MUX_ID
  rw [h.muxId, QUECTEL_QMAP_MUX_ID]
  omega

theorem verdict_of_heads (h : Heads v p rest skb) (hp : p.Fits) (hoff : p.offsetId < 127)
    {net : NetDev} (hmux : p.offsetId < d.qmapMode) (hnet : d.mpQmapNetDev p.offsetId = some net) :
    verdict d skb v.hdrSize p.skb.data.length = .parse net p.protocol := by
  have hle := hp.mtu
  unfold verdict
  rw [if_neg (by omega), if_neg (by rw [h.pktLen, h.length]; omega), if_neg h.cdBit,
    h.protocolOf hp.encodes]
  dsimp only
  rw [muxId_of_heads h hoff, if_neg (Nat.not_le.2 hmux), hnet]

theorem iteration_of_heads (h : Heads v p rest skb) (hp : p.Fits) (hd : d.Serves p)
    (hoff : p.offsetId < 127) (hpadding : d.padding = 0) (halloc : ∀ n, d.alloc n = true) :
    iteration d skb
      = (some ⟨p.offsetId, p.protocol, p.skb.data⟩, some (pktLen skb + hdrSize skb)) := by
  obtain ⟨hmux, net, hnet⟩ := hd
  have hpad := pad_le p.skb
  have hle := hp.mtu
  have hskb : skbLen d skb = p.skb.data.length := by
    unfold skbLen
    rw [h.pktLen, h.padLen, hpadding, Int.bmod_eq_of_le (by omega) (by omega)]
    omega
  unfold iteration
  rw [hskb, h.hdrSize, verdict_of_heads h hp hoff hmux hnet]
  dsimp only
  rw [if_pos (halloc _), muxId_of_heads h hoff, Int.toNat_natCast, h.payload]

/-- A frame that does not end the loop. -/
theorem rmnetUsbRxHandler_next {d : Dev} {skb : Bytes} {queued : Option Delivered} {len : ℕ}
    (fuel : ℕ) (hlen : sizeofMapHeader < skb.length) (hit : iteration d skb = (queued, some len)) :
    rmnetUsbRxHandler d (fuel + 1) skb =
      (rmnetUsbRxHandler d fuel (skbPull skb len)).map (queued.toList ++ ·) := by
  refine (if_neg (Nat.not_le.2 hlen)).trans ?_
  rw [hit]

theorem rmnetUsbRxHandler_frames (v : Version) {d : Dev} (hpadding : d.padding = 0)
    (halloc : ∀ n, d.alloc n = true) :
    ∀ (ps : List Sent), (∀ p ∈ ps, p.Fits ∧ d.Serves p ∧ p.offsetId < 127) →
      rmnetUsbRxHandler d (ps.length + 1) (ps.flatMap (·.frame v))
        = some (ps.map fun p => ⟨p.offsetId, p.protocol, p.skb.data⟩)
  | [], _ => rfl
  | p :: ps, hps => by
    obtain ⟨hp, hd, hoff⟩ := hps p List.mem_cons_self
    have ih := rmnetUsbRxHandler_frames v hpadding halloc ps
      fun q hq => hps q (List.mem_cons_of_mem p hq)
    have h := heads_frame v hp.encodes hoff (ps.flatMap (·.frame v))
    have hit := iteration_of_heads h hp hd hoff hpadding halloc
    rw [List.flatMap_cons, List.length_cons, rmnetUsbRxHandler_next _ (h.four_lt hp.encodes) hit,
      h.skbPull, ih]
    rfl

/-- What the loop queues for a packet. -/
def Sent.framed (d : Dev) (p : Sent) : Delivered where
  mux := p.offsetId
  protocol := p.protocol
  data := ((d.mpQmapNetDev p.offsetId).map (ethHeader · p.protocol)).getD [] ++ p.skb.data

section Step

variable {w w' : Walk} {ps : List Sent}

theorem fixupLen_of_heads (h : Heads .v1 p rest skb) : fixupLen skb = p.skb.data.length := by
  unfold fixupLen
  rw [h.pktLen, h.padLen]
  omega

theorem drop_of_heads (h : Heads .v1 p rest skb) :
    skb.drop (pktLen skb + sizeofMapHeader) = rest := by
  rw [h.pktLen, Nat.add_comm, ← List.drop_drop]
  change (skb.drop Version.v1.hdrSize).drop _ = rest
  rw [h.body, ← length_padded, List.drop_left]

/-- The walk takes a frame and puts its packet, with an Ethernet header, after what there was. -/
theorem next_of_heads (h : Heads .v1 p rest w.skb) (hp : p.Fits) (hd : d.Serves p)
    (hoff : p.offsetId < 127) (halloc : ∀ n, d.alloc n = true) :
    ∃ w₁, w.next fixupReader d = some w₁ ∧ w₁.skb = rest
      ∧ w₁.out = w.out ++ [Sent.framed d p] := by
  obtain ⟨hmux, net, hnet⟩ := hd
  have hverdict : verdict d w.skb sizeofMapHeader p.skb.data.length = .parse net p.protocol :=
    verdict_of_heads h hp hoff hmux hnet
  have hpayload : (w.skb.drop sizeofMapHeader).take p.skb.data.length = p.skb.data := h.payload
  have hframed : (⟨muxId w.skb, p.protocol, ethHeader net p.protocol ++ p.skb.data⟩ : Delivered)
      = Sent.framed d p := by
    unfold Sent.framed
    rw [hnet, muxId_of_heads h hoff]
    rfl
  unfold Walk.next
  simp only [fixupReader]
  rw [fixupLen_of_heads h, hverdict]
  dsimp only
  rw [if_pos (halloc _), Int.toNat_natCast, hpayload, hframed]
  exact ⟨_, rfl, drop_of_heads h, rfl⟩

theorem heads_of_frames (hps : ∀ q ∈ p :: ps, q.Fits ∧ d.Serves q ∧ q.offsetId < 127)
    (hskb : skb = (p :: ps).flatMap (·.frame .v1)) :
    Heads .v1 p (ps.flatMap (·.frame .v1)) skb := by
  obtain ⟨hp, -, hoff⟩ := hps p List.mem_cons_self
  rw [hskb, List.flatMap_cons]
  exact heads_frame .v1 hp.encodes hoff _

/-- The walk over frames is always where a frame begins. -/
theorem comes_frames (hps : ∀ p ∈ ps, p.Fits ∧ d.Serves p ∧ p.offsetId < 127)
    (hskb : w.skb = ps.flatMap (·.frame .v1)) (h : Walk.Comes fixupReader d w w') :
    ∃ qs, qs <:+ ps ∧ w'.skb = qs.flatMap (·.frame .v1) := by
  induction h with
  | refl => exact ⟨ps, List.suffix_rfl, hskb⟩
  | tail _ hs ih =>
    obtain ⟨qs, hqs, hskb⟩ := ih
    rcases qs with _ | ⟨q, qs⟩
    · have hlong := hs.1
      rw [hskb] at hlong
      exact absurd hlong (Nat.not_lt_zero _)
    · have h := heads_of_frames (fun r hr => hps r (hqs.subset hr)) hskb
      exact ⟨qs, (List.suffix_cons q qs).trans hqs, (skb_next hs.2).trans (drop_of_heads h)⟩

/-- The walk goes over all frames. -/
theorem walk_frames (halloc : ∀ n, d.alloc n = true) : ∀ (ps : List Sent) (w : Walk),
    (∀ p ∈ ps, p.Fits ∧ d.Serves p ∧ p.offsetId < 127) → w.skb = ps.flatMap (·.frame .v1) →
    ∃ w', Walk.Comes fixupReader d w w' ∧ w'.skb = [] ∧ w'.out = w.out ++ ps.map (Sent.framed d)
  | [], w, _, hskb => ⟨w, .refl, hskb, (List.append_nil _).symm⟩
  | p :: ps, w, hps, hskb => by
    obtain ⟨hp, hd, hoff⟩ := hps p List.mem_cons_self
    have h := heads_of_frames hps hskb
    obtain ⟨w₁, hnext, hskb₁, hout₁⟩ := next_of_heads h hp hd hoff halloc
    obtain ⟨w', hcomes, hskb', hout'⟩ :=
      walk_frames halloc ps w₁ (fun q hq => hps q (List.mem_cons_of_mem p hq)) hskb₁
    refine ⟨w', hcomes.head ⟨h.four_lt hp.encodes, hnext⟩, hskb', ?_⟩
    rw [hout', hout₁, List.append_assoc]
    rfl

theorem lengths_frames (room : Bytes)
    (hps : ∀ p ∈ ps, p.Fits ∧ d.Serves p ∧ p.offsetId < 127) :
    (Rx.start room (ps.flatMap (·.frame .v1))).Lengths d := by
  refine lengths_start_iff.2 fun w hw hlong net protocol _ _ => ?_
  obtain ⟨qs, hqs, hskb⟩ := comes_frames hps rfl hw
  rcases qs with _ | ⟨q, qs⟩
  · rw [hskb] at hlong
    exact absurd hlong (Nat.not_lt_zero _)
  · have h := heads_of_frames (fun r hr => hps r (hqs.subset hr)) hskb
    rw [h.padLen, h.pktLen]
    exact Nat.le_add_left _ _

end Step

theorem qmapQmiWwanRxFixup_frames {d : Dev} (halloc : ∀ n, d.alloc n = true) (ps : List Sent)
    (hps : ∀ p ∈ ps, p.Fits ∧ d.Serves p ∧ p.offsetId < 127) (left : List Delivered)
    (room : Bytes) :
    qmapQmiWwanRxFixup d ((ps.flatMap (·.frame .v1)).length + 1) left room
        (ps.flatMap (·.frame .v1))
      = some (left ++ ps.map (Sent.framed d), []) := by
  obtain ⟨w, hw, hover, hfixup⟩ := fixup_spec left (lengths_frames room hps)
  obtain ⟨w', hw', hskb, hout⟩ := walk_frames halloc ps ⟨_, room.length, []⟩ hps rfl
  have hend : w'.skb.length ≤ sizeofMapHeader := by
    rw [hskb]
    exact Nat.zero_le _
  obtain rfl := walk_unique hw hover hw' (.inl hend)
  rw [hfixup, if_pos hend, hout]
  rfl

end Fibocom

/-- `qmap_mode` is at most what the driver has interfaces for, `dl_minimum_padding` is 0 where it is
used, and every buffer that is asked for can be had. -/
structure Dev.Ready (d : Dev) (v : Version) : Prop where
  version : d.qmapVersion = v.qmapVersion
  mode : d.qmapMode ≤ QUECTEL_WWAN_QMAP
  padding : d.padding = 0
  alloc : ∀ n, d.alloc n = true

/-- The same for the Fibocom driver. -/
structure Fibocom.Dev.Ready (d : Fibocom.Dev) (v : Version) : Prop where
  version : d.qmapVersion = v.qmapVersion
  mode : d.qmapMode ≤ Fibocom.FIBOCOM_WWAN_QMAP
  padding : d.padding = 0
  alloc : ∀ n, d.alloc n = true

/-- All three loops give back the packets that the frames were made of, in their order and on their
interfaces. -/
theorem decode_frames :
    (∀ (v : Version) (d : Dev), d.Ready v → ∀ ps : List Sent, (∀ p ∈ ps, p.Fits ∧ d.Serves p) →
      ∃ fuel, qmapPacketDecode d fuel (ps.flatMap (·.frame v))
        = some (ps.map (·.received v d)))
    ∧ (∀ (v : Version) (d : Fibocom.Dev), d.Ready v → ∀ ps : List Sent,
      (∀ p ∈ ps, p.Fits ∧ d.Serves p) →
      ∃ fuel, Fibocom.rmnetUsbRxHandler d fuel (ps.flatMap (·.frame v))
        = some (ps.map fun p => ⟨p.offsetId, p.protocol, p.skb.data⟩))
    ∧ ∀ d : Fibocom.Dev, d.Ready .v1 → ∀ ps : List Sent, (∀ p ∈ ps, p.Fits ∧ d.Serves p) →
      ∀ (left : List Fibocom.Delivered) (room : Bytes),
      ∃ fuel, Fibocom.qmapQmiWwanRxFixup d fuel left room (ps.flatMap (·.frame .v1))
        = some (left ++ ps.map (Fibocom.Sent.framed d), []) := by
  refine ⟨fun v d hd ps hps => ?_, fun v d hd ps hps => ?_, fun d hd ps hps left room => ?_⟩
  · refine ⟨_, qmapPacketDecode_frames v hd.padding hd.alloc ps fun p hp => ?_⟩
    obtain ⟨hfits, hserves⟩ := hps p hp
    have hmux := hserves.mux
    have hmode := hd.mode
    simp only [QUECTEL_WWAN_QMAP] at hmode
    exact ⟨hfits, hserves, by omega⟩
  · refine ⟨_, Fibocom.rmnetUsbRxHandler_frames v hd.padding hd.alloc ps fun p hp => ?_⟩
    obtain ⟨hfits, hserves⟩ := hps p hp
    have hmux := hserves.mux
    have hmode := hd.mode
    simp only [Fibocom.FIBOCOM_WWAN_QMAP] at hmode
    exact ⟨hfits, hserves, by omega⟩
  · refine ⟨_, Fibocom.qmapQmiWwanRxFixup_frames hd.alloc ps (fun p hp => ?_) left room⟩
    obtain ⟨hfits, hserves⟩ := hps p hp
    have hmux := hserves.mux
    have hmode := hd.mode
    simp only [Fibocom.FIBOCOM_WWAN_QMAP] at hmode
    exact ⟨hfits, hserves, by omega⟩

/-- An IPv4 packet that is padded, and an IPv6 packet that has no room for its padding. -/
def twoSent : List Sent := [⟨0, ⟨[0x45, 1, 2], [0xAA]⟩⟩, ⟨1, ⟨[0x60], []⟩⟩]

def twoNets : Dev where
  qmapMode := 2
  qmapVersion := 9
  dlMinimumPadding := 0
  mpQmapNetDev := fun _ => some ⟨1500, none⟩
  alloc := fun _ => true

def Fibocom.twoNets : Fibocom.Dev where
  qmapMode := 2
  qmapVersion := 5
  dlMinimumPadding := 0
  mpQmapNetDev := fun _ => some ⟨false, anyNet.dest⟩
  alloc := fun _ => true

theorem decode_twoSent :
    (∃ fuel, qmapPacketDecode twoNets fuel (twoSent.flatMap (·.frame .v5))
        = some (twoSent.map (·.received .v5 twoNets)))
    ∧ (∃ fuel, Fibocom.rmnetUsbRxHandler Fibocom.twoNets fuel (twoSent.flatMap (·.frame .v1))
        = some (twoSent.map fun p => ⟨p.offsetId, p.protocol, p.skb.data⟩))
    ∧ ∃ fuel, Fibocom.qmapQmiWwanRxFixup Fibocom.twoNets fuel [] [] (twoSent.flatMap (·.frame .v1))
        = some (twoSent.map (Fibocom.Sent.framed Fibocom.twoNets), []) := by
  have hfits : ∀ p ∈ twoSent, p.Fits := by decide
  have hmux : ∀ p ∈ twoSent, p.offsetId < 2 := by decide
  refine ⟨decode_frames.1 .v5 twoNets ⟨rfl, by decide, rfl, fun _ => rfl⟩ twoSent fun p hp => ?_,
    decode_frames.2.1 .v1 Fibocom.twoNets ⟨rfl, by decide, rfl, fun _ => rfl⟩ twoSent
      fun p hp => ?_,
    decode_frames.2.2 Fibocom.twoNets ⟨rfl, by decide, rfl, fun _ => rfl⟩ twoSent (fun p hp => ?_)
      [] []⟩
  · exact ⟨hfits p hp, hmux p hp, _, rfl, Nat.le_refl 1500⟩
  · exact ⟨hfits p hp, hmux p hp, _, rfl⟩
  · exact ⟨hfits p hp, hmux p hp, _, rfl⟩

end Qmap

end BananaWrt
