import BananaWrt.Proofs.MhiMbim

/-!
# What the MBIM receive loop delivers

A well-formed block lists datagrams: those of the tables of its NDPs, in the order of the chain.
`IsNdp` says what the bytes of one NDP are for a table, and `WellFormed` what the block is for a
list of NDPs. The handler delivers what the block lists (`handler_of_wellFormed`), and the block
that `add_mbim_hdr` makes of a packet lists that packet.
-/

namespace BananaWrt

namespace Mbim

open Bytes

/-- An NDP: its offset, its session, and the offsets and lengths of its datagrams. -/
structure Ndp where
  offset : ℕ
  session : ℕ
  table : List (ℕ × ℕ)
  deriving DecidableEq, Repr

section
variable (d : Dev) (b : Bytes)

/-- The number of a session in the signature of an NDP. -/
def Dev.sessionId (i : ℕ) : ℕ := if d.qmapMode = 1 then d.mbimMuxId else d.mbimMuxId + i + 1

/-- From entry `x` on the table of the NDP at `o` has these datagrams, IP packets that lie in the
block, and then an end. -/
def Lists (o : ℕ) : (x : ℕ) → List (ℕ × ℕ) → Prop
  | x, [] => IsEnd (dpe b o x)
  | x, e :: es => dpe b o x = e ∧ ¬ IsEnd e ∧ d.Good b e ∧ Lists o (x + 1) es

structure IsNdp (n : Ndp) : Prop where
  length : 0x10 ≤ ndpLength b n.offset
  inside : n.offset + ndpLength b n.offset ≤ b.length
  sign : le32 b n.offset % 2 ^ 24 = USB_CDC_MBIM_NDP16_IPS_SIGN
  session : u8 b (n.offset + 3) = d.sessionId n.session
  session_lt : n.session < d.qmapMode
  lists : Lists d b n.offset 0 n.table
  ended : n.table.length < nframes b n.offset

/-- From the offset on the chain has these NDPs. -/
def Chain : ℕ → List Ndp → Prop
  | o, [] => o = 0
  | o, n :: ns => o ≠ 0 ∧ o = n.offset ∧ IsNdp d b n ∧ Chain (nextNdpIndex b o) ns

/-- The block has these NDPs; they need not lie in the order of the chain. -/
def WellFormed (ns : List Ndp) : Prop := HeadOk d b ∧ Chain d b (le16 b 10) ns

/-- The packet of a datagram for a session. -/
def Dev.datagram (i : ℕ) (e : ℕ × ℕ) : Packet :=
  d.packet i ((Qmap.protocolOf (u8 b e.1)).getD 0) ((b.drop e.1).take e.2)

/-- The datagrams of a block. -/
def Dev.datagrams (ns : List Ndp) : List Packet :=
  ns.flatMap fun n => n.table.map (d.datagram b n.session)

end

variable {d : Dev} {b : Bytes}

theorem dpeLoop_of_lists {o : ℕ} (idx : ℕ) : ∀ {es : List (ℕ × ℕ)} {n x : ℕ} (k : ℕ),
    Lists d b o x es → es.length < n →
      (dpeLoop d (fun _ => true) b o idx n x k).1.pkts = es.map (d.datagram b idx)
        ∧ (dpeLoop d (fun _ => true) b o idx n x k).2 = false
  | _, 0, _, _, _, hn => absurd hn (Nat.not_lt_zero _)
  | [], n + 1, x, k, hl, _ => by
    rcases dpeLoop_cases (d := d) (fun _ => true) b o idx n x k with
      ⟨-, heq⟩ | ⟨hno, -⟩ | ⟨hno, -⟩
    · rw [heq]
      exact ⟨rfl, rfl⟩
    · exact absurd hl hno
    · exact absurd hl hno
  | e :: es, n + 1, x, k, hl, hn => by
    obtain ⟨rfl, hend, hgood, hrest⟩ := hl
    rcases dpeLoop_cases (d := d) (fun _ => true) b o idx n x k with
      ⟨hend', -⟩ | ⟨-, hbad, -⟩ | ⟨-, -, protocol, hproto, heq⟩
    · exact absurd hend' hend
    · exact absurd hgood (hbad rfl)
    · obtain ⟨hpkts, hgo⟩ := dpeLoop_of_lists idx (k + 1) hrest (Nat.lt_of_succ_lt_succ hn)
      rw [heq]
      refine ⟨?_, hgo⟩
      rw [Out.pkts_append, hpkts, List.map_cons]
      unfold Dev.datagram
      rw [hproto]
      rfl

theorem tci_of_isNdp {n : Ndp} (h : IsNdp d b n) :
    tci b n.offset = some (d.sessionId n.session) := by
  unfold tci
  rw [if_pos h.sign, h.session]

theorem supported_sessionId {i : ℕ} (hi : i < d.qmapMode) :
    ¬ d.Unsupported (d.sessionId i) ∧ d.netIdx (d.sessionId i) = i := by
  have hmux := d.muxId_lt
  have height := d.le_eight
  unfold Dev.Unsupported Dev.netIdx Dev.sessionId
  by_cases hmode : d.qmapMode = 1
  · rw [if_pos hmode, if_pos hmode]
    omega
  · rw [if_neg hmode, if_neg hmode]
    omega

theorem taken_of_isNdp {n : Ndp} (h : IsNdp d b n) : Taken d b n.offset := by
  have hlength := h.length
  have hinside := h.inside
  refine ⟨?_, hlength, ?_, _, tci_of_isNdp h, (supported_sessionId h.session_lt).1⟩
  · unfold sizeofNdp16
    omega
  · unfold nframes sizeofNdp16 sizeofDpe16
    omega

/-- An NDP delivers its table, and the loop goes on to the next one. -/
theorem ndpIter_of_isNdp {n : Ndp} (h : IsNdp d b n) (k : ℕ) :
    (ndpIter d (fun _ => true) b n.offset k).1.pkts = n.table.map (d.datagram b n.session)
      ∧ (ndpIter d (fun _ => true) b n.offset k).2 = some (nextNdpIndex b n.offset) := by
  obtain ⟨t, table, htci, -, htable, -, hpkts, -, -, hgo⟩ :=
    ndpIter_of_taken (fun _ => true) k (taken_of_isNdp h)
  cases (tci_of_isNdp h).symm.trans htci
  rw [(supported_sessionId h.session_lt).2] at htable
  obtain ⟨hlist, hfalse⟩ := dpeLoop_of_lists n.session k h.lists h.ended
  rw [hpkts, hgo, htable, hlist, hfalse]
  exact ⟨rfl, rfl⟩

theorem ndpLoop_of_chain : ∀ {ns : List Ndp} {o : ℕ} (k : ℕ), Chain d b o ns →
    ∃ fuel out, ndpLoop d (fun _ => true) b fuel o k = some out ∧ out.pkts = d.datagrams b ns
  | [], o, k, h => ⟨1, .none, by rw [show o = 0 from h]; rfl, rfl⟩
  | n :: ns, o, k, h => by
    obtain ⟨ho, rfl, hndp, hrest⟩ := h
    obtain ⟨hpkts, hgo⟩ := ndpIter_of_isNdp hndp k
    rcases heq : ndpIter d (fun _ => true) b n.offset k with ⟨out, next⟩
    rw [heq] at hpkts hgo
    obtain ⟨fuel, rest, hloop, hrestpkts⟩ := ndpLoop_of_chain (k + out.pkts.length) hrest
    refine ⟨fuel + 1, out ++ rest, ?_, ?_⟩
    · rw [ndpLoop_succ ho, heq]
      change next = _ at hgo
      rw [hgo]
      dsimp only
      rw [hloop, Option.map_some]
    · rw [Out.pkts_append, hrestpkts]
      change out.pkts = _ at hpkts
      rw [hpkts]
      rfl

/-- The handler delivers the datagrams of a well-formed block. -/
theorem handler_of_wellFormed {ns : List Ndp} (hle : d.littleEndian) (h : WellFormed d b ns) :
    ∃ fuel out, rmnetMbimRxHandler d (fun _ => true) fuel b = some out
      ∧ out.pkts = d.datagrams b ns := by
  obtain ⟨hhead, hchain⟩ := h
  have hfirst : firstNdp d b = le16 b 10 := if_pos hle
  obtain ⟨fuel, out, hloop, hpkts⟩ := ndpLoop_of_chain 0 hchain
  refine ⟨fuel, .ofReads [(0, 4), (8, 2), (6, 2), (10, 2)] ++ out, ?_, ?_⟩
  · rw [handler_of_headOk hhead, hfirst, hloop]
    rfl
  · rw [Out.pkts_append, hpkts]
    rfl

/-- The header that `add_mbim_hdr` puts before a packet of `len` bytes, on a little-endian host. -/
def mbimHdr (t seq len : ℕ) : Bytes :=
  ofLe32 USB_CDC_NCM_NTH16_SIGN ++ ofLe16 sizeofNth16 ++ ofLe16 seq
    ++ ofLe16 (len + sizeofMbimHdr) ++ ofLe16 sizeofNth16
    ++ ((ofLe32 USB_CDC_MBIM_NDP16_IPS_SIGN).take 3 ++ [UInt8.ofNat t])
    ++ ofLe16 (sizeofNdp16 + sizeofDpe16 * 2) ++ ofLe16 0
    ++ ofLe16 sizeofMbimHdr ++ ofLe16 len ++ ofLe16 0 ++ ofLe16 0

/-- The fields of the header. -/
theorem fields_mbimHdr (t seq : ℕ) {skb : Bytes} (hlen : skb.length ≤ maxMtu) :
    let b := mbimHdr t seq skb.length ++ skb
    le32 b 0 = USB_CDC_NCM_NTH16_SIGN ∧ le16 b 8 = skb.length + sizeofMbimHdr
      ∧ le16 b 10 = sizeofNth16 ∧ le32 b 12 % 2 ^ 24 = USB_CDC_MBIM_NDP16_IPS_SIGN
      ∧ u8 b 15 = t % 256 ∧ ndpLength b 12 = 16 ∧ nextNdpIndex b 12 = 0
      ∧ dpe b 12 0 = (sizeofMbimHdr, skb.length) ∧ dpe b 12 1 = (0, 0) := by
  have hlen' : skb.length ≤ 32740 := hlen
  simp only [mbimHdr, ofLe32, ofLe16, ndpLength, nextNdpIndex, dpe, sizeofMbimHdr, sizeofNth16,
    sizeofNdp16, sizeofDpe16, USB_CDC_NCM_NTH16_SIGN, USB_CDC_MBIM_NDP16_IPS_SIGN, le32, le16, u8,
    List.cons_append, List.nil_append, List.take_succ_cons, List.take_zero, List.getD_cons_zero,
    List.getD_cons_succ, UInt8.toNat_ofNat', Nat.mul_zero, Nat.mul_one, Nat.add_zero, Nat.reduceAdd,
    Nat.reduceMul, Nat.reduceDiv, Nat.reduceMod, Nat.reducePow, Prod.mk.injEq,
    true_and, and_true]
  omega

/-- Behind the header comes the packet. -/
theorem u8_mbimHdr (t seq : ℕ) (skb : Bytes) :
    u8 (mbimHdr t seq skb.length ++ skb) sizeofMbimHdr = u8 skb 0 :=
  u8_append_right (Nat.le_refl _)

theorem addMbimHdr_eq (hle : d.littleEndian) {headroom : ℕ} (hroom : sizeofMbimHdr ≤ headroom)
    (muxId seq : ℕ) (skb : Bytes) :
    addMbimHdr d muxId seq headroom skb
      = some (mbimHdr (if 1 < d.qmapMode then muxId + 1 else muxId) seq skb.length ++ skb) := by
  unfold addMbimHdr Dev.ofRaw16
  rw [if_neg (Nat.not_lt.2 hroom), if_pos hle, if_pos hle]
  rfl

/-- The block of a packet has one NDP, and its table the packet. -/
theorem wellFormed_mbimHdr (hmax : d.rxMax = dwNtbInMaxSize) {i t : ℕ} (hi : i < d.qmapMode)
    (ht : t % 256 = d.sessionId i) (seq : ℕ) {skb : Bytes} (hpos : 1 ≤ skb.length)
    (hlen : skb.length ≤ maxMtu) (hip : (Qmap.protocolOf (u8 skb 0)).isSome) :
    WellFormed d (mbimHdr t seq skb.length ++ skb) [⟨12, i, [(sizeofMbimHdr, skb.length)]⟩] := by
  obtain ⟨hsign, hblock, hfirst, hips, hsession, hndp, hnext, hdpe0, hdpe1⟩ :=
    fields_mbimHdr t seq hlen
  have hlen' : skb.length ≤ 32740 := hlen
  have hlength : (mbimHdr t seq skb.length ++ skb).length = 28 + skb.length :=
    List.length_append
  have hend : ¬ IsEnd (sizeofMbimHdr, skb.length) := by
    rintro (h | h)
    · cases h
    · change skb.length = 0 at h
      omega
  have hgood : d.Good (mbimHdr t seq skb.length ++ skb) (sizeofMbimHdr, skb.length) := by
    refine ⟨⟨?_, ?_⟩, ?_⟩
    · rw [hlength]
      exact Nat.le_refl _
    · rw [hmax]
      exact Nat.le_trans hlen' (by decide)
    · rw [u8_mbimHdr]
      exact hip
  refine ⟨⟨?_, hsign, ?_⟩, ?_⟩
  · rw [hlength]
    exact Nat.le_trans (show 20 ≤ 28 by decide) (Nat.le_add_right _ _)
  · rw [hblock, hmax]
    exact Nat.add_le_add_right hlen' 28
  · rw [hfirst]
    refine ⟨by decide, rfl, ⟨?_, ?_, hips, ?_, hi, ⟨hdpe0, hend, hgood, ?_⟩, ?_⟩, hnext⟩
    · rw [hndp]
    · rw [hndp, hlength]
      exact Nat.le_add_right 28 skb.length
    · rw [hsession, ht]
    · change IsEnd (dpe _ 12 1)
      rw [hdpe1]
      exact Or.inl rfl
    · unfold nframes
      rw [hndp]
      exact Nat.lt_succ_self 1

/-- On a little-endian host a packet that a session sends is delivered to the session of the same
number, and a well-formed block delivers its datagrams. -/
theorem mbim_delivers :
    (∀ (vendor devId qmapMode : ℕ) (nets : ℕ → Qmap.NetDev) (one_le : 1 ≤ qmapMode)
      (le_eight : qmapMode ≤ 8) (i seq headroom : ℕ) (skb : Bytes), i < qmapMode →
      sizeofMbimHdr ≤ headroom → 1 ≤ skb.length → skb.length ≤ maxMtu →
      ∀ protocol ∈ Qmap.protocolOf (u8 skb 0),
        let d := mhiNetdevProbe vendor devId qmapMode true nets one_le le_eight
        ∃ blk ∈ addMbimHdr d (d.muxId i) seq headroom skb, ∃ fuel out,
          rmnetMbimRxHandler d (fun _ => true) fuel blk = some out
            ∧ out.pkts = [d.packet i protocol skb])
      ∧ ∀ (d : Dev) (b : Bytes) (ns : List Ndp), d.littleEndian → WellFormed d b ns →
        ∃ fuel out, rmnetMbimRxHandler d (fun _ => true) fuel b = some out
          ∧ out.pkts = d.datagrams b ns := by
  refine ⟨?_, fun d b ns hle hwf => handler_of_wellFormed hle hwf⟩
  intro vendor devId qmapMode nets one_le le_eight i seq headroom skb hi hroom hpos hlen protocol
    hip d
  have hmux : d.mbimMuxId ≤ 112 := by
    change (if _ then MBIM_MUX_ID_SDX7X else 0) ≤ 112
    split_ifs
    · exact Nat.le_refl 112
    · exact Nat.zero_le 112
  have hi' : i < d.qmapMode := hi
  have height := d.le_eight
  have ht : (if 1 < d.qmapMode then d.muxId i + 1 else d.muxId i) % 256 = d.sessionId i := by
    unfold Dev.muxId Dev.sessionId
    split_ifs <;> omega
  have hproto : Qmap.protocolOf (u8 skb 0) = some protocol := hip
  have hwf : WellFormed d _ _ :=
    wellFormed_mbimHdr rfl hi' ht seq hpos hlen (by rw [hproto]; rfl)
  obtain ⟨fuel, out, hout, hpkts⟩ := handler_of_wellFormed rfl hwf
  refine ⟨_, addMbimHdr_eq rfl hroom (d.muxId i) seq skb, fuel, out, hout, ?_⟩
  rw [hpkts]
  change [d.datagram _ i (sizeofMbimHdr, skb.length)] = _
  have hdrop : (mbimHdr (if 1 < d.qmapMode then d.muxId i + 1 else d.muxId i) seq skb.length
      ++ skb).drop sizeofMbimHdr = skb := List.drop_left' rfl
  unfold Dev.datagram
  dsimp only
  rw [u8_mbimHdr, hproto, hdrop, List.take_length]
  rfl

/-- A packet of session 1, and a block with it and one of session 0. -/
theorem mbim_delivers_two :
    let d := mhiNetdevProbe 0 0 2 true (fun _ => ⟨1500, none⟩) (Nat.le_add_left 1 1)
      (Nat.le_add_left 2 6)
    (∃ blk ∈ addMbimHdr d 1 0 64 [0x45], ∃ fuel out,
        rmnetMbimRxHandler d (fun _ => true) fuel blk = some out
          ∧ out.pkts = [d.packet 1 Qmap.ETH_P_IP [0x45]])
      ∧ ∃ fuel out, rmnetMbimRxHandler d (fun _ => true) fuel
          (blockOf 2 28 [44, 0, 1, 0, 0, 0, 0, 0, 0x49, 0x50, 0x53, 1, 16, 0, 0, 0, 45, 0, 1, 0, 0, 0,
            0, 0, 0x45, 0x60]) = some out
          ∧ out.pkts = [d.packet 1 Qmap.ETH_P_IP [0x45], d.packet 0 Qmap.ETH_P_IPV6 [0x60]] := by
  refine ⟨mbim_delivers.1 0 0 2 _ _ _ 1 0 64 [0x45] (by decide) (by decide) (by decide) (by decide)
    _ rfl, ?_⟩
  refine mbim_delivers.2 _ _ [⟨12, 1, [(44, 1)]⟩, ⟨28, 0, [(45, 1)]⟩] rfl ⟨by decide, ?_⟩
  refine ⟨by decide, rfl, ⟨by decide, by decide, by decide, by decide, by decide, ?_, by decide⟩,
    ?_⟩
  · exact ⟨by decide, by decide, by decide, Or.inl rfl⟩
  refine ⟨by decide, rfl, ⟨by decide, by decide, by decide, by decide, by decide, ?_, by decide⟩,
    ?_⟩
  · exact ⟨by decide, by decide, by decide, Or.inl rfl⟩
  · rfl

end Mbim

end BananaWrt
