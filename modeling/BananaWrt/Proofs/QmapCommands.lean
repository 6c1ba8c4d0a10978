import BananaWrt.Lib.Stretches
import BananaWrt.QmapFibocom
import BananaWrt.Proofs.QmapAggregate

/-!
# Command packets among data packets

`qmap_packet_decode` looks at the mux id and at the MTU before it looks at `cd_bit`, so a command
packet may end the loop where it should be skipped. What comes after it is then lost: the data
packets are all delivered exactly if each command packet with a data packet behind it passes those
two tests (`commands_iff`). The Fibocom driver makes one such test, against 1500.
-/

namespace BananaWrt

namespace Qmap

open Bytes

/-- The bytes of the body before the padding, and before `padding` more. -/
def Framed.payloadLen (q : Framed) (padding : ℕ) : ℕ := q.body.length - (q.pad + padding)

def Framed.payload (q : Framed) (padding : ℕ) : Bytes := q.body.take (q.payloadLen padding)

/-- The body of a data packet begins with an IP packet. -/
structure Framed.Ip (q : Framed) (padding : ℕ) : Prop where
  command : q.command = false
  nonempty : q.pad + padding < q.body.length
  protocol : (protocolOf (u8 q.body 0)).isSome

def Framed.protocol (q : Framed) : ℕ := (protocolOf (u8 q.body 0)).getD 0

/-- There is something to parse, and its first byte is that of the body. -/
theorem Framed.Ip.spec {q : Framed} {padding : ℕ} {rest skb : Bytes} (hip : q.Ip padding)
    (h : q.At rest skb) :
    sizeofMapHeader < skb.length ∧ ¬ CdBit skb
      ∧ protocolOf (u8 skb (Qmap.hdrSize skb)) = some q.protocol
      ∧ (skb.drop (Qmap.hdrSize skb)).take (q.payloadLen padding) = q.payload padding := by
  have hpos := hip.nonempty
  have hlen := h.length
  have hfour := q.four_le
  have hle : q.payloadLen padding ≤ q.body.length := Nat.sub_le _ _
  refine ⟨by simp only [sizeofMapHeader]; omega, ?_, ?_, ?_⟩
  · rw [h.cdBit, hip.command]
    exact Bool.false_ne_true
  · obtain ⟨protocol, hprotocol⟩ := Option.isSome_iff_exists.1 hip.protocol
    unfold Framed.protocol
    rw [h.hdrSize, h.u8_body, u8_append_left (by omega), hprotocol]
    rfl
  · rw [h.hdrSize, h.body, List.take_append_of_le_length hle]
    rfl

/-- A data packet for an interface that is there, within its MTU. -/
structure Framed.Data (d : Dev) (q : Framed) : Prop where
  ip : q.Ip d.padding
  mux : q.muxId < d.qmapMode
  net : ∃ net ∈ d.mpQmapNetDev q.muxId, q.payloadLen d.padding ≤ net.mtu

/-- What is to be queued for a data packet. -/
def Framed.received (d : Dev) (q : Framed) : Packet where
  mux := q.muxId
  protocol := q.protocol
  offset := q.hdrSize
  length := q.payloadLen d.padding
  data := ((d.mpQmapNetDev q.muxId).map (ethHeader · q.protocol)).getD [] ++ q.payload d.padding

/-- `skb_len` as an unsigned number. -/
def Framed.skbLen (d : Dev) (q : Framed) : ℕ :=
  (q.body.length + 2 ^ 33 - q.pad - d.padding % 2 ^ 32) % 2 ^ 32

/-- The mux id is one of the driver's and, if there is an interface for it, its MTU is not
exceeded. -/
def Framed.Passes (d : Dev) (q : Framed) : Prop :=
  q.muxId < d.qmapMode ∧ ∀ net ∈ d.mpQmapNetDev q.muxId, q.skbLen d ≤ net.mtu

/-- Exactly the data packets are queued, in their order and for their interfaces. -/
def DeliversData (d : Dev) (qs : List Framed) : Prop :=
  ∃ fuel, qmapPacketDecode d fuel (aggregate qs)
    = some ((qs.filter fun q => !q.command).map (·.received d))

/-- Every command packet that a data packet comes after has `P`. -/
def CommandsBeforeData (P : Framed → Prop) (qs : List Framed) : Prop :=
  ∀ xs q ys, qs = xs ++ q :: ys → q.command = true → (∃ y ∈ ys, y.command = false) → P q

theorem commandsBeforeData_nil (P : Framed → Prop) : CommandsBeforeData P [] := by
  intro xs q ys h
  simp at h

theorem commandsBeforeData_cons (P : Framed → Prop) (q : Framed) (qs : List Framed) :
    CommandsBeforeData P (q :: qs)
      ↔ (q.command = true → (∃ y ∈ qs, y.command = false) → P q) ∧ CommandsBeforeData P qs :=
  List.forall_place_cons

/-- Without data there is nothing to lose. -/
theorem commandsBeforeData_of_commands {P : Framed → Prop} {qs : List Framed}
    (h : ∀ q ∈ qs, q.command = true) : CommandsBeforeData P qs := by
  rintro xs q ys rfl - ⟨y, hy, hdata⟩
  have := h y (List.mem_append_right xs (List.mem_cons_of_mem q hy))
  rw [hdata] at this
  exact absurd this Bool.false_ne_true

theorem filter_data_eq_nil {qs : List Framed} :
    qs.filter (fun q => !q.command) = [] ↔ ¬ ∃ q ∈ qs, q.command = false := by
  simp [List.filter_eq_nil_iff]

section Loop

variable {β : Type} {loop : ℕ → Bytes → Option (List β)} {P D : Framed → Prop}
  {received : Framed → β}

/-- A receive loop queues data packets, skips command packets with `P`, and stops at others. -/
structure Loops (loop : ℕ → Bytes → Option (List β)) (P D : Framed → Prop)
    (received : Framed → β) : Prop where
  fuel : ∀ skb, loop 0 skb = none
  ends : ∀ fuel skb, skb.length ≤ sizeofMapHeader → loop (fuel + 1) skb = some []
  data : ∀ q rest fuel, D q →
    loop (fuel + 1) (q.bytes ++ rest) = (loop fuel rest).map (received q :: ·)
  skips : ∀ q rest fuel, sizeofMapHeader < (q.bytes ++ rest).length → q.command = true → P q →
    loop (fuel + 1) (q.bytes ++ rest) = loop fuel rest
  stops : ∀ q rest fuel, sizeofMapHeader < (q.bytes ++ rest).length → q.command = true → ¬ P q →
    loop (fuel + 1) (q.bytes ++ rest) = some []

/-- From an equation for one iteration, what the loop comes to. -/
theorem exists_fuel_iff {skb rest : Bytes} {out out' : List β} (h0 : loop 0 skb = none)
    (hstep : ∀ fuel, loop (fuel + 1) skb = some out' ↔ loop fuel rest = some out) :
    (∃ fuel, loop fuel skb = some out') ↔ ∃ fuel, loop fuel rest = some out := by
  constructor
  · rintro ⟨fuel, hfuel⟩
    cases fuel with
    | zero => cases h0.symm.trans hfuel
    | succ fuel => exact ⟨fuel, (hstep fuel).1 hfuel⟩
  · rintro ⟨fuel, hfuel⟩
    exact ⟨fuel + 1, (hstep fuel).2 hfuel⟩

/-- Nothing comes after a packet that is not more than a header. -/
theorem eq_nil_of_length_le {q : Framed} {qs : List Framed}
    (h : (q.bytes ++ aggregate qs).length ≤ sizeofMapHeader) : qs = [] := by
  rcases qs with _ | ⟨r, rs⟩
  · rfl
  · have h1 := length_bytes q
    have h2 := length_bytes r
    rw [aggregate_cons, List.length_append, List.length_append] at h
    simp only [sizeofMapHeader] at h
    omega

theorem loops_iff (h : Loops loop P D received) (hD : ∀ q, D q → q.command = false) :
    ∀ qs : List Framed, (∀ q ∈ qs, q.command = true ∨ D q) →
      ((∃ fuel, loop fuel (aggregate qs)
          = some ((qs.filter fun q => !q.command).map received))
        ↔ CommandsBeforeData P qs)
  | [], _ => iff_of_true ⟨1, h.ends 0 [] (Nat.zero_le _)⟩ (commandsBeforeData_nil P)
  | q :: qs, hqs => by
    have ih := loops_iff h hD qs fun r hr => hqs r (List.mem_cons_of_mem q hr)
    rw [commandsBeforeData_cons, aggregate_cons]
    rcases hqs q List.mem_cons_self with hq | hd
    · rw [List.filter_cons_of_neg (by simp [hq])]
      by_cases hlen : (q.bytes ++ aggregate qs).length ≤ sizeofMapHeader
      · obtain rfl := eq_nil_of_length_le hlen
        refine iff_of_true ⟨1, h.ends 0 _ hlen⟩ ⟨fun _ ⟨_, hy, _⟩ => ?_, commandsBeforeData_nil P⟩
        exact absurd hy List.not_mem_nil
      · have hlen := Nat.not_le.1 hlen
        by_cases hp : P q
        · rw [and_iff_right fun _ _ => hp, ← ih]
          refine exists_fuel_iff (h.fuel _) fun fuel => ?_
          rw [h.skips q _ fuel hlen hq hp]
        · constructor
          · rintro ⟨fuel, hfuel⟩
            cases fuel with
            | zero => cases (h.fuel _).symm.trans hfuel
            | succ fuel =>
              rw [h.stops q _ fuel hlen hq hp] at hfuel
              have hnil := filter_data_eq_nil.1 (List.map_eq_nil_iff.1 (Option.some.inj hfuel).symm)
              refine ⟨fun _ hdata => absurd hdata hnil, commandsBeforeData_of_commands ?_⟩
              intro r hr
              by_contra hdata
              exact hnil ⟨r, hr, Bool.not_eq_true _ ▸ hdata⟩
          · rintro ⟨hpass, -⟩
            have hnil := filter_data_eq_nil.2 fun hdata => hp (hpass hq hdata)
            exact ⟨1, by rw [h.stops q _ 0 hlen hq hp, hnil]; rfl⟩
    · have hq := hD q hd
      rw [List.filter_cons_of_pos (by simp [hq]), and_iff_right fun hc => by simp [hq] at hc, ← ih]
      refine exists_fuel_iff (h.fuel _) fun fuel => ?_
      rw [h.data q _ fuel hd, List.map_cons]
      simp

end Loop

section Quectel

variable {d : Dev} {q : Framed} {rest skb : Bytes}

theorem skbLen_of_at (h : q.At rest skb) : skbLen d skb = q.skbLen d := by
  unfold skbLen Framed.skbLen
  rw [h.pktLen, h.padLen]

theorem iteration_data (h : q.At rest skb) (hd : q.Data d) (halloc : ∀ n, d.alloc n = true) :
    (iteration d skb).pull = some (pktLen skb + hdrSize skb)
      ∧ (iteration d skb).queued = some (q.received d) := by
  obtain ⟨net, hnet, hmtu⟩ := hd.net
  obtain ⟨-, hcd, hprotocol, hpayload⟩ := hd.ip.spec h
  have hpos := hd.ip.nonempty
  have hsmall := q.small
  have hskb : skbLen d skb = q.payloadLen d.padding := by
    rw [skbLen_of_at h]
    unfold Framed.skbLen Framed.payloadLen
    omega
  have hint : toInt32 (skbLen d skb) = q.payloadLen d.padding := by
    unfold toInt32
    rw [hskb, if_pos (by unfold Framed.payloadLen; omega)]
  have hverdict : verdict d skb = .parse net := by
    unfold verdict
    rw [h.muxId, if_neg (Nat.not_le.2 hd.mux), Option.mem_def.1 hnet]
    dsimp only
    rw [hskb, if_neg (Nat.not_lt.2 hmtu), if_neg (Nat.not_lt.2 h.fits), if_neg hcd]
  have hpacket : packet d net skb q.protocol = q.received d := by
    unfold packet Framed.received
    rw [h.muxId, hint, Option.mem_def.1 hnet, Int.toNat_natCast, hpayload, h.hdrSize]
    rfl
  unfold iteration
  rw [hverdict]
  dsimp only
  rw [hprotocol]
  dsimp only
  rw [if_pos (halloc _), hpacket]
  exact ⟨rfl, rfl⟩

theorem iteration_passes (h : q.At rest skb) (hq : q.command = true) (hp : q.Passes d) :
    (iteration d skb).pull = some (pktLen skb + hdrSize skb)
      ∧ (iteration d skb).queued = none := by
  have hverdict : verdict d skb = .skip := by
    unfold verdict
    rw [h.muxId, if_neg (Nat.not_le.2 hp.1)]
    rcases hnet : d.mpQmapNetDev q.muxId with _ | net
    · rfl
    · have hmtu := hp.2 net hnet
      dsimp only
      rw [skbLen_of_at h, if_neg (Nat.not_lt.2 hmtu), if_neg (Nat.not_lt.2 h.fits),
        if_pos (h.cdBit.2 hq)]
  unfold iteration
  rw [hverdict]
  exact ⟨rfl, rfl⟩

theorem iteration_not_passes (h : q.At rest skb) (hp : ¬ q.Passes d) :
    (iteration d skb).pull = none ∧ (iteration d skb).queued = none := by
  have hverdict : verdict d skb = .error := by
    unfold verdict
    rw [h.muxId]
    by_cases hmux : d.qmapMode ≤ q.muxId
    · rw [if_pos hmux]
    · rw [if_neg hmux]
      have hlong : ∃ net ∈ d.mpQmapNetDev q.muxId, net.mtu < q.skbLen d := by
        by_contra hno
        refine hp ⟨Nat.not_le.1 hmux, fun net hnet => ?_⟩
        by_contra hlt
        exact hno ⟨net, hnet, Nat.not_le.1 hlt⟩
      obtain ⟨net, hnet, hlt⟩ := hlong
      rw [Option.mem_def.1 hnet]
      dsimp only
      rw [skbLen_of_at h, if_pos hlt]
  unfold iteration
  rw [hverdict]
  exact ⟨rfl, rfl⟩

/-- The loop goes on to the next packet. -/
theorem decode_next (h : q.At rest skb) (hlen : sizeofMapHeader < skb.length)
    (hpull : (iteration d skb).pull = some (pktLen skb + hdrSize skb)) (fuel : ℕ) :
    qmapPacketDecode d (fuel + 1) skb
      = (qmapPacketDecode d fuel rest).map ((iteration d skb).queued.toList ++ ·) := by
  rw [qmapPacketDecode, if_neg (Nat.not_le.2 hlen), hpull]
  dsimp only
  rw [h.skbPull]

theorem loops_qmapPacketDecode (halloc : ∀ n, d.alloc n = true) :
    Loops (qmapPacketDecode d) (·.Passes d) (·.Data d) (·.received d) where
  fuel _ := rfl
  ends _ _ hlen := if_pos hlen
  data q rest fuel hd := by
    have h := q.at_bytes rest
    obtain ⟨hpull, hqueued⟩ := iteration_data h hd halloc
    rw [decode_next h (hd.ip.spec h).1 hpull, hqueued]
    rfl
  skips q rest fuel hlen hq hp := by
    have h := q.at_bytes rest
    obtain ⟨hpull, hqueued⟩ := iteration_passes h hq hp
    rw [decode_next h hlen hpull, hqueued]
    exact Option.map_id'
  stops q rest fuel hlen hq hp := by
    obtain ⟨hpull, hqueued⟩ := iteration_not_passes (q.at_bytes rest) hp
    rw [qmapPacketDecode, if_neg (Nat.not_le.2 hlen), hpull, hqueued]
    rfl

end Quectel

namespace Fibocom

/-- A data packet for an interface that is there, of at most 1500 bytes. -/
structure Framed.Data (d : Dev) (q : Framed) : Prop where
  ip : q.Ip d.padding
  mux : q.muxId < d.qmapMode
  net : ∃ net, d.mpQmapNetDev q.muxId = some net
  short : q.payloadLen d.padding ≤ 1500

def Framed.received (d : Dev) (q : Framed) : Delivered where
  mux := q.muxId
  protocol := q.protocol
  data := q.payload d.padding

/-- `skb_len`. -/
def Framed.skbLen (d : Dev) (q : Framed) : ℤ :=
  ((q.body.length : ℤ) - q.pad - d.padding).bmod (2 ^ 32)

/-- Exactly the data packets are handed on, in their order and for their interfaces. -/
def DeliversData (d : Dev) (qs : List Framed) : Prop :=
  ∃ fuel, rmnetUsbRxHandler d fuel (aggregate qs)
    = some ((qs.filter fun q => !q.command).map (Framed.received d))

section Handler

variable {d : Dev} {q : Framed} {rest skb : Bytes}

theorem muxId_of_at (h : q.At rest skb) : muxId skb = q.muxId := h.muxId

theorem skbLen_of_at (h : q.At rest skb) : skbLen d skb = Framed.skbLen d q := by
  unfold skbLen Framed.skbLen
  rw [h.pktLen, h.padLen]

theorem skbLen_data (hip : q.Ip d.padding) : Framed.skbLen d q = q.payloadLen d.padding := by
  have hpos := hip.nonempty
  have hsmall := q.small
  unfold Framed.skbLen Framed.payloadLen
  rw [Int.bmod_eq_of_le (by omega) (by omega)]
  omega

theorem iteration_data (h : q.At rest skb) (hd : Framed.Data d q)
    (halloc : ∀ n, d.alloc n = true) :
    iteration d skb = (some (Framed.received d q), some (pktLen skb + hdrSize skb)) := by
  obtain ⟨net, hnet⟩ := hd.net
  have hshort := hd.short
  obtain ⟨-, hcd, hprotocol, hpayload⟩ := hd.ip.spec h
  have hskb : skbLen d skb = q.payloadLen d.padding :=
    (skbLen_of_at h).trans (skbLen_data hd.ip)
  have hverdict : verdict d skb (hdrSize skb) (q.payloadLen d.padding) = .parse net q.protocol := by
    unfold verdict
    rw [if_neg (by omega), if_neg (Nat.not_lt.2 h.fits), if_neg hcd, hprotocol]
    dsimp only
    rw [muxId_of_at h, if_neg (Nat.not_le.2 hd.mux), hnet]
  unfold iteration
  rw [hskb, hverdict]
  dsimp only
  rw [if_pos (halloc _), muxId_of_at h, Int.toNat_natCast, hpayload]
  rfl

theorem iteration_command (h : q.At rest skb) (hq : q.command = true) :
    iteration d skb
      = (none, if Framed.skbLen d q ≤ 1500 then some (pktLen skb + hdrSize skb) else none) := by
  unfold iteration verdict
  rw [skbLen_of_at h, if_neg (Nat.not_lt.2 h.fits), if_pos (h.cdBit.2 hq)]
  by_cases hshort : Framed.skbLen d q ≤ 1500
  · rw [if_neg (Int.not_lt.2 hshort), if_pos hshort]
  · rw [if_pos (Int.not_le.1 hshort), if_neg hshort]

theorem loops_rmnetUsbRxHandler (halloc : ∀ n, d.alloc n = true) :
    Loops (rmnetUsbRxHandler d) (fun q => Framed.skbLen d q ≤ 1500) (Framed.Data d)
      (Framed.received d) where
  fuel _ := rfl
  ends _ _ hlen := if_pos hlen
  data q rest fuel hd := by
    have h := q.at_bytes rest
    rw [rmnetUsbRxHandler, if_neg (Nat.not_le.2 (hd.ip.spec h).1), iteration_data h hd halloc]
    dsimp only
    rw [h.skbPull]
    rfl
  skips q rest fuel hlen hq hp := by
    have h := q.at_bytes rest
    rw [rmnetUsbRxHandler, if_neg (Nat.not_le.2 hlen), iteration_command h hq, if_pos hp]
    dsimp only
    rw [h.skbPull]
    exact Option.map_id'
  stops q rest fuel hlen hq hp := by
    rw [rmnetUsbRxHandler, if_neg (Nat.not_le.2 hlen), iteration_command (q.at_bytes rest) hq,
      if_neg hp]
    rfl

end Handler

end Fibocom

/-- The Quectel driver delivers exactly the data packets if and only if each command packet with a
data packet behind it has one of the mux ids and, if there is an interface for it, is within its
MTU; the Fibocom driver if and only if each such command packet is within 1500 bytes. -/
theorem commands_iff (d : Dev) (halloc : ∀ n, d.alloc n = true) (qs : List Framed)
    (hqs : ∀ q ∈ qs, q.command = true ∨ q.Data d) (f : Fibocom.Dev)
    (hfalloc : ∀ n, f.alloc n = true) (rs : List Framed)
    (hrs : ∀ r ∈ rs, r.command = true ∨ Fibocom.Framed.Data f r) :
    (DeliversData d qs ↔ CommandsBeforeData (·.Passes d) qs)
    ∧ (Fibocom.DeliversData f rs
      ↔ CommandsBeforeData (fun r => Fibocom.Framed.skbLen f r ≤ 1500) rs) :=
  ⟨loops_iff (loops_qmapPacketDecode halloc) (fun _ hd => hd.ip.command) qs hqs,
    loops_iff (Fibocom.loops_rmnetUsbRxHandler hfalloc) (fun _ hd => hd.ip.command) rs hrs⟩

/-- A command packet, and an IPv4 packet of one byte. -/
def commandOf (mux : UInt8) : Framed := ⟨true, none, 0, mux, [7], by decide, by decide⟩

def ipPacket : Framed := ⟨false, none, 0, 0x81, [0x45], by decide, by decide⟩

/-- One interface. -/
def oneNet : Dev := ⟨1, 5, 0, fun n => if n = 0 then some ⟨1500, none⟩ else none, fun _ => true⟩

def Fibocom.anyNet : Fibocom.NetDev := ⟨true, ⟨[2, 0, 0, 0, 0, 1], rfl⟩⟩

def Fibocom.oneNet : Fibocom.Dev :=
  ⟨1, 5, 0, fun n => if n = 0 then some anyNet else none, fun _ => true⟩

theorem data_ipPacket : ipPacket.Data oneNet :=
  ⟨⟨rfl, by decide, by decide⟩, by decide, ⟨1500, none⟩, by decide, by decide⟩

theorem commands_oneNet : DeliversData oneNet [commandOf 0x81, ipPacket]
    ∧ Fibocom.DeliversData Fibocom.oneNet [commandOf 0x91, ipPacket] := by
  have hsplit : ∀ {P : Framed → Prop} {q : Framed}, P q → CommandsBeforeData P [q, ipPacket] :=
    fun {P q} hq => (commandsBeforeData_cons P q _).2 ⟨fun _ _ => hq,
      (commandsBeforeData_cons P ipPacket _).2 ⟨fun h => absurd h Bool.false_ne_true,
        commandsBeforeData_nil P⟩⟩
  have hiff := commands_iff oneNet (fun _ => rfl) [commandOf 0x81, ipPacket] ?_
    Fibocom.oneNet (fun _ => rfl) [commandOf 0x91, ipPacket] ?_
  · refine ⟨hiff.1.2 (hsplit ⟨by decide, fun net hnet => ?_⟩), hiff.2.2 (hsplit (by decide))⟩
    have hmux : (commandOf 0x81).muxId = 0 := by decide
    rw [hmux] at hnet
    cases hnet
    decide
  · intro q hq
    simp only [List.mem_cons, List.not_mem_nil, or_false] at hq
    rcases hq with rfl | rfl
    · exact .inl rfl
    · exact .inr data_ipPacket
  · intro q hq
    simp only [List.mem_cons, List.not_mem_nil, or_false] at hq
    rcases hq with rfl | rfl
    · exact .inl rfl
    · exact .inr ⟨⟨rfl, by decide, by decide⟩, by decide, ⟨Fibocom.anyNet, by decide⟩, by decide⟩

/-- A command packet for an unknown mux id: the IP packet behind it is lost. -/
theorem ipPacket_lost :
    ipPacket.Data oneNet ∧ ¬ DeliversData oneNet [commandOf 0x91, ipPacket] := by
  refine ⟨data_ipPacket, ?_⟩
  rintro ⟨fuel, hfuel⟩
  have hlost : ∀ fuel, qmapPacketDecode oneNet (fuel + 1) (aggregate [commandOf 0x91, ipPacket])
      = some [] := fun _ => rfl
  cases fuel with
  | zero => cases hfuel
  | succ fuel =>
    rw [hlost] at hfuel
    exact absurd hfuel (by decide)

end Qmap

end BananaWrt
