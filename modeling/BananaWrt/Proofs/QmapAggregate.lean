import BananaWrt.QmapAggregate
import BananaWrt.Proofs.QmapDecode

/-!
# What a receive loop finds at the front of an aggregate

The header of a framed packet is read back, and what is pulled is the packet: `At` says what a loop
finds where a packet begins.
-/

namespace BananaWrt

namespace Qmap

open Bytes

namespace Framed

variable {q : Framed} {rest skb : Bytes}

theorem at_bytes (q : Framed) (rest : Bytes) : q.At rest (q.bytes ++ rest) := by
  have hpad := q.pad_lt
  have hsmall := q.small
  have hext : ∀ e ∈ q.extension, e.1.length = 4 := fun e _ => e.2
  have h0 : u8 (q.bytes ++ rest) 0 = q.flags := by
    change (UInt8.ofNat q.flags).toNat = _
    rw [UInt8.toNat_ofNat']
    unfold flags
    split_ifs <;> omega
  have hhdr : Qmap.hdrSize (q.bytes ++ rest) = q.hdrSize := by
    have hcases := hdrSize_cases (q.bytes ++ rest)
    unfold NextHdr at hcases
    rw [h0] at hcases
    unfold flags at hcases
    unfold hdrSize
    split_ifs at hcases ⊢ <;> omega
  refine ⟨?_, hhdr, ?_, ?_, rfl, ?_, ?_⟩
  · unfold Qmap.padLen
    rw [h0]
    unfold flags
    split_ifs <;> omega
  · unfold CdBit
    rw [h0]
    unfold flags
    rcases q.command <;> rcases q.extension.isSome <;> simp <;> omega
  · exact be16_ofBe16 hsmall ((q.extension.map Subtype.val).getD [] ++ q.body ++ rest)
  · unfold hdrSize bytes
    rcases he : q.extension with _ | e
    · simp [ofBe16]
    · have := hext e he
      simp [ofBe16, this]
  · unfold hdrSize bytes
    rcases he : q.extension with _ | e
    · simp [ofBe16]
      omega
    · have := hext e he
      simp [ofBe16, this]
      omega

theorem four_le (q : Framed) : 4 ≤ q.hdrSize := by
  unfold hdrSize
  split_ifs <;> omega

theorem At.muxId (h : q.At rest skb) : Qmap.muxId skb = q.muxId := by
  unfold Qmap.muxId Framed.muxId
  rw [h.mux]

theorem At.drop (h : q.At rest skb) : skb.drop (Qmap.pktLen skb + Qmap.hdrSize skb) = rest := by
  rw [h.pktLen, h.hdrSize, Nat.add_comm, ← List.drop_drop, h.body, List.drop_left]

theorem At.fits (h : q.At rest skb) : Qmap.pktLen skb + Qmap.hdrSize skb ≤ skb.length := by
  rw [h.pktLen, h.hdrSize, h.length]
  omega

theorem At.skbPull (h : q.At rest skb) :
    Qmap.skbPull skb (Qmap.pktLen skb + Qmap.hdrSize skb) = rest := by
  rw [Qmap.skbPull, if_pos h.fits, h.drop]

/-- The first byte after the header. -/
theorem At.u8_body (h : q.At rest skb) : u8 skb q.hdrSize = u8 (q.body ++ rest) 0 := by
  rw [← Nat.add_zero q.hdrSize, ← u8_drop, h.body]

end Framed

theorem aggregate_cons (q : Framed) (qs : List Framed) :
    aggregate (q :: qs) = q.bytes ++ aggregate qs := List.flatMap_cons

theorem length_bytes (q : Framed) : 4 ≤ q.bytes.length := by
  have h := (q.at_bytes []).length
  have := q.four_le
  rw [List.append_nil] at h
  omega

end Qmap

end BananaWrt
