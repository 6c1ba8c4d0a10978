import BananaWrt.CmRead

/-!
# Messages of the proxies, and the bounds of the buffer

Neither reader goes on with a message that it has read in part, so all messages get through exactly
if each of them is there in full when it is read. A length below that of the header makes the number
of bytes to read wrap, and the copy of an answer goes by the length that it gives.
-/

namespace BananaWrt

namespace CmRead

open Bytes Qmi MbimProxy TwoStep

theorem accepts_qmiWwanThread : qmiProxyRead.Accepts qmiWwanThread where
  sound := fun b n x h => by
    unfold qmiWwanThread at h
    split_ifs at h with hpos hlength
    cases h
    rw [not_not.1 hlength]
    rfl
  whole := fun m b hm => by
    obtain ⟨hheader, hlength⟩ := hm
    have htotal : m.length = hdrLength (m ++ b) + 1 := by
      rw [hdrLength_append b hheader]
      exact hlength
    have hpos : 0 < m.length := Nat.lt_of_lt_of_le (by decide) hheader
    unfold qmiWwanThread
    rw [if_neg (by omega), if_neg (by omega), ← htotal, List.take_left]

theorem accepts_mbimReadThread : mbimProxyRead.Accepts mbimReadThread where
  sound := fun b n x h => by
    unfold mbimReadThread at h
    split_ifs at h
    cases h
    rfl
  whole := fun m b hm => by
    have hpos : 0 < m.length := Nat.lt_of_lt_of_le (by decide) hm.1
    unfold mbimReadThread
    rw [if_neg (by omega), Int.toNat_natCast, List.take_left]

theorem copiesWithin_iff {s : State} {c : MbimCall} (hlong : mbimProxyRead.LongEnough s c.arrival) :
    CopiesWithin s c ↔ AnswerArrived s c := by
  have htotal : messageLength (mbimProxyRead.read s c.arrival).buf
      = mbimProxyRead.stated s c.arrival :=
    total_buf (R := mbimProxyRead) s c.arrival
  refine forall_congr' fun _ => ?_
  rw [htotal]
  split_ifs with hread
  · have hle := hlong hread
    have hlength := length_received_of_headerRead hread
    rw [asked_of_le hread hle] at hlength
    change sizeofHeader ≤ _ at hle
    change _ = sizeofHeader + min (min (_ - sizeofHeader) _) (_ - sizeofHeader) at hlength
    omega
  · have hreceived : mbimProxyRead.received s c.arrival = mbimProxyRead.head s c.arrival := by
      rw [received, tail, if_neg hread, List.append_nil]
    rw [hreceived]

/-- The messages that the proxies write are handed on exactly if each is there in full when it is
read; no read asks for more than the buffer has left exactly if no header that is followed by a
second read gives a length below its own; and, with that, no copy takes more than was received
exactly if each answer that is copied has arrived. -/
theorem proxyRead_iff (ms : List Bytes) (as : List Arrival) (buf : Bytes) (s : State)
    (cs : List MbimCall) :
    ((∀ m ∈ ms, qmiProxyRead.WellFormed m) → qmiProxyRead.Drains ⟨buf, ms.flatten⟩ as →
      (qmiProxyRead.handed qmiWwanThread ⟨buf, ms.flatten⟩ as = ms
        ↔ List.Forall₂ qmiProxyRead.Whole as ms))
    ∧ ((∀ m ∈ ms, mbimProxyRead.WellFormed m) → mbimProxyRead.Drains ⟨buf, ms.flatten⟩ as →
      (mbimProxyRead.handed mbimReadThread ⟨buf, ms.flatten⟩ as = ms
        ↔ List.Forall₂ mbimProxyRead.Whole as ms))
    ∧ (Runs.Meets qmiProxyRead.step qmiProxyRead.AsksWithin s as
      ↔ Runs.Meets qmiProxyRead.step qmiProxyRead.LongEnough s as)
    ∧ (Runs.Meets mbimStep
        (fun s c => mbimProxyRead.AsksWithin s c.arrival ∧ CopiesWithin s c) s cs
      ↔ Runs.Meets mbimStep
        (fun s c => mbimProxyRead.LongEnough s c.arrival ∧ AnswerArrived s c) s cs) := by
  refine ⟨fun hms hdrains => handed_all_iff accepts_qmiWwanThread hms hdrains,
    fun hms hdrains => handed_all_iff accepts_mbimReadThread hms hdrains, ?_, ?_⟩
  · have hiff : qmiProxyRead.AsksWithin = qmiProxyRead.LongEnough :=
      funext₂ fun s a => propext (asksWithin_iff s a)
    rw [hiff]
  · have hiff : (fun s (c : MbimCall) => mbimProxyRead.AsksWithin s c.arrival ∧ CopiesWithin s c)
        = fun s c => mbimProxyRead.LongEnough s c.arrival ∧ AnswerArrived s c := by
      refine funext₂ fun s c => propext ?_
      rw [asksWithin_iff]
      exact and_congr_right copiesWithin_iff
    rw [hiff]

/-- A QMI message of seven bytes. -/
def qmiMessage : Bytes := [1, 6, 0, 0, 0, 0, 9]

/-- An MBIM message of thirteen bytes with the transaction id 5. -/
def mbimMessage : Bytes := [1, 0, 0, 0, 13, 0, 0, 0, 5, 0, 0, 0, 9]

/-- Each message is there in full. -/
theorem proxyRead_whole :
    qmiProxyRead.handed qmiWwanThread ⟨[], [qmiMessage].flatten⟩ [⟨7, 1⟩] = [qmiMessage]
      ∧ mbimProxyRead.handed mbimReadThread ⟨[], [mbimMessage].flatten⟩ [⟨13, 1⟩] = [mbimMessage]
      ∧ Runs.Meets mbimStep (fun s c => mbimProxyRead.AsksWithin s c.arrival ∧ CopiesWithin s c)
        ⟨[], mbimMessage⟩ [⟨⟨13, 1⟩, some 5⟩] := by
  have hqmi := proxyRead_iff [qmiMessage] [⟨7, 1⟩] [] ⟨[], []⟩ []
  have hmbim := proxyRead_iff [mbimMessage] [⟨13, 1⟩] [] ⟨[], mbimMessage⟩ [⟨⟨13, 1⟩, some 5⟩]
  refine ⟨(hqmi.1 (by decide) (by decide)).2 (.cons ?_ .nil),
    (hmbim.2.1 (by decide) (by decide)).2 (.cons ?_ .nil),
    hmbim.2.2.2.2 ⟨⟨fun _ => by decide, fun _ => by decide⟩, fun _ _ => trivial⟩⟩
  · exact ⟨by decide, by decide, by decide⟩
  · exact ⟨by decide, by decide, by decide⟩

/-- A message whose body arrives after its header is lost; a length of three makes the second read
ask for 2⁶⁴ - 2 bytes; and of an answer that has arrived in part all is copied. -/
theorem not_proxyRead_partial :
    (qmiProxyRead.Drains ⟨[], [qmiMessage].flatten⟩ [⟨6, 0⟩, ⟨1, 0⟩]
      ∧ qmiProxyRead.handed qmiWwanThread ⟨[], [qmiMessage].flatten⟩ [⟨6, 0⟩, ⟨1, 0⟩]
        ≠ [qmiMessage])
    ∧ (mbimProxyRead.Drains ⟨[], [mbimMessage].flatten⟩ [⟨12, 0⟩, ⟨1, 0⟩]
      ∧ mbimProxyRead.handed mbimReadThread ⟨[], [mbimMessage].flatten⟩ [⟨12, 0⟩, ⟨1, 0⟩]
        ≠ [mbimMessage])
    ∧ ¬ qmiProxyRead.AsksWithin ⟨[], [1, 3, 0, 0, 0, 0]⟩ ⟨6, 0⟩
    ∧ ¬ mbimProxyRead.AsksWithin ⟨[], [1, 0, 0, 0, 3, 0, 0, 0, 5, 0, 0, 0]⟩ ⟨12, 0⟩
    ∧ ¬ CopiesWithin ⟨[], mbimMessage⟩ ⟨⟨12, 0⟩, some 5⟩ := by
  refine ⟨⟨by decide, by decide⟩, ⟨by decide, by decide⟩, fun h => ?_, fun h => ?_, fun h => ?_⟩
  · exact absurd (h (by decide)) (by decide)
  · exact absurd (h (by decide)) (by decide)
  · exact absurd (h (by decide)) (by decide)

end CmRead

end BananaWrt
