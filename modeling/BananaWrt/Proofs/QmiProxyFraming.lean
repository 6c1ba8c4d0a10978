import BananaWrt.Lib.Stream
import BananaWrt.QmiProxy

/-!
# Messages and reads

`qmi_proxy_loop` takes one read from a client for one message. The sockets are streams, so a read
may end inside a message or run on into the next one; such a read is dropped as it is. The
messages of a client all get through exactly if every read returned one message
(`handed_eq_iff`).
-/

namespace BananaWrt

namespace QmiProxy

open Bytes Qmi

/-- A message as a client writes it: a whole header, and the length that it gives. -/
def WellFormed (m : Bytes) : Prop :=
  sizeofHdr ≤ m.length ∧ m.length = hdrLength m + 1 ∧ m.length ≤ sizeofQmiBuf

instance : DecidablePred WellFormed := fun _ => inferInstanceAs (Decidable (_ ∧ _ ∧ _))

/-- What a read can return: at least one byte, and no more than `qmi_buf` holds. -/
def IsRead (chunk : Bytes) : Prop := chunk ≠ [] ∧ chunk.length ≤ sizeofQmiBuf

instance : DecidablePred IsRead := fun _ => inferInstanceAs (Decidable (_ ∧ _))

theorem hdrLength_overlay {c : Bytes} (b : Bytes) (hc : sizeofHdr ≤ c.length) :
    hdrLength (overlay c b) = hdrLength c := by
  have hc' : 6 ≤ c.length := hc
  unfold hdrLength le16
  rw [u8_overlay (by omega), u8_overlay (by omega)]

theorem readClient_take (b c : Bytes) :
    (readClient b c).map (fun msg => msg.1.take msg.2)
      = if c.length = hdrLength (overlay c b) + 1 then some c else none := by
  have htake : (overlay c b).take c.length = c := List.take_left
  simp only [readClient, ne_eq, ite_not]
  split_ifs
  · rw [Option.map_some, htake]
  · rfl

theorem handed_sublist : ∀ reads : List (Bytes × Bytes), (handed reads).Sublist (reads.map (·.2))
  | [] => .slnil
  | r :: reads => by
    have ih := handed_sublist reads
    unfold handed at ih ⊢
    rw [List.filterMap_cons, readClient_take, List.map_cons]
    split_ifs
    · exact ih.cons_cons r.2
    · exact ih.cons r.2

theorem handed_of_wellFormed : ∀ reads : List (Bytes × Bytes),
    (∀ r ∈ reads, WellFormed r.2) → handed reads = reads.map (·.2)
  | [], _ => rfl
  | r :: reads, h => by
    obtain ⟨h6, hlen, -⟩ := h r List.mem_cons_self
    have ih := handed_of_wellFormed reads fun r' hr' => h r' (List.mem_cons_of_mem r hr')
    unfold handed at ih ⊢
    rw [List.filterMap_cons, readClient_take, hdrLength_overlay _ h6, if_pos hlen, ih]
    rfl

/-- However the bytes of the messages are cut into reads, and whatever the buffer held before
each of them, the messages handed on are the ones written exactly if each read returned one
message. -/
theorem handed_eq_iff {ms : List Bytes} {reads : List (Bytes × Bytes)}
    (hms : ∀ m ∈ ms, WellFormed m) (hreads : ∀ r ∈ reads, IsRead r.2)
    (hcut : (reads.map (·.2)).flatten = ms.flatten) :
    handed reads = ms ↔ reads.map (·.2) = ms := by
  constructor
  · rintro rfl
    have hlen := congrArg List.length hcut.symm
    refine ((handed_sublist reads).eq_of_length_flatten_eq hlen fun c hc => ?_).symm
    obtain ⟨r, hr, rfl⟩ := List.mem_map.1 hc
    exact (hreads r hr).1
  · rintro rfl
    exact handed_of_wellFormed reads fun r hr => hms r.2 (List.mem_map_of_mem hr)

def servingSystemReq (tid : UInt8) : Bytes := [1, 12, 0, 0, 3, 5, 0, tid, 0, 0x24, 0, 0, 0]

theorem handed_one_by_one :
    handed [([], servingSystemReq 1), (servingSystemReq 1, servingSystemReq 2)]
      = [servingSystemReq 1, servingSystemReq 2] :=
  (handed_eq_iff (by decide) (by decide) rfl).2 rfl

/-- Two messages that arrive in one read are both lost. -/
theorem handed_coalesced :
    ∃ ms reads, (∀ m ∈ ms, WellFormed m) ∧ (∀ r ∈ reads, IsRead r.2)
      ∧ (reads.map (·.2)).flatten = ms.flatten ∧ ms ≠ [] ∧ handed reads = [] :=
  ⟨[servingSystemReq 1, servingSystemReq 2], [([], servingSystemReq 1 ++ servingSystemReq 2)],
    by decide, by decide, rfl, by decide, by decide⟩

end QmiProxy

end BananaWrt
