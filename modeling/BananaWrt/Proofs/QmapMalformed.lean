import BananaWrt.Lib.Run
import BananaWrt.Proofs.QmapCommands
import BananaWrt.Proofs.QmapWalk

/-!
# Malformed transfers in the Fibocom decoders

Both decoders test `skb_len` from above only, so a packet that is shorter than its padding gets a
negative length passed on. `qmap_qmi_wwan_rx_fixup` delivers what it has queued only if it comes to
the end of the transfer; otherwise everything stays in `skb_chain`. The calls are right exactly if
neither happens (`calls_iff`).
-/

namespace BananaWrt

namespace Qmap

namespace Fibocom

open Bytes

variable {d : Dev}

section Fixup

variable {rx rx' : Rx} {left : List Delivered} {room skb : Bytes}

theorem passed_nonneg_iff (rx : Rx) :
    (∀ n ∈ rx.passed d, 0 ≤ n) ↔ rx.walk.Padded d := by
  unfold Rx.passed Walk.Padded
  change _ ↔ ∀ net protocol, verdict d rx.skb sizeofMapHeader (fixupLen rx.skb) = _ →
    (ETH_HLEN ≤ rx.headroom → d.alloc rx.skb.length = true) → padLen rx.skb ≤ pktLen rx.skb
  rcases hv : verdict d rx.skb sizeofMapHeader (fixupLen rx.skb) with _ | _ | ⟨net, protocol⟩
  · simp
  · simp
  · dsimp only
    split_ifs with hnone
    · refine iff_of_true (by simp) fun _ _ _ halloc => absurd (halloc hnone.1) hnone.2
    · have halloc : ETH_HLEN ≤ rx.headroom → d.alloc rx.skb.length = true := fun hroom => by
        by_contra hno
        exact hnone ⟨hroom, hno⟩
      rw [List.forall_mem_singleton, fixupLen_nonneg_iff]
      exact ⟨fun h _ _ _ _ => h, fun h => h net protocol rfl halloc⟩

theorem inPacket_of_nonneg (h : ∀ n ∈ rx.passed d, 0 ≤ n) :
    ∀ n ∈ rx.passed d, InPacket rx.skb sizeofMapHeader n := by
  intro n hn
  have hnonneg := h n hn
  unfold Rx.passed at hn
  split at hn
  · rename_i net protocol hv
    have hfits := fits_of_verdict (by rw [hv]; exact Verdict.noConfusion)
    split_ifs at hn
    · exact absurd hn List.not_mem_nil
    · obtain rfl := List.mem_singleton.1 hn
      exact ⟨hnonneg, fixupLen_le rx.skb, hfits⟩
  · exact absurd hn List.not_mem_nil

/-- The loop comes to where the walk comes. -/
theorem exists_comes {w : Walk} (hc : rx.Clear rx.walk.out) (hlen : rx.Lengths d)
    (h : Walk.Comes fixupReader d rx.walk w) :
    ∃ rx', rx.Comes d rx' ∧ rx'.walk = w ∧ rx'.Clear rx'.walk.out := by
  induction h with
  | refl => exact ⟨rx, .refl, rfl, hc⟩
  | tail _ hs ih =>
    obtain ⟨rx₁, hcomes, rfl, hclear⟩ := ih
    obtain ⟨rx₂, hs₂, hwalk, hclear₂⟩ := exists_step hclear (hlen rx₁ hcomes hs.1) hs
    exact ⟨rx₂, hcomes.tail hs₂, hwalk, hclear₂⟩

theorem lengths_iff (hc : rx.Clear rx.walk.out) :
    rx.Lengths d ↔ ∀ w, Walk.Comes fixupReader d rx.walk w →
      sizeofMapHeader < w.skb.length → w.Padded d := by
  constructor
  · intro hlen w hw hlt
    obtain ⟨rx', hcomes, rfl, -⟩ := exists_comes hc hlen hw
    exact (passed_nonneg_iff rx').1 (hlen rx' hcomes hlt)
  · intro h
    -- where the loop comes, the walk has come with it
    have hboth : ∀ rx', rx.Comes d rx' →
        Walk.Comes fixupReader d rx.walk rx'.walk ∧ rx'.Clear rx'.walk.out := by
      intro rx' hcomes
      induction hcomes with
      | refl => exact ⟨.refl, hc⟩
      | tail _ hs ih =>
        obtain ⟨hwalk, hclear⟩ := ih
        obtain ⟨hs', hclear'⟩ :=
          walk_step hclear ((passed_nonneg_iff _).2 (h _ hwalk hs.1)) hs
        exact ⟨hwalk.tail hs', hclear'⟩
    intro rx' hcomes hlt
    exact (passed_nonneg_iff rx').2 (h _ (hboth rx' hcomes).1 hlt)

theorem lengths_start_iff : (Rx.start room skb).Lengths d
    ↔ ∀ w, Walk.Comes fixupReader d ⟨skb, room.length, []⟩ w →
      sizeofMapHeader < w.skb.length → w.Padded d := by
  have hstart := walk_start room skb
  rw [lengths_iff (by rw [hstart]; exact clear_start room skb), hstart]

theorem fixupRight_iff : FixupRight d left room skb ↔ FixupSound d left room skb := by
  constructor
  · intro h
    have hlen : (Rx.start room skb).Lengths d := fun rx hcomes hlt n hn =>
      (h.lengths rx hcomes hlt n hn).1
    obtain ⟨out, hfixup, hout⟩ := h.delivered
    obtain ⟨w, hw, hover, hspec⟩ := fixup_spec left hlen
    refine ⟨lengths_start_iff.1 hlen, fun w' hw' hover' => ?_⟩
    obtain rfl := walk_unique hw' hover' hw hover
    rw [hfixup] at hspec
    split_ifs at hspec with hend
    · exact .inl hend
    · obtain ⟨-, hnil⟩ := Prod.mk.inj (Option.some.inj hspec)
      exact .inr (List.append_eq_nil_iff.1 hnil.symm)
  · intro h
    have hlen := lengths_start_iff.2 h.padded
    obtain ⟨w, hw, hover, hspec⟩ := fixup_spec left hlen
    refine ⟨fun rx hcomes hlt => inPacket_of_nonneg (hlen rx hcomes hlt), left ++ w.out, ?_,
      fun w' hw' hover' => by rw [walk_unique hw' hover' hw hover]⟩
    rw [hspec]
    split_ifs with hend
    · rfl
    · obtain ⟨rfl, hnil⟩ := (h.ends w hw hover).resolve_left hend
      rw [hnil]
      rfl

end Fixup

section Handler

variable {skb skb' : Bytes} {w w' : Walk}

theorem padding_lt_iff (d : Dev) (skb : Bytes) :
    (0 ≤ skbLen d skb ∧ skbLen d skb ≤ pktLen skb)
      ↔ (padLen skb + d.padding) % 2 ^ 32 ≤ pktLen skb := by
  have hpkt : pktLen skb < 2 ^ 16 := be16_lt skb 2
  have hpad := padLen_lt skb
  unfold skbLen
  rw [Int.bmod_def]
  omega

/-- An iteration and a step of the walk. -/
theorem iteration_walk (w : Walk) :
    match iteration d w.skb with
    | (queued, none) => w.next (handlerReader d) d = none ∧ queued = none
    | (queued, some len) => len ≤ w.skb.length ∧ 0 < len ∧ ∃ w', w.next (handlerReader d) d = some w'
      ∧ w'.skb = w.skb.drop len ∧ w'.out = w.out ++ queued.toList := by
  have hpos := four_le_hdrSize w.skb
  unfold iteration Walk.next
  simp only [handlerReader, List.nil_append]
  rcases hv : verdict d w.skb (hdrSize w.skb) (skbLen d w.skb) with _ | _ | ⟨net, protocol⟩
  · exact ⟨rfl, rfl⟩
  · have hfits := fits_of_verdict (by rw [hv]; exact Verdict.noConfusion)
    exact ⟨hfits, by omega, _, rfl, rfl, (List.append_nil _).symm⟩
  · have hfits := fits_of_verdict (by rw [hv]; exact Verdict.noConfusion)
    dsimp only
    by_cases halloc : d.alloc w.skb.length = true
    · rw [if_pos halloc, if_pos halloc]
      exact ⟨hfits, by omega, _, rfl, rfl, rfl⟩
    · rw [if_neg halloc, if_neg halloc]
      exact ⟨rfl, rfl⟩

/-- The loop ends where the walk is over, with the packets of the walk. -/
theorem rmnetUsbRxHandler_spec : ∀ (fuel : ℕ) (w : Walk), w.skb.length < fuel →
    ∃ w' out, Walk.Comes (handlerReader d) d w w' ∧ w'.Over (handlerReader d) d
      ∧ rmnetUsbRxHandler d fuel w.skb = some out ∧ w'.out = w.out ++ out
  | 0, _, hfuel => absurd hfuel (Nat.not_lt_zero _)
  | fuel + 1, w, hfuel => by
    by_cases hend : w.skb.length ≤ sizeofMapHeader
    · exact ⟨w, [], .refl, .inl hend, if_pos hend, (List.append_nil _).symm⟩
    · have hiter := iteration_walk (d := d) w
      rw [rmnetUsbRxHandler, if_neg hend]
      rcases hi : iteration d w.skb with ⟨queued,
        _ | len⟩ <;> rw [hi] at hiter <;> dsimp only at hiter
      · obtain ⟨hnone, rfl⟩ := hiter
        exact ⟨w, [], .refl, .inr hnone, rfl, (List.append_nil _).symm⟩
      · obtain ⟨hle, hpos, w₁, hnext, hskb, hout⟩ := hiter
        have hs : Walk.Step (handlerReader d) d w w₁ := ⟨Nat.not_le.1 hend, hnext⟩
        obtain ⟨w', out, hcomes, hover, hloop, hout'⟩ := rmnetUsbRxHandler_spec fuel w₁
          (by rw [hskb, List.length_drop]; omega)
        refine ⟨w', queued.toList ++ out, hcomes.head hs, hover, ?_, ?_⟩
        · dsimp only
          rw [skbPull, if_pos hle, ← hskb, hloop, Option.map_some]
        · rw [hout', hout, List.append_assoc]

theorem handlerRight_iff : HandlerRight d skb ↔ HandlerSound d skb := by
  obtain ⟨w, out, hw, hover, hloop, hout⟩ := rmnetUsbRxHandler_spec (d := d) (skb.length + 1)
    ⟨skb, 0, []⟩ (Nat.lt_succ_self _)
  have hdelivered : ∃ out, rmnetUsbRxHandler d (skb.length + 1) skb = some out
      ∧ ∀ w, Walk.Comes (handlerReader d) d ⟨skb, 0, []⟩ w → w.Over (handlerReader d) d →
        out = w.out :=
    ⟨out, hloop, fun w' hw' hover' => by rw [walk_unique hw' hover' hw hover, hout]; rfl⟩
  constructor
  · intro h skb' hcomes hlt net protocol hv
    obtain ⟨h0, hle, -⟩ := h.lengths skb' hcomes hlt (skbLen d skb')
      (by rw [passed, hv]; exact List.mem_singleton_self _)
    exact (padding_lt_iff d skb').1 ⟨h0, hle⟩
  · intro h
    refine ⟨fun skb' hcomes hlt n hn => ?_, hdelivered⟩
    unfold passed at hn
    split at hn
    · rename_i net protocol hv
      have hfits := fits_of_verdict (by rw [hv]; exact Verdict.noConfusion)
      obtain rfl := List.mem_singleton.1 hn
      obtain ⟨h0, hle⟩ := (padding_lt_iff d skb').2 (h skb' hcomes hlt net protocol hv)
      exact ⟨h0, hle, hfits⟩
    · exact absurd hn List.not_mem_nil

end Handler

theorem right_nil_iff (c : Call) : c.Right [] ↔ c.Sound := by
  cases c with
  | fixup d room skb => exact fixupRight_iff
  | handler d skb => exact handlerRight_iff

/-- A call that is right leaves nothing. -/
theorem step_of_right {c : Call} (h : c.Right []) : c.step [] = some [] := by
  cases c with
  | fixup d room skb =>
    obtain ⟨out, hfixup, -⟩ := h.delivered
    rw [Call.step, hfixup]
    rfl
  | handler d skb => rfl

/-- In a sequence of calls, each of which finds what the one before has left, all are right if and
only if each transfer meets its condition. -/
theorem calls_iff : ∀ cs : List Call,
    Runs.Meets Call.step (fun left c => c.Right left) [] cs ↔ ∀ c ∈ cs, c.Sound
  | [] => iff_of_true trivial (by simp)
  | c :: cs => by
    rw [List.forall_mem_cons, ← calls_iff cs, ← right_nil_iff c]
    refine and_congr_right fun hright => ?_
    rw [step_of_right hright]
    exact ⟨fun h => h [] rfl, fun h left hleft => by cases hleft; exact h⟩

/-- A header that says that the packet is empty and has a byte of padding, and a byte that says that
it is IPv4. -/
def shortPacket : Bytes := [1, 0x81, 0, 0, 0x45]

/-- Both decoders pass on the length -1. The packet before a malformed one is not delivered by the
call that it came with, and stays in `skb_chain`. -/
theorem shortPacket_passed :
    ¬ Runs.Meets Call.step (fun left c => c.Right left) [] [.fixup oneNet [] shortPacket]
    ∧ ¬ Runs.Meets Call.step (fun left c => c.Right left) [] [.handler oneNet shortPacket]
    ∧ ¬ Runs.Meets Call.step (fun left c => c.Right left) []
      [.fixup oneNet [] (ipPacket.bytes ++ shortPacket.take 4 ++ [0])] := by
  have hneg : ¬ InPacket shortPacket sizeofMapHeader (-1) := fun h => absurd h.1 (by decide)
  refine ⟨fun h => ?_, fun h => ?_, fun h => ?_⟩
  · have hpassed : (-1 : ℤ) ∈ (Rx.start [] shortPacket).passed oneNet := by decide
    exact hneg (h.1.lengths _ .refl (by decide) _ hpassed)
  · have hpassed : (-1 : ℤ) ∈ passed oneNet shortPacket := by decide
    exact hneg (h.1.lengths _ .refl (by decide) _ hpassed)
  · obtain ⟨out, hfixup, -⟩ := h.1.delivered
    have hleft : (qmapQmiWwanRxFixup oneNet 11 [] []
        (ipPacket.bytes ++ shortPacket.take 4 ++ [0])).map (fun r => r.2.length) = some 1 := by
      decide
    have hlen : (ipPacket.bytes ++ shortPacket.take 4 ++ [0]).length + 1 = 11 := by decide
    rw [hlen] at hfixup
    rw [hfixup] at hleft
    cases hleft

end Fibocom

end Qmap

end BananaWrt
