import BananaWrt.QmapWalk
import BananaWrt.Proofs.QmapDecode

/-!
# Clones and copies deliver the same

`qmap_qmi_wwan_rx_fixup` writes Ethernet headers over a buffer that earlier packets are part of. The
clones end before the room that may still be written to (`Rx.Clear`): as long as no length is
outside of its packet, an iteration does to `Rx.walk` what a walk does that copies every packet
(`walk_iteration`), and the loop ends where the walk is over (`fixupLoop_spec`).
-/

namespace BananaWrt

namespace Qmap

namespace Fibocom

open Bytes

theorem length_ethHeader (net : NetDev) (protocol : ℕ) :
    (ethHeader net protocol).length = ETH_HLEN := by
  unfold ethHeader
  rw [List.length_append, List.length_append, net.dest.2]
  rfl

section Verdict

variable {d : Dev} {skb : Bytes} {hdr : ℕ} {len : ℤ}

theorem fits_of_verdict (h : verdict d skb hdr len ≠ .error) :
    pktLen skb + hdr ≤ skb.length := by
  by_contra hlong
  refine h ?_
  unfold verdict
  rw [if_pos (Nat.not_le.1 hlong), ite_self]

theorem fixupLen_le (skb : Bytes) : fixupLen skb ≤ pktLen skb := by
  unfold fixupLen
  omega

theorem fixupLen_nonneg_iff (skb : Bytes) : 0 ≤ fixupLen skb ↔ padLen skb ≤ pktLen skb := by
  unfold fixupLen
  omega

theorem trimmed_eq (hfits : pktLen skb + sizeofMapHeader ≤ skb.length)
    (hlen : 0 ≤ fixupLen skb) : trimmed skb = (fixupLen skb).toNat := by
  have hle := fixupLen_le skb
  have hpkt : pktLen skb < 2 ^ 16 := be16_lt skb 2
  unfold trimmed
  rw [Int.emod_eq_of_lt hlen (by omega)]
  omega

end Verdict

/-- No clone reaches into the room that may be written to, and the packets queued so far are
`sofar`. -/
structure Rx.Clear (rx : Rx) (sofar : List Delivered) : Prop where
  pos : rx.pos ≤ rx.buf.length
  headroom : rx.headroom ≤ rx.pos
  clones : ∀ q ∈ rx.chain, ∀ off len, q.frame = .clone off len → off + len + rx.headroom ≤ rx.pos
  chain : rx.chain.map (·.delivered rx.buf) = sofar

theorem clear_start (room skb : Bytes) : (Rx.start room skb).Clear [] :=
  ⟨by simp [Rx.start], Nat.le_refl _, by simp [Rx.start], rfl⟩

theorem walk_start (room skb : Bytes) : (Rx.start room skb).walk = ⟨skb, room.length, []⟩ := by
  unfold Rx.walk Rx.skb Rx.start
  dsimp only
  rw [List.drop_left]
  rfl

/-- A clone that ends before a write is as it was. -/
theorem delivered_write {q : Queued} {buf c : Bytes} {off : ℕ} (hoff : off ≤ buf.length)
    (h : ∀ start len, q.frame = .clone start len → start + len ≤ off) :
    q.delivered (write buf off c) = q.delivered buf := by
  unfold Queued.delivered
  rcases hf : q.frame with ⟨start, len⟩ | data
  · have hle := h start len hf
    dsimp only
    rw [List.take_drop, List.take_drop, take_write hoff hle]
  · rfl

section Step

variable {d : Dev} {rx rx' : Rx} {sofar : List Delivered} {net : NetDev} {protocol : ℕ}

/-- After the pull, the room before the data is what it was said to be. -/
theorem clear_pull (rx : Rx) {n : ℕ} (hpos : rx.pos ≤ rx.buf.length) (hle : n ≤ rx.skb.length)
    (hheadroom : rx.headroom ≤ rx.pos + n)
    (hclones : ∀ q ∈ rx.chain, ∀ off len, q.frame = .clone off len →
      off + len + rx.headroom ≤ rx.pos + n)
    (hchain : rx.chain.map (·.delivered rx.buf) = sofar) :
    (rx.pull n).Clear sofar ∧ (rx.pull n).walk = ⟨rx.skb.drop n, rx.headroom, sofar⟩ := by
  have hlen : rx.skb.length = rx.buf.length - rx.pos := List.length_drop
  unfold Rx.pull
  rw [if_pos hle]
  refine ⟨⟨?_, hheadroom, hclones, hchain⟩, ?_⟩
  · change rx.pos + n ≤ rx.buf.length
    omega
  · unfold Rx.walk Rx.skb
    dsimp only
    rw [hchain, List.drop_drop]

/-- What the loop queues for the packet at the front. -/
def Rx.head (rx : Rx) (net : NetDev) (protocol : ℕ) : Delivered where
  mux := muxId rx.skb
  protocol := protocol
  data := ethHeader net protocol ++ (rx.skb.drop sizeofMapHeader).take (fixupLen rx.skb).toNat

theorem clear_copy (net : NetDev) (protocol : ℕ) (hc : rx.Clear sofar)
    (hfits : pktLen rx.skb + sizeofMapHeader ≤ rx.skb.length) :
    ((rx.copy net protocol).pull (pktLen rx.skb + sizeofMapHeader)).Clear
        (sofar ++ [rx.head net protocol])
      ∧ ((rx.copy net protocol).pull (pktLen rx.skb + sizeofMapHeader)).walk
        = ⟨rx.skb.drop (pktLen rx.skb + sizeofMapHeader), pktLen rx.skb,
          sofar ++ [rx.head net protocol]⟩ := by
  refine clear_pull (rx.copy net protocol) hc.pos hfits ?_ ?_ ?_
  · change pktLen rx.skb ≤ rx.pos + (pktLen rx.skb + sizeofMapHeader)
    omega
  · -- the packet has been copied, so all of it may be written to
    intro q hq off len hf
    change off + len + pktLen rx.skb ≤ rx.pos + (pktLen rx.skb + sizeofMapHeader)
    rcases List.mem_append.1 hq with hq | hq
    · have := hc.clones q hq off len hf
      omega
    · rw [List.mem_singleton.1 hq] at hf
      cases hf
  · change (rx.chain ++ [_]).map (Queued.delivered rx.buf) = _
    rw [List.map_append, List.map_singleton]
    exact congrArg (· ++ _) hc.chain

/-- The header is written over the end of the room and the map header. -/
theorem clone_start (hroom : ETH_HLEN ≤ rx.pos) :
    rx.pos + sizeofMapHeader - ETH_HLEN + 14 = rx.pos + 4 := by
  simp only [sizeofMapHeader, ETH_HLEN] at hroom ⊢
  omega

theorem clone_fits (hfits : pktLen rx.skb + sizeofMapHeader ≤ rx.skb.length) :
    rx.pos + 4 ≤ rx.buf.length := by
  have hskb : rx.skb.length = rx.buf.length - rx.pos := List.length_drop
  simp only [sizeofMapHeader] at hfits
  omega

theorem length_clone (hfits : pktLen rx.skb + sizeofMapHeader ≤ rx.skb.length)
    (hroom : ETH_HLEN ≤ rx.pos) :
    (write rx.buf (rx.pos + sizeofMapHeader - ETH_HLEN) (ethHeader net protocol)).length
      = rx.buf.length := by
  have hstart := clone_start hroom
  have hend := clone_fits hfits
  have heth : (ethHeader net protocol).length = 14 := length_ethHeader net protocol
  exact length_write (by omega)

/-- What is after the header is not written to. -/
theorem drop_clone (hfits : pktLen rx.skb + sizeofMapHeader ≤ rx.skb.length)
    (hroom : ETH_HLEN ≤ rx.pos) :
    (rx.clone net protocol).skb.drop (pktLen rx.skb + sizeofMapHeader)
      = rx.skb.drop (pktLen rx.skb + sizeofMapHeader) := by
  have hstart := clone_start hroom
  have hend := clone_fits hfits
  have heth : (ethHeader net protocol).length = 14 := length_ethHeader net protocol
  change ((write rx.buf _ _).drop rx.pos).drop _ = (rx.buf.drop rx.pos).drop _
  rw [List.drop_drop, List.drop_drop,
    drop_write (by omega) (by simp only [sizeofMapHeader] at hstart ⊢; omega)]

/-- The clone is the header and the packet behind it. -/
theorem delivered_clone (hfits : pktLen rx.skb + sizeofMapHeader ≤ rx.skb.length)
    (hlen : 0 ≤ fixupLen rx.skb) (hroom : ETH_HLEN ≤ rx.pos) :
    (⟨muxId rx.skb, protocol, .clone (rx.pos + sizeofMapHeader - ETH_HLEN)
      (ETH_HLEN + trimmed rx.skb)⟩ : Queued).delivered
        (write rx.buf (rx.pos + sizeofMapHeader - ETH_HLEN) (ethHeader net protocol))
      = rx.head net protocol := by
  have hstart := clone_start hroom
  have hend := clone_fits hfits
  have heth : (ethHeader net protocol).length = 14 := length_ethHeader net protocol
  unfold Queued.delivered Rx.head
  dsimp only
  rw [drop_write_self (by omega), heth, hstart, trimmed_eq hfits hlen,
    ← length_ethHeader net protocol, List.take_length_add_append, ← List.drop_drop]
  rfl

theorem clear_clone (net : NetDev) (protocol : ℕ) (hc : rx.Clear sofar)
    (hfits : pktLen rx.skb + sizeofMapHeader ≤ rx.skb.length)
    (hlen : 0 ≤ fixupLen rx.skb) (hroom : ETH_HLEN ≤ rx.headroom) :
    ((rx.clone net protocol).pull (pktLen rx.skb + sizeofMapHeader)).Clear
        (sofar ++ [rx.head net protocol])
      ∧ ((rx.clone net protocol).pull (pktLen rx.skb + sizeofMapHeader)).walk
        = ⟨rx.skb.drop (pktLen rx.skb + sizeofMapHeader), padLen rx.skb,
          sofar ++ [rx.head net protocol]⟩ := by
  have hpad := (fixupLen_nonneg_iff rx.skb).1 hlen
  have hheadroom := hc.headroom
  have hroom' := Nat.le_trans hroom hheadroom
  have hstart := clone_start hroom'
  have hend := clone_fits hfits
  have hbuf : (write rx.buf (rx.pos + sizeofMapHeader - ETH_HLEN)
      (ethHeader net protocol)).length = rx.buf.length := length_clone hfits hroom'
  have hskb : (rx.clone net protocol).skb.length = rx.skb.length := by
    change (List.drop rx.pos (write rx.buf _ _)).length = (List.drop rx.pos rx.buf).length
    rw [List.length_drop, List.length_drop, hbuf]
  have htrimmed := trimmed_eq hfits hlen
  have hnonneg : (fixupLen rx.skb).toNat + padLen rx.skb = pktLen rx.skb := by
    unfold fixupLen
    omega
  simp only [ETH_HLEN] at hroom
  rw [← drop_clone hfits hroom']
  refine clear_pull (rx.clone net protocol) ?_ (hskb ▸ hfits) ?_ ?_ ?_
  · change rx.pos ≤ (write rx.buf _ _).length
    rw [hbuf]
    exact hc.pos
  · change padLen rx.skb ≤ rx.pos + (pktLen rx.skb + sizeofMapHeader)
    omega
  · intro q hq off len hf
    change off + len + padLen rx.skb ≤ rx.pos + (pktLen rx.skb + sizeofMapHeader)
    rcases List.mem_append.1 hq with hq | hq
    · have := hc.clones q hq off len hf
      omega
    · rw [List.mem_singleton.1 hq] at hf
      obtain ⟨rfl, rfl⟩ := Frame.clone.inj hf
      rw [htrimmed]
      simp only [sizeofMapHeader, ETH_HLEN] at hstart ⊢
      omega
  · change (rx.chain ++ [_]).map _ = _
    rw [List.map_append, List.map_singleton]
    refine congrArg₂ (· ++ ·) (Eq.trans (List.map_congr_left fun q hq => ?_) hc.chain)
      (congrArg (fun x => [x]) (delivered_clone hfits hlen hroom'))
    -- the clones end before the header that is written
    refine delivered_write (by omega) fun start len hf => ?_
    have := hc.clones q hq start len hf
    omega

/-- The walk of a loop that has queued `sofar`. -/
theorem walk_of_clear (hc : rx.Clear sofar) : rx.walk = ⟨rx.skb, rx.headroom, sofar⟩ :=
  congrArg (Walk.mk rx.skb rx.headroom) hc.chain

/-- If no length is outside of its packet, an iteration does what a walk does that copies. -/
theorem walk_iteration (hc : rx.Clear sofar) (hlen : ∀ n ∈ rx.passed d, 0 ≤ n) :
    (rx.iteration d).map Rx.walk = rx.walk.next fixupReader d
      ∧ ∀ rx' ∈ rx.iteration d, rx'.Clear rx'.walk.out := by
  rw [walk_of_clear hc]
  unfold Rx.passed at hlen
  unfold Rx.iteration Walk.next
  simp only [fixupReader]
  rcases hv : verdict d rx.skb sizeofMapHeader (fixupLen rx.skb) with _ | _ | ⟨net, protocol⟩
  · exact ⟨rfl, by simp⟩
  · have hfits := fits_of_verdict (by rw [hv]; exact Verdict.noConfusion)
    have hpull := clear_pull rx hc.pos hfits (Nat.le_trans hc.headroom (Nat.le_add_right _ _))
      (fun q hq off len hf => Nat.le_trans (hc.clones q hq off len hf) (Nat.le_add_right _ _))
      hc.chain
    refine ⟨congrArg some hpull.2, ?_⟩
    rintro rx' ⟨⟩
    rw [hpull.2]
    exact hpull.1
  · have hfits := fits_of_verdict (by rw [hv]; exact Verdict.noConfusion)
    rw [hv] at hlen
    dsimp only at hlen ⊢
    by_cases halloc : d.alloc rx.skb.length = true
    · rw [if_neg fun h => h.2 halloc] at hlen
      have hlen := hlen _ (List.mem_singleton_self _)
      rw [if_pos halloc, if_pos halloc]
      by_cases hroom : ETH_HLEN ≤ rx.headroom
      · obtain ⟨hclear, hwalk⟩ := clear_clone net protocol hc hfits hlen hroom
        rw [if_pos hroom, if_pos hroom]
        refine ⟨congrArg some hwalk, ?_⟩
        rintro rx' ⟨⟩
        rw [hwalk]
        exact hclear
      · obtain ⟨hclear, hwalk⟩ := clear_copy net protocol hc hfits
        rw [if_neg hroom, if_neg hroom]
        refine ⟨congrArg some hwalk, ?_⟩
        rintro rx' ⟨⟩
        rw [hwalk]
        exact hclear
    · rw [if_neg halloc, if_neg halloc]
      exact ⟨rfl, by simp⟩

theorem skb_next {R : Reader} {w w' : Walk} (h : w.next R d = some w') :
    w'.skb = w.skb.drop (pktLen w.skb + R.hdr w.skb) := by
  unfold Walk.next at h
  split at h
  · cases h
  · cases h
    rfl
  · rw [Option.ite_none_right_eq_some] at h
    cases h.2
    rfl

/-- What is left gets shorter. -/
theorem length_step {R : Reader} {w w' : Walk} (h : Walk.Step R d w w')
    (hpos : 0 < R.hdr w.skb) : w'.skb.length < w.skb.length := by
  obtain ⟨hlen, hnext⟩ := h
  rw [skb_next hnext, List.length_drop]
  omega

/-- No iteration that the loop comes to passes a negative length. -/
def Rx.Lengths (d : Dev) (rx : Rx) : Prop :=
  ∀ rx', rx.Comes d rx' → sizeofMapHeader < rx'.skb.length → ∀ n ∈ rx'.passed d, 0 ≤ n

theorem Rx.Lengths.next (h : rx.Lengths d) (hs : rx.Step d rx') : rx'.Lengths d :=
  fun rx'' hc => h rx'' (hc.head hs)

/-- A step of the loop is a step of the walk. -/
theorem walk_step (hc : rx.Clear rx.walk.out) (hlen : ∀ n ∈ rx.passed d, 0 ≤ n)
    (hs : rx.Step d rx') :
    Walk.Step fixupReader d rx.walk rx'.walk ∧ rx'.Clear rx'.walk.out := by
  obtain ⟨hmap, hclear⟩ := walk_iteration hc hlen
  rw [hs.2] at hmap hclear
  exact ⟨⟨hs.1, hmap.symm⟩, hclear rx' rfl⟩

/-- A step of the walk is one of the loop. -/
theorem exists_step {w : Walk} (hc : rx.Clear rx.walk.out) (hlen : ∀ n ∈ rx.passed d, 0 ≤ n)
    (hs : Walk.Step fixupReader d rx.walk w) :
    ∃ rx', rx.Step d rx' ∧ rx'.walk = w ∧ rx'.Clear rx'.walk.out := by
  obtain ⟨hmap, hclear⟩ := walk_iteration hc hlen
  rw [hs.2] at hmap
  obtain ⟨rx', hrx', hwalk⟩ := Option.map_eq_some_iff.1 hmap
  exact ⟨rx', ⟨hs.1, hrx'⟩, hwalk, hclear rx' hrx'⟩

theorem walk_comes (hc : rx.Clear rx.walk.out) (hlen : rx.Lengths d) (h : rx.Comes d rx') :
    Walk.Comes fixupReader d rx.walk rx'.walk ∧ rx'.Clear rx'.walk.out := by
  induction h with
  | refl => exact ⟨.refl, hc⟩
  | tail hcomes hs ih =>
    obtain ⟨hwalk, hclear⟩ := ih
    obtain ⟨hstep, hclear'⟩ := walk_step hclear (hlen _ hcomes hs.1) hs
    exact ⟨hwalk.tail hstep, hclear'⟩

/-- With as much fuel as there are bytes, the loop ends where the walk is over. -/
theorem fixupLoop_spec : ∀ (fuel : ℕ) (rx : Rx), rx.Clear rx.walk.out → rx.Lengths d →
    rx.skb.length < fuel → ∃ rx', rx.Comes d rx' ∧ rx'.walk.Over fixupReader d
      ∧ fixupLoop d fuel rx = some (decide (rx'.skb.length ≤ sizeofMapHeader), rx')
  | 0, _, _, _, hfuel => absurd hfuel (Nat.not_lt_zero _)
  | fuel + 1, rx, hc, hlen, hfuel => by
    by_cases hend : rx.skb.length ≤ sizeofMapHeader
    · exact ⟨rx, .refl, .inl hend, by rw [fixupLoop, if_pos hend, decide_eq_true hend]⟩
    · have hlt := Nat.not_le.1 hend
      obtain ⟨hmap, hclear⟩ := walk_iteration hc (hlen rx .refl hlt)
      rcases hiter : rx.iteration d with _ | rx₁
      · rw [hiter] at hmap
        exact ⟨rx, .refl, .inr hmap.symm,
          by rw [fixupLoop, if_neg hend, hiter, decide_eq_false hend]⟩
      · rw [hiter] at hmap hclear
        have hs : rx.Step d rx₁ := ⟨hlt, hiter⟩
        have hshort : rx₁.skb.length < rx.skb.length :=
          length_step (R := fixupReader) ⟨hlt, hmap.symm⟩ (Nat.zero_lt_succ 3)
        obtain ⟨rx', hcomes, hover, hloop⟩ := fixupLoop_spec fuel rx₁ (hclear rx₁ rfl)
          (hlen.next hs) (by omega)
        exact ⟨rx', hcomes.head hs, hover, by rw [fixupLoop, if_neg hend, hiter]; exact hloop⟩

/-- The walk does not go on where it is over. -/
theorem Walk.Over.eq {R : Reader} {w w' : Walk} (h : w.Over R d) (hc : Walk.Comes R d w w') :
    w = w' := by
  rcases hc.cases_head with rfl | ⟨w₁, hs, -⟩
  · rfl
  · rcases h with hend | hnone
    · exact absurd hs.1 (Nat.not_lt.2 hend)
    · cases hnone.symm.trans hs.2

/-- A walk is over in one place only. -/
theorem walk_unique {R : Reader} {w w₁ w₂ : Walk} (h₁ : Walk.Comes R d w w₁)
    (hover₁ : w₁.Over R d) (h₂ : Walk.Comes R d w w₂) (hover₂ : w₂.Over R d) : w₁ = w₂ := by
  have hright : Relator.RightUnique (Walk.Step R d) := fun _ _ _ hs hs' =>
    Option.some.inj (hs.2.symm.trans hs'.2)
  rcases Relation.ReflTransGen.total_of_right_unique hright h₁ h₂ with h | h
  · exact hover₁.eq h
  · exact (hover₂.eq h).symm

end Step

/-- What the call comes to, if no length is outside of its packet. -/
theorem fixup_spec {d : Dev} {room skb : Bytes} (left : List Delivered)
    (hlen : (Rx.start room skb).Lengths d) :
    ∃ w, Walk.Comes fixupReader d ⟨skb, room.length, []⟩ w ∧ w.Over fixupReader d
      ∧ qmapQmiWwanRxFixup d (skb.length + 1) left room skb
        = some (if w.skb.length ≤ sizeofMapHeader then (left ++ w.out, []) else ([], left ++ w.out))
    := by
  have hstart := walk_start room skb
  have hc : (Rx.start room skb).Clear (Rx.start room skb).walk.out := by
    rw [hstart]
    exact clear_start room skb
  have hskb : (Rx.start room skb).skb = skb := congrArg Walk.skb hstart
  obtain ⟨rx', hcomes, hover, hloop⟩ := fixupLoop_spec (skb.length + 1) (Rx.start room skb) hc hlen
    (by rw [hskb]; exact Nat.lt_succ_self _)
  have hwalk := (walk_comes hc hlen hcomes).1
  rw [hstart] at hwalk
  refine ⟨rx'.walk, hwalk, hover, ?_⟩
  unfold qmapQmiWwanRxFixup
  change (fixupLoop d (skb.length + 1) (Rx.start room skb)).map _ = _
  rw [hloop, Option.map_some]
  dsimp only
  by_cases hend : rx'.skb.length ≤ sizeofMapHeader
  · rw [decide_eq_true hend, if_pos rfl]
    exact congrArg some (if_pos hend).symm
  · rw [decide_eq_false hend, if_neg Bool.false_ne_true]
    exact congrArg some (if_neg hend).symm

end Fibocom

end Qmap

end BananaWrt
