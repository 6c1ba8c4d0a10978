import BananaWrt.QmapDecode

/-!
# The QMAP receive loop stays in bounds and ends

An iteration that goes on pulls at least a header, so the loop ends unless it asks to pull more than
there is, which leaves everything as it was. Only the packet of an interface that is not there is
pulled before its length has been checked. The loop is in bounds and ends exactly if every header
that it comes to is sound (`inBounds_iff`).
-/

namespace BananaWrt

namespace Qmap

open Bytes

variable {d : Dev} {skb skb' : Bytes}

theorem hdrSize_cases (skb : Bytes) :
    (NextHdr skb ∧ hdrSize skb = 8) ∨ (¬ NextHdr skb ∧ hdrSize skb = 4) := by
  unfold hdrSize
  by_cases h : NextHdr skb
  · exact .inl ⟨h, if_pos h⟩
  · exact .inr ⟨h, if_neg h⟩

theorem four_le_hdrSize (skb : Bytes) : 4 ≤ hdrSize skb := by
  rcases hdrSize_cases skb with h | h <;> omega

/-- What is not an error and not for an interface that is missing has passed the check of its
length. -/
theorem length_of_verdict {net : NetDev} (hnet : d.mpQmapNetDev (muxId skb) = some net)
    (h : verdict d skb ≠ .error) : pktLen skb + hdrSize skb ≤ skb.length := by
  by_contra hlong
  refine h ?_
  unfold verdict
  split
  · rfl
  · rw [hnet]
    dsimp only
    split
    · rfl
    · rw [if_pos (Nat.not_le.1 hlong)]

theorem length_of_parse {net : NetDev} (h : verdict d skb = .parse net) :
    pktLen skb + hdrSize skb ≤ skb.length := by
  rcases hnet : d.mpQmapNetDev (muxId skb) with _ | net'
  · unfold verdict at h
    rw [hnet] at h
    split at h <;> cases h
  · exact length_of_verdict hnet (by rw [h]; exact Verdict.noConfusion)

theorem length_of_skip (hs : Sound d skb) (h : verdict d skb = .skip) :
    pktLen skb + hdrSize skb ≤ skb.length := by
  rcases hnet : d.mpQmapNetDev (muxId skb) with _ | net
  · refine hs.orphan ?_ hnet
    by_contra hmux
    unfold verdict at h
    rw [if_pos (Nat.not_lt.1 hmux)] at h
    cases h
  · exact length_of_verdict hnet (by rw [h]; exact Verdict.noConfusion)

/-- What a header that is not an error pulls is there, if the header is sound. -/
theorem pull_le (hs : Sound d skb) {len : ℕ} (h : (iteration d skb).pull = some len) :
    4 ≤ len ∧ len ≤ skb.length := by
  have hfour := four_le_hdrSize skb
  unfold iteration at h
  split at h
  · cases h
  · rename_i hskip
    have := length_of_skip hs hskip
    cases h
    omega
  · rename_i net hparse
    have := length_of_parse hparse
    split at h
    · cases h
    · split at h
      · cases h
        omega
      · cases h

theorem length_skbPull {len : ℕ} (hpos : 4 ≤ len) (hle : len ≤ skb.length) :
    (skbPull skb len).length + 4 ≤ skb.length := by
  unfold skbPull
  rw [if_pos hle, List.length_drop]
  omega

theorem reads_iff (hlen : sizeofMapHeader < skb.length) :
    (∀ i ∈ (iteration d skb).reads, i < skb.length)
      ↔ ∀ net, verdict d skb = .parse net →
        ¬ (NextHdr skb ∧ pktLen skb = 0 ∧ skb.length = hdrSize skb) := by
  have hfour : 4 < skb.length := hlen
  rcases hv : verdict d skb with _ | _ | net
  · have hreads : (iteration d skb).reads = [0, 1, 2, 3] := by rw [iteration, hv]
    rw [hreads]
    simp
    omega
  · have hreads : (iteration d skb).reads = [0, 1, 2, 3] := by rw [iteration, hv]
    rw [hreads]
    simp
    omega
  · have hlength := length_of_parse hv
    have hcases := hdrSize_cases skb
    have hmem : hdrSize skb ∈ (iteration d skb).reads
        ∧ ∀ i ∈ (iteration d skb).reads, i < 4 ∨ i = hdrSize skb ∨ (NextHdr skb ∧ i < 6) := by
      unfold iteration
      rw [hv]
      dsimp only
      split
      · simp
      · split_ifs <;> simp [*]
    constructor
    · rintro hreads net' - ⟨hnext, hzero, heq⟩
      have := hreads _ hmem.1
      omega
    · intro hnot i hi
      have hnot' := hnot net rfl
      rcases hmem.2 i hi with h | rfl | ⟨hnext, h⟩
      · omega
      · rcases hcases with ⟨hnext, h8⟩ | ⟨-, h4⟩
        · by_contra hge
          exact hnot' ⟨hnext, by omega, by omega⟩
        · omega
      · rcases hcases with ⟨-, h8⟩ | ⟨hno, -⟩
        · omega
        · exact absurd hnext hno

theorem padLen_lt (skb : Bytes) : padLen skb < 64 := Nat.mod_lt _ (by decide)

/-- The length that is copied is at most that of the packet exactly if the padding is. -/
theorem skbLen_le_iff (d : Dev) (skb : Bytes) :
    skbLen d skb ≤ pktLen skb ↔ (padLen skb + d.padding) % 2 ^ 32 ≤ pktLen skb := by
  have hpkt : pktLen skb < 2 ^ 16 := be16_lt skb 2
  have hpad := padLen_lt skb
  unfold skbLen
  omega

theorem toInt32_inside_iff {n len : ℕ} (hn : n < 2 ^ 32) (hlen : len < 2 ^ 16) :
    (0 ≤ toInt32 n ∧ toInt32 n ≤ len) ↔ n ≤ len := by
  unfold toInt32
  split_ifs <;> omega

theorem copies_iff : (∀ p ∈ (iteration d skb).queued,
      0 ≤ p.length ∧ hdrSize skb ≤ p.offset ∧ p.offset + p.length ≤ hdrSize skb + pktLen skb
        ∧ hdrSize skb + pktLen skb ≤ skb.length)
    ↔ ∀ net, verdict d skb = .parse net → (protocolOf (u8 skb (hdrSize skb))).isSome →
      d.alloc skb.length → (padLen skb + d.padding) % 2 ^ 32 ≤ pktLen skb := by
  rcases hv : verdict d skb with _ | _ | net
  · have hqueued : (iteration d skb).queued = none := by rw [iteration, hv]
    simp [hqueued]
  · have hqueued : (iteration d skb).queued = none := by rw [iteration, hv]
    simp [hqueued]
  · have hlength := length_of_parse hv
    have hskb : skbLen d skb < 2 ^ 32 := Nat.mod_lt _ (by decide)
    have hpkt : pktLen skb < 2 ^ 16 := be16_lt skb 2
    have hinside := toInt32_inside_iff hskb hpkt
    rcases hp : protocolOf (u8 skb (hdrSize skb)) with _ | protocol
    · have hqueued : (iteration d skb).queued = none := by
        rw [iteration, hv]
        dsimp only
        rw [hp]
      simp [hqueued]
    · by_cases halloc : d.alloc skb.length
      · have hqueued : (iteration d skb).queued = some (packet d net skb protocol) := by
          rw [iteration, hv]
          dsimp only
          rw [hp]
          dsimp only
          rw [if_pos halloc]
        rw [hqueued, ← skbLen_le_iff, ← hinside]
        constructor
        · intro h _ _ _ _
          obtain ⟨h0, -, hle, -⟩ := h _ rfl
          have hlen : (packet d net skb protocol).length = toInt32 (skbLen d skb) := rfl
          have hoff : (packet d net skb protocol).offset = hdrSize skb := rfl
          rw [hlen] at h0 hle
          rw [hoff] at hle
          exact ⟨h0, by omega⟩
        · intro h p hpacket
          obtain rfl := Option.some.inj hpacket
          have hlen : (packet d net skb protocol).length = toInt32 (skbLen d skb) := rfl
          have hoff : (packet d net skb protocol).offset = hdrSize skb := rfl
          obtain ⟨h0, hle⟩ := h net rfl rfl halloc
          rw [hlen, hoff]
          exact ⟨h0, Nat.le_refl _, by omega, by omega⟩
      · have hqueued : (iteration d skb).queued = none := by
          rw [iteration, hv]
          dsimp only
          rw [hp]
          dsimp only
          rw [if_neg halloc]
        simp [hqueued, halloc]

theorem Reaches.length_lt (h : Reaches d skb skb') : sizeofMapHeader < skb'.length := by
  induction h with
  | here h => exact h
  | next _ _ _ ih => exact ih

/-- Where the loop comes to, it ends if it ends. -/
theorem Reaches.ends (h : Reaches d skb skb')
    (hend : ∃ fuel, (qmapPacketDecode d fuel skb).isSome) :
    ∃ fuel, (qmapPacketDecode d fuel skb').isSome := by
  induction h with
  | here _ => exact hend
  | @next skb skb' len hlen hpull _ ih =>
    refine ih ?_
    obtain ⟨fuel, hsome⟩ := hend
    cases fuel with
    | zero => exact absurd hsome (by simp [qmapPacketDecode])
    | succ fuel =>
      refine ⟨fuel, ?_⟩
      unfold qmapPacketDecode at hsome
      rw [if_neg (Nat.not_le.2 hlen), hpull] at hsome
      simpa using hsome

/-- A packet for an interface that is not there, longer than what is left, is never got past. -/
theorem not_ends_of_orphan (hlen : sizeofMapHeader < skb.length) (hmux : muxId skb < d.qmapMode)
    (hnone : d.mpQmapNetDev (muxId skb) = none) (hlong : skb.length < pktLen skb + hdrSize skb)
    (fuel : ℕ) : qmapPacketDecode d fuel skb = none := by
  have hskip : verdict d skb = .skip := by
    unfold verdict
    rw [if_neg (by omega), hnone]
  have hpull : (iteration d skb).pull = some (pktLen skb + hdrSize skb) := by
    rw [iteration, hskip]
  induction fuel with
  | zero => rfl
  | succ fuel ih =>
    unfold qmapPacketDecode
    rw [if_neg (Nat.not_le.2 hlen), hpull]
    dsimp only
    rw [skbPull, if_neg (Nat.not_le.2 hlong), ih]
    rfl

theorem ends_of_sound (h : ∀ skb', Reaches d skb skb' → Sound d skb') :
    ∃ fuel, (qmapPacketDecode d fuel skb).isSome := by
  -- on the length of what is left
  induction hn : skb.length using Nat.strongRecOn generalizing skb with
  | ind n ih =>
    by_cases hlen : skb.length ≤ sizeofMapHeader
    · exact ⟨1, by simp [qmapPacketDecode, hlen]⟩
    · have hlen' : sizeofMapHeader < skb.length := Nat.not_le.1 hlen
      rcases hpull : (iteration d skb).pull with _ | len
      · exact ⟨1, by simp [qmapPacketDecode, hlen, hpull]⟩
      · obtain ⟨hpos, hle⟩ := pull_le (h skb (.here hlen')) hpull
        have hshort := length_skbPull hpos hle
        obtain ⟨fuel, hsome⟩ := ih _ (by omega) (fun skb' hr => h skb' (.next hlen' hpull hr)) rfl
        refine ⟨fuel + 1, ?_⟩
        unfold qmapPacketDecode
        rw [if_neg hlen, hpull]
        simpa using hsome

/-- The loop ends, reads within `skb_in` and copies within the packets exactly if every header it
comes to is sound. -/
theorem inBounds_iff (d : Dev) (skb : Bytes) :
    InBounds d skb ↔ ∀ skb', Reaches d skb skb' → Sound d skb' := by
  constructor
  · intro h skb' hr
    refine ⟨fun hmux hnone => ?_, (reads_iff hr.length_lt).1 (h.reads skb' hr),
      copies_iff.1 (h.copies skb' hr)⟩
    by_contra hlong
    obtain ⟨fuel, hsome⟩ := hr.ends h.ends
    rw [not_ends_of_orphan hr.length_lt hmux hnone (Nat.not_le.1 hlong) fuel] at hsome
    exact absurd hsome Bool.false_ne_true
  · intro h
    exact ⟨ends_of_sound h, fun skb' hr => (reads_iff hr.length_lt).2 (h skb' hr).empty,
      fun skb' hr => copies_iff.2 (h skb' hr).padding⟩

/-- One interface is expected and none is registered. -/
def noDevice : Dev := ⟨1, 5, 0, fun _ => none, fun _ => true⟩

/-- A packet of 65535 bytes is announced and one byte of it is there: the loop does not end. -/
theorem not_inBounds_noDevice : ¬ InBounds noDevice [0x00, 0x81, 0xFF, 0xFF, 0x45] := by
  intro h
  obtain ⟨fuel, hsome⟩ := h.ends
  rw [not_ends_of_orphan (by decide) (by decide) rfl (by decide) fuel] at hsome
  exact absurd hsome Bool.false_ne_true

end Qmap

end BananaWrt
