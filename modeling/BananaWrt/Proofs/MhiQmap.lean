import BananaWrt.MhiQmap
import BananaWrt.Proofs.QmapDecode

/-!
# The QMAP receive loop of the PCIe driver

A packet for an interface that is not registered is pulled before its length is checked, a flow
command is carried out and copied whatever its length is, and a data packet without a payload is
judged by the byte behind it. Where the loop comes to no such packet it is in bounds, ends, and
queues what `Delivers` says; where it does, it fails one of these (`right_iff_sound`).
-/

namespace BananaWrt

namespace Rmnet

open Bytes Qmap

variable {d : Dev} {skb skb' : Bytes} {alloc : ℕ → Bool}

@[simp] theorem verdict_withAlloc :
    verdict (d.withAlloc alloc).toDev skb = verdict d.toDev skb := rfl

@[simp] theorem mpQmapNetDev_withAlloc :
    (d.withAlloc alloc).mpQmapNetDev = d.mpQmapNetDev := rfl

@[simp] theorem skbLen_withAlloc : skbLen (d.withAlloc alloc).toDev skb = skbLen d.toDev skb := rfl

@[simp] theorem alloc_withAlloc : (d.withAlloc alloc).alloc = alloc := rfl

theorem known_of_verdict (h : verdict d.toDev skb ≠ .error) : muxId skb < d.qmapMode := by
  by_contra hmux
  refine h ?_
  unfold verdict
  rw [if_pos (Nat.not_lt.1 hmux)]

theorem whole_of_verdict {net : NetDev} (hnet : d.mpQmapNetDev (muxId skb) = some net)
    (h : verdict d.toDev skb ≠ .error) : hdrSize skb + pktLen skb ≤ skb.length := by
  have := length_of_verdict hnet h
  omega

/-- What a packet that is not an error has passed, if its interface is there. -/
theorem verdict_of_some {net : NetDev} (hnet : d.mpQmapNetDev (muxId skb) = some net)
    (h : verdict d.toDev skb ≠ .error) :
    skbLen d.toDev skb ≤ net.mtu
      ∧ verdict d.toDev skb = if CdBit skb then .skip else .parse net := by
  have hmux := known_of_verdict h
  unfold verdict at h ⊢
  rw [if_neg (Nat.not_le.2 hmux), hnet] at h ⊢
  dsimp only at h ⊢
  split_ifs at h ⊢ with hmtu hlen hcd
  all_goals first
    | exact absurd rfl h
    | exact ⟨Nat.not_lt.1 hmtu, rfl⟩

theorem some_of_parse {net : NetDev} (h : verdict d.toDev skb = .parse net) :
    d.mpQmapNetDev (muxId skb) = some net ∧ ¬ CdBit skb := by
  have herr : verdict d.toDev skb ≠ .error := by
    rw [h]
    exact Verdict.noConfusion
  rcases hnet : d.mpQmapNetDev (muxId skb) with _ | net'
  · have hmux := known_of_verdict herr
    unfold verdict at h
    rw [if_neg (Nat.not_le.2 hmux), hnet] at h
    cases h
  · obtain ⟨-, heq⟩ := verdict_of_some hnet herr
    rw [h] at heq
    split_ifs at heq with hcd
    cases heq
    exact ⟨rfl, hcd⟩

/-- The command is for the interface that the packet is for. -/
theorem commandMux_eq (h : muxId skb < d.qmapMode) : commandMux skb = muxId skb := by
  have hbyte := u8_lt skb 1
  have height := d.le_eight
  unfold muxId QUECTEL_QMAP_MUX_ID at *
  unfold commandMux QUECTEL_QMAP_MUX_ID
  omega

/-- The reads of a command lie in what is left exactly if a flow command is all there. -/
theorem command_reads_iff (hlen : sizeofMapHeader < skb.length) {net : NetDev}
    (hmux : muxId skb < d.qmapMode) (hnet : d.mpQmapNetDev (muxId skb) = some net) :
    (∀ r ∈ (rmnetDataMapCommand d skb).reads, r.1 + r.2 ≤ skb.length)
      ↔ (commandName skb ∈ [RMNET_MAP_COMMAND_FLOW_ENABLE, RMNET_MAP_COMMAND_FLOW_DISABLE] →
          sizeofMapHeader + sizeofControlCommand ≤ skb.length) := by
  have hfour : 4 < skb.length := hlen
  have hsome : ¬ (d.qmapMode ≤ commandMux skb ∨ d.mpQmapNetDev (commandMux skb) = none) := by
    rw [commandMux_eq hmux, hnet]
    rintro (h | h)
    · exact absurd hmux (Nat.not_lt.2 h)
    · cases h
  have htwenty : sizeofMapHeader + sizeofControlCommand = 20 := rfl
  unfold rmnetDataMapCommand rmnetMapDoFlowControl
  simp only [if_neg hsome, List.mem_cons, List.not_mem_nil, or_false, htwenty]
  by_cases hflow : commandName skb = RMNET_MAP_COMMAND_FLOW_ENABLE
      ∨ commandName skb = RMNET_MAP_COMMAND_FLOW_DISABLE
  · rw [if_pos hflow]
    simp only [hflow, forall_const, true_and]
    constructor
    · intro h
      refine h (16, 4) ?_
      split_ifs <;> simp
    · intro h r hr
      split_ifs at hr <;> simp only [List.mem_append, List.mem_cons, List.not_mem_nil, or_false,
        sizeofMapHeader] at hr
      · rcases hr with (rfl | rfl | rfl | rfl | rfl) | rfl <;> dsimp only <;> omega
      · rcases hr with rfl | rfl | rfl | rfl | rfl <;> dsimp only <;> omega
  · rw [if_neg hflow]
    simp only [hflow, false_imp_iff, iff_true, List.mem_singleton, forall_eq]
    exact hfour

theorem hdrReads_inside (hlen : sizeofMapHeader < skb.length) :
    ∀ r ∈ hdrReads, r.1 + r.2 ≤ skb.length := by
  have hfour : 4 < skb.length := hlen
  unfold hdrReads
  simp only [List.mem_cons, List.not_mem_nil, or_false, forall_eq_or_imp, forall_eq]
  omega

/-- An iteration on a header that is sound reads what is left, whatever allocations succeed. -/
theorem reads_of_sound (hlen : sizeofMapHeader < skb.length) (h : Sound d skb)
    (alloc : ℕ → Bool) : ∀ r ∈ (iter (d.withAlloc alloc) skb).reads, r.1 + r.2 ≤ skb.length := by
  have hhdr := hdrReads_inside hlen
  have hcases := hdrSize_cases skb
  unfold iter
  rw [verdict_withAlloc]
  rcases hv : verdict d.toDev skb with _ | _ | net
  · exact hhdr
  · rw [mpQmapNetDev_withAlloc]
    have herr : verdict d.toDev skb ≠ .error := by
      rw [hv]
      exact Verdict.noConfusion
    rcases hnet : d.mpQmapNetDev (muxId skb) with _ | net
    · exact hhdr
    · intro r hr
      rcases List.mem_append.1 hr with hr | hr
      · exact hhdr r hr
      · exact (command_reads_iff (d := d.withAlloc alloc) hlen (known_of_verdict herr) hnet).2
          (h.command net hnet hv) r hr
  · have herr : verdict d.toDev skb ≠ .error := by
      rw [hv]
      exact Verdict.noConfusion
    have hwhole := whole_of_verdict (some_of_parse hv).1 herr
    have hfirst := h.first net hv
    dsimp only
    rcases hp : protocolOf (u8 skb (hdrSize skb)) with _ | protocol <;> dsimp only
    · intro r hr
      rcases List.mem_append.1 hr with hr | hr
      · exact hhdr r hr
      · rw [List.mem_singleton.1 hr]
        exact hfirst
    · obtain ⟨-, hle⟩ := h.payload net hv (by rw [hp]; rfl)
      have hul : ∀ r ∈ ulReads skb, r.1 + r.2 ≤ skb.length := by
        unfold ulReads
        split_ifs with hnext hcsum <;> intro r hr <;>
          simp only [List.mem_cons, List.not_mem_nil, or_false] at hr
        · rcases hcases with ⟨-, h8⟩ | ⟨hno, -⟩
          · rcases hr with rfl | rfl <;> dsimp only <;> omega
          · exact absurd hnext hno
        · rcases hcases with ⟨-, h8⟩ | ⟨hno, -⟩
          · rw [hr]
            dsimp only
            omega
          · exact absurd hnext hno
      rw [alloc_withAlloc, skbLen_withAlloc]
      split_ifs
      · intro r hr
        rcases List.mem_append.1 hr with hr | hr
        · rcases List.mem_append.1 hr with hr | hr
          · exact hhdr r hr
          · simp only [List.mem_cons, List.not_mem_nil, or_false] at hr
            rcases hr with rfl | rfl <;> dsimp only <;> omega
        · exact hul r hr
      · intro r hr
        rcases List.mem_append.1 hr with hr | hr
        · exact hhdr r hr
        · rw [List.mem_singleton.1 hr]
          exact hfirst

/-- An iteration that reads what is left only has found the whole of a flow command, or the first
byte of a data packet. -/
theorem sound_of_reads (hlen : sizeofMapHeader < skb.length)
    (h : ∀ r ∈ (iter (d.withAlloc alloc) skb).reads, r.1 + r.2 ≤ skb.length) :
    (∀ net, d.mpQmapNetDev (muxId skb) = some net → verdict d.toDev skb = .skip →
      commandName skb ∈ [RMNET_MAP_COMMAND_FLOW_ENABLE, RMNET_MAP_COMMAND_FLOW_DISABLE] →
        sizeofMapHeader + sizeofControlCommand ≤ skb.length)
      ∧ ∀ net, verdict d.toDev skb = .parse net → hdrSize skb < skb.length := by
  unfold iter at h
  rw [verdict_withAlloc, mpQmapNetDev_withAlloc] at h
  refine ⟨fun net hnet hv => ?_, fun net hv => ?_⟩
  · rw [hv, hnet] at h
    have herr : verdict d.toDev skb ≠ .error := by
      rw [hv]
      exact Verdict.noConfusion
    exact (command_reads_iff (d := d.withAlloc alloc) hlen (known_of_verdict herr) hnet).1
      fun r hr => h r (List.mem_append_right _ hr)
  · rw [hv] at h
    dsimp only at h
    refine h (hdrSize skb, 1) ?_
    split
    · simp
    · split_ifs <;> simp

/-- How far an iteration pulls, if it goes on. -/
theorem pull_eq {len : ℕ} (h : (iter (d.withAlloc alloc) skb).pull = some len) :
    len = pktLen skb + hdrSize skb ∧ verdict d.toDev skb ≠ .error := by
  unfold iter at h
  rw [verdict_withAlloc, mpQmapNetDev_withAlloc] at h
  split at h
  · cases h
  · rename_i hv
    split at h <;> cases h <;> exact ⟨rfl, by rw [hv]; exact Verdict.noConfusion⟩
  · rename_i net hv
    split at h
    · cases h
    · split_ifs at h
      cases h
      exact ⟨rfl, by rw [hv]; exact Verdict.noConfusion⟩

/-- Where an iteration goes on, it does with every allocation. -/
theorem pull_withAlloc {len : ℕ} (h : (iter (d.withAlloc alloc) skb).pull = some len) :
    (iter (d.withAlloc fun _ => true) skb).pull = some len := by
  obtain ⟨rfl, -⟩ := pull_eq h
  unfold iter at h ⊢
  rw [verdict_withAlloc, mpQmapNetDev_withAlloc] at h ⊢
  split at h
  · cases h
  · split <;> rfl
  · split at h
    · cases h
    · rw [alloc_withAlloc, if_pos rfl]

/-- What is pulled off a header that is sound is there. -/
theorem pull_le_of_sound (hs : Sound d skb) {len : ℕ}
    (h : (iter (d.withAlloc alloc) skb).pull = some len) : 4 ≤ len ∧ len ≤ skb.length := by
  have hfour := four_le_hdrSize skb
  obtain ⟨rfl, herr⟩ := pull_eq h
  refine ⟨by omega, ?_⟩
  rcases hnet : d.mpQmapNetDev (muxId skb) with _ | net
  · exact hs.orphan (known_of_verdict herr) hnet
  · have := whole_of_verdict hnet herr
    omega

/-- On a header that is sound, an iteration goes on exactly if the packet is well formed. -/
theorem wellFormed_iff (hs : Sound d skb) :
    WellFormed d skb ↔ (iter (d.withAlloc fun _ => true) skb).pull
      = some (pktLen skb + hdrSize skb) := by
  constructor
  · intro h
    have herr : verdict d.toDev skb ≠ .error := by
      unfold verdict
      rw [if_neg (Nat.not_le.2 h.known)]
      rcases hnet : d.mpQmapNetDev (muxId skb) with _ | net
      · exact Verdict.noConfusion
      · have hfits := h.fits net hnet
        have hwhole := h.whole
        dsimp only
        rw [if_neg (Nat.not_lt.2 hfits), if_neg (by omega)]
        split_ifs <;> exact Verdict.noConfusion
    unfold iter
    rw [verdict_withAlloc, mpQmapNetDev_withAlloc]
    rcases hv : verdict d.toDev skb with _ | _ | net
    · exact absurd hv herr
    · dsimp only
      split <;> rfl
    · obtain ⟨hnet, hcd⟩ := some_of_parse hv
      obtain ⟨-, -, hproto⟩ := h.data (by rw [hnet]; exact Option.some_ne_none _) hcd
      obtain ⟨protocol, hp⟩ := Option.isSome_iff_exists.1 hproto
      dsimp only
      rw [hp]
      dsimp only
      rw [alloc_withAlloc, if_pos rfl]
  · intro h
    obtain ⟨-, herr⟩ := pull_eq h
    have hknown := known_of_verdict herr
    obtain ⟨-, hwhole⟩ := pull_le_of_sound hs h
    refine ⟨by omega, hknown, fun net hnet => (verdict_of_some hnet herr).1, fun hne hcd => ?_⟩
    obtain ⟨net, hnet⟩ := Option.ne_none_iff_exists'.1 hne
    have hv := (verdict_of_some hnet herr).2
    rw [if_neg hcd] at hv
    have hproto : (protocolOf (u8 skb (hdrSize skb))).isSome := by
      by_contra hnot
      unfold iter at h
      rw [verdict_withAlloc, hv] at h
      dsimp only at h
      rw [Option.not_isSome_iff_eq_none.1 hnot] at h
      cases h
    obtain ⟨hpos, hle⟩ := hs.payload net hv hproto
    exact ⟨hpos, hle, hproto⟩

/-- What an iteration that goes on queues. -/
theorem pkt_of_pull (h : (iter (d.withAlloc fun _ => true) skb).pull
      = some (pktLen skb + hdrSize skb)) :
    (iter (d.withAlloc fun _ => true) skb).pkt.toList = dataOf d skb := by
  obtain ⟨-, herr⟩ := pull_eq h
  unfold dataOf
  unfold iter at h ⊢
  rw [verdict_withAlloc, mpQmapNetDev_withAlloc] at h ⊢
  rcases hv : verdict d.toDev skb with _ | _ | net
  · exact absurd hv herr
  · dsimp only
    rcases hnet : d.mpQmapNetDev (muxId skb) with _ | net
    · rfl
    · have heq := (verdict_of_some hnet herr).2
      rw [hv] at heq
      split_ifs at heq with hcd
      dsimp only
      rw [if_pos hcd]
      unfold rmnetDataMapCommand
      dsimp only
      split_ifs <;> rfl
  · obtain ⟨hnet, hcd⟩ := some_of_parse hv
    rw [hv] at h
    dsimp only at h ⊢
    rw [hnet]
    dsimp only
    rw [if_neg hcd]
    rcases hp : protocolOf (u8 skb (hdrSize skb)) with _ | protocol
    · rw [hp] at h
      cases h
    · dsimp only
      rw [alloc_withAlloc, if_pos rfl]
      rfl

theorem filterMap_of_pull (h : (iter (d.withAlloc fun _ => true) skb).pull
      = some (pktLen skb + hdrSize skb)) (its : List Iter) :
    (iter (d.withAlloc fun _ => true) skb :: its).filterMap Iter.pkt
      = dataOf d skb ++ its.filterMap Iter.pkt := by
  rw [← pkt_of_pull h]
  rcases hpkt : (iter (d.withAlloc fun _ => true) skb).pkt with _ | pkt <;> simp [hpkt]

/-- An iteration that leaves the loop queues nothing. -/
theorem pkt_of_pull_eq_none (h : (iter (d.withAlloc alloc) skb).pull = none) :
    (iter (d.withAlloc alloc) skb).pkt = none := by
  unfold iter at h ⊢
  split
  · rfl
  · rename_i hv
    rw [hv] at h
    dsimp only at h
    split at h <;> cases h
  · rename_i net hv
    rw [hv] at h
    dsimp only at h ⊢
    split
    · rfl
    · rename_i hp
      rw [hp] at h
      dsimp only at h
      split_ifs at h ⊢
      rfl

theorem Delivers.of_wellFormed {pkts : List Mbim.Packet} (hd : Delivers d skb pkts)
    (hlen : sizeofMapHeader < skb.length) (h : WellFormed d skb) :
    ∃ rest, Delivers d (skb.drop (pktLen skb + hdrSize skb)) rest ∧ pkts = dataOf d skb ++ rest := by
  cases hd with
  | stop hnot => exact absurd ⟨hlen, h⟩ hnot
  | packet _ _ hrest => exact ⟨_, hrest, rfl⟩

theorem Delivers.of_not {pkts : List Mbim.Packet} (hd : Delivers d skb pkts)
    (h : ¬ WellFormed d skb) : pkts = [] := by
  cases hd with
  | stop => rfl
  | packet _ hwf _ => exact absurd hwf h

theorem handler_of_short (hlen : ¬ sizeofMapHeader < skb.length) (fuel : ℕ) :
    rmnetQmiRxHandler d (fuel + 1) skb = some [] := by
  unfold rmnetQmiRxHandler
  rw [if_pos (Nat.not_lt.1 hlen)]

theorem handler_of_none (hlen : sizeofMapHeader < skb.length) (h : (iter d skb).pull = none)
    (fuel : ℕ) : rmnetQmiRxHandler d (fuel + 1) skb = some [iter d skb] := by
  unfold rmnetQmiRxHandler
  rw [if_neg (Nat.not_le.2 hlen), h]

theorem handler_of_pull (hlen : sizeofMapHeader < skb.length) {len : ℕ}
    (h : (iter d skb).pull = some len) (fuel : ℕ) :
    rmnetQmiRxHandler d (fuel + 1) skb
      = (rmnetQmiRxHandler d fuel (skbPull skb len)).map (iter d skb :: ·) := by
  rw [rmnetQmiRxHandler, if_neg (Nat.not_le.2 hlen), h]

theorem Reaches.length_lt (h : Reaches d skb skb') : sizeofMapHeader < skb'.length := by
  induction h with
  | here h => exact h
  | next _ _ _ ih => exact ih

/-- Where the loop comes to, it comes to with every allocation. -/
theorem Reaches.withAlloc (h : Reaches (d.withAlloc alloc) skb skb') :
    Reaches (d.withAlloc fun _ => true) skb skb' := by
  induction h with
  | here h => exact .here h
  | next hlen hpull _ ih => exact .next hlen (pull_withAlloc hpull) ih

theorem ends_of_sound_headers (alloc : ℕ → Bool)
    (h : ∀ skb', Reaches (d.withAlloc fun _ => true) skb skb' → Sound d skb') :
    ∃ fuel, (rmnetQmiRxHandler (d.withAlloc alloc) fuel skb).isSome := by
  -- on the length of what is left
  induction hn : skb.length using Nat.strongRecOn generalizing skb with
  | ind n ih =>
    by_cases hlen : sizeofMapHeader < skb.length
    · rcases hpull : (iter (d.withAlloc alloc) skb).pull with _ | len
      · exact ⟨1, by rw [handler_of_none hlen hpull]; rfl⟩
      · obtain ⟨hpos, hle⟩ := pull_le_of_sound (h skb (.here hlen)) hpull
        have hshort := length_skbPull hpos hle
        obtain ⟨fuel, hsome⟩ := ih _ (by omega)
          (fun skb' hr => h skb' (.next hlen (pull_withAlloc hpull) hr)) rfl
        refine ⟨fuel + 1, ?_⟩
        rw [handler_of_pull hlen hpull]
        simpa using hsome
    · exact ⟨1, by rw [handler_of_short hlen]; rfl⟩

theorem delivers_of_sound_headers : ∀ {fuel : ℕ} {skb : Bytes} {its : List Iter},
    (∀ skb', Reaches (d.withAlloc fun _ => true) skb skb' → Sound d skb') →
      rmnetQmiRxHandler (d.withAlloc fun _ => true) fuel skb = some its →
        Delivers d skb (its.filterMap Iter.pkt)
  | 0, _, _, _, hits => by cases hits
  | fuel + 1, skb, its, h, hits => by
    by_cases hlen : sizeofMapHeader < skb.length
    · have hs := h skb (.here hlen)
      rcases hpull : (iter (d.withAlloc fun _ => true) skb).pull with _ | len
      · rw [handler_of_none hlen hpull] at hits
        cases hits
        have hwf : ¬ WellFormed d skb := by
          rw [wellFormed_iff hs, hpull]
          exact (Option.some_ne_none _).symm
        simpa [pkt_of_pull_eq_none hpull] using Delivers.stop fun hnot => hwf hnot.2
      · obtain ⟨rfl, -⟩ := pull_eq hpull
        obtain ⟨-, hle⟩ := pull_le_of_sound hs hpull
        have hdrop : skbPull skb (pktLen skb + hdrSize skb)
            = skb.drop (pktLen skb + hdrSize skb) := if_pos hle
        rw [handler_of_pull hlen hpull] at hits
        obtain ⟨rest, hrest, rfl⟩ := Option.map_eq_some_iff.1 hits
        have ih := delivers_of_sound_headers (fun skb' hr => h skb' (.next hlen hpull hr)) hrest
        rw [hdrop] at ih
        rw [filterMap_of_pull hpull]
        exact .packet hlen ((wellFormed_iff hs).2 hpull) ih
    · rw [handler_of_short hlen] at hits
      cases hits
      exact .stop fun hnot => hlen hnot.1

/-- What is pulled and is not there leaves everything as it was. -/
theorem handler_eq_none (hlen : sizeofMapHeader < skb.length) {len : ℕ}
    (hpull : (iter d skb).pull = some len) (hlong : skb.length < len) (fuel : ℕ) :
    rmnetQmiRxHandler d fuel skb = none := by
  induction fuel with
  | zero => rfl
  | succ fuel ih =>
    rw [handler_of_pull hlen hpull, skbPull, if_neg (Nat.not_le.2 hlong), ih]
    rfl

/-- With every allocation. -/
structure RightAll (d : Dev) (skb : Bytes) : Prop where
  inBounds : InBounds (d.withAlloc fun _ => true) skb
  delivers : ∀ fuel its, rmnetQmiRxHandler (d.withAlloc fun _ => true) fuel skb = some its →
    Delivers d skb (its.filterMap Iter.pkt)

/-- The loop that is right has come to a header that is sound. -/
theorem RightAll.sound (h : RightAll d skb) (hlen : sizeofMapHeader < skb.length) :
    Sound d skb := by
  obtain ⟨hcommand, hfirst⟩ := sound_of_reads hlen (h.inBounds.reads skb (.here hlen))
  obtain ⟨fuel, hends⟩ := h.inBounds.ends
  obtain ⟨its, hits⟩ := Option.isSome_iff_exists.1 hends
  refine ⟨fun hmux hnone => ?_, hcommand, hfirst, fun net hv hproto => ?_⟩
  · -- otherwise the loop does not end
    by_contra hlong
    have hskip : verdict d.toDev skb = .skip := by
      unfold verdict
      rw [if_neg (Nat.not_le.2 hmux), hnone]
    have hpull : (iter (d.withAlloc fun _ => true) skb).pull
        = some (pktLen skb + hdrSize skb) := by
      unfold iter
      rw [verdict_withAlloc, hskip, mpQmapNetDev_withAlloc, hnone]
    rw [handler_eq_none hlen hpull (Nat.not_le.1 hlong) fuel] at hits
    cases hits
  · -- otherwise the packet is queued, and is not well formed
    by_contra hbad
    obtain ⟨hnet, hcd⟩ := some_of_parse hv
    obtain ⟨protocol, hp⟩ := Option.isSome_iff_exists.1 hproto
    have hwf : ¬ WellFormed d skb := fun hwf =>
      let hdata := hwf.data (by rw [hnet]; exact Option.some_ne_none _) hcd
      hbad ⟨hdata.1, hdata.2.1⟩
    have hempty := (h.delivers fuel its hits).of_not hwf
    have hiter : (iter (d.withAlloc fun _ => true) skb).pull = some (pktLen skb + hdrSize skb)
        ∧ (iter (d.withAlloc fun _ => true) skb).pkt = some (packet d net skb protocol) := by
      unfold iter
      rw [verdict_withAlloc, hv]
      dsimp only
      rw [hp]
      dsimp only
      rw [alloc_withAlloc, if_pos rfl]
      exact ⟨rfl, rfl⟩
    cases fuel with
    | zero => cases hits
    | succ fuel =>
      rw [handler_of_pull hlen hiter.1] at hits
      obtain ⟨rest, -, rfl⟩ := Option.map_eq_some_iff.1 hits
      rw [List.filterMap_cons, hiter.2] at hempty
      cases hempty

/-- The loop that is right is right on what it goes on with. -/
theorem RightAll.next (h : RightAll d skb) (hlen : sizeofMapHeader < skb.length) {len : ℕ}
    (hpull : (iter (d.withAlloc fun _ => true) skb).pull = some len) :
    RightAll d (skbPull skb len) := by
  have hs := h.sound hlen
  obtain ⟨-, hle⟩ := pull_le_of_sound hs hpull
  obtain ⟨fuel, hends⟩ := h.inBounds.ends
  refine ⟨⟨?_, fun skb' hr => h.inBounds.reads skb' (.next hlen hpull hr)⟩,
    fun fuel its hits => ?_⟩
  · cases fuel with
    | zero => cases hends
    | succ fuel =>
      rw [handler_of_pull hlen hpull] at hends
      exact ⟨fuel, by simpa using hends⟩
  · have hall := h.delivers (fuel + 1) (iter (d.withAlloc fun _ => true) skb :: its) (by
      rw [handler_of_pull hlen hpull, hits]
      rfl)
    obtain ⟨rfl, -⟩ := pull_eq hpull
    obtain ⟨rest, hrest, heq⟩ := hall.of_wellFormed hlen ((wellFormed_iff hs).2 hpull)
    rw [filterMap_of_pull hpull] at heq
    rw [List.append_cancel_left heq, skbPull, if_pos hle]
    exact hrest

theorem RightAll.sound_reaches (hr : Reaches (d.withAlloc fun _ => true) skb skb') :
    RightAll d skb → Sound d skb' := by
  induction hr with
  | here hlen => exact fun h => h.sound hlen
  | next hlen hpull _ ih => exact fun h => ih (h.next hlen hpull)

/-- The loop ends, is in bounds and queues what it should exactly if, with every allocation, each
header that it comes to is sound. -/
theorem right_iff_sound (d : Dev) (skb : Bytes) :
    Right d skb ↔ ∀ skb', Reaches (d.withAlloc fun _ => true) skb skb' → Sound d skb' := by
  constructor
  · intro h skb' hr
    exact RightAll.sound_reaches hr ⟨h.inBounds fun _ => true, h.delivers⟩
  · intro h
    refine ⟨fun alloc => ⟨ends_of_sound_headers alloc h, fun skb' hr => ?_⟩,
      fun fuel its hits => delivers_of_sound_headers h hits⟩
    exact reads_of_sound hr.length_lt (h skb' hr.withAlloc) alloc

theorem one_le_eight : 1 ≤ 8 := Nat.le_add_left 1 7

/-- One interface is expected, and registered or not. -/
def devOf (net : Option NetDev) : Dev where
  qmapMode := 1
  qmapVersion := 5
  dlMinimumPadding := 0
  mpQmapNetDev _ := net
  alloc _ := true
  le_eight := one_le_eight

def net1500 : NetDev := ⟨1500, none⟩

/-- A packet without an interface that is cut short; a flow command without its parameters; a packet
without a payload at the end of what there is, and one before a byte like that of an IP packet. -/
theorem qmap_wrong :
    ¬ Right (devOf none) [0x00, 0x81, 0xFF, 0xFF, 0x45]
      ∧ ¬ Right (devOf (some net1500)) [0x80, 0x81, 0x00, 0x04, 0x02, 0x00, 0x00, 0x00]
      ∧ ¬ Right (devOf (some net1500)) [0x40, 0x81, 0x00, 0x00, 0x00, 0x00, 0x00, 0x00]
      ∧ ¬ Right (devOf (some net1500)) [0x00, 0x81, 0x00, 0x00, 0x45] := by
  have hsound {d : Dev} {skb : Bytes} (hlen : sizeofMapHeader < skb.length) (h : Right d skb) :
      Sound d skb := RightAll.sound ⟨h.inBounds fun _ => true, h.delivers⟩ hlen
  refine ⟨fun h => ?_, fun h => ?_, fun h => ?_, fun h => ?_⟩
  · exact absurd ((hsound (by decide) h).orphan (by decide) rfl) (by decide)
  · exact absurd ((hsound (by decide) h).command net1500 rfl (by decide) (by decide)) (by decide)
  · exact absurd ((hsound (by decide) h).first net1500 (by decide)) (by decide)
  · exact absurd ((hsound (by decide) h).payload net1500 (by decide) (by decide)).1 (by decide)

end Rmnet

end BananaWrt
