import BananaWrt.UlXmit
import BananaWrt.Proofs.UlAgg

/-!
# What fits into the aggregation buffer

A packet that is put into an `agg_skb` that is there has been compared with `max_size`; one that is
put into a new `agg_skb` has not. So every packet within the MTU has to fit with its header, and if
one does not fit, it can be the first (`neverOverfills_iff`).
-/

namespace BananaWrt

namespace UlAgg

open Bytes Qmap

theorem padded_le (skb : Skb) : skb.data.length + skb.pad ≤ (skb.data.length + 3) / 4 * 4 := by
  unfold Skb.pad
  dsimp only
  split_ifs <;> omega

theorem padded_eq {skb : Skb} (h : 3 ≤ skb.tail.length) :
    skb.data.length + skb.pad = (skb.data.length + 3) / 4 * 4 := by
  unfold Skb.pad
  dsimp only
  split_ifs <;> omega

theorem length_addQhdr (skb : Skb) (muxId : ℕ) :
    (addQhdr skb muxId).length = 4 + (skb.data.length + skb.pad) := by
  simp only [addQhdr, ofBe16, List.length_append, List.length_cons, List.length_nil, length_padded]

theorem length_addQhdrV5 (skb : Skb) (muxId : ℕ) :
    (addQhdrV5 skb muxId).length = 8 + (skb.data.length + skb.pad) := by
  simp only [addQhdrV5, ofBe16, List.length_append, List.length_cons, List.length_nil,
    length_padded]

variable {net : NetDev} {mtu : ℕ}

/-- What becomes of a packet without its Ethernet header. -/
theorem framed {stopped bridged : Bool} {skb : Skb} {protocol : ℕ} {p : Packet}
    (h : rmnetVndStartXmit net stopped bridged skb protocol = some p) :
    ∃ ip : Skb, ip.data.length + (if net.ether then ETH_HLEN else 0) = skb.data.length
      ∧ ∃ hdr ∈ headerLen net, p.data.length = hdr + (ip.data.length + ip.pad) := by
  unfold rmnetVndStartXmit at h
  rw [Option.ite_none_left_eq_some] at h
  obtain ⟨ip, hip, h⟩ := Option.bind_eq_some_iff.1 h.2
  refine ⟨ip, ?_, ?_⟩
  · split_ifs at hip with hether hbridged
    · unfold skbPull at hip
      split_ifs at hip with hlen
      cases hip
      rw [if_pos hether, List.length_drop]
      omega
    · cases hip
      rw [if_neg hether]
      rfl
  · dsimp only at h
    unfold headerLen
    split_ifs at h with h5 h9
    · cases h
      exact ⟨4, by rw [if_pos h5]; rfl, length_addQhdr ip net.muxId⟩
    · cases h
      exact ⟨8, by rw [if_neg h5, if_pos h9]; rfl, length_addQhdrV5 ip net.muxId⟩

theorem length_le {maxDatagrams maxSize : UInt32} {p : Packet} {xmitMore : Bool}
    (h : Sends net mtu maxDatagrams maxSize (.txAgg p xmitMore)) :
    ∃ hdr ∈ headerLen net, p.data.length ≤ hdr + (mtu + 3) / 4 * 4 := by
  obtain ⟨stopped, bridged, skb, protocol, hlen, hxmit⟩ := h
  obtain ⟨ip, hip, hdr, hhdr, hp⟩ := framed hxmit
  have hpad := padded_le ip
  exact ⟨hdr, hhdr, by omega⟩

/-- The packet of the MTU with room for the padding behind it. -/
def longest (net : NetDev) (mtu : ℕ) : Skb where
  data := List.replicate (mtu + if net.ether then ETH_HLEN else 0) 0
  tail := [0, 0, 0]

theorem exists_longest {hdr : ℕ} (h : headerLen net = some hdr) :
    ∃ p, rmnetVndStartXmit net false false (longest net mtu) 0 = some p
      ∧ p.data.length = hdr + (mtu + 3) / 4 * 4 := by
  have hpulled :
      (if net.ether then if false = true then none else skbPull (longest net mtu) ETH_HLEN
      else some (longest net mtu)) = some ⟨List.replicate mtu 0, [0, 0, 0]⟩ := by
    unfold longest skbPull
    split_ifs with hether <;> simp_all
  have hlen := @padded_eq ⟨List.replicate mtu 0, [0, 0, 0]⟩ (Nat.le_refl 3)
  rw [List.length_replicate] at hlen
  unfold rmnetVndStartXmit
  rw [if_neg Bool.false_ne_true]
  dsimp only
  rw [hpulled, Option.bind_some]
  unfold headerLen at h
  split_ifs at h ⊢ with h5 h9
  · cases h
    refine ⟨_, rfl, (length_addQhdr _ net.muxId).trans ?_⟩
    rw [List.length_replicate, hlen]
  · cases h
    refine ⟨_, rfl, (length_addQhdrV5 _ net.muxId).trans ?_⟩
    rw [List.length_replicate, hlen]

variable {maxDatagrams maxSize : UInt32} {s s' : St}

theorem putFits_of_inv (h : Inv s) (i : Input) : PutFits s i := by
  cases i with
  | txAgg p xmitMore => trivial
  | aggWork now => trivial
  | settingStore n m => trivial
  | newPacket env =>
    intro c hc n hn
    have hsize := (h.call c hc).size
    unfold putLen at hn
    rcases hagg : s.priv.aggSkb with _ | agg
    · rw [hagg] at hn
      dsimp only at hn
      split_ifs at hn
      · cases hn
      · obtain ⟨_, -, rfl⟩ := Option.map_eq_some_iff.1 hn
        exact hsize
    · obtain ⟨-, -, hdata, -, hsmall⟩ := h.priv.agg agg hagg
      rw [hagg] at hn
      dsimp only at hn
      split_ifs at hn with hfits
      · cases hn
        -- neither length is near the end of 32 bits, so the sum that was compared is the sum
        exact Nat.le_of_lt ((ofNat_add_lt_iff (by omega)).1 hfits)
      · cases hn

/-- There is one settings record that may have been stored. -/
def Stored (maxDatagrams maxSize : UInt32) (s : St) : Prop :=
  s.ctx.maxDatagrams = 1 ∨ (1 < maxDatagrams ∧ s.ctx = ⟨maxDatagrams, maxSize⟩)

theorem ctx_step {i : Input} (hs : step s i = some s') :
    s'.ctx = s.ctx ∨ ∃ n m, i = .settingStore n m ∧ s'.ctx = qmaSettingStore s.ctx n m := by
  cases i with
  | txAgg p xmitMore =>
    simp only [step, Option.ite_none_left_eq_some] at hs
    obtain ⟨-, hs⟩ := hs
    cases hs
    refine .inl ?_
    unfold St.txAgg
    split_ifs <;> rfl
  | newPacket env =>
    simp only [step, Option.ite_none_left_eq_some] at hs
    obtain ⟨c, -, rfl⟩ := Option.map_eq_some_iff.1 hs.2
    refine .inl ?_
    unfold St.newPacket
    split <;> rfl
  | aggWork now =>
    simp only [step, Option.ite_none_left_eq_some] at hs
    cases hs.2
    exact .inl rfl
  | settingStore n m =>
    simp only [step, Option.ite_none_left_eq_some] at hs
    cases hs.2
    exact .inr ⟨n, m, rfl, rfl⟩

theorem stored_step {i : Input} (h : Stored maxDatagrams maxSize s)
    (hi : Sends net mtu maxDatagrams maxSize i) (hs : step s i = some s') :
    Stored maxDatagrams maxSize s' := by
  unfold Stored at h ⊢
  rcases ctx_step hs with hctx | ⟨n, m, rfl, hctx⟩
  · rw [hctx]
    exact h
  · obtain ⟨rfl, rfl⟩ := hi
    rw [hctx]
    unfold qmaSettingStore
    split_ifs with hset
    · exact .inr ⟨hset.2, rfl⟩
    · exact h

/-- Every packet fits. -/
theorem enters_of_room {hdr : ℕ} (hhdr : headerLen net = some hdr)
    (hroom : hdr + (mtu + 3) / 4 * 4 ≤ maxSize.toNat) (h : Stored maxDatagrams maxSize s)
    {i : Input} (hi : Sends net mtu maxDatagrams maxSize i) : Enters s i := by
  cases i with
  | newPacket env => trivial
  | aggWork now => trivial
  | settingStore n m => trivial
  | txAgg p xmitMore =>
    intro hon
    obtain ⟨hdr', hhdr', hlen⟩ := length_le hi
    cases hhdr.symm.trans hhdr'
    obtain ⟨-, hctx⟩ := h.resolve_left hon
    rw [hctx]
    exact Nat.le_trans hlen hroom

theorem neverOverfills_of_room {hdr : ℕ} (hhdr : headerLen net = some hdr)
    (hroom : hdr + (mtu + 3) / 4 * 4 ≤ maxSize.toNat) :
    NeverOverfills net mtu maxDatagrams maxSize := by
  intro now is his
  have hstep : ∀ s i s', Inv s ∧ Stored maxDatagrams maxSize s →
      Sends net mtu maxDatagrams maxSize i → step s i = some s' →
      Inv s' ∧ Stored maxDatagrams maxSize s' := fun s i s' ⟨hinv, hstored⟩ hi hs =>
    ⟨inv_step s i s' hinv (enters_of_room hhdr hroom hstored hi) hs, stored_step hstored hi hs⟩
  have hinit : Inv (initial now) ∧ Stored maxDatagrams maxSize (initial now) :=
    ⟨inv_initial now, .inl rfl⟩
  refine ⟨Runs.meets_of_inv hstep (fun s i h _ => putFits_of_inv h.1 i) hinit
    (Runs.meets_of_forall his), fun s hs => ?_⟩
  exact (Runs.exec_inv hstep hinit (Runs.meets_of_forall his) hs).1.running

/-- No `agg_skb` can be had. -/
structure Unused (s : St) : Prop where
  running : s.panicked = false
  agg : s.priv.aggSkb = none
  call : s.call.isSome → s.ctx.maxDatagrams ≠ 1 ∧ 2 ^ 31 ≤ s.ctx.maxSize.toNat

theorem allocSkb_eq_none {size : UInt32} (h : 2 ^ 31 ≤ size.toNat) (extra : Option ℕ) :
    allocSkb size extra = none := if_neg (Nat.not_lt.2 h)

theorem putFits_of_unused (h : Unused s) (i : Input) : PutFits s i := by
  cases i with
  | txAgg p xmitMore => trivial
  | aggWork now => trivial
  | settingStore n m => trivial
  | newPacket env =>
    intro c hc n hn
    obtain ⟨-, hlarge⟩ := h.call (by rw [Option.mem_def.1 hc]; rfl)
    unfold putLen at hn
    rw [h.agg] at hn
    dsimp only at hn
    rw [allocSkb_eq_none hlarge] at hn
    split_ifs at hn <;> cases hn

theorem startSection_unused {ctx : TxAggCtx} {env : Env} {p : Packet} {xmitMore : Bool}
    {priv : Priv} (hagg : priv.aggSkb = none) (hlarge : 2 ^ 31 ≤ ctx.maxSize.toNat) :
    newPacket ctx env p xmitMore priv
      = some ⟨{ priv with aggTime := env.now }, some [p.data], false⟩ := by
  unfold newPacket
  split
  · rename_i agg hsome
    cases hagg.symm.trans hsome
  · unfold startSection
    dsimp only
    rw [allocSkb_eq_none hlarge]
    split_ifs <;> rfl

/-- The record turns no aggregation on, or asks for too much, or no packet gets through. -/
def Refuses (net : NetDev) (maxDatagrams maxSize : UInt32) : Prop :=
  maxDatagrams ≤ 1 ∨ 2 ^ 31 ≤ maxSize.toNat ∨ headerLen net = none

theorem unused_step (hrefuses : Refuses net maxDatagrams maxSize) (h : Unused s)
    (hstored : Stored maxDatagrams maxSize s) {i : Input}
    (hi : Sends net mtu maxDatagrams maxSize i) (hs : step s i = some s') : Unused s' := by
  cases i with
  | txAgg p xmitMore =>
    obtain ⟨hdr, hhdr, -⟩ := length_le hi
    simp only [step, Option.ite_none_left_eq_some] at hs
    obtain ⟨-, hs⟩ := hs
    cases hs
    unfold St.txAgg
    split_ifs with hoff
    · exact ⟨h.running, h.agg, h.call⟩
    · refine ⟨h.running, h.agg, fun _ => ⟨hoff, ?_⟩⟩
      obtain ⟨hon, hctx⟩ := hstored.resolve_left hoff
      rcases hrefuses with hle | hlarge | hnone
      · rw [UInt32.le_iff_toNat_le] at hle
        rw [UInt32.lt_iff_toNat_lt] at hon
        omega
      · change 2 ^ 31 ≤ s.ctx.maxSize.toNat
        rw [hctx]
        exact hlarge
      · cases hnone.symm.trans hhdr
  | newPacket env =>
    simp only [step, Option.ite_none_left_eq_some] at hs
    obtain ⟨c, hc, rfl⟩ := Option.map_eq_some_iff.1 hs.2
    obtain ⟨-, hlarge⟩ := h.call (by rw [hc]; rfl)
    unfold St.newPacket
    rw [startSection_unused h.agg hlarge]
    exact ⟨h.running, h.agg, fun hcall => absurd hcall Bool.false_ne_true⟩
  | aggWork now =>
    simp only [step, Option.ite_none_left_eq_some] at hs
    cases hs.2
    have hwork : rmnetUsbTxAggWork now s.priv = (s.priv, none) := by
      unfold rmnetUsbTxAggWork
      rw [h.agg]
    unfold St.aggWork
    rw [hwork]
    exact ⟨h.running, h.agg, h.call⟩
  | settingStore n m =>
    simp only [step, Option.ite_none_left_eq_some] at hs
    cases hs.2
    refine ⟨h.running, h.agg, fun hcall => ?_⟩
    have hcall' := h.call hcall
    have hkept : qmaSettingStore s.ctx n m = s.ctx := if_neg fun hset => hcall'.1 hset.1
    rw [hkept]
    exact hcall'

theorem neverOverfills_of_refuses (hrefuses : Refuses net maxDatagrams maxSize) :
    NeverOverfills net mtu maxDatagrams maxSize := by
  intro now is his
  have hstep : ∀ s i s', Unused s ∧ Stored maxDatagrams maxSize s →
      Sends net mtu maxDatagrams maxSize i → step s i = some s' →
      Unused s' ∧ Stored maxDatagrams maxSize s' := fun s i s' ⟨hunused, hstored⟩ hi hs =>
    ⟨unused_step hrefuses hunused hstored hi hs, stored_step hstored hi hs⟩
  have hinit : Unused (initial now) ∧ Stored maxDatagrams maxSize (initial now) :=
    ⟨⟨rfl, rfl, fun hcall => absurd hcall Bool.false_ne_true⟩, .inl rfl⟩
  refine ⟨Runs.meets_of_inv hstep (fun s i h _ => putFits_of_unused h.1 i) hinit
    (Runs.meets_of_forall his), fun s hs => ?_⟩
  exact (Runs.exec_inv hstep hinit (Runs.meets_of_forall his) hs).1.running

/-- Aggregation is turned on, and the longest packet is the first. -/
def firstLongest (maxDatagrams maxSize : UInt32) (p : Packet) : List Input :=
  [.settingStore maxDatagrams maxSize, .txAgg p true, .newPacket ⟨⟨0, 0⟩, 0, 0, some 0⟩]

theorem not_meets_firstLongest (hon : 1 < maxDatagrams) (hsmall : maxSize.toNat < 2 ^ 31)
    {p : Packet} (hlen : maxSize.toNat < p.data.length) :
    ¬ Runs.Meets step PutFits (initial ⟨0, 0⟩) (firstLongest maxDatagrams maxSize p) := by
  have hset : qmaSettingStore ⟨1, 1500⟩ maxDatagrams maxSize = ⟨maxDatagrams, maxSize⟩ :=
    if_pos ⟨rfl, hon⟩
  have hne : maxDatagrams ≠ 1 := by
    rintro rfl
    exact absurd hon (by decide)
  have hput : putLen ⟨maxDatagrams, maxSize⟩ ⟨⟨0, 0⟩, 0, 0, some 0⟩ p true ⟨none, 0, ⟨0, 0⟩⟩
      = some p.data.length := by
    unfold putLen allocSkb
    rw [if_pos hsmall]
    rfl
  let stored : St := { initial ⟨0, 0⟩ with ctx := ⟨maxDatagrams, maxSize⟩ }
  have hstore : step (initial ⟨0, 0⟩) (.settingStore maxDatagrams maxSize) = some stored := by
    change some { initial ⟨0, 0⟩ with ctx := qmaSettingStore ⟨1, 1500⟩ maxDatagrams maxSize } = _
    rw [hset]
  have htx : step stored (.txAgg p true)
      = some { stored with submitted := [p.data], call := some ⟨p, true, 0⟩ } := by
    rw [step, if_neg (by simp [stored, initial])]
    exact congrArg some (if_neg hne)
  rintro ⟨-, hrest⟩
  obtain ⟨-, hrest⟩ := hrest _ hstore
  obtain ⟨hfits, -⟩ := hrest _ htx
  have := hfits _ rfl _ hput
  change p.data.length ≤ maxSize.toNat at this
  omega

/-- For the MTU and the settings record, every sequence of packets is put into buffers that it fits
into, exactly if the longest packet fits into an empty one. -/
theorem neverOverfills_iff (net : NetDev) {newMtu : ℤ} {mtu : ℕ}
    (_ : rmnetVndChangeMtu newMtu = some mtu) (maxDatagrams maxSize : UInt32) :
    NeverOverfills net mtu maxDatagrams maxSize ↔ LeavesRoom net mtu maxDatagrams maxSize := by
  constructor
  · intro h
    by_contra hno
    unfold LeavesRoom at hno
    simp only [not_or, not_forall, exists_prop, UInt32.not_le, Nat.not_le] at hno
    obtain ⟨hon, hsmall, hdr, hhdr, hroom⟩ := hno
    obtain ⟨p, hp, hlen⟩ := @exists_longest net mtu hdr hhdr
    refine not_meets_firstLongest hon hsmall (hlen ▸ hroom) (h ⟨0, 0⟩ _ fun i hi => ?_).1
    simp only [firstLongest, List.mem_cons, List.not_mem_nil, or_false] at hi
    rcases hi with rfl | rfl | rfl
    · exact ⟨rfl, rfl⟩
    · exact ⟨false, false, longest net mtu, 0, Nat.le_of_eq List.length_replicate, hp⟩
    · trivial
  · rintro (hoff | hlarge | hroom)
    · exact neverOverfills_of_refuses (.inl hoff)
    · exact neverOverfills_of_refuses (.inr (.inl hlarge))
    · rcases hhdr : headerLen net with _ | hdr
      · exact neverOverfills_of_refuses (.inr (.inr hhdr))
      · exact neverOverfills_of_room hhdr (hroom hdr hhdr)

theorem neverOverfills_default :
    NeverOverfills ⟨true, 5, 0x81⟩ 1500 11 8192 :=
  (neverOverfills_iff ⟨true, 5, 0x81⟩ (show rmnetVndChangeMtu 1500 = some 1500 from rfl) 11 8192).2
    (.inr (.inr (by decide)))

/-- With the default MTU and a record that allows buffers of 1024 bytes, a packet of 1500 bytes does
not fit into its buffer. -/
theorem overfills_small : rmnetVndChangeMtu 1500 = some 1500
    ∧ ¬ NeverOverfills ⟨true, 5, 0x81⟩ 1500 11 1024 := by
  refine ⟨rfl, fun h => ?_⟩
  obtain ⟨p, hp, hlen⟩ := @exists_longest ⟨true, 5, 0x81⟩ 1500 4 rfl
  refine @not_meets_firstLongest 11 1024 (by decide) (by decide) p (by rw [hlen]; decide)
    (h ⟨0, 0⟩ _ fun i hi => ?_).1
  simp only [firstLongest, List.mem_cons, List.not_mem_nil, or_false] at hi
  rcases hi with rfl | rfl | rfl
  · exact ⟨rfl, rfl⟩
  · exact ⟨false, false, longest ⟨true, 5, 0x81⟩ 1500, 0, Nat.le_of_eq List.length_replicate, hp⟩
  · trivial

end UlAgg

end BananaWrt
