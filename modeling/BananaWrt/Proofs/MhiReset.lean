import BananaWrt.MhiReset
import BananaWrt.Proofs.MhiRings

/-!
# What a reset leaves of the events of a channel

Two runs are compared event by event: one over the ring as it is, in which the channel is off, and
one over the marked ring, in which the channel may be anything (`step_spec`). An event of another
channel does the same in both; one of the channel does nothing in the first, and in the second only
if it is `Discarded`.
-/

namespace BananaWrt

namespace Mhi

namespace Tre

theorem evDword1_fields : ∀ chid : Fin 256,
    ((evDword1 chid MHI_PKT_TYPE_STALE_EVENT >>> 24) &&& 0xFF).toNat = chid
      ∧ ((evDword1 chid MHI_PKT_TYPE_STALE_EVENT >>> 16) &&& 0xFF).toNat
        = MHI_PKT_TYPE_STALE_EVENT := by
  decide +kernel

variable {event : Tre} {c : ℕ}

theorem evChid_lt (event : Tre) : event.evChid < 256 := by
  unfold evChid
  rw [BitVec.toNat_and]
  exact Nat.lt_of_le_of_lt Nat.and_le_right (by decide)

/-- An event of the channel that is marked. -/
theorem markStale_pos (ht : event.evType = MHI_PKT_TYPE_TX_EVENT) (hc : event.evChid = c) :
    (event.markStale c).evType = MHI_PKT_TYPE_STALE_EVENT ∧ (event.markStale c).evChid = c := by
  unfold markStale
  rw [if_pos ⟨ht, hc.symm⟩]
  obtain ⟨hchid, htype⟩ := evDword1_fields ⟨c, hc ▸ event.evChid_lt⟩
  exact ⟨htype, hchid⟩

theorem markStale_neg (h : ¬ (event.evType = MHI_PKT_TYPE_TX_EVENT ∧ event.evChid = c)) :
    event.markStale c = event :=
  if_neg fun h' => h ⟨h'.1, h'.2.symm⟩

theorem isTransfer_of_markStale (h : (event.markStale c).IsTransfer) : event.IsTransfer := by
  by_cases hmark : event.evType = MHI_PKT_TYPE_TX_EVENT ∧ event.evChid = c
  · exact .inl hmark.1
  · rwa [markStale_neg hmark] at h

end Tre

/-- The loop marks what is between the positions. -/
theorem mhiMarkStaleEvents_spec {elements devRp : ℕ} (chan : ℕ) (hdev : devRp < elements) :
    ∀ {fuel localRp : ℕ} (slots : ℕ → Tre), localRp < elements →
      Ring.used elements localRp devRp < fuel →
      mhiMarkStaleEvents elements chan devRp fuel slots localRp
        = some fun i => if i ∈ Ring.window elements localRp (Ring.used elements localRp devRp)
          then (slots i).markStale chan else slots i
  | 0, _, _, _, hfuel => absurd hfuel (Nat.not_lt_zero _)
  | fuel + 1, localRp, slots, hrp, hfuel => by
    rw [mhiMarkStaleEvents]
    by_cases hne : devRp ≠ localRp
    · have hpop := Ring.used_pop hrp hdev hne.symm
      have hlt := Ring.used_lt hrp hdev
      have hwin := Ring.window_succ (k := Ring.used elements (Ring.succ elements localRp) devRp) hrp
        (by omega)
      have hnodup := Ring.nodup_window (i := localRp) (Nat.le_of_lt hlt)
      rw [← hpop, hwin, List.nodup_cons] at hnodup
      rw [if_pos hne,
        mhiMarkStaleEvents_spec chan hdev _ (Ring.succ_lt (Nat.zero_lt_of_lt hrp)) (by omega),
        ← hpop, hwin]
      refine congrArg some (funext fun i => ?_)
      by_cases hi : i = localRp
      · subst hi
        rw [if_neg hnodup.1, if_pos List.mem_cons_self, Function.update_self]
      · simp only [List.mem_cons, hi, false_or, Function.update_of_ne hi]
    · obtain rfl : devRp = localRp := not_not.1 hne
      rw [if_neg hne, Ring.used_self]
      rfl

/-- What is processed after the reset. -/
theorem contents_marked {elements chan devRp localRp : ℕ} (slots : ℕ → Tre) :
    Ring.contents (fun i => if i ∈ Ring.window elements localRp (Ring.used elements localRp devRp)
        then (slots i).markStale chan else slots i) elements localRp devRp
      = (Ring.contents slots elements localRp devRp).map (Tre.markStale · chan) := by
  unfold Ring.contents
  rw [List.map_map]
  refine List.map_congr_left fun k hk => if_pos ?_
  exact List.mem_map_of_mem hk

variable {maxChan : ℕ} {c : Fin maxChan} {env : ParseEnv} {kind : EvRing} {event : Tre}
variable {s s' a b : CtrlSt maxChan}

/-- The channel is off. -/
def Off (c : Fin maxChan) (s : CtrlSt maxChan) : Prop := ∀ ch ∈ s.chans c, ¬ ch.enabled

theorem SameBut.refl (c : Fin maxChan) (s : CtrlSt maxChan) : SameBut c s s :=
  ⟨fun _ _ => rfl, fun _ _ => rfl, rfl, fun _ _ => rfl⟩

theorem SameBut.chanOf (h : SameBut c s s') (hc : event.evChid ≠ c) :
    s'.chanOf event = s.chanOf event := by
  unfold CtrlSt.chanOf
  split_ifs with hlt
  · exact h.chans _ fun heq => hc (congrArg Fin.val heq)
  · rfl

theorem SameBut.transferAsserts (h : SameBut c s s') (hc : event.evChid ≠ c) :
    s'.transferAsserts event = s.transferAsserts event := by
  unfold CtrlSt.transferAsserts
  rw [h.chanOf hc, h.used _ hc]

theorem SameBut.usedAfter (h : SameBut c s s') (hc : event.evChid ≠ c) {d : ℕ} (hd : d ≠ c) :
    s'.usedAfter event d = s.usedAfter event d := by
  unfold CtrlSt.usedAfter
  rw [h.chanOf hc, h.used _ hc]
  rcases s.chanOf event with _ | ch
  · exact h.used d hd
  · dsimp only
    split_ifs
    · by_cases hde : d = event.evChid
      · rw [hde, Function.update_self, Function.update_self]
      · rw [Function.update_of_ne hde, Function.update_of_ne hde, h.used d hd]
    · exact h.used d hd

/-- An event of another channel, for two tables that differ in this one. -/
theorem processTransfer_congr {pm : PmState} {cb : ℕ → List BufInfo} {fuel : ℕ}
    {t t' : ChanTable maxChan} (ht : ∀ d, d ≠ c → t' d = t d) (hc : event.evChid ≠ c)
    {r : ChanTable maxChan × List XferCall} (hr : processTransfer pm cb fuel t event = some r) :
    ∃ t₁', processTransfer pm cb fuel t' event = some (t₁', r.2) ∧ (∀ d, d ≠ c → t₁' d = r.1 d)
      ∧ r.1 c = t c ∧ t₁' c = t' c := by
  unfold processTransfer at hr ⊢
  by_cases hlt : event.evChid < maxChan
  · have hne : (⟨event.evChid, hlt⟩ : Fin maxChan) ≠ c := fun heq => hc (congrArg Fin.val heq)
    rw [dif_pos hlt] at hr ⊢
    rw [ht _ hne]
    rcases hch : t ⟨event.evChid, hlt⟩ with _ | ch
    · rw [hch] at hr
      dsimp only at hr ⊢
      split_ifs at hr ⊢ with hrsc
      cases hr
      exact ⟨t', rfl, ht, rfl, rfl⟩
    · rw [hch] at hr
      obtain ⟨r', hr', heq⟩ := Option.map_eq_some_iff.1 hr
      cases heq
      refine ⟨Function.update t' ⟨event.evChid, hlt⟩ (some r'.1),
        Option.map_eq_some_iff.2 ⟨r', hr', rfl⟩, fun d hd => ?_, Function.update_of_ne hne.symm _ _,
        Function.update_of_ne hne.symm _ _⟩
      change _ = Function.update t _ _ d
      by_cases hde : d = ⟨event.evChid, hlt⟩
      · rw [hde, Function.update_self, Function.update_self]
      · rw [Function.update_of_ne hde, Function.update_of_ne hde, ht d hd]
  · rw [dif_neg hlt] at hr
    cases hr

theorem callsOf_append (s : CtrlSt maxChan) (chans : ChanTable maxChan) (used : ℕ → ℕ → Bool)
    (ctl : Ctl) (failed : List Asserted) (chid d : ℕ) (calls : List XferCall) :
    CtrlSt.callsOf { s with
        chans := chans, used := used, ctl := ctl, calls := s.calls ++ calls.map (chid, ·),
        failed := failed } d
      = s.callsOf d ++ if chid = d then calls.map (chid, ·) else [] := by
  unfold CtrlSt.callsOf
  rw [List.filter_append]
  congr 1
  split_ifs with h
  · refine List.filter_eq_self.2 fun call hcall => ?_
    obtain ⟨x, -, rfl⟩ := List.mem_map.1 hcall
    exact decide_eq_true h
  · refine List.filter_eq_nil_iff.2 fun call hcall => ?_
    obtain ⟨x, -, rfl⟩ := List.mem_map.1 hcall
    simpa using h

/-- What matters of a channel that is off. -/
def SameShape (o o' : Option Chan) : Prop :=
  o'.map (fun ch => (ch.enabled, ch.cfg.elements)) = o.map fun ch => (ch.enabled, ch.cfg.elements)

theorem SameShape.mem {o o' : Option Chan} (h : SameShape o o') {ch' : Chan} (hch : ch' ∈ o') :
    ∃ ch ∈ o, ch.enabled = ch'.enabled ∧ ch.cfg.elements = ch'.cfg.elements := by
  cases hch
  obtain ⟨ch, hch, heq⟩ := Option.map_eq_some_iff.1 (Eq.symm h)
  obtain ⟨henabled, helements⟩ := Prod.mk.inj heq
  exact ⟨ch, hch, henabled, helements⟩

theorem SameShape.off (h : SameShape (s.chans c) (a.chans c)) (hoff : Off c s) : Off c a := by
  intro ch' hch'
  obtain ⟨ch, hch, henabled, -⟩ := h.mem hch'
  rw [← henabled]
  exact hoff ch hch

theorem SameShape.discarded_iff {o o' : Option Chan} (h : SameShape o o') {c : ℕ} :
    event.Discarded kind c o' ↔ event.Discarded kind c o := by
  have hiff : (∃ ch ∈ o', ¬ ch.enabled
        ∧ event.evCookie + sizeofBufInfo ≤ sizeofBufInfo * ch.cfg.elements)
      ↔ ∃ ch ∈ o, ¬ ch.enabled
        ∧ event.evCookie + sizeofBufInfo ≤ sizeofBufInfo * ch.cfg.elements := by
    constructor
    · rintro ⟨ch', hch', hrest⟩
      obtain ⟨ch, hch, henabled, helements⟩ := h.mem hch'
      rw [← henabled, ← helements] at hrest
      exact ⟨ch, hch, hrest⟩
    · rintro ⟨ch', hch', hrest⟩
      obtain ⟨ch, hch, henabled, helements⟩ := SameShape.mem (Eq.symm h) hch'
      rw [← henabled, ← helements] at hrest
      exact ⟨ch, hch, hrest⟩
  unfold Tre.Discarded
  rw [hiff]

theorem sameShape_ringAgain (o : Option Chan) : SameShape o (o.map Chan.ringAgain) := by
  rcases o with _ | ch
  · rfl
  · unfold SameShape Chan.ringAgain Chan.ringChanDb
    dsimp only [Option.map_some]
    split_ifs <;> rfl

/-- An event does the same in two states, and does nothing to the channel but ring it. -/
structure Same (c : Fin maxChan) (s s' a b : CtrlSt maxChan) : Prop where
  same : SameBut c a b
  failed : ∃ failed, a.failed = s.failed ++ failed ∧ b.failed = s'.failed ++ failed
  calls : b.callsOf c = s'.callsOf c
  shape : SameShape (s.chans c) (a.chans c)
  shape' : SameShape (s'.chans c) (b.chans c)

theorem SameBut.parseTransfer (h : SameBut c s s') (hc : event.evChid ≠ c)
    (ha : s.parseTransfer env event = some a) :
    ∃ b, s'.parseTransfer env event = some b ∧ Same c s s' a b := by
  obtain ⟨r, hr, rfl⟩ := Option.map_eq_some_iff.1 ha
  obtain ⟨t₁', hr', hchans, ht, ht'⟩ := processTransfer_congr h.chans hc hr
  rw [← h.ctl] at hr'
  refine ⟨_, Option.map_eq_some_iff.2 ⟨_, hr', rfl⟩, ⟨hchans, fun d hd => h.usedAfter hc hd, h.ctl,
    fun d hd => ?_⟩, ⟨s.transferAsserts event, rfl, ?_⟩, ?_, ?_, ?_⟩
  · rw [callsOf_append, callsOf_append, h.calls d hd]
  · rw [← h.transferAsserts hc]
  · rw [callsOf_append, if_neg hc, List.append_nil]
  · exact congrArg _ ht
  · exact congrArg _ ht'

theorem SameBut.stateChange (h : SameBut c s s') (new : Option DevState) :
    Same c s s' (s.stateChange new) (s'.stateChange new) := by
  unfold CtrlSt.stateChange
  rw [h.ctl]
  dsimp only
  by_cases hm0 : new = some .m0 ∧ (s.ctl.stateChange new).power.pmState = .m0
  · rw [if_pos hm0, if_pos hm0]
    exact ⟨⟨fun d hd => congrArg (Option.map Chan.ringAgain) (h.chans d hd), h.used, rfl, h.calls⟩,
      ⟨[], (List.append_nil _).symm, (List.append_nil _).symm⟩, rfl,
      sameShape_ringAgain _, sameShape_ringAgain _⟩
  · rw [if_neg hm0, if_neg hm0]
    exact ⟨⟨h.chans, h.used, rfl, h.calls⟩,
      ⟨[], (List.append_nil _).symm, (List.append_nil _).symm⟩, rfl, rfl, rfl⟩

theorem SameBut.ctl_failed (h : SameBut c s s') {ctl ctl' : Ctl} (hctl : ctl' = ctl)
    (failed : List Asserted) : Same c s s' { s with ctl := ctl, failed := s.failed ++ failed }
      { s' with ctl := ctl', failed := s'.failed ++ failed } :=
  ⟨⟨h.chans, h.used, hctl, h.calls⟩, ⟨failed, rfl, rfl⟩, rfl, rfl, rfl⟩

theorem Same.counted (h : Same c s s' a b) : Same c s s' a.counted b.counted where
  same := ⟨h.same.chans, h.same.used, by unfold CtrlSt.counted; rw [h.same.ctl], h.same.calls⟩
  failed := h.failed
  calls := h.calls
  shape := h.shape
  shape' := h.shape'

theorem SameBut.ctrlEvent (h : SameBut c s s') (hc : event.IsTransfer → event.evChid ≠ c)
    (ha : s.ctrlEvent env event = some a) :
    ∃ b, s'.ctrlEvent env event = some b ∧ Same c s s' a b := by
  unfold CtrlSt.ctrlEvent at ha ⊢
  split_ifs at ha ⊢ with hstate hcmd hee htransfer
  · cases ha
    exact ⟨_, rfl, h.stateChange _⟩
  · obtain ⟨r, hr, rfl⟩ := Option.map_eq_some_iff.1 ha
    rw [h.ctl]
    exact ⟨_, Option.map_eq_some_iff.2 ⟨r, hr, rfl⟩, h.ctl_failed rfl r.2⟩
  · cases ha
    have hsame := h.ctl_failed (Eq.refl (s.ctl.eeEvent (eeOf event.evExecenv))) []
    rw [List.append_nil, List.append_nil] at hsame
    rw [h.ctl]
    exact ⟨_, rfl, hsame⟩
  · exact h.parseTransfer (hc htransfer) ha
  · cases ha
    exact ⟨_, rfl, h.ctl_failed h.ctl _⟩

theorem CtrlSt.chanOf_self (hc : event.evChid = c) : s.chanOf event = s.chans c := by
  have hlt : event.evChid < maxChan := hc ▸ c.isLt
  obtain rfl : (⟨event.evChid, hlt⟩ : Fin maxChan) = c := Fin.ext hc
  exact dif_pos hlt

theorem processTransfer_off {pm : PmState} {cb : ℕ → List BufInfo} {fuel : ℕ}
    (hc : event.evChid = c) (hoff : event.IsTransfer → Off c s)
    (hrsc : event.evType = Tre.MHI_PKT_TYPE_RSC_TX_EVENT → ∃ ch ∈ s.chans c,
      event.evCookie + sizeofBufInfo ≤ sizeofBufInfo * ch.cfg.elements) :
    processTransfer pm cb fuel s.chans event = some (s.chans, []) := by
  have hlt : event.evChid < maxChan := hc ▸ c.isLt
  have hfin : (⟨event.evChid, hlt⟩ : Fin maxChan) = c := Fin.ext hc
  unfold processTransfer
  rw [dif_pos hlt, hfin]
  rcases hch : s.chans c with _ | ch
  · refine if_neg fun hr => ?_
    obtain ⟨ch, hmem, -⟩ := hrsc hr
    rw [hch] at hmem
    cases hmem
  · have hupd : Function.update s.chans c (some ch) = s.chans :=
        by rw [← hch, Function.update_eq_self]
    have hparse :
        (if event.evType = Tre.MHI_PKT_TYPE_TX_EVENT then ch.parseXferEvent pm cb fuel event
        else if event.evType = Tre.MHI_PKT_TYPE_RSC_TX_EVENT then ch.parseRscEvent event
        else some (ch, [])) = some (ch, []) := by
      split_ifs with htx hr
      · exact if_pos (hoff (.inl htx) ch hch)
      · obtain ⟨ch', hmem, hle⟩ := hrsc hr
        cases hch.symm.trans hmem
        unfold Chan.parseRscEvent
        rw [if_neg (Nat.not_lt.2 hle), if_pos (hoff (.inr hr) ch hch)]
      · rfl
    dsimp only
    rw [hparse, Option.map_some, hupd]

theorem transferAsserts_off (hc : event.evChid = c) (hoff : event.IsTransfer → Off c s)
    (hrsc : event.evType = Tre.MHI_PKT_TYPE_RSC_TX_EVENT → ∃ ch ∈ s.chans c,
      event.evCookie + sizeofBufInfo ≤ sizeofBufInfo * ch.cfg.elements) :
    s.transferAsserts event = [] := by
  have hsize : 0 < sizeofBufInfo := by decide
  unfold CtrlSt.transferAsserts
  rw [CtrlSt.chanOf_self hc]
  rcases hch : s.chans c with _ | ch
  · rfl
  · dsimp only
    split_ifs with htx hr
    · exact if_neg fun h => hoff (.inl htx) ch hch h.1
    · obtain ⟨ch', hmem, hle⟩ := hrsc hr
      cases hch.symm.trans hmem
      rw [mhiAssert, mhiAssert, if_neg (by omega), if_neg fun h => hoff (.inr hr) ch hch h.1]
      rfl
    · rfl

theorem usedAfter_off (hc : event.evChid = c) (hoff : event.IsTransfer → Off c s) :
    s.usedAfter event = s.used := by
  unfold CtrlSt.usedAfter
  rw [CtrlSt.chanOf_self hc]
  rcases hch : s.chans c with _ | ch
  · rfl
  · exact if_neg fun h => hoff (.inr h.1) ch hch h.2

/-- A channel that is off takes no notice of its events, if those of `parse_rsc_event` point into
its ring. -/
theorem parseTransfer_off (hc : event.evChid = c) (hoff : event.IsTransfer → Off c s)
    (hrsc : event.evType = Tre.MHI_PKT_TYPE_RSC_TX_EVENT → ∃ ch ∈ s.chans c,
      event.evCookie + sizeofBufInfo ≤ sizeofBufInfo * ch.cfg.elements) :
    s.parseTransfer env event = some s := by
  unfold CtrlSt.parseTransfer
  rw [processTransfer_off hc hoff hrsc, transferAsserts_off hc hoff hrsc, usedAfter_off hc hoff,
    Option.map_some, List.map_nil, List.append_nil, List.append_nil]

/-- An event of `parse_rsc_event` points into the ring, and is handed over if the channel is on. -/
theorem parseTransfer_rsc (hc : event.evChid = c)
    (hr : event.evType = Tre.MHI_PKT_TYPE_RSC_TX_EVENT) (ha : s.parseTransfer env event = some a) :
    ∃ ch ∈ s.chans c, event.evCookie + sizeofBufInfo ≤ sizeofBufInfo * ch.cfg.elements
      ∧ (ch.enabled → a.callsOf c ≠ s.callsOf c) := by
  have hlt : event.evChid < maxChan := hc ▸ c.isLt
  have hfin : (⟨event.evChid, hlt⟩ : Fin maxChan) = c := Fin.ext hc
  have htx : event.evType ≠ Tre.MHI_PKT_TYPE_TX_EVENT := by
    rw [hr]
    decide
  obtain ⟨r, hproc, rfl⟩ := Option.map_eq_some_iff.1 ha
  unfold processTransfer at hproc
  rw [dif_pos hlt, hfin] at hproc
  rcases hch : s.chans c with _ | ch
  · rw [hch] at hproc
    dsimp only at hproc
    rw [if_pos hr] at hproc
    cases hproc
  · rw [hch] at hproc
    dsimp only at hproc
    rw [if_neg htx, if_pos hr] at hproc
    obtain ⟨r', hparse, rfl⟩ := Option.map_eq_some_iff.1 hproc
    unfold Chan.parseRscEvent at hparse
    split_ifs at hparse with hbound hen
    · cases hparse
      refine ⟨ch, rfl, Nat.not_lt.1 hbound, fun _ hcalls => ?_⟩
      rw [callsOf_append, if_pos hc] at hcalls
      simp at hcalls
    · cases hparse
      exact ⟨ch, rfl, Nat.not_lt.1 hbound, fun hon => absurd hon hen⟩

theorem ctrlEvent_of_isTransfer (ht : event.IsTransfer) :
    s.ctrlEvent env event = s.parseTransfer env event := by
  unfold CtrlSt.ctrlEvent
  rcases ht with h | h
  · rw [h, if_neg (by decide), if_neg (by decide), if_neg (by decide), if_pos (.inl h)]
  · rw [h, if_neg (by decide), if_neg (by decide), if_neg (by decide), if_pos (.inr h)]

theorem processEvent_of_isTransfer (ht : event.IsTransfer) :
    s.processEvent env kind event = (s.parseTransfer env event).map CtrlSt.counted := by
  unfold CtrlSt.processEvent
  cases kind
  · rfl
  · dsimp only
    rw [ctrlEvent_of_isTransfer ht]

/-- An event that is not one of the channel's, or reports no transfer. -/
theorem SameBut.processEvent (h : SameBut c s s') (hc : event.IsTransfer → event.evChid ≠ c)
    (ha : s.processEvent env kind event = some a) :
    ∃ b, s'.processEvent env kind event = some b ∧ Same c s s' a b := by
  obtain ⟨a₁, ha₁, rfl⟩ := Option.map_eq_some_iff.1 ha
  cases kind
  · by_cases hchid : event.evChid = c
    · -- the channel is found, and no more
      have hno : ¬ event.IsTransfer := fun ht => hc ht hchid
      have hrsc : ∀ {s : CtrlSt maxChan}, event.evType = Tre.MHI_PKT_TYPE_RSC_TX_EVENT →
          ∃ ch ∈ s.chans c, event.evCookie + sizeofBufInfo ≤ sizeofBufInfo * ch.cfg.elements :=
        fun hr => absurd (.inr hr) hno
      cases (parseTransfer_off hchid (fun ht => absurd ht hno) hrsc).symm.trans ha₁
      refine ⟨s'.counted, ?_, Same.counted ⟨h, ⟨[], ?_⟩, rfl, rfl, rfl⟩⟩
      · exact congrArg (Option.map CtrlSt.counted)
          (parseTransfer_off hchid (fun ht => absurd ht hno) hrsc)
      · exact ⟨(List.append_nil _).symm, (List.append_nil _).symm⟩
    · obtain ⟨b, hb, hsame⟩ := h.parseTransfer hchid ha₁
      exact ⟨b.counted, congrArg (Option.map CtrlSt.counted) hb, hsame.counted⟩
  · obtain ⟨b, hb, hsame⟩ := h.ctrlEvent hc ha₁
    exact ⟨b.counted, congrArg (Option.map CtrlSt.counted) hb, hsame.counted⟩

/-- What the two runs come to by an event. `iff` says when it differs in the channel alone, without
a call for it and without a failed assertion. -/
structure StepSpec (env : ParseEnv) (kind : EvRing) (c : Fin maxChan) (event : Tre)
    (s s' a : CtrlSt maxChan) : Prop where
  off : Off c a
  iff : (∃ b, s'.processEvent env kind (event.markStale c) = some b ∧ b.callsOf c = s'.callsOf c
      ∧ b.failed = s'.failed) ↔ a.failed = s.failed ∧ event.Discarded kind c (s'.chans c)
  next : ∀ b, s'.processEvent env kind (event.markStale c) = some b → b.callsOf c = s'.callsOf c →
    b.failed = s'.failed → SameBut c a b ∧ SameShape (s'.chans c) (b.chans c)

theorem SameBut.counted (h : SameBut c s s') : SameBut c s.counted s'.counted :=
  ⟨h.chans, h.used, by unfold CtrlSt.counted; rw [h.ctl], h.calls⟩

/-- An event that is marked does nothing without the mark. With it, it is of no known type. -/
theorem stepSpec_marked (hoff : Off c s) (h : SameBut c s s') (hc : event.evChid = c)
    (htx : event.evType = Tre.MHI_PKT_TYPE_TX_EVENT) (ha : s.processEvent env kind event = some a) :
    StepSpec env kind c event s s' a := by
  have hno : event.evType ≠ Tre.MHI_PKT_TYPE_RSC_TX_EVENT := by
    rw [htx]
    decide
  rw [processEvent_of_isTransfer (.inl htx),
    parseTransfer_off hc (fun _ => hoff) fun hr => absurd hr hno] at ha
  cases ha
  obtain ⟨hstale, hchid⟩ := Tre.markStale_pos htx hc
  have hplain : ¬ (event.markStale c).IsTransfer := by
    rintro (hbad | hbad) <;> exact absurd (hstale.symm.trans hbad) (by decide)
  cases kind
  · have hb : s'.processEvent env .data (event.markStale c) = some s'.counted :=
      congrArg (Option.map CtrlSt.counted) (parseTransfer_off hchid
        (fun ht => absurd ht hplain) fun hr => absurd (.inr hr) hplain)
    refine ⟨hoff, iff_of_true ⟨_, hb, rfl, rfl⟩ ⟨rfl, fun _ => ⟨fun _ => rfl,
      fun hr => absurd hr hno⟩⟩,
      fun b hb' _ _ => ?_⟩
    cases hb.symm.trans hb'
    exact ⟨h.counted, rfl⟩
  · have hb : s'.processEvent env .ctrl (event.markStale c)
        = some (CtrlSt.counted { s' with failed := s'.failed ++ [.unsupported] }) := by
      unfold CtrlSt.processEvent CtrlSt.ctrlEvent
      dsimp only
      rw [hstale, if_neg (by decide), if_neg (by decide), if_neg (by decide), if_neg hplain]
      rfl
    have hbad : ∀ b, s'.processEvent env .ctrl (event.markStale c) = some b →
        b.failed ≠ s'.failed := by
      intro b hb' heq
      cases hb.symm.trans hb'
      simp [CtrlSt.counted] at heq
    refine ⟨hoff, iff_of_false (fun ⟨b, hb', _, hfailed⟩ => hbad b hb' hfailed) fun ⟨_, hdis⟩ => ?_,
      fun b hb' _ hfailed => absurd hfailed (hbad b hb')⟩
    exact absurd ((hdis hc).1 htx) (by decide)

/-- An event of `parse_rsc_event` is not marked. -/
theorem stepSpec_rsc (hoff : Off c s) (h : SameBut c s s') (hc : event.evChid = c)
    (hr : event.evType = Tre.MHI_PKT_TYPE_RSC_TX_EVENT) (ha : s.processEvent env kind event = some a) :
    StepSpec env kind c event s s' a := by
  have htx : event.evType ≠ Tre.MHI_PKT_TYPE_TX_EVENT := by
    rw [hr]
    decide
  rw [processEvent_of_isTransfer (.inr hr)] at ha
  obtain ⟨a₁, ha₁, rfl⟩ := Option.map_eq_some_iff.1 ha
  obtain ⟨ch, hch, hle, -⟩ := parseTransfer_rsc hc hr ha₁
  cases (parseTransfer_off hc (fun _ => hoff) fun _ => ⟨ch, hch, hle⟩).symm.trans ha₁
  have hmark : s'.processEvent env kind (event.markStale c)
      = (s'.parseTransfer env event).map CtrlSt.counted := by
    rw [Tre.markStale_neg fun hmark => htx hmark.1, processEvent_of_isTransfer (.inr hr)]
  have hdis : ∀ b, s'.processEvent env kind (event.markStale c) = some b →
      b.callsOf c = s'.callsOf c → event.Discarded kind c (s'.chans c) := by
    intro b hb hcalls
    rw [hmark] at hb
    obtain ⟨b₁, hb₁, rfl⟩ := Option.map_eq_some_iff.1 hb
    obtain ⟨ch', hch', hle', hon⟩ := parseTransfer_rsc hc hr hb₁
    exact fun _ => ⟨fun htx' => absurd htx' htx,
      fun _ => ⟨ch', hch', fun hen => hon hen hcalls, hle'⟩⟩
  have hdone : event.Discarded kind c (s'.chans c) →
      s'.processEvent env kind (event.markStale c) = some s'.counted := by
    intro hdis
    obtain ⟨ch', hch', hen, hle'⟩ := (hdis hc).2 hr
    have hoff' : Off c s' := fun ch'' hmem => by
      cases hmem.symm.trans hch'
      exact hen
    rw [hmark, parseTransfer_off hc (fun _ => hoff') fun _ => ⟨ch', hch', hle'⟩]
    rfl
  refine ⟨hoff, ⟨fun ⟨b, hb, hcalls, _⟩ => ⟨rfl, hdis b hb hcalls⟩,
    fun ⟨_, hd⟩ => ⟨_, hdone hd, rfl, rfl⟩⟩, fun b hb hcalls _ => ?_⟩
  cases (hdone (hdis b hb hcalls)).symm.trans hb
  exact ⟨h.counted, rfl⟩

theorem stepSpec_other (hoff : Off c s) (h : SameBut c s s')
    (hc : event.IsTransfer → event.evChid ≠ c) (ha : s.processEvent env kind event = some a) :
    StepSpec env kind c event s s' a := by
  obtain ⟨b, hb, hsame⟩ := h.processEvent hc ha
  obtain ⟨failed, hfa, hfb⟩ := hsame.failed
  have hmark : event.markStale c = event := Tre.markStale_neg fun hm => hc (.inl hm.1) hm.2
  refine ⟨hsame.shape.off hoff, ⟨fun ⟨b', hb', _, hfailed⟩ => ⟨?_, fun hchid => ⟨?_, ?_⟩⟩,
    fun ⟨hfailed, _⟩ => ?_⟩, fun b' hb' _ _ => ?_⟩
  · rw [hmark] at hb'
    cases hb.symm.trans hb'
    rw [hfb] at hfailed
    rw [hfa, List.append_right_eq_self.1 hfailed, List.append_nil]
  · exact fun htx => absurd hchid (hc (.inl htx))
  · exact fun hr => absurd hchid (hc (.inr hr))
  · rw [hfa] at hfailed
    rw [List.append_right_eq_self.1 hfailed, List.append_nil] at hfb
    rw [hmark]
    exact ⟨b, hb, hsame.calls, hfb⟩
  · rw [hmark] at hb'
    cases hb.symm.trans hb'
    exact ⟨hsame.same, hsame.shape'⟩

theorem step_spec (hoff : Off c s) (h : SameBut c s s')
    (ha : s.processEvent env kind event = some a) : StepSpec env kind c event s s' a := by
  by_cases hc : event.evChid = c
  · by_cases htx : event.evType = Tre.MHI_PKT_TYPE_TX_EVENT
    · exact stepSpec_marked hoff h hc htx ha
    · by_cases hr : event.evType = Tre.MHI_PKT_TYPE_RSC_TX_EVENT
      · exact stepSpec_rsc hoff h hc hr ha
      · exact stepSpec_other hoff h (fun ht => absurd ht (not_or.2 ⟨htx, hr⟩)) ha
  · exact stepSpec_other hoff h (fun _ => hc) ha

/-- Calls and failed assertions are only added. -/
structure Grown (s a : CtrlSt maxChan) : Prop where
  calls : s.calls <+: a.calls
  failed : s.failed <+: a.failed

theorem Grown.refl (s : CtrlSt maxChan) : Grown s s := ⟨List.prefix_rfl, List.prefix_rfl⟩

theorem Grown.trans (h : Grown s a) (h' : Grown a b) : Grown s b :=
  ⟨h.calls.trans h'.calls, h.failed.trans h'.failed⟩

theorem Grown.callsOf (h : Grown s a) (d : ℕ) : s.callsOf d <+: a.callsOf d := h.calls.filter _

/-- What is as it was has been so in between. -/
theorem Grown.callsOf_eq (h : Grown s a) (h' : Grown a b) {d : ℕ}
    (heq : b.callsOf d = s.callsOf d) : a.callsOf d = s.callsOf d :=
  ((h.callsOf d).eq_of_length_le (heq ▸ (h'.callsOf d).length_le)).symm

theorem Grown.failed_eq (h : Grown s a) (h' : Grown a b) (heq : b.failed = s.failed) :
    a.failed = s.failed :=
  (h.failed.eq_of_length_le (heq ▸ h'.failed.length_le)).symm

theorem grown_parseTransfer (ha : s.parseTransfer env event = some a) : Grown s a := by
  obtain ⟨r, -, rfl⟩ := Option.map_eq_some_iff.1 ha
  exact ⟨List.prefix_append _ _, List.prefix_append _ _⟩

theorem grown_ctrlEvent (ha : s.ctrlEvent env event = some a) : Grown s a := by
  unfold CtrlSt.ctrlEvent at ha
  split_ifs at ha
  · cases ha
    exact ⟨List.prefix_rfl, List.prefix_rfl⟩
  · obtain ⟨r, -, rfl⟩ := Option.map_eq_some_iff.1 ha
    exact ⟨List.prefix_rfl, List.prefix_append _ _⟩
  · cases ha
    exact ⟨List.prefix_rfl, List.prefix_rfl⟩
  · exact grown_parseTransfer ha
  · cases ha
    exact ⟨List.prefix_rfl, List.prefix_append _ _⟩

theorem grown_processEvent (ha : s.processEvent env kind event = some a) : Grown s a := by
  obtain ⟨a₁, ha₁, rfl⟩ := Option.map_eq_some_iff.1 ha
  have h : Grown s a₁ := by
    cases kind
    · exact grown_parseTransfer ha₁
    · exact grown_ctrlEvent ha₁
  exact ⟨h.calls, h.failed⟩

variable {elements devRp : ℕ} {slots marked : ℕ → Tre}

theorem grown_processLoop : ∀ {fuel localRp quota rp : ℕ} {s : CtrlSt maxChan},
    s.processLoop env kind elements slots devRp fuel localRp quota = some (a, rp) → Grown s a
  | 0, _, _, _, _, ha => by cases ha
  | fuel + 1, localRp, quota, rp, s, ha => by
    rw [CtrlSt.processLoop] at ha
    split_ifs at ha
    · obtain ⟨s₁, hs₁, ha⟩ := Option.bind_eq_some_iff.1 ha
      exact (grown_processEvent hs₁).trans (grown_processLoop ha)
    · cases ha
      exact Grown.refl _

/-- A marked event uses up no more of the quota. -/
theorem CtrlSt.quotaAfter_le {quota quota' : ℕ} (hq : kind = .data → quota ≤ quota') (c : ℕ) :
    kind = .data →
      CtrlSt.quotaAfter kind event quota ≤ CtrlSt.quotaAfter kind (event.markStale c) quota' := by
  rintro rfl
  have hle := hq rfl
  unfold CtrlSt.quotaAfter
  by_cases ht : event.IsTransfer
  · rw [if_pos (And.intro rfl ht)]
    split_ifs <;> omega
  · rw [if_neg fun h => ht h.2, if_neg fun h => ht (Tre.isTransfer_of_markStale h.2)]
    exact hle

/-- An event and what comes after it: `run` is the rest of the loop, and `Rest` what is asked of the
events in it. -/
theorem StepSpec.bind_iff {s₁ : CtrlSt maxChan} (hspec : StepSpec env kind c event s s' s₁)
    (hs : Grown s s₁) (ha : Grown s₁ a) {run : CtrlSt maxChan → Option (CtrlSt maxChan × ℕ)}
    {Rest : Prop} (hrun : ∀ s₁' b, run s₁' = some (b, devRp) → Grown s₁' b)
    (hrest : ∀ s₁', SameBut c s₁ s₁' → SameShape (s'.chans c) (s₁'.chans c) →
      ((∃ b, run s₁' = some (b, devRp) ∧ Discards c s₁' a b) ↔ a.failed = s₁.failed ∧ Rest)) :
    (∃ b, (s'.processEvent env kind (event.markStale c)).bind run = some (b, devRp)
        ∧ Discards c s' a b)
      ↔ a.failed = s.failed ∧ event.Discarded kind c (s'.chans c) ∧ Rest := by
  constructor
  · rintro ⟨b, hb, hsame, hcalls, hfailed⟩
    obtain ⟨s₁', hs₁', hb⟩ := Option.bind_eq_some_iff.1 hb
    have hgrown := grown_processEvent hs₁'
    have hgrown' := hrun s₁' b hb
    have hcalls₁ := hgrown.callsOf_eq hgrown' hcalls
    have hfailed₁ := hgrown.failed_eq hgrown' hfailed
    obtain ⟨hsame₁, hshape⟩ := hspec.next s₁' hs₁' hcalls₁ hfailed₁
    obtain ⟨hfa, hdis⟩ := hspec.iff.1 ⟨s₁', hs₁', hcalls₁, hfailed₁⟩
    obtain ⟨hfa', hall⟩ := (hrest s₁' hsame₁ hshape).1
      ⟨b, hb, hsame, hcalls.trans hcalls₁.symm, hfailed.trans hfailed₁.symm⟩
    exact ⟨hfa'.trans hfa, hdis, hall⟩
  · rintro ⟨hfailed, hdis, hall⟩
    have hfa := hs.failed_eq ha hfailed
    obtain ⟨s₁', hs₁', hcalls₁, hfailed₁⟩ := hspec.iff.2 ⟨hfa, hdis⟩
    obtain ⟨hsame₁, hshape⟩ := hspec.next s₁' hs₁' hcalls₁ hfailed₁
    obtain ⟨b, hb, hsame, hcalls, hfb⟩ :=
      (hrest s₁' hsame₁ hshape).2 ⟨hfailed.trans hfa.symm, hall⟩
    exact ⟨b, Option.bind_eq_some_iff.2 ⟨s₁', hs₁', hb⟩, hsame, hcalls.trans hcalls₁,
      hfb.trans hfailed₁⟩

/-- The two runs to the position of the modem. -/
theorem processLoop_iff (hdev : devRp < elements) :
    ∀ {fuel localRp quota quota' : ℕ} {s s' : CtrlSt maxChan}, localRp < elements →
      Ring.contents marked elements localRp devRp
        = (Ring.contents slots elements localRp devRp).map (Tre.markStale · c) →
      Off c s → SameBut c s s' → (kind = .data → quota ≤ quota') →
      s.processLoop env kind elements slots devRp fuel localRp quota = some (a, devRp) →
        ((∃ b, s'.processLoop env kind elements marked devRp fuel localRp quota' = some (b, devRp)
            ∧ Discards c s' a b)
          ↔ a.failed = s.failed
            ∧ ∀ event ∈ Ring.contents slots elements localRp devRp,
              event.Discarded kind c (s'.chans c))
  | 0, _, _, _, _, _, _, _, _, _, _, ha => by cases ha
  | fuel + 1, localRp, quota, quota', s, s', hrp, hmarked, hoff, h, hq, ha => by
    rw [CtrlSt.processLoop] at ha ⊢
    by_cases hne : devRp = localRp
    · subst hne
      rw [if_neg fun hgo => hgo.1 rfl] at ha ⊢
      cases ha
      rw [Ring.contents_self]
      exact iff_of_true ⟨s', rfl, h, rfl, rfl⟩ ⟨rfl, fun _ hmem => absurd hmem List.not_mem_nil⟩
    · have hgo : devRp ≠ localRp ∧ (kind = .data → 0 < quota) := by
        by_contra hno
        rw [if_neg hno] at ha
        cases ha
        exact hne rfl
      rw [if_pos hgo] at ha
      rw [if_pos ⟨hne, fun hk => (hgo.2 hk).trans_le (hq hk)⟩]
      obtain ⟨s₁, hs₁, ha⟩ := Option.bind_eq_some_iff.1 ha
      rw [Ring.contents_pop _ hrp hdev (Ne.symm hne), Ring.contents_pop _ hrp hdev (Ne.symm hne),
        List.map_cons] at hmarked
      obtain ⟨hhead, htail⟩ := List.cons.inj hmarked
      rw [hhead, Ring.contents_pop slots hrp hdev (Ne.symm hne), List.forall_mem_cons]
      have hspec := step_spec hoff h hs₁
      refine hspec.bind_iff (grown_processEvent hs₁) (grown_processLoop ha)
        (fun s₁' b hb => grown_processLoop hb) fun s₁' hsame hshape => ?_
      rw [processLoop_iff hdev (Ring.succ_lt (Nat.zero_lt_of_lt hrp)) htail hspec.off hsame
        (CtrlSt.quotaAfter_le hq c) ha]
      refine and_congr_right fun _ => forall₂_congr fun event _ => ?_
      exact hshape.discarded_iff

/-! ## The reset -/

theorem SameBut.trans {s'' : CtrlSt maxChan} (h : SameBut c s s') (h' : SameBut c s' s'') :
    SameBut c s s'' where
  chans d hd := (h'.chans d hd).trans (h.chans d hd)
  used d hd := (h'.used d hd).trans (h.used d hd)
  ctl := h'.ctl.trans h.ctl
  calls d hd := (h'.calls d hd).trans (h.calls d hd)

/-- A reset changes nothing but the channel and its events. -/
theorem mhiResetChan_spec {localRp : ℕ} {rsc preAlloc : Bool} (hrp : localRp < elements)
    (hdev : devRp < elements)
    (h : mhiResetChan elements devRp slots localRp rsc preAlloc c s = some (marked, s')) :
    SameBut c s s' ∧ Ring.contents marked elements localRp devRp
      = (Ring.contents slots elements localRp devRp).map (Tre.markStale · c) := by
  have hmark := mhiMarkStaleEvents_spec c hdev slots hrp (Ring.used_lt hrp hdev)
  unfold mhiResetChan at h
  rw [hmark] at h
  rcases hch : s.chans c with _ | ch
  · rw [hch] at h
    cases h
    exact ⟨SameBut.refl c s, contents_marked slots⟩
  · rw [hch] at h
    obtain ⟨s₁, hs₁, heq⟩ := Option.map_eq_some_iff.1 h
    cases heq
    refine ⟨?_, contents_marked slots⟩
    unfold CtrlSt.mhiResetRings at hs₁
    split_ifs at hs₁
    · cases hs₁
      refine ⟨fun d hd => rfl, fun d hd => Function.update_of_ne hd _ _, rfl, fun d hd => ?_⟩
      rw [callsOf_append, if_neg (Ne.symm hd), List.append_nil]
    · obtain ⟨r, -, rfl⟩ := Option.map_eq_some_iff.1 hs₁
      refine ⟨fun d hd => Function.update_of_ne hd _ _, fun d hd => rfl, rfl, fun d hd => ?_⟩
      rw [callsOf_append, if_neg (Ne.symm hd), List.append_nil]

/-- The loop of `mhi_reset_data_chan` ends when the ring is empty. -/
theorem mhiResetDataChan_returns (preAlloc : Bool) : ∀ (fuel : ℕ) (ch : Chan),
    ch.trp < ch.cfg.elements → ch.twp < ch.cfg.elements →
      Ring.used ch.cfg.elements ch.trp ch.twp < fuel →
        ∃ r, ch.mhiResetDataChan preAlloc fuel = some r
  | 0, _, _, _, hfuel => absurd hfuel (Nat.not_lt_zero _)
  | fuel + 1, ch, htrp, htwp, hfuel => by
    rw [Chan.mhiResetDataChan]
    by_cases hne : ch.trp ≠ ch.twp
    · have hpop := Ring.used_pop htrp htwp hne
      obtain ⟨r, hr⟩ := mhiResetDataChan_returns preAlloc fuel (ch.handOver 0)
        (Ring.succ_lt ch.cfg.pos) htwp
        (show Ring.used ch.cfg.elements (Ring.succ ch.cfg.elements ch.trp) ch.twp < fuel by omega)
      rw [if_pos hne, hr]
      exact ⟨_, rfl⟩
    · rw [if_neg hne]
      exact ⟨_, rfl⟩

theorem mhiResetChan_returns {localRp : ℕ} (hrp : localRp < elements) (hdev : devRp < elements)
    (slots : ℕ → Tre) (rsc preAlloc : Bool) (hch : ∀ ch ∈ s.chans c, ch.trp < ch.cfg.elements
      ∧ ch.twp < ch.cfg.elements) :
    ∃ r, mhiResetChan elements devRp slots localRp rsc preAlloc c s = some r := by
  unfold mhiResetChan
  rw [mhiMarkStaleEvents_spec c hdev slots hrp (Ring.used_lt hrp hdev)]
  rcases hc : s.chans c with _ | ch
  · exact ⟨_, rfl⟩
  · obtain ⟨htrp, htwp⟩ := hch ch hc
    dsimp only
    unfold CtrlSt.mhiResetRings
    split_ifs
    · exact ⟨_, rfl⟩
    · obtain ⟨r, hr⟩ := mhiResetDataChan_returns preAlloc _ ch htrp htwp (Ring.used_lt htrp htwp)
      rw [hr]
      exact ⟨_, rfl⟩

/-- The channel is off and is reset, and then may be left so, closed, or started again. Processing
the ring up to where the modem was makes no call for the channel, fails no assertion, and is
otherwise what it would have been without the reset, iff it would have failed none without the
reset, and every event of the channel is discarded. -/
theorem mhiResetChan_discards_iff {elements devRp localRp : ℕ} (env : ParseEnv) (kind : EvRing)
    (c : Fin maxChan) (slots : ℕ → Tre) (rsc preAlloc : Bool) (fuel eventQuota : ℕ)
    {s s₀ s' a : CtrlSt maxChan} {marked : ℕ → Tre} (hrp : localRp < elements)
    (hdev : devRp < elements) (hoff : ∀ ch ∈ s.chans c, ¬ ch.enabled)
    (hreset : mhiResetChan elements devRp slots localRp rsc preAlloc c s = some (marked, s₀))
    (hsame : SameBut c s₀ s')
    (ha : s.mhiProcessEventRing env kind elements slots devRp fuel localRp eventQuota
      = some (a, devRp)) :
    (∃ b, s'.mhiProcessEventRing env kind elements marked devRp fuel localRp eventQuota
        = some (b, devRp) ∧ Discards c s' a b)
      ↔ a.failed = s.failed ∧ ∀ event ∈ Ring.contents slots elements localRp devRp,
        event.Discarded kind c (s'.chans c) := by
  obtain ⟨hspec, hcontents⟩ := mhiResetChan_spec hrp hdev hreset
  have hall := hspec.trans hsame
  unfold CtrlSt.mhiProcessEventRing at ha ⊢
  rw [hall.ctl]
  by_cases hinv : s.ctl.power.pmState.EventAccessInvalid
  · rw [if_pos hinv] at ha ⊢
    cases ha
    rw [Ring.contents_self]
    exact iff_of_true ⟨s', rfl, hall, rfl, rfl⟩ ⟨rfl, fun _ hmem => absurd hmem List.not_mem_nil⟩
  · rw [if_neg hinv] at ha ⊢
    exact processLoop_iff hdev hrp hcontents hoff hall (fun _ => Nat.le_refl _) ha

/-- A channel with one buffer queued. -/
def oneQueued (enabled : Bool) : Chan :=
  { fourElements.start with enabled := enabled, twp := 1, bwp := 1, slots := fun _ => ⟨0, 1024⟩ }

/-- The channel 0 is off and the channel 1 is on. -/
def firstOff : CtrlSt 2 where
  chans := fun i => some (oneQueued (decide (i.val = 1)))
  used := fun _ _ => true
  ctl :=
    { power := ⟨.m0, .m0, none, false⟩
      ee := .amss
      transitionList := []
      syserrWork := 0
      statusCb := []
      cmd := ⟨0, fun _ => 0, 0⟩
      ccs := fun _ => 0
      completion := fun _ => 0
      tsyncCcs := 0
      tsyncDone := 0
      count := 0 }
  calls := []
  failed := []

/-- The event that the first element has been transferred, with 100 bytes. -/
def transferred (chid : ℕ) : Tre := ⟨8192, 0x02000064, Tre.evDword1 chid Tre.MHI_PKT_TYPE_TX_EVENT⟩

/-- Events of the channels 0, 1 and 0, from position 2 on. -/
def sharedRing : ℕ → Tre := fun i => transferred (if i = 3 then 1 else 0)

def noRefill : ParseEnv := ⟨fun _ _ => [], 5⟩

theorem sharedRing_discarded (ch : Option Chan) (event : Tre)
    (hmem : event ∈ Ring.contents sharedRing 4 2 1) : event.Discarded .data 0 ch := by
  have htype : ∀ i, (sharedRing i).evType = Tre.MHI_PKT_TYPE_TX_EVENT := by
    intro i
    unfold sharedRing
    split_ifs <;> decide
  obtain ⟨k, -, rfl⟩ := List.mem_map.1 hmem
  exact fun _ => ⟨fun _ => rfl, fun hr => absurd ((htype _).symm.trans hr) (by decide)⟩

theorem firstOff_off : ∀ ch ∈ firstOff.chans 0, ¬ ch.enabled := by
  intro ch hch
  cases hch
  decide

theorem sharedData_discards : ∃ marked s' a b,
    mhiResetChan 4 1 sharedRing 2 false false 0 firstOff = some (marked, s')
      ∧ firstOff.mhiProcessEventRing noRefill .data 4 sharedRing 1 5 2 100 = some (a, 1)
      ∧ s'.mhiProcessEventRing noRefill .data 4 marked 1 5 2 100 = some (b, 1)
      ∧ Discards 0 s' a b ∧ b.calls = [(0, ⟨true, 1024, 0⟩), (1, ⟨true, 1024, 100⟩)] := by
  obtain ⟨b, hb, hdis⟩ := (mhiResetChan_discards_iff noRefill .data 0 sharedRing false false 5 100
    (show 2 < 4 by decide) (show 1 < 4 by decide) firstOff_off rfl (SameBut.refl _ _) rfl).2
    ⟨rfl, sharedRing_discarded _⟩
  refine ⟨_, _, _, b, rfl, rfl, hb, hdis, ?_⟩
  cases hb
  rfl

/-- An event of `parse_rsc_event` of the channel 0. -/
def rscTransferred : Tre := ⟨0, 0x02000064, Tre.evDword1 0 Tre.MHI_PKT_TYPE_RSC_TX_EVENT⟩

/-- The channel 0 is started again. -/
def startedAgain (s : CtrlSt 2) : CtrlSt 2 :=
  { s with
    chans := fun i => if i.val = 0 then some (oneQueued true) else s.chans i
    used := fun _ _ => true }

/-- Where the ring is a control ring, both marked events fail an assertion that they would not have
failed. An event of `parse_rsc_event`, which is not marked, is handed over to the channel that has
been started again. -/
theorem sharedCtrl_asserts :
    (∃ marked s' a b, mhiResetChan 4 1 sharedRing 2 false false 0 firstOff = some (marked, s')
      ∧ firstOff.mhiProcessEventRing noRefill .ctrl 4 sharedRing 1 5 2 100 = some (a, 1)
      ∧ s'.mhiProcessEventRing noRefill .ctrl 4 marked 1 5 2 100 = some (b, 1)
      ∧ a.failed = [] ∧ b.failed = [.unsupported, .unsupported] ∧ ¬ Discards 0 s' a b)
    ∧ ∃ marked s' b, mhiResetChan 4 1 (fun _ => rscTransferred) 0 true false 0 firstOff
        = some (marked, s')
      ∧ (startedAgain s').mhiProcessEventRing noRefill .data 4 marked 1 5 0 100 = some (b, 1)
      ∧ b.calls = s'.calls ++ [(0, ⟨true, 1024, 100⟩)] :=
  ⟨⟨_, _, _, _, rfl, rfl, rfl, rfl, rfl, fun h => absurd h.2.2 (by decide)⟩,
    ⟨_, _, _, rfl, rfl, rfl⟩⟩

end Mhi

end BananaWrt
