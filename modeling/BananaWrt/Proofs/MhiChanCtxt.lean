import BananaWrt.Proofs.MhiStart

/-!
# The context of a channel and its ring

As long as no call takes the rings of a channel down, the context is disabled where the channel is,
and lies in the ring where it is not (`Inv`). `mhi_deinit_chan_ctxt` clears the base address in the
context and leaves it enabled, so that every call that comes there ends with an enabled context and
no ring.
-/

namespace BananaWrt

namespace MhiStart

variable {cfgs : ℕ → ChanCfg} {ch : ℕ} {s s' : Ctl}

theorem mhiResetDataChan_chan (cfgs : ℕ → ChanCfg) (ch : ℕ) : ∀ (fuel : ℕ) (s : Ctl),
    (∀ ch' ≠ ch, (mhiResetDataChan cfgs ch fuel s).chan ch' = s.chan ch')
      ∧ ((mhiResetDataChan cfgs ch fuel s).chan ch).ctxt = (s.chan ch).ctxt
  | 0, s => ⟨fun _ _ => rfl, rfl⟩
  | fuel + 1, s => by
    unfold mhiResetDataChan
    dsimp only
    by_cases heq : (s.chan ch).trp = (s.chan ch).twp
    · rw [if_pos heq]
      exact ⟨fun _ _ => rfl, rfl⟩
    · rw [if_neg heq]
      generalize hs₁ : (if (cfgs ch).dir = .toDevice then _ else s) = s₁
      have hchan : s₁.chan = s.chan := by
        rw [← hs₁]
        split_ifs <;> rfl
      generalize hs₂ : (if (cfgs ch).preAlloc then _ else Ctl.set s₁ ch _) = s₂
      have hself : (s₂.chan ch).ctxt = (s.chan ch).ctxt := by
        rw [← hs₂]
        split_ifs <;> simp
      have hothers : ∀ ch' ≠ ch, s₂.chan ch' = s.chan ch' := by
        intro ch' hne
        rw [← hs₂, ← hchan]
        split_ifs <;> exact Ctl.set_chan_of_ne hne _
      obtain ⟨hrest, hctxt⟩ := mhiResetDataChan_chan cfgs ch fuel s₂
      exact ⟨fun ch' hne => (hrest ch' hne).trans (hothers ch' hne), hctxt.trans hself⟩

/-- The context is left enabled, and the ring is gone. -/
theorem mhiUnprepareChannel_chan (cfgs : ℕ → ChanCfg) (ch : ℕ) (inErrorState : Bool) (s : Ctl) :
    (∀ ch' ≠ ch, (mhiUnprepareChannel cfgs ch inErrorState s).chan ch' = s.chan ch')
      ∧ (¬ (cfgs ch).offloadCh → (s.chan ch).chState = .enabled →
        ((mhiUnprepareChannel cfgs ch inErrorState s).chan ch).treBase = none
          ∧ ((mhiUnprepareChannel cfgs ch inErrorState s).chan ch).ctxt.chstate
            = (s.chan ch).ctxt.chstate) := by
  by_cases hen : (s.chan ch).chState = .enabled
  · rw [mhiUnprepareChannel_enabled hen]
    generalize hs₁ : s.set ch { s.chan ch with chState := .disabled } = s₁
    have hself : (s₁.chan ch).ctxt = (s.chan ch).ctxt := by
      rw [← hs₁, Ctl.set_chan_self]
    have hothers : ∀ ch' ≠ ch, s₁.chan ch' = s.chan ch' := by
      intro ch' hne
      rw [← hs₁]
      exact Ctl.set_chan_of_ne hne _
    by_cases hoff : (cfgs ch).offloadCh
    · rw [if_pos hoff]
      exact ⟨hothers, fun hno => absurd hoff hno⟩
    · rw [if_neg hoff]
      obtain ⟨hrest, hctxt⟩ := mhiResetDataChan_chan cfgs ch (cfgs ch).elements s₁
      refine ⟨fun ch' hne => ?_, fun _ _ => ?_⟩
      · rw [(mhiDeinitChanCtxt_keeps ch _).chan ch' hne, hrest ch' hne, hothers ch' hne]
      · unfold mhiDeinitChanCtxt
        rw [Ctl.set_chan_self]
        have hchstate := congrArg ChanCtxt.chstate (hctxt.trans hself)
        exact ⟨rfl, hchstate⟩
  · have hsame : mhiUnprepareChannel cfgs ch inErrorState s = s := if_pos hen
    rw [hsame]
    exact ⟨fun _ _ => rfl, fun _ h => absurd h hen⟩

/-- The loop goes through exactly when all buffers can be had and mapped. -/
theorem preAllocLoop_ctxt (cfgs : ℕ → ChanCfg) (ch : ℕ) (buffers : ℕ → BufferEnv) :
    ∀ (nrEl : ℕ) (s : Ctl),
      ((preAllocLoop cfgs ch buffers nrEl s).1.chan ch).ctxt = (s.chan ch).ctxt
        ∧ ((preAllocLoop cfgs ch buffers nrEl s).1.chan ch).treBase = (s.chan ch).treBase
        ∧ ((preAllocLoop cfgs ch buffers nrEl s).2 = 0
          ↔ ∀ k < nrEl, (buffers k).allocated ∧ (buffers k).mapped)
  | 0, s => ⟨rfl, rfl, iff_of_true rfl fun _ h => absurd h (Nat.not_lt_zero _)⟩
  | nrEl + 1, s => by
    have hneg : - ENOMEM ≠ 0 := Int.ne_of_lt neg_ENOMEM
    by_cases hbuf : (buffers nrEl).allocated
    · by_cases hmap : (buffers nrEl).mapped
      · rw [preAllocLoop_pushed hbuf hmap]
        obtain ⟨hctxt, hbase, hret⟩ :=
            preAllocLoop_ctxt cfgs ch buffers nrEl (pushed (cfgs ch) ch s)
        rw [chan_pushed] at hctxt hbase
        refine ⟨hctxt, hbase, hret.trans ⟨fun h k hk => ?_, fun h k hk => ?_⟩⟩
        · rcases Nat.lt_succ_iff_lt_or_eq.1 hk with hk | rfl
          · exact h k hk
          · exact ⟨hbuf, hmap⟩
        · exact h k (Nat.lt_succ_of_lt hk)
      · rw [preAllocLoop_unmapped hbuf hmap]
        dsimp only
        rw [chan_unmapped]
        exact ⟨rfl, rfl, iff_of_false hneg fun h => hmap (h nrEl (Nat.lt_succ_self _)).2⟩
    · rw [preAllocLoop_stops hbuf]
      exact ⟨rfl, rfl, iff_of_false hneg fun h => hbuf (h nrEl (Nat.lt_succ_self _)).1⟩

/-- The context lies in the ring. -/
structure InCtxt (cfg : ChanCfg) (c : MhiChan) : Prop extends c.Linked cfg where
  chstate : c.ctxt.chstate = .enabled

/-- The modem sees an enabled channel without a ring. -/
structure Dead (c : MhiChan) : Prop where
  treBase : c.treBase = none
  chstate : c.ctxt.chstate = .enabled

theorem ChanCfg.inRing {cfg : ChanCfg} {i : ℕ} (hi : i < cfg.elements) :
    cfg.InRing (cfg.iommuBase + sizeofTre * i) :=
  ⟨Nat.le_add_right _ _, Nat.add_lt_add_left (Nat.mul_lt_mul_of_pos_left hi (by decide)) _⟩

theorem InCtxt.congr {cfg : ChanCfg} {c c' : MhiChan} (h : InCtxt cfg c) (hctxt : c'.ctxt = c.ctxt)
    (hbase : c'.treBase = c.treBase) : InCtxt cfg c' where
  treBase := hbase ▸ h.treBase
  rbase := hctxt ▸ h.rbase
  rlen := hctxt ▸ h.rlen
  rp := hctxt ▸ h.rp
  wp := hctxt ▸ h.wp
  chstate := hctxt ▸ h.chstate

theorem InCtxt.setUp {cfg : ChanCfg} (hpos : 0 < cfg.elements) (c : MhiChan) (block : ℕ) :
    InCtxt cfg (c.setUp cfg block) where
  treBase := nofun
  rbase := Nat.le_refl _
  rlen := Nat.le_refl _
  rp := ChanCfg.inRing hpos
  wp := ChanCfg.inRing hpos
  chstate := rfl

theorem dead_deinit (hen : (s.chan ch).ctxt.chstate = .enabled) :
    Dead ((mhiDeinitChanCtxt ch s).chan ch) := by
  unfold mhiDeinitChanCtxt
  rw [Ctl.set_chan_self]
  exact ⟨rfl, hen⟩

/-- A channel that has been started: its context lies in the ring, and so do the elements. -/
structure Started (cfg : ChanCfg) (c : MhiChan) : Prop extends InCtxt cfg c where
  chState : c.chState = .enabled
  twp_lt : c.twp < cfg.elements

theorem Started.congr {cfg : ChanCfg} {c c' : MhiChan} (h : Started cfg c)
    (hctxt : c'.ctxt = c.ctxt)
    (hbase : c'.treBase = c.treBase) (hstate : c'.chState = c.chState)
    (hlt : c'.twp < cfg.elements) : Started cfg c' :=
  ⟨h.toInCtxt.congr hctxt hbase, hstate.trans h.chState, hlt⟩

/-- The doorbell. -/
theorem Started.ringDb (h : Started (cfgs ch) (s.chan ch)) (dbAccessValid : Bool) :
    Started (cfgs ch) ((if dbAccessValid then mhiRingChanDb cfgs ch s else s).chan ch) := by
  rw [ringDb_eq, Ctl.set_chan_self]
  refine ⟨⟨⟨h.treBase, h.rbase, h.rlen, h.rp, ?_⟩, h.chstate⟩, h.chState, h.twp_lt⟩
  dsimp only
  split_ifs
  · exact ChanCfg.inRing h.twp_lt
  · exact h.wp

theorem started_commanded (hoff : ¬ (cfgs ch).offloadCh) (hready : Ready (cfgs ch) (s.chan ch))
    (hin : InCtxt (cfgs ch) (s.chan ch)) : Started (cfgs ch) ((commanded ch s).chan ch) := by
  rw [chan_commanded]
  exact ⟨hin.congr rfl rfl, rfl, (hready.rings hoff).twp_lt⟩

theorem mhiPreAlloc_ctxt (e : PrepareEnv) (hoff : ¬ (cfgs ch).offloadCh)
    (hready : Ready (cfgs ch) (s.chan ch)) (hin : InCtxt (cfgs ch) (s.chan ch)) :
    if (cfgs ch).preAlloc →
        ∀ k < (cfgs ch).elements - 1, (e.buffers k).allocated ∧ (e.buffers k).mapped then
      Started (cfgs ch) ((mhiPreAlloc cfgs ch e s).1.chan ch)
    else Dead ((mhiPreAlloc cfgs ch e s).1.chan ch) := by
  have hst := started_commanded hoff hready hin
  by_cases hpre : (cfgs ch).preAlloc
  · obtain ⟨hturns, hrings, -⟩ := preAllocLoop_spec hpre e.buffers ((cfgs ch).elements - 1)
      (hready.prepared.rings hoff) (hready.used_commanded hoff)
    obtain ⟨hctxt, hbase, hret⟩ :=
      preAllocLoop_ctxt cfgs ch e.buffers ((cfgs ch).elements - 1) (commanded ch s)
    rw [mhiPreAlloc_of_preAlloc hpre hready e rfl]
    generalize preAllocLoop cfgs ch e.buffers _ _ = r at hturns hrings hctxt hbase hret ⊢
    have hst' : Started (cfgs ch) (r.1.chan ch) :=
      hst.congr hctxt hbase hturns.chState hrings.twp_lt
    by_cases hok : r.2 = 0
    · rw [if_pos fun _ => hret.1 hok, if_neg (not_not_intro hok)]
      exact hst'.ringDb e.dbAccessValid
    · rw [if_neg fun h => hok (hret.2 (h hpre)), if_pos hok]
      obtain ⟨-, hdead⟩ := mhiUnprepareChannel_chan cfgs ch e.resetInErrorState r.1.wakePut
      obtain ⟨hgone, hen⟩ := hdead hoff hst'.chState
      exact ⟨hgone, hen.trans hst'.chstate⟩
  · rw [if_pos fun h => absurd h hpre, mhiPreAlloc_of_not hpre]
    exact hst

/-- After the rings have been set up, the call succeeds or leaves nothing of them but the context.
-/
theorem afterSetUp_ctxt (e : PrepareEnv) (hoff : ¬ (cfgs ch).offloadCh)
    (hready : Ready (cfgs ch) (s.chan ch)) (hin : InCtxt (cfgs ch) (s.chan ch)) :
    (e.Succeeds (cfgs ch) → Started (cfgs ch) ((afterSetUp cfgs ch e s).1.chan ch))
      ∧ (¬ e.Succeeds (cfgs ch) → Dead ((afterSetUp cfgs ch e s).1.chan ch)) := by
  have hdead : Dead ((errorPmState cfgs ch s).chan ch) := by
    unfold errorPmState
    rw [if_neg hoff]
    exact dead_deinit hin.chstate
  unfold afterSetUp
  split_ifs with herr hfull hcomp
  · exact ⟨fun h => absurd (herr.symm.trans h.1) nofun, fun _ => hdead⟩
  · exact ⟨fun h => absurd (hfull.symm.trans h.2.1) nofun, fun _ => hdead⟩
  · exact ⟨fun h => absurd h.2.2.1 hcomp, fun _ => hdead⟩
  · have hpre := mhiPreAlloc_ctxt (s := s.wakeGet.runtimeGet) e hoff hready hin
    have herr' : e.inErrorState = false := by simpa using herr
    have hfull' : e.cmdRingFull = false := by simpa using hfull
    have hcomp' : e.completed = some evCcSuccess := not_not.1 hcomp
    refine ⟨fun h => ?_, fun h => ?_⟩
    · rw [if_pos h.2.2.2] at hpre
      exact hpre
    · rw [if_neg fun hall => h ⟨herr', hfull', hcomp', hall⟩] at hpre
      exact hpre

/-- The context is disabled where the channel is, and lies in the ring where it is not. -/
def Inv (cfgs : ℕ → ChanCfg) (s : Ctl) : Prop :=
  ∀ ch, ¬ (cfgs ch).offloadCh → Started (cfgs ch) (s.chan ch)
    ∨ ((s.chan ch).chState = .disabled ∧ (s.chan ch).ctxt.chstate = .disabled)

theorem Inv.noDeadRing (h : Inv cfgs s) : NoDeadRing cfgs s := by
  intro ch hoff hen
  rcases h ch hoff with hst | ⟨-, hdis⟩
  · exact hst.toLinked
  · rw [hdis] at hen
    cases hen

/-- A call that takes no rings down keeps the invariant, and one that does breaks the property. -/
theorem Inv.update (h : Inv cfgs s) (ch : ℕ) (hothers : ∀ ch' ≠ ch, s'.chan ch' = s.chan ch')
    (hch : ¬ (cfgs ch).offloadCh → Started (cfgs ch) (s'.chan ch)
      ∨ ((s'.chan ch).chState = .disabled ∧ (s'.chan ch).ctxt.chstate = .disabled)) :
    Inv cfgs s' := by
  intro ch' hoff
  by_cases heq : ch' = ch
  · subst heq
    exact hch hoff
  · rw [hothers ch' heq]
    exact h ch' hoff

theorem not_noDeadRing (hoff : ¬ (cfgs ch).offloadCh) (hdead : Dead (s.chan ch)) :
    ¬ NoDeadRing cfgs s := fun h => (h ch hoff hdead.chstate).treBase hdead.treBase

/-- A channel is started, enabled in the context too, or it is disabled in both. -/
theorem Inv.started (h : Inv cfgs s) (hoff : ¬ (cfgs ch).offloadCh)
    (hen : (s.chan ch).chState = .enabled) : Started (cfgs ch) (s.chan ch) := by
  rcases h ch hoff with hst | ⟨hdis, -⟩
  · exact hst
  · rw [hen] at hdis
    cases hdis

theorem Inv.ctxt_disabled (h : Inv cfgs s) (hoff : ¬ (cfgs ch).offloadCh)
    (hdis : (s.chan ch).chState = .disabled) : (s.chan ch).ctxt.chstate = .disabled := by
  rcases h ch hoff with hst | ⟨-, hctxt⟩
  · rw [hst.chState] at hdis
    cases hdis
  · exact hctxt

/-- The call leaves before the rings are set up, or it comes to what is after that. -/
theorem mhiPrepareChannel_cases (e : PrepareEnv) (hdis : (s.chan ch).chState = .disabled)
    (hoff : ¬ (cfgs ch).offloadCh) :
    (¬ TakesDown cfgs s (.start ch e)
        ∧ ((mhiPrepareChannel cfgs ch e s).1.chan ch).chState = .disabled
        ∧ ((mhiPrepareChannel cfgs ch e s).1.chan ch).ctxt = (s.chan ch).ctxt)
      ∨ ((TakesDown cfgs s (.start ch e) ↔ ¬ e.Succeeds (cfgs ch))
        ∧ mhiPrepareChannel cfgs ch e s = afterSetUp cfgs ch e (ringsSet (cfgs ch) ch s)) := by
  by_cases hee : 1 <<< e.ee &&& (cfgs ch).eeMask = 0
  · refine .inl ⟨fun ht => ht.2.1 hee, ?_⟩
    unfold mhiPrepareChannel
    rw [if_pos hee]
    exact ⟨hdis, rfl⟩
  · rw [mhiPrepareChannel_eq hee hdis, if_neg hoff]
    by_cases hring : e.ringAllocated
    · rw [if_pos hring]
      exact .inr ⟨⟨fun ht => ht.2.2.2.2, fun hs => ⟨hoff, hee, hdis, hring, hs⟩⟩, rfl⟩
    · rw [if_neg hring, Ctl.set_chan_self]
      exact .inl ⟨fun ht => hring ht.2.2.2.1, hdis, rfl⟩

theorem mhiPrepareChannel_chan (h : Inv cfgs s) (e : PrepareEnv) :
    (¬ TakesDown cfgs s (.start ch e) → Inv cfgs (mhiPrepareChannel cfgs ch e s).1)
      ∧ (TakesDown cfgs s (.start ch e) → ¬ NoDeadRing cfgs (mhiPrepareChannel cfgs ch e s).1) := by
  by_cases hdis : (s.chan ch).chState = .disabled
  · obtain ⟨hk, -⟩ := mhiPrepareChannel_spec cfgs hdis e
    by_cases hoff : (cfgs ch).offloadCh
    · exact ⟨fun _ => h.update ch hk.chan fun hno => absurd hoff hno, fun ht => absurd hoff ht.1⟩
    · rcases mhiPrepareChannel_cases e hdis hoff with ⟨hno, hstate, hsame⟩ | ⟨hiff, heq⟩
      · refine ⟨fun _ => h.update ch hk.chan fun _ => .inr ⟨hstate, ?_⟩, fun ht => absurd ht hno⟩
        rw [hsame]
        exact h.ctxt_disabled hoff hdis
      · have hin : InCtxt (cfgs ch) ((ringsSet (cfgs ch) ch s).chan ch) := by
          rw [chan_ringsSet]
          exact InCtxt.setUp (ChanCfg.elements_pos hoff) _ _
        obtain ⟨hgood, hbad⟩ := afterSetUp_ctxt e hoff (ready_ringsSet hdis hoff) hin
        rw [heq] at hk ⊢
        exact ⟨fun ht => h.update ch hk.chan fun _ => .inl (hgood (not_not.1 fun hs => ht (hiff.2 hs))),
          fun ht => not_noDeadRing hoff (hbad (hiff.1 ht))⟩
  · have hsame : (mhiPrepareChannel cfgs ch e s).1 = s := by
      unfold mhiPrepareChannel
      dsimp only
      rw [if_pos hdis]
      split_ifs <;> rfl
    rw [hsame]
    exact ⟨fun _ => h, fun ht => absurd ht.2.2.1 hdis⟩

theorem mhiQueueBuf_inv (h : Inv cfgs s) (hen : (s.chan ch).chState = .enabled)
    (hoff : ¬ (cfgs ch).offloadCh) (buf : ℕ) (inErrorState mapped dbAccessValid : Bool) :
    Inv cfgs (mhiQueueBuf cfgs ch buf inErrorState mapped dbAccessValid s).1 := by
  have hst := h.started hoff hen
  unfold mhiQueueBuf
  dsimp only
  by_cases herr : inErrorState
  · rw [if_pos herr]
    exact h
  · rw [if_neg herr]
    by_cases hfull : Ring.succ (cfgs ch).elements (s.chan ch).twp = (s.chan ch).trp
    · rw [if_pos hfull]
      exact h
    · rw [if_neg hfull]
      unfold mhiGenTre
      by_cases hmap : mapped
      · rw [if_pos hmap]
        dsimp only
        rw [if_neg (not_not_intro rfl)]
        generalize hs₁ : s.set ch _ = s₁
        have hst₁ : Started (cfgs ch) (s₁.chan ch) := by
          rw [← hs₁, Ctl.set_chan_self]
          exact hst.congr rfl rfl rfl (Ring.succ_lt (Nat.zero_lt_of_lt hst.twp_lt))
        have hothers : ∀ ch' ≠ ch, s₁.chan ch' = s.chan ch' := by
          intro ch' hne
          rw [← hs₁]
          exact Ctl.set_chan_of_ne hne _
        -- the references do not matter
        generalize hs₂ : (if (cfgs ch).dir = .toDevice then _ else s₁) = s₂
        have hchan : s₂.chan = s₁.chan := by
          rw [← hs₂]
          split_ifs <;> rfl
        rw [← hchan] at hst₁ hothers
        refine h.update ch (fun ch' hne => ?_) fun _ => .inl (hst₁.ringDb dbAccessValid)
        rw [ringDb_eq]
        exact (Ctl.set_chan_of_ne hne _).trans (hothers ch' hne)
      · rw [if_neg hmap]
        dsimp only
        rw [if_pos (Int.ne_of_lt neg_ENOMEM)]
        refine h.update ch (fun ch' hne => Ctl.set_chan_of_ne hne _) fun _ => .inl ?_
        rw [Ctl.set_chan_self]
        exact hst.congr rfl rfl rfl hst.twp_lt

/-- A step keeps the invariant, or takes rings down and breaks the property. -/
theorem step_inv {i : Input} (h : Inv cfgs s) (hs : step cfgs s i = some s') :
    (¬ TakesDown cfgs s i → Inv cfgs s') ∧ (TakesDown cfgs s i → ¬ NoDeadRing cfgs s') := by
  cases i with
  | start ch e =>
    cases hs
    exact mhiPrepareChannel_chan h e
  | stop ch inErrorState =>
    cases hs
    obtain ⟨hothers, hdead⟩ := mhiUnprepareChannel_chan cfgs ch inErrorState s
    refine ⟨fun ht => h.update ch hothers fun hoff => ?_, fun ht => ?_⟩
    · have hen : (s.chan ch).chState ≠ .enabled := fun hen => ht ⟨hoff, hen⟩
      have hsame : mhiUnprepareChannel cfgs ch inErrorState s = s := if_pos hen
      rw [hsame]
      exact h ch hoff
    · obtain ⟨hoff, hen⟩ := ht
      obtain ⟨hbase, hchstate⟩ := hdead hoff hen
      exact not_noDeadRing hoff ⟨hbase, hchstate.trans (h.started hoff hen).chstate⟩
  | queue ch buf inErrorState mapped dbAccessValid =>
    obtain ⟨⟨hen, hoff, -⟩, hs⟩ := Option.ite_none_right_eq_some.1 hs
    cases hs
    exact ⟨fun _ => mhiQueueBuf_inv h hen hoff buf inErrorState mapped dbAccessValid,
      fun ht => ht.elim⟩

theorem inv_initDevCtxt (cfgs : ℕ → ChanCfg) (s : Ctl) : Inv cfgs (mhiInitDevCtxt cfgs s) := by
  intro ch hoff
  refine .inr ?_
  change (if (cfgs ch).offloadCh then _ else _ : MhiChan).chState = _
    ∧ (if (cfgs ch).offloadCh then _ else _ : MhiChan).ctxt.chstate = _
  rw [if_neg hoff]
  exact ⟨rfl, rfl⟩

/-- The modem never sees an enabled channel without a ring exactly where no call takes rings down.
-/
theorem noDeadRing_iff (cfgs : ℕ → ChanCfg) (s₀ : Ctl) (is : List Input)
    (hrun : Runs.exec (step cfgs) (mhiInitDevCtxt cfgs s₀) is = some s) :
    (∀ js s', js <+: is → Runs.exec (step cfgs) (mhiInitDevCtxt cfgs s₀) js = some s' →
        NoDeadRing cfgs s')
      ↔ Runs.Meets (step cfgs) (fun s i => ¬ TakesDown cfgs s i) (mhiInitDevCtxt cfgs s₀) is := by
  have hinit := inv_initDevCtxt cfgs s₀
  rw [Runs.forall_prefix_iff, and_iff_right hinit.noDeadRing]
  have hstep : ∀ s i s', Inv cfgs s → step cfgs s i = some s' →
      (¬ TakesDown cfgs s i → Inv cfgs s' ∧ NoDeadRing cfgs s')
        ∧ (NoDeadRing cfgs s' → ¬ TakesDown cfgs s i) := by
    intro s i s' hI hs
    obtain ⟨hkeep, hbreak⟩ := step_inv hI hs
    exact ⟨fun ht => ⟨hkeep ht, (hkeep ht).noDeadRing⟩, fun hright ht => hbreak ht hright⟩
  exact Runs.meets_right_iff hstep hinit hrun

/-- A channel to the modem is started, and a buffer is queued on it. -/
theorem startedChan_linked : ∃ s,
    Runs.exec (step twoChans) (mhiInitDevCtxt twoChans offCtl)
        [.start 0 lastFails, .queue 0 7 false true true] = some s
      ∧ (s.chan 0).ctxt = ⟨.enabled, 8192, 64, 8192, 8208⟩
      ∧ ∀ js s', js <+: [.start 0 lastFails, .queue 0 7 false true true] →
        Runs.exec (step twoChans) (mhiInitDevCtxt twoChans offCtl) js = some s' →
          NoDeadRing twoChans s' := by
  refine ⟨_, rfl, rfl, (noDeadRing_iff twoChans offCtl
    [.start 0 lastFails, .queue 0 7 false true true] rfl).2 ?_⟩
  exact ⟨fun ht => ht.2.2.2.2 ⟨rfl, rfl, rfl, nofun⟩, fun _ _ => ⟨fun ht => ht.elim,
    fun _ _ => trivial⟩⟩

/-- It is stopped again. -/
theorem stoppedChan_dead : ∃ s,
    Runs.exec (step twoChans) (mhiInitDevCtxt twoChans offCtl)
        [.start 0 lastFails, .stop 0 false] = some s
      ∧ (s.chan 0).treBase = none ∧ (s.chan 0).ctxt = ⟨.enabled, 0, 64, 8192, 8192⟩
      ∧ ¬ NoDeadRing twoChans s :=
  ⟨_, rfl, rfl, rfl, fun h => (h 0 (by decide) rfl).treBase rfl⟩

end MhiStart

end BananaWrt
