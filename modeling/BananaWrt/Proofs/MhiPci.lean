import BananaWrt.MhiPci

/-!
# What is taken is given back, and when it is not

A probe that goes wrong gives back what it has taken, and only that; a device that is bound holds
what `St.inUse` says; `remove` gives back all of it. There are four kinds of failures for which this
does not hold, and one mode (`Tidy`): two labels of `mhi_init_pci_dev` are in the wrong order, `ret`
may be 0, or a number of vectors, where it jumps to one, and `debug_mode` leaves MHI without power.
-/

namespace BananaWrt

namespace MhiPci

open Ledger

/-- Nothing that matters to another function changes. -/
structure Keeps (c c' : Ctl) : Prop where
  msiRequired : c'.msiRequired = c.msiRequired
  preInit : c'.preInit = c.preInit
  poweredOn : c'.poweredOn = c.poweredOn

theorem Keeps.refl (c : Ctl) : Keeps c c := ⟨rfl, rfl, rfl⟩

theorem Keeps.trans {c c' c'' : Ctl} (h : Keeps c c') (h' : Keeps c' c'') : Keeps c c'' :=
  ⟨h'.msiRequired.trans h.msiRequired, h'.preInit.trans h.preInit,
    h'.poweredOn.trans h.poweredOn⟩

theorem keeps_ctxtMsi (c : Ctl) : Keeps c c.ctxtMsi := by
  unfold Ctl.ctxtMsi
  split_ifs <;> exact ⟨rfl, rfl, rfl⟩

/-- The interrupts that `mhi_init_irq_setup` requests. -/
def Ctl.irqs (c : Ctl) : Multiset Res :=
  if c.msiAllocated = 1 then {.irq msiIrqBase none}
  else (.irq msiIrqBase none) ::ₘ (c.eventIrqs : Multiset Res)

theorem requestIrqs_spec (request : ℕ → ℕ) : ∀ (k : ℕ) (before todo : List Res) (m : Multiset Res),
    ∃ l ret, requestIrqs request k before todo
        (clean ((before : Multiset Res) + (.irq 0 none ::ₘ m))) = (l, ret)
      ∧ ((ret < 0 ∧ l = clean m)
        ∨ (ret = 0 ∧ l = clean ((todo : Multiset Res) + ((before : Multiset Res)
          + (.irq 0 none ::ₘ m)))))
  | k, before, [], m => ⟨_, _, rfl, Or.inr ⟨rfl, by rw [Multiset.coe_nil, Multiset.zero_add]⟩⟩
  | k, before, r :: rs, m => by
    unfold requestIrqs
    by_cases hret : request k ≠ 0
    · rw [if_pos hret]
      refine ⟨_, _, rfl, Or.inl ⟨by omega, ?_⟩⟩
      rw [dropAll_clean, drop_clean]
    · rw [if_neg hret, take_clean, ← Multiset.cons_add, Multiset.cons_coe]
      obtain ⟨l, ret, heq, hcase⟩ := requestIrqs_spec request (k + 1) (r :: before) rs m
      refine ⟨l, ret, heq, hcase.imp_right fun ⟨hzero, hl⟩ => ⟨hzero, ?_⟩⟩
      rw [hl, ← Multiset.cons_coe, ← Multiset.cons_coe, Multiset.cons_add, Multiset.cons_add,
        Multiset.add_cons]

theorem mhiInitIrqSetup_spec (c : Ctl) (request : ℕ → ℕ) {m : Multiset Res}
    (hm : .irqTable ∈ m) : ∃ c' l ret, mhiInitIrqSetup c request (clean m) = (c', l, ret)
      ∧ Keeps c c' ∧ ((ret < 0 ∧ l = clean m) ∨ (ret = 0 ∧ l = clean (c'.irqs + m))) := by
  unfold mhiInitIrqSetup
  dsimp only
  rw [use_of_mem (l := clean m) hm]
  by_cases hone : c.msiAllocated = 1
  · rw [if_pos hone]
    by_cases hret : request 0 ≠ 0
    · rw [if_pos hret]
      exact ⟨_, _, _, rfl, ⟨rfl, rfl, rfl⟩, Or.inl ⟨by omega, rfl⟩⟩
    · rw [if_neg hret]
      refine ⟨_, _, _, rfl, ⟨rfl, rfl, rfl⟩, Or.inr ⟨rfl, ?_⟩⟩
      unfold Ctl.irqs
      rw [if_pos (show c.oneMsi.msiAllocated = 1 from hone), Multiset.singleton_add]
      rfl
  · rw [if_neg hone]
    by_cases hret : request 0 ≠ 0
    · rw [if_pos hret]
      exact ⟨_, _, _, rfl, Keeps.refl c, Or.inl ⟨by omega, rfl⟩⟩
    · rw [if_neg hret]
      obtain ⟨l, ret, heq, hcase⟩ := requestIrqs_spec request 1 [] c.eventIrqs m
      rw [Multiset.coe_nil, Multiset.zero_add] at heq hcase
      refine ⟨c, l, ret, congrArg (Prod.mk c) heq, Keeps.refl c,
        hcase.imp_right fun ⟨hzero, hl⟩ => ⟨hzero, ?_⟩⟩
      unfold Ctl.irqs
      rw [hl, if_neg hone, Multiset.cons_add, Multiset.add_cons]
      rfl

/-- What has been requested is freed. -/
theorem mhiDeinitFreeIrq_spec (c : Ctl) {m : Multiset Res} (hm : .irqTable ∈ m) :
    c.mhiDeinitFreeIrq (clean (c.irqs + m)) = clean m := by
  unfold Ctl.mhiDeinitFreeIrq Ctl.irqs
  dsimp only
  rw [use_of_mem (l := clean _) (Multiset.mem_add.2 (Or.inr hm))]
  by_cases hone : c.msiAllocated = 1
  · rw [if_pos hone, if_pos hone, Multiset.singleton_add, drop_clean]
  · rw [if_neg hone, if_neg hone, Multiset.cons_add, ← Multiset.add_cons, dropAll_clean,
      drop_clean]

/-- What `mhi_async_power_up` leaves taken. -/
def Ctl.powered (c : Ctl) : Multiset Res := c.irqs + {.ctrlSeg, .ctxt}

theorem powered_add (c : Ctl) (m : Multiset Res) :
    c.powered + m = c.irqs + (.ctrlSeg ::ₘ .ctxt ::ₘ m) := by
  unfold Ctl.powered
  rw [Multiset.insert_eq_cons, Multiset.add_assoc, Multiset.cons_add, Multiset.singleton_add]

theorem mhiInitDevCtxt_spec (c : Ctl) (o : PowerUp) (m : Multiset Res) :
    ∃ c' l ret, mhiInitDevCtxt c o (clean m) = (c', l, ret) ∧ Keeps c c'
      ∧ ((ret < 0 ∧ l = clean m) ∨ (ret = 0 ∧ l = clean (.ctrlSeg ::ₘ .ctxt ::ₘ m))) := by
  unfold mhiInitDevCtxt
  dsimp only
  split_ifs
  · exact ⟨_, _, _, rfl, Keeps.refl c, Or.inl ⟨by decide, rfl⟩⟩
  · exact ⟨_, _, _, rfl, Keeps.refl c, Or.inl ⟨by decide, by simp only [take_clean, drop_clean]⟩⟩
  · exact ⟨_, _, _, rfl, Keeps.refl c, Or.inl ⟨by decide, by simp only [take_clean, drop_clean]⟩⟩
  · exact ⟨_, _, _, rfl, keeps_ctxtMsi c, Or.inr ⟨rfl, rfl⟩⟩

theorem mhiDeinitDevCtxt_spec (m : Multiset Res) :
    mhiDeinitDevCtxt (clean (.ctrlSeg ::ₘ .ctxt ::ₘ m)) = clean m := by
  unfold mhiDeinitDevCtxt
  rw [drop_clean, drop_clean]

theorem errorBhiOffset_spec (c : Ctl) {m : Multiset Res} (hpre : c.preInit = false)
    (hm : .irqTable ∈ m) :
    errorBhiOffset c (clean (c.irqs + (.ctrlSeg ::ₘ .ctxt ::ₘ m))) = clean m := by
  have hm' : Res.irqTable ∈ (.ctrlSeg ::ₘ .ctxt ::ₘ m : Multiset Res) :=
    Multiset.mem_cons_of_mem (Multiset.mem_cons_of_mem hm)
  unfold errorBhiOffset errorSetupIrq
  simp only [hpre, Bool.false_eq_true, if_false]
  rw [mhiDeinitFreeIrq_spec c hm', mhiDeinitDevCtxt_spec]

theorem mhiPowerUp_spec (c : Ctl) (o : PowerUp) {m : Multiset Res} (hpre : c.preInit = false)
    (hirq : .irqTable ∈ m) (hregs : .regs ∈ m) :
    ∃ c' l ret, mhiPowerUp c o (clean m) = (c', l, ret) ∧ Keeps c c'
      ∧ ((ret < 0 ∧ l = clean m) ∨ (ret = 0 ∧ l = clean (c'.powered + m))) := by
  unfold mhiPowerUp
  dsimp only
  rw [use_of_mem (l := clean m) hregs]
  by_cases hsys : o.sysErr = true
  · rw [if_pos hsys]
    exact ⟨_, _, _, rfl, Keeps.refl c, Or.inl ⟨by decide, rfl⟩⟩
  rw [if_neg hsys]
  unfold mhiAsyncPowerUp
  obtain ⟨c₁, l₁, ret₁, heq₁, hkeep₁, hcase₁⟩ := mhiInitDevCtxt_spec c o m
  simp only [hpre, Bool.false_eq_true, if_false, heq₁]
  rcases hcase₁ with ⟨hneg, rfl⟩ | ⟨rfl, rfl⟩
  · rw [if_pos (by omega)]
    exact ⟨_, _, _, rfl, hkeep₁, Or.inl ⟨hneg, rfl⟩⟩
  simp only [ne_eq, not_true_eq_false, if_false]
  have hirq' : Res.irqTable ∈ (.ctrlSeg ::ₘ .ctxt ::ₘ m : Multiset Res) :=
    Multiset.mem_cons_of_mem (Multiset.mem_cons_of_mem hirq)
  have hregs' : Res.regs ∈ (.ctrlSeg ::ₘ .ctxt ::ₘ m : Multiset Res) :=
    Multiset.mem_cons_of_mem (Multiset.mem_cons_of_mem hregs)
  obtain ⟨c₂, l₂, ret₂, heq₂, hkeep₂, hcase₂⟩ := mhiInitIrqSetup_spec c₁ o.request hirq'
  have hkeep := hkeep₁.trans hkeep₂
  have hpre₂ : c₂.preInit = false := hkeep.preInit.trans hpre
  simp only [heq₂]
  rcases hcase₂ with ⟨hneg, rfl⟩ | ⟨rfl, rfl⟩
  · rw [if_pos (by omega)]
    refine ⟨_, _, _, rfl, hkeep, Or.inl ⟨hneg, ?_⟩⟩
    unfold errorSetupIrq
    rw [if_neg (by rw [hpre₂]; exact Bool.false_ne_true), mhiDeinitDevCtxt_spec]
  rw [if_neg (not_not.2 rfl)]
  unfold readOffsets
  dsimp only
  rw [use_of_mem (l := clean _) (Multiset.mem_add.2 (Or.inr hregs'))]
  split_ifs
  · exact ⟨_, _, _, rfl, hkeep, Or.inl ⟨by omega, errorBhiOffset_spec c₂ hpre₂ hirq⟩⟩
  · exact ⟨_, _, _, rfl, hkeep, Or.inl ⟨by omega, errorBhiOffset_spec c₂ hpre₂ hirq⟩⟩
  · exact ⟨_, _, _, rfl, hkeep, Or.inr ⟨rfl, by rw [powered_add]⟩⟩

/-- What `mhi_init_pci_dev` leaves taken. -/
def deviceRes : Multiset Res :=
  .irqTable ::ₘ .vectors ::ₘ .regs ::ₘ .region ::ₘ .device ::ₘ 0

theorem errorIoremap_spec (m : Multiset Res) :
    errorIoremap (clean (.region ::ₘ .device ::ₘ m)) = clean m := by
  unfold errorIoremap errorRequestRegion errorEnableDevice
  rw [Multiset.cons_swap, drop_clean, drop_clean]

theorem errorReqMsi_spec (m : Multiset Res) :
    errorReqMsi (clean (.regs ::ₘ .region ::ₘ .device ::ₘ m)) = clean m := by
  unfold errorReqMsi
  rw [drop_clean, errorIoremap_spec]

theorem errorAllocMsiVec_spec (m : Multiset Res) :
    errorAllocMsiVec (clean (.vectors ::ₘ .regs ::ₘ .region ::ₘ .device ::ₘ m)) = clean m := by
  unfold errorAllocMsiVec
  rw [release_clean, errorReqMsi_spec]

theorem errorGetIrqVec_spec : errorGetIrqVec (clean deviceRes) = clean 0 := by
  unfold errorGetIrqVec deviceRes
  rw [release_clean, errorAllocMsiVec_spec]

theorem mhiDeinitPciDev_spec : mhiDeinitPciDev (clean deviceRes) = clean 0 := by
  unfold mhiDeinitPciDev deviceRes
  rw [Multiset.cons_swap, release_clean, release_clean, drop_clean, drop_clean, drop_clean]

/-- With no vectors, or with enough of them. -/
theorem initIrqs_spec (c : Ctl) (o : Probe)
    (h : o.vectors < 0 ∨ o.vectors = 1 ∨ (c.msiRequired : ℤ) ≤ o.vectors)
    (hreq : 0 < c.msiRequired) :
    ∃ c' l ret, initIrqs c o (if 0 < o.vectors then
          (clean (.regs ::ₘ .region ::ₘ .device ::ₘ 0)).take .vectors
        else clean (.regs ::ₘ .region ::ₘ .device ::ₘ 0)) = (c', l, ret)
      ∧ Keeps c c' ∧ ((ret < 0 ∧ l = clean 0) ∨ (ret = 0 ∧ l = clean deviceRes)) := by
  unfold initIrqs
  by_cases hfew : o.vectors < c.msiRequired ∧ o.vectors ≠ 1
  · have hneg : ¬ 0 < o.vectors := by omega
    rw [if_pos hfew, if_neg hneg, errorReqMsi_spec]
    exact ⟨_, _, _, rfl, Keeps.refl c, Or.inl ⟨by omega, rfl⟩⟩
  have hpos : 0 < o.vectors := by omega
  rw [if_neg hfew, if_pos hpos, take_clean]
  by_cases htable : o.irqTableFails = true
  · rw [if_pos htable, errorAllocMsiVec_spec]
    exact ⟨_, _, _, rfl, ⟨rfl, rfl, rfl⟩, Or.inl ⟨by decide, rfl⟩⟩
  rw [if_neg htable]
  dsimp only
  rcases hfind : (List.range o.vectors.toNat).find? fun i => o.irqVector i < 0 with _ | i
  · exact ⟨_, _, _, rfl, ⟨rfl, rfl, rfl⟩, Or.inr ⟨rfl, rfl⟩⟩
  · have hneg : o.irqVector i < 0 := by
      have htrue := List.find?_some hfind
      exact of_decide_eq_true htrue
    exact ⟨_, _, _, rfl, ⟨rfl, rfl, rfl⟩, Or.inl ⟨hneg, errorGetIrqVec_spec⟩⟩

/-- What the calls of the kernel in `mhi_init_pci_dev` must not do, if it gets there. -/
def Probe.Tidy (o : Probe) (required : ℕ) : Prop :=
  o.enable = 0 ∧ o.region = 0 ∧ (o.ioremapFails = true → o.dmaMask ≠ 0)
    ∧ (o.ioremapFails = false → o.vectors < 0 ∨ o.vectors = 1 ∨ (required : ℤ) ≤ o.vectors)

instance (o : Probe) (required : ℕ) : Decidable (o.Tidy required) :=
  inferInstanceAs (Decidable (_ ∧ _ ∧ _ ∧ _))

theorem mhiInitPciDev_spec (c : Ctl) (o : Probe) (hreq : 0 < c.msiRequired)
    (h : o.assign = 0 → o.Tidy c.msiRequired) :
    ∃ c' l ret, mhiInitPciDev c o (clean 0) = (c', l, ret) ∧ Keeps c c'
      ∧ ((ret < 0 ∧ l = clean 0) ∨ (ret = 0 ∧ l = clean deviceRes)) := by
  unfold mhiInitPciDev
  by_cases hassign : o.assign ≠ 0
  · rw [if_pos hassign]
    exact ⟨_, _, _, rfl, Keeps.refl c, Or.inl ⟨by omega, rfl⟩⟩
  obtain ⟨henable, hregion, hmap, hvectors⟩ := h (not_not.1 hassign)
  rw [if_neg hassign, if_neg (not_not.2 henable), if_neg (not_not.2 hregion)]
  simp only [take_clean]
  cases hremap : o.ioremapFails with
  | true =>
    have hmask := hmap hremap
    simp only [if_true, errorIoremap_spec]
    exact ⟨_, _, _, rfl, Keeps.refl c, Or.inl ⟨by omega, rfl⟩⟩
  | false => exact initIrqs_spec c o (hvectors hremap) hreq

section Faults

variable (c : Ctl) (o : PowerUp) (l : Ledger Res)

theorem after_requestIrqs (request : ℕ → ℕ) : ∀ (k : ℕ) (before todo : List Res) (l : Ledger Res),
    After l (requestIrqs request k before todo l).1
  | _, _, [], l => after_refl l
  | k, before, r :: rs, l => by
    unfold requestIrqs
    split_ifs
    · exact after_dropAll.trans after_drop
    · exact after_take.trans (after_requestIrqs request (k + 1) (r :: before) rs (l.take r))

theorem after_mhiInitIrqSetup (request : ℕ → ℕ) : After l (mhiInitIrqSetup c request l).2.1 := by
  unfold mhiInitIrqSetup
  dsimp only
  split_ifs
  · exact after_use
  · exact after_use.trans after_take
  · exact after_use
  · exact (after_use.trans after_take).trans (after_requestIrqs request 1 [] c.eventIrqs _)

theorem after_mhiInitDevCtxt : After l (mhiInitDevCtxt c o l).2.1 := by
  unfold mhiInitDevCtxt
  dsimp only
  split_ifs
  · exact after_refl l
  · exact after_take.trans after_drop
  · exact ((after_take.trans after_take).trans after_drop).trans after_drop
  · exact after_take.trans after_take

theorem after_mhiDeinitFreeIrq : After l (c.mhiDeinitFreeIrq l) := by
  unfold Ctl.mhiDeinitFreeIrq
  dsimp only
  split_ifs
  · exact after_use.trans after_drop
  · exact (after_use.trans after_dropAll).trans after_drop

theorem after_errorSetupIrq : After l (errorSetupIrq c l) := by
  unfold errorSetupIrq mhiDeinitDevCtxt
  split_ifs
  · exact after_refl l
  · exact after_drop.trans after_drop

theorem after_readOffsets : After l (readOffsets c o l).2.1 := by
  have herror : ∀ l : Ledger Res, After l (errorBhiOffset c l) := by
    intro l
    unfold errorBhiOffset
    split_ifs
    · exact after_errorSetupIrq c l
    · exact (after_mhiDeinitFreeIrq c l).trans (after_errorSetupIrq c _)
  unfold readOffsets
  dsimp only
  split_ifs
  · exact after_use.trans (herror _)
  · exact after_use.trans (herror _)
  · exact after_use

theorem after_mhiAsyncPowerUp : After l (mhiAsyncPowerUp c o l).2.1 := by
  unfold mhiAsyncPowerUp
  have hctxt := after_mhiInitDevCtxt c o l
  rcases hinit : mhiInitDevCtxt c o l with ⟨c₁, l₁, ret₁⟩
  rw [hinit] at hctxt
  have hirq := after_mhiInitIrqSetup c₁ l₁ o.request
  rcases hset : mhiInitIrqSetup c₁ o.request l₁ with ⟨c₂, l₂, ret₂⟩
  rw [hset] at hirq
  dsimp only
  rw [hset]
  split_ifs
  · exact after_readOffsets c o l
  · exact hctxt
  · exact (After.trans hctxt hirq).trans (after_errorSetupIrq c₂ l₂)
  · exact (After.trans hctxt hirq).trans (after_readOffsets c₂ o l₂)

theorem after_mhiDeinitPciDev : After l (mhiDeinitPciDev l) :=
  (((after_release.trans after_release).trans after_drop).trans after_drop).trans after_drop

/-- Without registers there is no powering up. -/
theorem mhiPowerUp_faults (h : .regs ∉ l.held) : (mhiPowerUp c o l).2.1.faults ≠ [] := by
  unfold mhiPowerUp
  dsimp only
  rw [use_of_notMem h]
  split_ifs
  · exact fault_ne_nil
  · exact after_mhiAsyncPowerUp c o _ fault_ne_nil

/-- Without power there is nothing to give back of it. -/
theorem mhiPowerDown_faults (hpre : c.preInit = false) (h : .ctrlSeg ∉ l.held) :
    (mhiPowerDown c l).faults ≠ [] := by
  have hfree : Res.ctrlSeg ∉ (c.mhiDeinitFreeIrq l).held := by
    unfold Ctl.mhiDeinitFreeIrq
    dsimp only
    split_ifs
    · exact notMem_drop (notMem_use h)
    · exact notMem_drop (notMem_dropAll _ (notMem_use h))
  unfold mhiPowerDown mhiDeinitDevCtxt
  rw [if_neg (by rw [hpre]; exact Bool.false_ne_true), drop_of_notMem hfree]
  exact after_drop fault_ne_nil

end Faults

/-! ## Binding -/

/-- What a device that is bound has taken. -/
def St.inUse (s : St) : Multiset Res :=
  match s.status, s.ctl with
  | .bound powered, some c => (if powered then c.powered else 0) + deviceRes
  | _, _ => 0

/-- The controller is as `of_parse_ev_cfg` has made it. -/
def Parsed (cfg : Cfg) (c : Ctl) : Prop :=
  c.msiRequired = (ofParseEvCfg cfg.evRings).msiRequired ∧ c.preInit = false

theorem Parsed.keeps {cfg : Cfg} {c c' : Ctl} (h : Parsed cfg c) (hk : Keeps c c') :
    Parsed cfg c' :=
  ⟨hk.msiRequired.trans h.1, hk.preInit.trans h.2⟩

structure Inv (cfg : Cfg) (s : St) : Prop where
  ctl : ∀ c ∈ s.ctl, Parsed cfg c
  ledger : s.ledger = clean s.inUse
  bound : ∀ powered, s.status = .bound powered →
    powered = !cfg.debugMode ∧ ∃ c, s.ctl = some c ∧ c.poweredOn = true

/-- The calls of the kernel that the driver's error paths do not cope with, where they are come to;
and a device that is removed in debug mode. -/
def Tidy (cfg : Cfg) (s : St) : Input → Prop
  | .probe o => o.alive = true → (s.ctl.isSome ∨ o.registerFails = false) → o.assign = 0 →
    o.Tidy (ofParseEvCfg cfg.evRings).msiRequired
  | .remove => cfg.debugMode = false

section Probes

variable {cfg : Cfg} {c : Ctl} {o : Probe}

theorem inv_unbound {ctl : Option Ctl} (h : ∀ c ∈ ctl, Parsed cfg c) :
    Inv cfg ⟨ctl, .unbound, clean 0⟩ :=
  ⟨h, rfl, fun _ hb => Status.noConfusion hb⟩

theorem statusOf_neg {ret : ℤ} (h : ret < 0) (powered : Bool) : statusOf ret powered = .unbound :=
  if_neg (by omega)

theorem statusOf_nonneg {ret : ℤ} (h : 0 ≤ ret) (powered : Bool) :
    statusOf ret powered = .bound powered :=
  if_pos h

/-- A probe gives back what it has taken, or the device is bound with what it needs. -/
theorem inv_probeCtl (hc : Parsed cfg c)
    (h : o.assign = 0 → o.Tidy (ofParseEvCfg cfg.evRings).msiRequired) :
    Inv cfg (probeCtl cfg c o (clean 0)) := by
  have hreq : 0 < c.msiRequired := by
    rw [hc.1]
    exact Nat.succ_pos _
  have hc₀ : Parsed cfg { c with poweredOn := true } := hc
  have h₀ : o.assign = 0 → o.Tidy c.msiRequired := by
    rw [hc.1]
    exact h
  obtain ⟨c₁, l₁, ret₁, heq₁, hkeep₁, hcase₁⟩ :=
    mhiInitPciDev_spec { c with poweredOn := true } o hreq h₀
  have hc₁ : Parsed cfg c₁ := hc₀.keeps hkeep₁
  unfold probeCtl
  rw [heq₁]
  dsimp only
  rcases hcase₁ with ⟨hneg, rfl⟩ | ⟨rfl, rfl⟩
  · rw [if_pos (by omega), statusOf_neg hneg]
    exact inv_unbound fun c hc => by cases hc; exact hc₁
  rw [if_neg (not_not.2 rfl)]
  by_cases hdebug : cfg.debugMode = true
  · rw [if_pos hdebug, statusOf_nonneg (Int.le_refl 0)]
    refine ⟨fun c hc => by cases hc; exact hc₁, ?_, fun powered hb => ?_⟩
    · change clean deviceRes = clean (0 + deviceRes)
      rw [Multiset.zero_add]
    · cases hb
      exact ⟨by rw [hdebug]; rfl, c₁, rfl, hkeep₁.poweredOn⟩
  rw [if_neg hdebug]
  have hirq : Res.irqTable ∈ deviceRes := Multiset.mem_cons_self _ _
  have hregs : Res.regs ∈ deviceRes := Multiset.mem_cons_of_mem
    (Multiset.mem_cons_of_mem (Multiset.mem_cons_self _ _))
  obtain ⟨c₂, l₂, ret₂, heq₂, hkeep₂, hcase₂⟩ := mhiPowerUp_spec c₁ o.powerUp hc₁.2 hirq hregs
  have hc₂ : Parsed cfg c₂ := hc₁.keeps hkeep₂
  rw [heq₂]
  dsimp only
  rcases hcase₂ with ⟨hneg, rfl⟩ | ⟨rfl, rfl⟩
  · rw [if_pos (by omega), statusOf_neg hneg, mhiDeinitPciDev_spec]
    exact inv_unbound fun c hc => by cases hc; exact hc₂
  · rw [if_neg (not_not.2 rfl), statusOf_nonneg (Int.le_refl 0)]
    refine ⟨fun c hc => by cases hc; exact hc₂, rfl, fun powered hb => ?_⟩
    cases hb
    refine ⟨?_, c₂, rfl, hkeep₂.poweredOn.trans hkeep₁.poweredOn⟩
    rw [eq_false_of_ne_true hdebug]
    rfl

/-- A ledger with a fault is not one without. -/
theorem ne_clean_of_faults {s : St} (h : s.ledger.faults ≠ []) : s.ledger ≠ clean s.inUse := by
  intro heq
  rw [heq] at h
  exact h rfl

/-- A device that is bound with fewer things taken than it needs. -/
theorem ne_clean_of_card {m : Multiset Res} (h : Multiset.card m < 5) (powered : Bool) :
    (⟨some c, .bound powered, clean m⟩ : St).ledger
      ≠ clean (⟨some c, .bound powered, clean m⟩ : St).inUse := by
  intro heq
  have hheld : m = (if powered then c.powered else 0) + deviceRes := congrArg Ledger.held heq
  have hcard := congrArg Multiset.card hheld
  have hdevice : Multiset.card deviceRes = 5 := rfl
  rw [Multiset.card_add, hdevice] at hcard
  omega

theorem probeCtl_of_error {c' : Ctl} {l l' : Ledger Res} {ret : ℤ}
    (h : mhiInitPciDev { c with poweredOn := true } o l = (c', l', ret)) (hret : ret ≠ 0) :
    probeCtl cfg c o l = ⟨some c', statusOf ret false, l'⟩ := by
  unfold probeCtl
  rw [h]
  exact if_pos hret

/-- The labels for a device that is not enabled, and for a region that is not requested, give back
the region. -/
theorem untidy_region (hassign : o.assign = 0) (h : o.enable ≠ 0 ∨ o.region ≠ 0) :
    (probeCtl cfg c o (clean 0)).ledger.faults ≠ [] := by
  by_cases henable : o.enable ≠ 0
  · have hinit : mhiInitPciDev { c with poweredOn := true } o (clean 0)
        = ({ c with poweredOn := true }, (clean 0).fault .region, -(o.enable : ℤ)) := by
      unfold mhiInitPciDev
      rw [if_neg (not_not.2 hassign), if_pos henable]
      rfl
    rw [probeCtl_of_error hinit (by omega)]
    exact fault_ne_nil
  · have hregion : o.region ≠ 0 := h.resolve_left henable
    have hinit : mhiInitPciDev { c with poweredOn := true } o (clean 0)
        = ({ c with poweredOn := true }, (clean 0).fault .region, -(o.region : ℤ)) := by
      unfold mhiInitPciDev errorRequestRegion errorEnableDevice
      rw [if_neg (not_not.2 hassign), if_neg henable, if_pos hregion, take_clean, drop_clean]
      rfl
    rw [probeCtl_of_error hinit (by omega)]
    exact fault_ne_nil

/-- Registers that cannot be mapped, where `ret` is 0: the probe goes on with nothing. -/
theorem untidy_ioremap (hassign : o.assign = 0) (henable : o.enable = 0) (hregion : o.region = 0)
    (hremap : o.ioremapFails = true) (hmask : o.dmaMask = 0) :
    (probeCtl cfg c o (clean 0)).ledger ≠ clean (probeCtl cfg c o (clean 0)).inUse := by
  have hinit : mhiInitPciDev { c with poweredOn := true } o (clean 0)
      = ({ c with poweredOn := true }, clean 0, 0) := by
    unfold mhiInitPciDev
    simp only [hassign, henable, hregion, hremap, hmask, take_clean, errorIoremap_spec, ne_eq,
      not_true_eq_false, if_false, if_true, Int.ofNat_zero, Int.neg_zero]
  unfold probeCtl
  rw [hinit]
  dsimp only
  rw [if_neg (not_not.2 rfl)]
  by_cases hdebug : cfg.debugMode = true
  · rw [if_pos hdebug, statusOf_nonneg (Int.le_refl 0)]
    exact ne_clean_of_card (by rw [Multiset.card_zero]; omega) false
  rw [if_neg hdebug]
  have hpower := mhiPowerUp_faults { c with poweredOn := true } o.powerUp (clean 0)
    (Multiset.notMem_zero _)
  rcases heq : mhiPowerUp { c with poweredOn := true } o.powerUp (clean 0) with ⟨c₂, l₂, ret₂⟩
  rw [heq] at hpower
  dsimp only
  split_ifs
  · exact ne_clean_of_faults (after_mhiDeinitPciDev l₂ hpower)
  · exact ne_clean_of_faults hpower

/-- Too few vectors, but more than one: they are kept, and their number is no error. -/
theorem untidy_vectors (hassign : o.assign = 0) (henable : o.enable = 0) (hregion : o.region = 0)
    (hremap : o.ioremapFails = false) (hfew : 1 < o.vectors ∧ o.vectors < c.msiRequired) :
    (probeCtl cfg c o (clean 0)).ledger ≠ clean (probeCtl cfg c o (clean 0)).inUse := by
  have hpos : 0 < o.vectors := by omega
  have hfew' : o.vectors < c.msiRequired ∧ o.vectors ≠ 1 := ⟨hfew.2, by omega⟩
  have herror : errorReqMsi (clean (.vectors ::ₘ .regs ::ₘ .region ::ₘ .device ::ₘ 0))
      = clean {.vectors} := by
    rw [Multiset.cons_swap Res.vectors Res.regs, Multiset.cons_swap Res.vectors Res.region,
      Multiset.cons_swap Res.vectors Res.device, errorReqMsi_spec]
    rfl
  have hinit : mhiInitPciDev { c with poweredOn := true } o (clean 0)
      = ({ c with poweredOn := true }, clean {.vectors}, o.vectors) := by
    unfold mhiInitPciDev initIrqs
    simp only [hassign, henable, hregion, hremap, take_clean, ne_eq, not_true_eq_false, if_false,
      Bool.false_eq_true, if_pos hpos, if_pos hfew', herror]
  rw [probeCtl_of_error hinit (by omega), statusOf_nonneg (by omega)]
  exact ne_clean_of_card (by rw [Multiset.card_singleton]; omega) false

/-- A probe that is not tidy leaves a fault, or a device that is bound with too little. -/
theorem probeCtl_untidy (hc : Parsed cfg c) (hassign : o.assign = 0) (hvectors : o.vectors ≠ 0)
    (h : ¬ o.Tidy (ofParseEvCfg cfg.evRings).msiRequired) :
    (probeCtl cfg c o (clean 0)).ledger ≠ clean (probeCtl cfg c o (clean 0)).inUse := by
  rw [← hc.1] at h
  by_cases henable : o.enable = 0
  · by_cases hregion : o.region = 0
    · cases hremap : o.ioremapFails with
      | true =>
        refine untidy_ioremap hassign henable hregion hremap ?_
        by_contra hmask
        refine h ⟨henable, hregion, fun _ => hmask, fun hr => ?_⟩
        rw [hremap] at hr
        cases hr
      | false =>
        refine untidy_vectors hassign henable hregion hremap ?_
        by_contra hfew
        refine h ⟨henable, hregion, fun hr => ?_, fun _ => by omega⟩
        rw [hremap] at hr
        cases hr
    · exact ne_clean_of_faults (untidy_region hassign (Or.inr hregion))
  · exact ne_clean_of_faults (untidy_region hassign (Or.inl henable))

end Probes

/-! ## Runs -/

section Runs

variable {cfg : Cfg} {s s' : St} {i : Input}

theorem parsed_ofParseEvCfg (cfg : Cfg) : Parsed cfg (ofParseEvCfg cfg.evRings) := ⟨rfl, rfl⟩

/-- A device that is removed gives back all that it has taken if it has been powered up. -/
theorem removed_right_iff (h : Inv cfg s) (hs : step cfg s .remove = some s') :
    (Tidy cfg s .remove → Inv cfg s' ∧ s'.ledger = clean s'.inUse)
      ∧ (s'.ledger = clean s'.inUse → Tidy cfg s .remove) := by
  simp only [step, Option.ite_none_left_eq_some, Option.some.injEq] at hs
  obtain ⟨hbound, rfl⟩ := hs
  rcases hstatus : s.status with _ | powered
  · exact absurd hstatus hbound
  obtain ⟨hpowered, c, hctl, hon⟩ := h.bound powered hstatus
  have hpre := (h.ctl c hctl).2
  have huse : s.inUse = (if powered then c.powered else 0) + deviceRes := by
    unfold St.inUse
    rw [hstatus, hctl]
  unfold mhiPciDeviceRemoved
  rw [hctl]
  dsimp only
  rw [if_neg (not_not.2 hon), h.ledger, huse]
  refine ⟨fun hdebug => ?_, fun hright => ?_⟩
  · have htrue : powered = true := by
      rw [hpowered, show cfg.debugMode = false from hdebug]
      rfl
    have hirq : Res.irqTable ∈ (.ctrlSeg ::ₘ .ctxt ::ₘ deviceRes : Multiset Res) :=
      Multiset.mem_cons_of_mem (Multiset.mem_cons_of_mem (Multiset.mem_cons_self _ _))
    have hdown : mhiPowerDown c (clean (c.powered + deviceRes)) = clean deviceRes := by
      unfold mhiPowerDown
      rw [if_neg (by rw [hpre]; exact Bool.false_ne_true), powered_add,
        mhiDeinitFreeIrq_spec c hirq, mhiDeinitDevCtxt_spec]
    rw [htrue, if_pos rfl, hdown, mhiDeinitPciDev_spec]
    exact ⟨inv_unbound fun c hc => absurd hc (Option.not_mem_none c), rfl⟩
  · by_contra hdebug
    have hfalse : powered = false := by
      rw [hpowered, eq_true_of_ne_false hdebug]
      rfl
    rw [hfalse, if_neg Bool.false_ne_true, Multiset.zero_add] at hright
    have hseg : Res.ctrlSeg ∉ deviceRes := by simp [deviceRes]
    refine absurd hright (ne_clean_of_faults ?_)
    exact after_mhiDeinitPciDev _ (mhiPowerDown_faults c (clean deviceRes) hpre hseg)

theorem probed_right_iff {o : Probe} (h : Inv cfg s) (hs : step cfg s (.probe o) = some s') :
    (Tidy cfg s (.probe o) → Inv cfg s' ∧ s'.ledger = clean s'.inUse)
      ∧ (s'.ledger = clean s'.inUse → Tidy cfg s (.probe o)) := by
  simp only [step, Option.ite_none_right_eq_some, Option.some.injEq] at hs
  obtain ⟨⟨hunbound, hvectors, -⟩, rfl⟩ := hs
  have huse : s.inUse = 0 := by
    unfold St.inUse
    rw [hunbound]
  have hledger : s.ledger = clean 0 := by rw [h.ledger, huse]
  have hsame : Inv cfg ⟨s.ctl, .unbound, s.ledger⟩ := by
    rw [hledger]
    exact inv_unbound h.ctl
  -- what a probe does with a controller
  have hprobe : ∀ c, Parsed cfg c → o.alive = true → (s.ctl.isSome ∨ o.registerFails = false) →
      (Tidy cfg s (.probe o) → Inv cfg (probeCtl cfg c o s.ledger)
          ∧ (probeCtl cfg c o s.ledger).ledger = clean (probeCtl cfg c o s.ledger).inUse)
        ∧ ((probeCtl cfg c o s.ledger).ledger = clean (probeCtl cfg c o s.ledger).inUse →
          Tidy cfg s (.probe o)) := by
    intro c hc halive hregister
    rw [hledger]
    refine ⟨fun htidy => ?_, fun hright _ _ hassign => ?_⟩
    · have hinv := inv_probeCtl hc (htidy halive hregister)
      exact ⟨hinv, hinv.ledger⟩
    · by_contra htidy
      exact probeCtl_untidy hc hassign hvectors htidy hright
  unfold mhiPciProbe
  by_cases halive : o.alive = true
  · rw [if_neg (not_not.2 halive)]
    rcases hctl : s.ctl with _ | c
    · by_cases hregister : o.registerFails = true
      · simp only [hregister, if_true]
        refine ⟨fun _ => ?_, fun _ _ hr => ?_⟩
        · rw [hctl] at hsame
          exact ⟨hsame, hsame.ledger⟩
        · rw [hctl, hregister] at hr
          rcases hr with hr | hr <;> cases hr
      · simp only [hregister]
        exact hprobe _ (parsed_ofParseEvCfg cfg) halive
          (Or.inr (eq_false_of_ne_true hregister))
    · exact hprobe c (h.ctl c hctl) halive (Or.inl (by rw [hctl]; rfl))
  · rw [if_pos halive]
    exact ⟨fun _ => ⟨hsame, hsame.ledger⟩, fun _ halive' => absurd halive' halive⟩

theorem inv_initial (cfg : Cfg) : Inv cfg initial :=
  inv_unbound fun c hc => absurd hc (Option.not_mem_none c)

/-- Over any run of probes and removals, whatever the calls of the kernel return: after each step
exactly what a bound device needs is taken, and nothing else was given back or used, if and only if
all steps are tidy. -/
theorem lifecycle_iff {is : List Input} {s : St}
    (hrun : Runs.exec (step cfg) initial is = some s) :
    Runs.Meets (step cfg) (fun s i => ∀ s' ∈ step cfg s i, s'.ledger = clean s'.inUse) initial is
      ↔ Runs.Meets (step cfg) (Tidy cfg) initial is := by
  refine Runs.meets_right_iff (I := Inv cfg) (fun s i s' h hs => ?_) (inv_initial cfg) hrun
  cases i with
  | probe o => exact probed_right_iff h hs
  | remove => exact removed_right_iff h hs

def twoRings : Cfg := ⟨false, 2⟩

/-- All calls succeed, and there are three vectors. -/
def allOk : Probe where
  alive := true
  registerFails := false
  assign := 0
  enable := 0
  region := 0
  dmaMask := 0
  ioremapFails := false
  vectors := 3
  irqTableFails := false
  irqVector := fun i => i
  powerUp := ⟨false, false, false, false, fun _ => 0, 0, 0⟩

/-- The interrupt of the second event ring is taken. -/
def irqTaken : Probe :=
  { allOk with powerUp := { allOk.powerUp with request := fun k => if k = 2 then 16 else 0 } }

/-- A probe that fails late, one that does not, and the removal of the device. -/
def retryAndRemove : List Input := [.probe irqTaken, .probe allOk, .remove]

theorem lifecycle_iff_retryAndRemove : ∃ s,
    Runs.exec (step twoRings) initial retryAndRemove = some s
      ∧ Runs.Meets (step twoRings) (fun s i => ∀ s' ∈ step twoRings s i,
          s'.ledger = clean s'.inUse) initial retryAndRemove := by
  have htidy : Runs.Meets (step twoRings) (Tidy twoRings) initial retryAndRemove :=
    ⟨fun _ _ _ => by decide, fun _ _ => ⟨fun _ _ _ => by decide, fun _ _ => ⟨rfl, fun _ _ =>
      trivial⟩⟩⟩
  exact ⟨_, rfl, (@lifecycle_iff twoRings retryAndRemove _ rfl).2 htidy⟩

end Runs

end MhiPci

end BananaWrt
