import BananaWrt.Proofs.MhiUplink

/-!
# Low power and uplink traffic

`mhi_pm_suspend` and `mhi_pm_m1_transition` look at `dev_wake` to learn of uplink traffic, and
`mhi_assert_dev_wake` no longer counts in it. What is left is the test of `pending_pkts` at the
begin of `mhi_system_suspend`: the power state M3_ENTER is reached without uplink buffers if none is
queued between that test and the section that enters it, and M2 is left at once by nobody.
-/

namespace BananaWrt

namespace Mhi

variable {n : ℕ}

/-- `pm_state` becomes M3_ENTER only without uplink buffers, and `mhi_pm_m1_transition` does not
return without the wake doorbell having been written if there were uplink buffers when `pm_state`
became M2. -/
structure NoLowPower (s : St n) (inp : Input n) : Prop where
  m3Enter : ∀ s', step s inp = some s' → s.pmState ≠ .m3Enter → s'.pmState = .m3Enter →
    s.uplink ≤ 0
  m2 : inp = .m1Go → ∀ m, s.m1 = some m → m.checked = true → m.uplink = true → m.wakeDb < s.wakeDb

/-- What makes up for the tests of `dev_wake`: no uplink buffer is put on a ring while a suspend is
past its test of `pending_pkts`, nor is one on the rings uncounted at that test; and the modem asks
for M2 while there are no uplink buffers. -/
structure Guarded (s : St n) (inp : Input n) : Prop where
  accepts : AcceptsInput (fun i => (s.chan i).cfg.dir = .toDevice → s.suspend = none) s inp
  tested : inp = .systemSuspend true → s.pendingPkts = 0 → s.uncounted = 0
  m1 : inp = .m1Event → s.pmState = .m0 → s.uplink ≤ 0

/-- What the guards keep. -/
structure Idle (s : St n) : Prop where
  accounts : s.Accounts
  suspend : s.suspend ≠ none → s.uplink ≤ 0
  m1 : ∀ m, s.m1 = some m → m.uplink = false

/-- What an input of power management does to the suspend and to the M1 transition in progress. -/
structure PmStep (s : St n) (inp : Input n) (s' : St n) : Prop where
  suspend : s'.suspend ≠ none → s.suspend ≠ none
    ∨ (inp = .systemSuspend true ∧ s.pendingPkts = 0)
  m1 : ∀ m, s'.m1 = some m → (∃ m', s.m1 = some m' ∧ m.uplink = m'.uplink)
    ∨ (inp = .m1Event ∧ (m.uplink = true → s.pmState = .m0 ∧ 0 < s.uplink))
  m3Enter : s'.pmState = .m3Enter → s.pmState = .m3Enter ∨ s.suspend = some .waited

/-- M2 is only entered from M0. -/
theorem eq_m0_of_m2 {cur : PmState} (h : mhiTrysetPmState cur .m2 = .m2) (hne : cur ≠ .m2) :
    cur = .m0 := by
  have hmem := (mhiTrysetPmState_eq_iff hne).1 h
  cases cur <;> simp [PmState.toStates] at hmem ⊢

/-- An input that leaves all three as they are. -/
theorem pmStep_of_eq {s s' : St n} {inp : Input n} (hsuspend : s'.suspend ≠ none → s.suspend ≠ none)
    (hm1 : s'.m1 = s.m1) (hpm : s'.pmState = .m3Enter → s.pmState = .m3Enter) :
    PmStep s inp s' :=
  ⟨fun h => Or.inl (hsuspend h), fun m hm => Or.inl ⟨m, hm1 ▸ hm, rfl⟩, fun h => Or.inl (hpm h)⟩

theorem pmStep_m1Event {s : St n} {inp : Input n} (hinp : inp = .m1Event) :
    PmStep s inp s.mhiPmM1Transition := by
  unfold St.mhiPmM1Transition
  by_cases hm2 : mhiTrysetPmState s.pmState .m2 = .m2
  · rw [if_pos hm2]
    refine ⟨Or.inl, fun m hm => Or.inr ⟨hinp, fun hup => ?_⟩, fun h => PmState.noConfusion h⟩
    cases hm
    obtain ⟨hne, hpos⟩ := of_decide_eq_true hup
    exact ⟨eq_m0_of_m2 hm2 hne, hpos⟩
  · rw [if_neg hm2]
    exact pmStep_of_eq id rfl id

theorem pmStep_m1Go {s s' : St n} {inp : Input n} (hs : stepM1 s = some s') : PmStep s inp s' := by
  unfold stepM1 at hs
  rcases hm1 : s.m1 with _ | m <;> rw [hm1] at hs <;> cases hs
  obtain ⟨k, -, hwake⟩ := St.wakeGet_eq s
  unfold St.m1Wake St.wakePut
  rw [hwake]
  by_cases hchecked : m.checked = true
  · rw [if_pos hchecked]
    exact ⟨Or.inl, fun m hm => (Option.some_ne_none m hm.symm).elim, Or.inl⟩
  · rw [if_neg hchecked]
    refine ⟨?_, fun m' hm' => Or.inl ⟨m, hm1, ?_⟩, ?_⟩
    · split_ifs <;> exact Or.inl
    · cases hm'
      rfl
    · split_ifs <;> exact Or.inl

theorem step_pm {s s' : St n} {inp : Input n} (hinp : inp.IsPm) (hs : step s inp = some s') :
    PmStep s inp s' := by
  cases inp with
  | queueSkb i buf len mapped => exact hinp.elim
  | genTre i buf len mapped => exact hinp.elim
  | queueBuf i => exact hinp.elim
  | event i code ptr len => exact hinp.elim
  | go i => exact hinp.elim
  | disable i => exact hinp.elim
  | resetChan i => exact hinp.elim
  | m0Event =>
    simp only [step, Option.ite_none_left_eq_some, Option.some.injEq] at hs
    obtain ⟨-, rfl⟩ := hs
    exact pmStep_of_eq id rfl (mhiTrysetPmState_of_ne (by decide))
  | m0Go =>
    simp only [step, stepM0] at hs
    obtain ⟨k, -, hwake⟩ := St.wakeGet_eq s
    rcases hm0 : s.m0 with _ | _ | i <;> rw [hm0] at hs <;> cases hs
    · rw [hwake]
      exact pmStep_of_eq id rfl id
    · unfold St.m0Visit
      split_ifs
      · exact pmStep_of_eq id rfl id
      · exact pmStep_of_eq id rfl id
  | m1Event =>
    simp only [step, Option.ite_none_left_eq_some, Option.some.injEq] at hs
    obtain ⟨-, rfl⟩ := hs
    exact pmStep_m1Event rfl
  | m1Go => exact pmStep_m1Go hs
  | m3Event =>
    simp only [step, Option.ite_none_left_eq_some, Option.some.injEq] at hs
    obtain ⟨-, rfl⟩ := hs
    exact pmStep_of_eq id rfl (mhiTrysetPmState_of_ne (by decide))
  | systemSuspend suspends =>
    simp only [step, Option.ite_none_right_eq_some, Option.some.injEq] at hs
    obtain ⟨-, rfl⟩ := hs
    unfold St.mhiSystemSuspend
    split_ifs with hpending hsuspends
    · exact pmStep_of_eq id rfl id
    · refine ⟨fun _ => Or.inr ⟨by rw [hsuspends], not_not.1 hpending⟩,
        fun m hm => Or.inl ⟨m, hm, rfl⟩, Or.inl⟩
    · exact pmStep_of_eq id rfl id
  | pmSuspend =>
    simp only [step, Option.ite_none_right_eq_some, Option.some.injEq] at hs
    obtain ⟨hsuspend, rfl⟩ := hs
    obtain ⟨k, -, hwake⟩ := St.wakeGet_eq s
    unfold St.mhiPmSuspend
    rw [hwake]
    split_ifs <;> exact pmStep_of_eq (fun _ => by rw [hsuspend]; exact Option.some_ne_none _) rfl id
  | suspendWaited timeout =>
    simp only [step, stepWaited] at hs
    split_ifs at hs with hsuspend _ _ <;> cases hs
    · exact pmStep_of_eq (fun h => absurd rfl h) rfl id
    · refine pmStep_of_eq (fun _ => ?_) rfl id
      rw [not_not.1 hsuspend]
      exact Option.some_ne_none _
  | m3Enter =>
    simp only [step, Option.ite_none_right_eq_some, Option.some.injEq] at hs
    obtain ⟨hsuspend, rfl⟩ := hs
    unfold St.m3Enter
    split_ifs
    · exact pmStep_of_eq (fun h => absurd rfl h) rfl id
    · exact ⟨fun h => absurd rfl h, fun m hm => Or.inl ⟨m, hm, rfl⟩, fun _ => Or.inr hsuspend⟩
  | resume =>
    cases hs
    unfold St.mhiPmResume
    split_ifs
    · exact pmStep_of_eq id rfl id
    · obtain ⟨k, -, hwake⟩ := St.wakeGet_eq { s with pmState := .m3Exit }
      rw [hwake]
      exact pmStep_of_eq id rfl fun h => PmState.noConfusion h
    · exact pmStep_of_eq id rfl id
  | tryset state =>
    simp only [step, Option.ite_none_left_eq_some, Option.some.injEq] at hs
    obtain ⟨hstate, rfl⟩ := hs
    refine pmStep_of_eq id rfl (mhiTrysetPmState_of_ne fun heq => hstate ?_)
    rw [heq]
    decide

theorem idle_initial (cfg : Fin n → ChanCfg) (pm : PmState) (dev : DevState) :
    Idle (initial cfg pm dev) :=
  ⟨St.accounts_initial cfg pm dev, fun h => absurd rfl h, fun m hm => by cases hm⟩

/-- At the test of `pending_pkts` there are no uplink buffers. -/
theorem uplink_of_tested {s : St n} (h : s.Accounts) (hpending : s.pendingPkts = 0)
    (hun : s.uncounted = 0) : s.uplink ≤ 0 := by
  have heq := St.pending_eq h
  have hre := St.returning_nonneg s
  omega

theorem idle_step (s : St n) (inp : Input n) (s' : St n) (h : Idle s) (hg : Guarded s inp)
    (hs : step s inp = some s') : Idle s' := by
  have haccounts := St.accounts_step s inp s' h.accounts hs
  rcases step_chans (valid_true inp) hg.accepts hs with
    ⟨hkeep, hinp⟩ | ⟨i, c, δ, hstep, hchan, -, hsame, -⟩ | ⟨i, -, hchan, -, hsame, -, -⟩
  · have hpm := step_pm hinp hs
    have huplink : s'.uplink = s.uplink := by
      unfold St.uplink
      rw [hkeep.chan]
    refine ⟨haccounts, fun hsuspend => ?_, fun m hm => ?_⟩
    · rw [huplink]
      rcases hpm.suspend hsuspend with hold | ⟨heq, hpending⟩
      · exact h.suspend hold
      · exact uplink_of_tested h.accounts hpending (hg.tested heq hpending)
    · rcases hpm.m1 m hm with ⟨m', hm', heq⟩ | ⟨heq, hbusy⟩
      · rw [heq]
        exact h.m1 m' hm'
      · refine eq_false_of_ne_true fun hup => ?_
        obtain ⟨hm0, hpos⟩ := hbusy hup
        have := hg.m1 heq hm0
        omega
  · refine ⟨haccounts, fun hsuspend => ?_, fun m hm => h.m1 m (hsame.m1 ▸ hm)⟩
    rw [hsame.suspend] at hsuspend
    have hold := h.suspend hsuspend
    have hcfg := (Chan.share_step hstep).2
    have hupdate := sumUplink_update Chan.outstanding s.chan i hcfg
    rw [← hchan] at hupdate
    change s'.uplink = s.uplink + _ at hupdate
    rw [hupdate]
    by_cases hdir : (s.chan i).cfg.dir = .toDevice
    · -- no uplink buffer is accepted, so what is outstanding does not grow
      have hle := Chan.outstanding_step hstep fun hacc => hsuspend (hacc hdir)
      rw [if_pos hdir]
      omega
    · rw [if_neg hdir, add_zero]
      exact hold
  · refine ⟨haccounts, fun hsuspend => ?_, fun m hm => h.m1 m (hsame.m1 ▸ hm)⟩
    rw [hsame.suspend] at hsuspend
    obtain ⟨-, hout, hcfg⟩ := Chan.share_visited (s.chan i)
    have hupdate := sumUplink_update Chan.outstanding s.chan i hcfg
    rw [← hchan, hout, sub_self, ite_self, add_zero] at hupdate
    exact hupdate.trans_le (h.suspend hsuspend)

theorem noLowPower_of_idle {s : St n} {inp : Input n} (h : Idle s) : NoLowPower s inp := by
  refine ⟨fun s' hs hne hm3 => ?_, fun _ m hm _ hup => ?_⟩
  · rcases step_chans (valid_true inp) (accepts_true s inp) hs with
      ⟨-, hinp⟩ | ⟨i, c, δ, -, -, -, hsame, -⟩ | ⟨i, -, -, -, hsame, -, -⟩
    · rcases (step_pm hinp hs).m3Enter hm3 with hold | hwaited
      · exact absurd hold hne
      · exact h.suspend (by rw [hwaited]; exact Option.some_ne_none _)
    · exact absurd (hsame.pmState.symm.trans hm3) hne
    · exact absurd (hsame.pmState.symm.trans hm3) hne
  · rw [h.m1 m hm] at hup
    exact absurd hup Bool.false_ne_true

/-- In a run whose steps are all guarded, low power is not entered under uplink traffic. -/
theorem noLowPower_of_guarded {cfg : Fin n → ChanCfg} {pm : PmState} {dev : DevState}
    {is : List (Input n)} (hg : Runs.Meets step Guarded (initial cfg pm dev) is) :
    Runs.Meets step NoLowPower (initial cfg pm dev) is :=
  Runs.meets_of_inv idle_step (fun _ _ h _ => noLowPower_of_idle h) (idle_initial cfg pm dev) hg

instance (s : St n) (inp : Input n) : Decidable (Guarded s inp) :=
  decidable_of_iff (AcceptsInput (fun i => (s.chan i).cfg.dir = .toDevice → s.suspend = none) s inp
      ∧ (inp = .systemSuspend true → s.pendingPkts = 0 → s.uncounted = 0)
      ∧ (inp = .m1Event → s.pmState = .m0 → s.uplink ≤ 0))
    ⟨fun h => ⟨h.1, h.2.1, h.2.2⟩, fun h => ⟨h.accepts, h.tested, h.m1⟩⟩

/-- A buffer is queued and handed over before the suspend. -/
def queueThenSuspend : List (Input 1) :=
  [.queueSkb theChan 11 100 true, .event theChan 2 8192 100, .go theChan, .go theChan, .go theChan,
    .systemSuspend true, .pmSuspend, .suspendWaited false, .m3Enter]

theorem noLowPower_queueThenSuspend :
    Runs.Meets step NoLowPower (initial (fun _ : Fin 1 => fourElements) .m0 .m0) queueThenSuspend
      ∧ ∃ s, Runs.exec step (initial (fun _ : Fin 1 => fourElements) .m0 .m0) queueThenSuspend = some s
        ∧ s.pmState = .m3Enter :=
  ⟨noLowPower_of_guarded (by decide), _, rfl, by decide⟩

/-- A buffer is queued after the test of `pending_pkts`, and `pm_state` becomes M3_ENTER all the
same; and with a buffer on the ring `pm_state` becomes M2, and the wake doorbell is not written. -/
theorem lowPower_under_traffic :
    (∃ s, Runs.exec step (initial (fun _ : Fin 1 => fourElements) .m0 .m0)
        [.systemSuspend true, .queueSkb 0 11 100 true, .pmSuspend, .suspendWaited false] = some s
      ∧ ¬ NoLowPower s .m3Enter)
    ∧ ∃ s, Runs.exec step (initial (fun _ : Fin 1 => fourElements) .m0 .m0)
        [.queueSkb 0 11 100 true, .m1Event, .m1Go] = some s ∧ ¬ NoLowPower s .m1Go := by
  refine ⟨⟨_, rfl, fun h => ?_⟩, ⟨_, rfl, fun h => ?_⟩⟩
  · exact absurd (h.m3Enter _ rfl (by decide) (by decide)) (by decide)
  · exact absurd (h.m2 rfl _ rfl (by decide) (by decide)) (by decide)

end Mhi

end BananaWrt
