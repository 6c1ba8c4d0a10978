import BananaWrt.MhiXfer
import BananaWrt.Lib.Run

/-!
# What a step does to the channels

`ChanStep` lists what can happen to a channel in one step. Every step does one of these to one
channel and counts it (`Chans.act`), visits a channel in M0 (`Chans.visit`), or leaves the channels
alone (`Chans.keep`): what holds of the channels over runs is proved from this alone.
-/

namespace BananaWrt

namespace Mhi

variable {n : ℕ}

/-- What can happen to a channel in the power state `pm`, and by how much it changes `pending_pkts`
if the channel is for uplink. The pointers of transfer events satisfy `Valid`, and a buffer is put
on the rings only if `Accepts`. -/
inductive ChanStep (pm : PmState) (Valid : ℕ → Prop) (Accepts : Prop) (c : Chan) :
    Chan → ℤ → Prop where
  | refused {buf : ℕ} {ret : ℤ} (h : ret ≠ 0) : ChanStep pm Valid Accepts c (c.returns buf ret) 0
  | unmapped {buf len : ℕ} {ret : ℤ} (h : ret ≠ 0) :
    ChanStep pm Valid Accepts c ((c.fill buf len).returns buf ret) 0
  | queued {buf len : ℕ} (h : ¬ c.Full) (ha : Accepts) :
    ChanStep pm Valid Accepts c (((c.fill buf len).add.ringIf pm).returns buf 0) 1
  | generated {buf len : ℕ} (h : ¬ c.Full) (ha : Accepts) :
    ChanStep pm Valid Accepts c
      ({ (c.fill buf len).add with queueing := c.queueing + 1 }.returns buf 0) 0
  | accounted (h : 0 < c.queueing) :
    ChanStep pm Valid Accepts c ({ c with queueing := c.queueing - 1 }.ringIf pm) 1
  | ignored : ChanStep pm Valid Accepts c c 0
  | event {ptr len : ℕ} (h : c.busy = .idle) (hptr : Valid ptr) :
    ChanStep pm Valid Accepts c { c with busy := .loop (c.cfg.devRp ptr) len } 0
  | dbEvent :
    ChanStep pm Valid Accepts c (if c.twp ≠ c.trp then
      { c with dbMode := true, answered := false }.ringIf pm
      else { c with dbMode := true, answered := false }) 0
  | asked (h : ¬ c.enabled) : ChanStep pm Valid Accepts c { c with answered := false } 0
  | loopEnd {devRp len : ℕ} (h : c.busy = .loop devRp len) :
    ChanStep pm Valid Accepts c { c with busy := .idle } 0
  | handed {devRp len : ℕ} (h : c.busy = .loop devRp len) (hne : c.cfg.addr c.trp ≠ devRp) :
    ChanStep pm Valid Accepts c { c.handOver len with busy := .called devRp len } 0
  | called {devRp len : ℕ} (h : c.busy = .called devRp len) :
    ChanStep pm Valid Accepts c { c with busy := .loop devRp len } (-1)
  | disabled : ChanStep pm Valid Accepts c { c with enabled := false } 0
  | resetBegin (h : c.busy = .idle) : ChanStep pm Valid Accepts c { c with busy := .resetting } 0
  | resetEnd (h : c.busy = .resetting) : ChanStep pm Valid Accepts c { c with busy := .idle } 0
  | reset (h : c.busy = .resetting) (hne : c.trp ≠ c.twp) :
    ChanStep pm Valid Accepts c (c.handOver 0) (-1)

/-- A visit of `mhi_pm_m0_transition`. -/
def Chan.visited (c : Chan) : Chan :=
  if c.twp ≠ c.trp then
    (if c.cfg.resetReq then { c with dbMode := true, answered := false } else c).ringChanDb
  else if c.cfg.resetReq then { c with dbMode := true, answered := false } else c

namespace St

variable (s : St n)

/-- A reference is held if and only if something is pending. -/
def Balanced : Prop := s.runtime = if 0 < s.pendingPkts then 1 else 0

theorem balanced_incPending {s : St n} (h : s.Balanced) : s.incPending.Balanced := by
  unfold Balanced at h ⊢
  simp only [incPending, h]
  split_ifs <;> omega

theorem balanced_decPending {s : St n} (h : s.Balanced) : s.decPending.Balanced := by
  unfold Balanced at h ⊢
  simp only [decPending, h]
  split_ifs <;> omega

/-- The states agree but for the counts, the wake doorbell and the channels. -/
structure Same (s s' : St n) : Prop where
  pmState : s'.pmState = s.pmState
  devState : s'.devState = s.devState
  devWake : s'.devWake = s.devWake
  wakeDb : s.wakeDb ≤ s'.wakeDb
  m1 : s'.m1 = s.m1
  suspend : s'.suspend = s.suspend

/-- The counts change by `δ` if the channel is for uplink. -/
structure Counts (s s' : St n) (dir : Dir) (δ : ℤ) : Prop where
  pending : s'.pendingPkts = s.pendingPkts + if dir = .toDevice then δ else 0
  balanced : s.Balanced → s'.Balanced

end St

/-- The channels are left alone: `pm_state` becomes M0 only at the begin of an M0 transition, and a
transition ends only when it has come to all channels. -/
structure Keeps (s s' : St n) : Prop where
  chan : s'.chan = s.chan
  pending : s'.pendingPkts = s.pendingPkts
  runtime : s'.runtime = s.runtime
  m0 : s'.pmState = .m0 → s'.m0 = some .entered
    ∨ (s.pmState = .m0 ∧ (s'.m0 = s.m0 ∨ (s.m0 = some .entered ∧ s'.m0 = some (.visiting 0))
      ∨ ∃ i, n ≤ i ∧ s.m0 = some (.visiting i) ∧ s'.m0 = none))

/-- The inputs of power management. -/
def Input.IsPm : Input n → Prop
  | .queueSkb .. | .genTre .. | .queueBuf _ | .event .. | .go _ | .disable _ | .resetChan _ => False
  | _ => True

/-- What a step does to the channels. -/
inductive Chans (Valid : Fin n → ℕ → Prop) (Accepts : Fin n → Prop) (s : St n) (inp : Input n)
    (s' : St n) : Prop where
  | keep (h : Keeps s s') (hinp : inp.IsPm)
  | act (i : Fin n) (c : Chan) (δ : ℤ)
    (hstep : ChanStep s.pmState (Valid i) (Accepts i) (s.chan i) c δ)
    (hchan : s'.chan = Function.update s.chan i c)
    (hcounts : St.Counts s s' (s.chan i).cfg.dir δ) (hsame : St.Same s s') (hm0 : s'.m0 = s.m0)
  | visit (i : Fin n) (hm0 : s.m0 = some (.visiting i))
    (hchan : s'.chan = Function.update s.chan i (s.chan i).visited)
    (hm0' : s'.m0 = some (.visiting (i + 1))) (hsame : St.Same s s')
    (hpending : s'.pendingPkts = s.pendingPkts) (hruntime : s'.runtime = s.runtime)

namespace St

variable {s : St n}

/-- Waking the modem changes nothing but the number of writes to its doorbell. -/
theorem wakeGet_eq (s : St n) : ∃ k, s.wakeDb ≤ k ∧ s.wakeGet = { s with wakeDb := k } := by
  unfold wakeGet
  by_cases h : s.devState = .m2
  · rw [if_pos h]
    exact ⟨s.wakeDb + 1, Nat.le_succ _, rfl⟩
  · rw [if_neg h]
    exact ⟨s.wakeDb, Nat.le_refl _, rfl⟩

theorem assertWake_eq (s : St n) (dir : Dir) :
    ∃ k, s.wakeDb ≤ k ∧ s.assertWake dir = { s with wakeDb := k } := by
  unfold assertWake
  by_cases h : dir = .toDevice ∨ s.pmState ≠ .m0
  · rw [if_pos h]
    exact wakeGet_eq s
  · rw [if_neg h]
    exact ⟨s.wakeDb, Nat.le_refl _, rfl⟩

theorem counts_none (s : St n) (dir : Dir) {s' : St n} (hp : s'.pendingPkts = s.pendingPkts)
    (hr : s'.runtime = s.runtime) : Counts s s' dir 0 := by
  refine ⟨by rw [hp, ite_self, add_zero], fun h => ?_⟩
  unfold Balanced at h ⊢
  rw [hp, hr, h]

variable {Valid : Fin n → ℕ → Prop} {Accepts : Fin n → Prop} {inp : Input n}

/-- A section that acts on one channel and counts nothing. -/
theorem chans_setChan {i : Fin n} {c : Chan}
    (h : ChanStep s.pmState (Valid i) (Accepts i) (s.chan i) c 0) :
    Chans Valid Accepts s inp (s.setChan i c) :=
  .act i c 0 h rfl (counts_none s _ rfl rfl) ⟨rfl, rfl, rfl, Nat.le_refl _, rfl, rfl⟩ rfl

/-- The same after the modem has been woken. -/
theorem chans_setChan_wake {i : Fin n} {c : Chan} {k : ℕ}
    (hk : s.wakeDb ≤ k) (h : ChanStep s.pmState (Valid i) (Accepts i) (s.chan i) c 0) :
    Chans Valid Accepts s inp ({ s with wakeDb := k }.setChan i c) :=
  .act i c 0 h rfl (counts_none s _ rfl rfl) ⟨rfl, rfl, rfl, hk, rfl, rfl⟩ rfl

/-- A section that counts a buffer. -/
theorem chans_incFor {i : Fin n} {c : Chan} {k : ℕ}
    (hk : s.wakeDb ≤ k) (h : ChanStep s.pmState (Valid i) (Accepts i) (s.chan i) c 1) :
    Chans Valid Accepts s inp (({ s with wakeDb := k }.incFor (s.chan i).cfg.dir).setChan i c) := by
  unfold incFor
  by_cases hdir : (s.chan i).cfg.dir = .toDevice
  · rw [if_pos hdir]
    refine .act i c 1 h rfl ⟨?_, fun hb => ?_⟩ ⟨rfl, rfl, rfl, hk, rfl, rfl⟩ rfl
    · rw [if_pos hdir]
      rfl
    · exact balanced_incPending (s := s) hb
  · rw [if_neg hdir]
    refine .act i c 1 h rfl ⟨?_, fun hb => hb⟩ ⟨rfl, rfl, rfl, hk, rfl, rfl⟩ rfl
    rw [if_neg hdir]
    exact (add_zero _).symm

/-- A section that takes a buffer off the count. -/
theorem chans_decFor {i : Fin n} {c : Chan}
    (h : ChanStep s.pmState (Valid i) (Accepts i) (s.chan i) c (-1)) :
    Chans Valid Accepts s inp ((s.decFor (s.chan i).cfg.dir).setChan i c) := by
  unfold decFor
  by_cases hdir : (s.chan i).cfg.dir = .toDevice
  · rw [if_pos hdir]
    refine .act i c (-1) h rfl ⟨?_, fun hb => ?_⟩ ⟨rfl, rfl, rfl, Nat.le_refl _, rfl, rfl⟩ rfl
    · rw [if_pos hdir]
      rfl
    · exact balanced_decPending (s := s) hb
  · rw [if_neg hdir]
    refine .act i c (-1) h rfl ⟨?_, fun hb => hb⟩ ⟨rfl, rfl, rfl, Nat.le_refl _, rfl, rfl⟩ rfl
    rw [if_neg hdir]
    exact (add_zero _).symm

theorem chans_mhiQueueSkb {i : Fin n} {buf len : ℕ} {mapped : Bool}
    (haccepts : mapped = true → ¬ (s.chan i).Full → ¬ s.pmState.InError → Accepts i) :
    Chans Valid Accepts s inp (s.mhiQueueSkb i buf len mapped) := by
  obtain ⟨k, hk, hwake⟩ := assertWake_eq s (s.chan i).cfg.dir
  unfold mhiQueueSkb
  dsimp only
  rw [hwake]
  by_cases hfull : (s.chan i).Full
  · rw [if_pos hfull]
    exact chans_setChan (.refused (by decide))
  rw [if_neg hfull]
  by_cases herr : s.pmState.InError
  · rw [if_pos herr]
    exact chans_setChan (.refused (by decide))
  rw [if_neg herr]
  cases mapped with
  | true => exact chans_incFor hk (.queued hfull (haccepts rfl hfull herr))
  | false => exact chans_setChan_wake hk (.unmapped (by decide))

theorem chans_mhiGenTre {i : Fin n} {buf len : ℕ} {mapped : Bool}
    (haccepts : mapped = true → ¬ (s.chan i).Full → ¬ s.pmState.InError → Accepts i) :
    Chans Valid Accepts s inp (s.mhiGenTre i buf len mapped) := by
  unfold mhiGenTre
  dsimp only
  by_cases herr : s.pmState.InError
  · rw [if_pos herr]
    exact chans_setChan (.refused (by decide))
  rw [if_neg herr]
  by_cases hfull : (s.chan i).Full
  · rw [if_pos hfull]
    exact chans_setChan (.refused (by decide))
  rw [if_neg hfull]
  cases mapped with
  | true => exact chans_setChan (.generated hfull (haccepts rfl hfull herr))
  | false => exact chans_setChan (.unmapped (by decide))

theorem chans_mhiQueueBuf {i : Fin n} (h : (s.chan i).queueing ≠ 0) :
    Chans Valid Accepts s inp (s.mhiQueueBuf i) := by
  obtain ⟨k, hk, hwake⟩ := assertWake_eq s (s.chan i).cfg.dir
  have hpm : ({ s with wakeDb := k }.incFor (s.chan i).cfg.dir).pmState = s.pmState := by
    unfold incFor
    split_ifs <;> rfl
  unfold mhiQueueBuf
  dsimp only
  rw [hwake, hpm]
  exact chans_incFor hk (.accounted (Nat.pos_of_ne_zero h))

theorem not_dbMode_of_xfer {code : ℕ}
    (h : code ∈ [MHI_EV_CC_OVERFLOW, MHI_EV_CC_EOB, MHI_EV_CC_EOT]) :
    code ∉ [MHI_EV_CC_OOB, MHI_EV_CC_DB_MODE] := by
  unfold MHI_EV_CC_OVERFLOW MHI_EV_CC_EOB MHI_EV_CC_EOT at h
  unfold MHI_EV_CC_OOB MHI_EV_CC_DB_MODE
  simp only [List.mem_cons, List.not_mem_nil, or_false] at h ⊢
  omega

/-- An event of the doorbell mode. -/
theorem dbEvent_asked (s : St n) {i : Fin n} {code : ℕ} (ptr len : ℕ)
    (hdb : code ∈ [MHI_EV_CC_OOB, MHI_EV_CC_DB_MODE]) :
    (s.asked i code).parseXferEvent i code ptr len = s.setChan i
      (if ¬ (s.chan i).enabled then { s.chan i with answered := false }
      else if (s.chan i).twp ≠ (s.chan i).trp then
        { s.chan i with dbMode := true, answered := false }.ringIf s.pmState
      else { s.chan i with dbMode := true, answered := false }) := by
  have hxfer : code ∉ [MHI_EV_CC_OVERFLOW, MHI_EV_CC_EOB, MHI_EV_CC_EOT] :=
    fun hxfer => not_dbMode_of_xfer hxfer hdb
  have hchan : ∀ c, (s.setChan i c).chan i = c := fun c => Function.update_self ..
  have hset : ∀ c c', (s.setChan i c).setChan i c' = s.setChan i c' := fun c c' => by
    unfold setChan
    rw [Function.update_idem]
  unfold asked parseXferEvent
  rw [if_pos hdb]
  dsimp only
  rw [hchan, if_neg hxfer, if_pos hdb, hset]
  dsimp only
  by_cases hen : (s.chan i).enabled = true
  · rw [if_neg (not_not.2 hen), if_neg (not_not.2 hen)]
    rfl
  · rw [if_pos hen, if_pos hen]

theorem chans_event {i : Fin n} {code ptr len : ℕ} (hbusy : (s.chan i).busy = .idle)
    (hvalid : code ∈ [MHI_EV_CC_OVERFLOW, MHI_EV_CC_EOB, MHI_EV_CC_EOT] → Valid i ptr) :
    Chans Valid Accepts s inp ((s.asked i code).parseXferEvent i code ptr len) := by
  by_cases hdb : code ∈ [MHI_EV_CC_OOB, MHI_EV_CC_DB_MODE]
  · rw [dbEvent_asked s ptr len hdb]
    by_cases hen : (s.chan i).enabled = true
    · rw [if_neg (not_not.2 hen)]
      exact chans_setChan .dbEvent
    · rw [if_pos hen]
      exact chans_setChan (.asked hen)
  rw [show s.asked i code = s from if_neg hdb]
  have hsame : Chans Valid Accepts s inp s := by
    have hign : ChanStep s.pmState (Valid i) (Accepts i) (s.chan i) (s.chan i) 0 := .ignored
    have h : Chans Valid Accepts s inp (s.setChan i (s.chan i)) := chans_setChan hign
    unfold setChan at h
    rwa [Function.update_eq_self] at h
  unfold parseXferEvent
  dsimp only
  by_cases hen : (s.chan i).enabled = true
  · rw [if_neg (not_not.2 hen)]
    by_cases hxfer : code ∈ [MHI_EV_CC_OVERFLOW, MHI_EV_CC_EOB, MHI_EV_CC_EOT]
    · rw [if_pos hxfer]
      exact chans_setChan (.event hbusy (hvalid hxfer))
    · rw [if_neg hxfer, if_neg hdb]
      exact hsame
  · rw [if_pos hen]
    exact hsame

theorem chans_xferLoop {i : Fin n} {devRp len : ℕ} (hbusy : (s.chan i).busy = .loop devRp len) :
    Chans Valid Accepts s inp (s.xferLoop i devRp len) := by
  unfold xferLoop
  dsimp only
  by_cases hend : (s.chan i).cfg.addr (s.chan i).trp = devRp
  · rw [if_pos hend]
    exact chans_setChan (.loopEnd hbusy)
  · rw [if_neg hend]
    exact chans_setChan (.handed hbusy hend)

theorem chans_mhiResetDataChan {i : Fin n} (hbusy : (s.chan i).busy = .resetting) :
    Chans Valid Accepts s inp (s.mhiResetDataChan i) := by
  unfold mhiResetDataChan
  dsimp only
  by_cases hend : (s.chan i).trp = (s.chan i).twp
  · rw [if_pos hend]
    exact chans_setChan (.resetEnd hbusy)
  · rw [if_neg hend]
    exact chans_decFor (.reset hbusy hend)

theorem chans_m0Visit {i : ℕ} (hm0 : s.m0 = some (.visiting i)) (hinp : inp.IsPm) :
    Chans Valid Accepts s inp (s.m0Visit i) := by
  unfold m0Visit
  by_cases hi : i < n
  · rw [dif_pos hi]
    refine .visit ⟨i, hi⟩ hm0 ?_ rfl ⟨rfl, rfl, rfl, Nat.le_refl _, rfl, rfl⟩ rfl rfl
    unfold Chan.visited setChan
    dsimp only
    congr 1
    split_ifs <;> rfl
  · rw [dif_neg hi]
    exact .keep ⟨rfl, rfl, rfl, fun hpm =>
      Or.inr ⟨hpm, Or.inr (Or.inr ⟨i, Nat.le_of_not_lt hi, hm0, rfl⟩)⟩⟩ hinp

end St

/-- A state that differs in nothing of this. -/
theorem keeps_of_eq {s s' : St n} (hchan : s'.chan = s.chan) (hp : s'.pendingPkts = s.pendingPkts)
    (hr : s'.runtime = s.runtime) (hpm : s'.pmState = .m0 → s.pmState = .m0) (hm0 : s'.m0 = s.m0) :
    Keeps s s' :=
  ⟨hchan, hp, hr, fun h => Or.inr ⟨hpm h, Or.inl hm0⟩⟩

/-- The pointer of a transfer event satisfies `Valid`. -/
def ValidInput (Valid : Fin n → ℕ → Prop) : Input n → Prop
  | .event i code ptr _ =>
    code ∈ [St.MHI_EV_CC_OVERFLOW, St.MHI_EV_CC_EOB, St.MHI_EV_CC_EOT] → Valid i ptr
  | _ => True

/-- A call that puts a buffer on the rings of a channel finds `Accepts`. -/
def AcceptsInput (Accepts : Fin n → Prop) (s : St n) : Input n → Prop
  | .queueSkb i _ _ mapped | .genTre i _ _ mapped =>
    mapped = true → ¬ (s.chan i).Full → ¬ s.pmState.InError → Accepts i
  | _ => True

instance {Valid : Fin n → ℕ → Prop} [∀ i, DecidablePred (Valid i)] (inp : Input n) :
    Decidable (ValidInput Valid inp) := by
  cases inp <;> unfold ValidInput <;> infer_instance

instance {Accepts : Fin n → Prop} [DecidablePred Accepts] (s : St n) (inp : Input n) :
    Decidable (AcceptsInput Accepts s inp) := by
  cases inp <;> unfold AcceptsInput <;> infer_instance

theorem valid_true (inp : Input n) : ValidInput (fun _ _ => True) inp := by
  cases inp <;> simp only [ValidInput, implies_true]

theorem accepts_true (s : St n) (inp : Input n) : AcceptsInput (fun _ => True) s inp := by
  cases inp <;> simp only [AcceptsInput, implies_true]

theorem step_chans {Valid : Fin n → ℕ → Prop} {Accepts : Fin n → Prop} {s s' : St n}
    {inp : Input n} (hvalid : ValidInput Valid inp) (haccepts : AcceptsInput Accepts s inp)
    (h : step s inp = some s') : Chans Valid Accepts s inp s' := by
  cases inp with
  | queueSkb i buf len mapped =>
    cases h
    exact St.chans_mhiQueueSkb haccepts
  | genTre i buf len mapped =>
    cases h
    exact St.chans_mhiGenTre haccepts
  | queueBuf i =>
    simp only [step, Option.ite_none_left_eq_some, Option.some.injEq] at h
    obtain ⟨hq, rfl⟩ := h
    exact St.chans_mhiQueueBuf hq
  | event i code ptr len =>
    simp only [step, Option.ite_none_right_eq_some, Option.some.injEq] at h
    obtain ⟨hbusy, rfl⟩ := h
    exact St.chans_event hbusy hvalid
  | go i =>
    simp only [step, stepChan] at h
    rcases hbusy : (s.chan i).busy with _ | ⟨devRp, len⟩ | ⟨devRp, len⟩ | _ <;> rw [hbusy] at h
    · cases h
    · cases h
      exact St.chans_xferLoop hbusy
    · cases h
      exact St.chans_decFor (.called hbusy)
    · cases h
      exact St.chans_mhiResetDataChan hbusy
  | disable i =>
    simp only [step, Option.ite_none_right_eq_some, Option.some.injEq] at h
    obtain ⟨-, rfl⟩ := h
    exact St.chans_setChan .disabled
  | resetChan i =>
    simp only [step, Option.ite_none_right_eq_some, Option.some.injEq] at h
    obtain ⟨⟨hbusy, -⟩, rfl⟩ := h
    exact St.chans_setChan (.resetBegin hbusy)
  | m0Event =>
    simp only [step, Option.ite_none_left_eq_some, Option.some.injEq] at h
    obtain ⟨-, rfl⟩ := h
    exact .keep ⟨rfl, rfl, rfl, fun hpm => Or.inl (if_pos hpm)⟩ trivial
  | m0Go =>
    simp only [step, stepM0] at h
    rcases hm0 : s.m0 with _ | _ | i <;> rw [hm0] at h
    · cases h
    · cases h
      obtain ⟨k, -, hwake⟩ := St.wakeGet_eq s
      rw [hwake]
      exact .keep ⟨rfl, rfl, rfl, fun hpm => Or.inr ⟨hpm, Or.inr (Or.inl ⟨hm0, rfl⟩)⟩⟩ trivial
    · cases h
      exact St.chans_m0Visit hm0 trivial
  | m1Event =>
    simp only [step, Option.ite_none_left_eq_some, Option.some.injEq] at h
    obtain ⟨-, rfl⟩ := h
    unfold St.mhiPmM1Transition
    split_ifs
    · exact .keep (keeps_of_eq rfl rfl rfl (fun hpm => PmState.noConfusion hpm) rfl) trivial
    · exact .keep (keeps_of_eq rfl rfl rfl id rfl) trivial
  | m1Go =>
    simp only [step, stepM1] at h
    rcases hm1 : s.m1 with _ | m <;> rw [hm1] at h <;> cases h
    obtain ⟨k, -, hwake⟩ := St.wakeGet_eq s
    unfold St.m1Wake St.wakePut
    rw [hwake]
    split_ifs <;> exact .keep (keeps_of_eq rfl rfl rfl id rfl) trivial
  | m3Event =>
    simp only [step, Option.ite_none_left_eq_some, Option.some.injEq] at h
    obtain ⟨-, rfl⟩ := h
    exact .keep (keeps_of_eq rfl rfl rfl (mhiTrysetPmState_of_ne (by decide)) rfl) trivial
  | systemSuspend suspends =>
    simp only [step, Option.ite_none_right_eq_some, Option.some.injEq] at h
    obtain ⟨-, rfl⟩ := h
    unfold St.mhiSystemSuspend
    split_ifs <;> exact .keep (keeps_of_eq rfl rfl rfl id rfl) trivial
  | pmSuspend =>
    simp only [step, Option.ite_none_right_eq_some, Option.some.injEq] at h
    obtain ⟨-, rfl⟩ := h
    obtain ⟨k, -, hwake⟩ := St.wakeGet_eq s
    unfold St.mhiPmSuspend
    rw [hwake]
    split_ifs <;> exact .keep (keeps_of_eq rfl rfl rfl id rfl) trivial
  | suspendWaited timeout =>
    simp only [step, stepWaited] at h
    split_ifs at h <;> cases h <;> exact .keep (keeps_of_eq rfl rfl rfl id rfl) trivial
  | m3Enter =>
    simp only [step, Option.ite_none_right_eq_some, Option.some.injEq] at h
    obtain ⟨-, rfl⟩ := h
    unfold St.m3Enter
    split_ifs
    · exact .keep (keeps_of_eq rfl rfl rfl id rfl) trivial
    · exact .keep (keeps_of_eq rfl rfl rfl (mhiTrysetPmState_of_ne (by decide)) rfl) trivial
  | resume =>
    cases h
    unfold St.mhiPmResume
    split_ifs
    · exact .keep (keeps_of_eq rfl rfl rfl id rfl) trivial
    · obtain ⟨k, -, hwake⟩ := St.wakeGet_eq { s with pmState := .m3Exit }
      rw [hwake]
      exact .keep (keeps_of_eq rfl rfl rfl (fun hpm => PmState.noConfusion hpm) rfl) trivial
    · exact .keep (keeps_of_eq rfl rfl rfl id rfl) trivial
  | tryset state =>
    simp only [step, Option.ite_none_left_eq_some, Option.some.injEq] at h
    obtain ⟨hstate, rfl⟩ := h
    refine .keep (keeps_of_eq rfl rfl rfl (mhiTrysetPmState_of_ne fun heq => hstate ?_) rfl)
      trivial
    rw [heq]
    exact List.mem_cons_self

/-- What holds of all channels and is kept by what can happen to one. -/
theorem all_of_step {P : Chan → Prop} {Valid : Fin n → ℕ → Prop} {s s' : St n} {inp : Input n}
    (hvalid : ValidInput Valid inp)
    (hstep : ∀ i c δ, P (s.chan i) → ChanStep s.pmState (Valid i) True (s.chan i) c δ → P c)
    (hvisit : ∀ c : Chan, P c → P c.visited) (h : ∀ i, P (s.chan i))
    (hs : step s inp = some s') : ∀ i, P (s'.chan i) := by
  rcases step_chans hvalid (accepts_true s inp) hs with
    ⟨hkeep, -⟩ | ⟨i, c, δ, hact, hchan, -, -, -⟩ | ⟨i, -, hchan, -, -, -, -⟩
  · rw [hkeep.chan]
    exact h
  · rw [hchan]
    exact (Function.forall_update_iff _ fun _ => P).2 ⟨hstep i c δ (h i) hact, fun j _ => h j⟩
  · rw [hchan]
    exact (Function.forall_update_iff _ fun _ => P).2 ⟨hvisit _ (h i), fun j _ => h j⟩

end Mhi

end BananaWrt
