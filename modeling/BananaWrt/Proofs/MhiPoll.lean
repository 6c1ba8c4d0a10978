import BananaWrt.MhiPoll

/-!
# The count of a poll and its quota

The loop stops after the first number of events at which it has caught up with the modem or has used
up its quota (`Stops`). Only events that report transfers use up the quota, and every event is
counted, so that the count is within the quota exactly where that comes soon enough
(`exists_stops_iff`).
-/

namespace BananaWrt

namespace Mhi

variable {maxChan : ℕ} {env : DataEnv} {ring : EventRing} {t : ChanTable maxChan} {quota : ℕ}

/-- The loop does not go on after `k` events. -/
def Stops (env : DataEnv) (ring : EventRing) (quota k : ℕ) : Prop :=
  rpAt ring k = lastRead env ring k ∨ transfers env ring k = quota

theorem rpAt_succ (ring : EventRing) (i : ℕ) :
    rpAt ring (i + 1) = Ring.succ ring.cfg.elements (rpAt ring i) := by
  unfold rpAt
  rw [Function.iterate_succ_apply']

theorem transfers_succ (env : DataEnv) (ring : EventRing) (k : ℕ) : transfers env ring (k + 1)
    = transfers env ring k + if (eventAt env ring k).IsTransfer then 1 else 0 := by
  unfold transfers
  rw [List.range_succ, List.countP_append, List.countP_singleton]
  simp

theorem transfers_le (env : DataEnv) (ring : EventRing) (k : ℕ) : transfers env ring k ≤ k := by
  have h := List.countP_le_length (l := List.range k)
    (p := fun i => decide (eventAt env ring i).IsTransfer)
  rw [List.length_range] at h
  exact h

/-- All of them report transfers. -/
theorem transfers_eq_iff (env : DataEnv) (ring : EventRing) (k : ℕ) :
    transfers env ring k = k ↔ ∀ i < k, (eventAt env ring i).IsTransfer := by
  have h := List.countP_eq_length (l := List.range k)
    (p := fun i => decide (eventAt env ring i).IsTransfer)
  rw [List.length_range] at h
  unfold transfers
  rw [h]
  simp only [List.mem_range, decide_eq_true_eq]

/-- It stops within the quota: it catches up by then, or all events up to then report transfers. -/
theorem exists_stops_iff : (∃ k ≤ quota, Stops env ring quota k)
    ↔ (∃ k ≤ quota, rpAt ring k = lastRead env ring k)
      ∨ ∀ i < quota, (eventAt env ring i).IsTransfer := by
  constructor
  · rintro ⟨k, hk, hcaught | hused⟩
    · exact .inl ⟨k, hk, hcaught⟩
    · have hle := transfers_le env ring k
      obtain rfl : k = quota := by omega
      exact .inr ((transfers_eq_iff env ring k).1 hused)
  · rintro (⟨k, hk, hcaught⟩ | hall)
    · exact ⟨k, hk, .inl hcaught⟩
    · exact ⟨quota, Nat.le_refl _, .inr ((transfers_eq_iff env ring quota).2 hall)⟩

/-- After `k` events. -/
structure At (env : DataEnv) (ring : EventRing) (t : ChanTable maxChan) (k : ℕ)
    (s : PollSt maxChan) : Prop where
  count : s.count = k
  cfg : s.ring.cfg = ring.cfg
  rp : s.ring.rp = rpAt ring k
  processed : s.processed = (List.range k).map (eventAt env ring)
  effect : s.effect = effectOf env ring t k

theorem At.next {k : ℕ} {s : PollSt maxChan} (h : At env ring t k s) :
    At env ring t (k + 1)
      { ring := s.ring.recycle
        count := s.count + 1
        processed := s.processed ++ [env.slots s.count s.ring.rp]
        effect := parseEvent env s.count (env.slots s.count s.ring.rp) s.effect } where
  count := congrArg (· + 1) h.count
  cfg := h.cfg
  rp := by
    rw [rpAt_succ, ← h.rp, ← h.cfg]
    rfl
  processed := by
    rw [h.processed, h.count, h.rp, List.range_succ, List.map_append, List.map_singleton]
    rfl
  effect := by
    rw [h.effect, h.count, h.rp]
    unfold effectOf
    rw [List.range_succ, List.foldl_append]
    rfl

/-- An iteration, before which `left` of the quota is left. -/
theorem At.step {k : ℕ} {s : PollSt maxChan} {devRp left : ℕ} (h : At env ring t k s)
    (hleft : transfers env ring k + left = quota) (hdev : left ≠ 0 → devRp = lastRead env ring k)
    (hgo : devRp ≠ s.ring.rp ∧ 0 < left) :
    ¬ Stops env ring quota k ∧ ∃ s₁ devRp₁ left₁, At env ring t (k + 1) s₁
      ∧ transfers env ring (k + 1) + left₁ = quota
      ∧ (left₁ ≠ 0 → devRp₁ = lastRead env ring (k + 1))
      ∧ ∀ fuel, dataLoop env (fuel + 1) s devRp left = dataLoop env fuel s₁ devRp₁ left₁ := by
  have hread := hdev (Nat.ne_of_gt hgo.2)
  have hevent : env.slots s.count s.ring.rp = eventAt env ring k := by
    rw [h.count, h.rp]
    rfl
  have hrp : s.ring.recycle.rp = rpAt ring (k + 1) := h.next.rp
  have htransfers := transfers_succ env ring k
  refine ⟨?_, _, _, _, h.next, ?_, ?_, fun fuel => if_pos hgo⟩
  · rintro (hcaught | hused)
    · rw [← hread, ← h.rp] at hcaught
      exact hgo.1 hcaught.symm
    · omega
  · rw [hevent, htransfers]
    split_ifs <;> omega
  · intro hne
    rw [lastRead, ← hrp, ← hread, ← h.count]
    by_cases hcaught : s.ring.recycle.rp = devRp
    · rw [if_pos (.inl hcaught), if_pos hcaught]
    · rw [if_neg fun hor => hor.elim hcaught hne, if_neg hcaught]

/-- Where there is none, the loop stops. -/
theorem At.stops {k : ℕ} {s : PollSt maxChan} {devRp left : ℕ} (h : At env ring t k s)
    (hleft : transfers env ring k + left = quota) (hdev : left ≠ 0 → devRp = lastRead env ring k)
    (hgo : ¬ (devRp ≠ s.ring.rp ∧ 0 < left)) : Stops env ring quota k := by
  by_cases hzero : left = 0
  · exact .inr (by omega)
  · refine .inl ?_
    rw [← hdev hzero, ← h.rp]
    by_contra hne
    exact hgo ⟨fun heq => hne heq.symm, Nat.pos_of_ne_zero hzero⟩

/-- The loop comes to the first number of events at which it stops. -/
theorem dataLoop_spec : ∀ {fuel k : ℕ} {s s' : PollSt maxChan} {devRp left : ℕ},
    At env ring t k s → transfers env ring k + left = quota →
    (left ≠ 0 → devRp = lastRead env ring k) → dataLoop env fuel s devRp left = some s' →
      ∃ k' ≥ k, At env ring t k' s' ∧ Stops env ring quota k'
        ∧ ∀ j, k ≤ j → j < k' → ¬ Stops env ring quota j
  | 0, _, _, _, _, _, _, _, _, hs => by cases hs
  | fuel + 1, k, s, s', devRp, left, hat, hleft, hdev, hs => by
    by_cases hgo : devRp ≠ s.ring.rp ∧ 0 < left
    · obtain ⟨hnot, s₁, devRp₁, left₁, hat₁, hleft₁, hdev₁, hloop⟩ := hat.step hleft hdev hgo
      rw [hloop] at hs
      obtain ⟨k', hk', hat', hstop, hfirst⟩ := dataLoop_spec hat₁ hleft₁ hdev₁ hs
      refine ⟨k', Nat.le_of_succ_le hk', hat', hstop, fun j hj hlt => ?_⟩
      rcases Nat.eq_or_lt_of_le hj with rfl | hj
      · exact hnot
      · exact hfirst j hj hlt
    · cases (if_neg hgo).symm.trans hs
      exact ⟨k, Nat.le_refl k, hat, hat.stops hleft hdev hgo,
        fun j hj hlt => absurd hlt (Nat.not_lt.2 hj)⟩

/-- It comes to an end if it stops somewhere. -/
theorem dataLoop_returns {stop : ℕ} (hstop : Stops env ring quota stop) :
    ∀ {fuel k : ℕ} {s : PollSt maxChan} {devRp left : ℕ}, At env ring t k s →
    transfers env ring k + left = quota → (left ≠ 0 → devRp = lastRead env ring k) →
    k ≤ stop → stop - k < fuel → ∃ s', dataLoop env fuel s devRp left = some s'
  | 0, _, _, _, _, _, _, _, _, hfuel => absurd hfuel (Nat.not_lt_zero _)
  | fuel + 1, k, s, devRp, left, hat, hleft, hdev, hk, hfuel => by
    by_cases hgo : devRp ≠ s.ring.rp ∧ 0 < left
    · obtain ⟨hnot, s₁, devRp₁, left₁, hat₁, hleft₁, hdev₁, hloop⟩ := hat.step hleft hdev hgo
      have hne : k ≠ stop := by
        rintro rfl
        exact hnot hstop
      rw [hloop]
      exact dataLoop_returns hstop hat₁ hleft₁ hdev₁ (by omega) (by omega)
    · exact ⟨s, if_neg hgo⟩

theorem at_start (env : DataEnv) (ring : EventRing) (t : ChanTable maxChan) :
    At env ring t 0 ⟨ring, 0, [], some (t, [])⟩ := ⟨rfl, rfl, rfl, rfl, rfl⟩

theorem mhiNetdevPoll_le {rxWork : ℤ} {budget : ℕ} (h : rxWork ≤ budget) :
    (mhiNetdevPoll rxWork budget).1 ≤ budget := by
  unfold mhiNetdevPoll
  split_ifs
  · exact Int.natCast_nonneg budget
  · exact h

/-- A poll is right exactly if it may not look at the ring, or catches up with the modem within as
many events as its quota, or these all report transfers. It then returns. -/
theorem mhiProcessDataEventRing_right_iff (env : DataEnv) (ring : EventRing)
    (t : ChanTable maxChan) (quota : ℕ) :
    (∀ fuel r, mhiProcessDataEventRing env fuel ring t quota = some r →
        (PollRight env ring t quota r ↔ (env.pm 0).EventAccessInvalid
          ∨ (∃ k ≤ quota, rpAt ring k = lastRead env ring k)
          ∨ ∀ i < quota, (eventAt env ring i).IsTransfer))
      ∧ ((env.pm 0).EventAccessInvalid ∨ (∃ k ≤ quota, rpAt ring k = lastRead env ring k)
          ∨ (∀ i < quota, (eventAt env ring i).IsTransfer) →
        ∃ r, mhiProcessDataEventRing env (quota + 1) ring t quota = some r) := by
  have hat := at_start env ring t
  have hleft : transfers env ring 0 + quota = quota := Nat.zero_add quota
  unfold mhiProcessDataEventRing
  dsimp only
  by_cases hpm : (env.pm 0).EventAccessInvalid
  · refine ⟨fun fuel r hr => ?_, fun _ => ⟨_, if_pos hpm⟩⟩
    rw [if_pos hpm] at hr
    cases hr
    refine iff_of_true ⟨rfl, rfl, rfl, fun hno => absurd hpm hno, ?_, ?_⟩ (.inl hpm)
    · change - EIO ≤ (quota : ℤ)
      unfold EIO
      omega
    · refine mhiNetdevPoll_le ?_
      unfold EIO
      omega
  · rw [or_iff_right hpm, ← exists_stops_iff]
    refine ⟨fun fuel r hr => ?_, fun ⟨k, hk, hstop⟩ => ?_⟩
    · rw [if_neg hpm, Option.map_eq_some_iff] at hr
      obtain ⟨s, hs, rfl⟩ := hr
      obtain ⟨k, -, hat', hstop, hfirst⟩ := dataLoop_spec hat hleft (fun _ => rfl) hs
      obtain rfl := hat'.count
      constructor
      · intro h
        exact ⟨s.count, Int.ofNat_le.1 h.le_quota, hstop⟩
      · rintro ⟨k', hk', hstop'⟩
        have hle : s.count ≤ quota := by
          by_contra hlt
          exact hfirst k' (Nat.zero_le _) (by omega) hstop'
        refine ⟨hat'.processed, hat'.effect, hat'.rp, fun _ => ⟨rfl, ?_⟩, Int.ofNat_le.2 hle,
          mhiNetdevPoll_le (Int.ofNat_le.2 hle)⟩
        rw [hat'.rp]
        exact hstop
    · obtain ⟨s, hs⟩ : ∃ s, dataLoop env (quota + 1) ⟨ring, 0, [], some (t, [])⟩ (env.devRp 0) quota
          = some s := dataLoop_returns hstop hat hleft (fun _ => rfl) (Nat.zero_le k) (by omega)
      rw [if_neg hpm, hs]
      exact ⟨_, rfl⟩

/-- A ring of four elements: a stale event and one that reports a transfer, for a channel that has
been closed. -/
def staleFirst : DataEnv where
  slots _ i := if i = 0 then ⟨0, 0, 0x64490000⟩ else ⟨8192, 0x02000064, 0x64220000⟩
  devRp _ := 2
  pm _ := .m0
  cb _ _ := []
  fuel := 1

theorem fourEvents_pos : 0 < 4 := by decide

def fourEvents : EventRing where
  cfg := ⟨4, 4096, true, false, fourEvents_pos⟩
  rp := 0
  wp := 3
  ctxtWp := 4144
  armed := true

def closedChans : ChanTable 128 := fun _ => none

/-- A quota of two is enough for both. -/
theorem staleFirst_within_quota :
    ∃ r, mhiProcessDataEventRing staleFirst 3 fourEvents closedChans 2 = some r
      ∧ PollRight staleFirst fourEvents closedChans 2 r := by
  obtain ⟨hright, hreturns⟩ :=
    mhiProcessDataEventRing_right_iff staleFirst fourEvents closedChans 2
  have hcaught : ∃ k ≤ 2, rpAt fourEvents k = lastRead staleFirst fourEvents k :=
    ⟨2, Nat.le_refl 2, rfl⟩
  obtain ⟨r, hr⟩ := hreturns (.inr (.inl hcaught))
  exact ⟨r, hr, (hright 3 r hr).2 (.inr (.inl hcaught))⟩

/-- With a quota of one, both are processed. -/
theorem staleFirst_above_quota :
    ∃ r, mhiProcessDataEventRing staleFirst 3 fourEvents closedChans 1 = some r ∧ r.1 = 2
      ∧ (mhiNetdevPoll r.1 1).1 = 2 ∧ ¬ PollRight staleFirst fourEvents closedChans 1 r := by
  obtain ⟨r, hr, htwo⟩ : ∃ r,
      mhiProcessDataEventRing staleFirst 3 fourEvents closedChans 1 = some r ∧ r.1 = 2 :=
    ⟨_, rfl, rfl⟩
  refine ⟨r, hr, htwo, ?_, fun h => ?_⟩
  · rw [htwo]
    rfl
  · have hle := h.le_quota
    rw [htwo] at hle
    exact absurd hle (by decide)

end Mhi

end BananaWrt
