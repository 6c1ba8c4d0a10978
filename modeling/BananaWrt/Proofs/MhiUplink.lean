import Mathlib.Algebra.Order.BigOperators.Group.Finset
import Mathlib.Tactic.Ring
import BananaWrt.Proofs.MhiRings

/-!
# The count of uplink buffers

`pending_pkts` is changed by one at five places, for buffers of all channels. What each channel
contributes to it (`Chan.share`) changes by as much at every step, and a reference of the runtime
power management is held exactly while it is positive.
-/

namespace BananaWrt

namespace Mhi

/-- `xfer_cb` has returned, or is at work, and its buffer has not been taken off the count. -/
def Busy.returning : Busy → ℤ
  | .called .. => 1
  | _ => 0

theorem Busy.returning_nonneg (b : Busy) : 0 ≤ b.returning := by
  cases b <;> simp [returning]

namespace Chan

variable {c c' : Chan}

/-- What the channel contributes to the count, if it is for uplink: what is outstanding, without
what `mhi_queue_buf` has not counted yet and with what is not yet taken off. -/
def share (c : Chan) : ℤ := c.outstanding - c.queueing + c.busy.returning

theorem outstanding_returns (c : Chan) (buf : ℕ) (ret : ℤ) :
    (c.returns buf ret).outstanding = c.outstanding + if ret = 0 then 1 else 0 := by
  unfold outstanding
  rw [accepted_returns]
  change _ - (c.handed.length : ℤ) = _
  split_ifs
  · rw [List.length_append, List.length_singleton]
    push_cast
    ring
  · ring

theorem outstanding_handOver (c : Chan) (bytesXferd : ℕ) :
    (c.handOver bytesXferd).outstanding = c.outstanding - 1 := by
  unfold outstanding handOver
  dsimp only
  rw [List.length_append, List.length_singleton]
  push_cast
  change (c.accepted.length : ℤ) - _ = _
  ring

theorem share_returns (c : Chan) (buf : ℕ) (ret : ℤ) :
    (c.returns buf ret).share = c.share + if ret = 0 then 1 else 0 := by
  unfold share
  rw [outstanding_returns]
  change _ - (c.queueing : ℤ) + c.busy.returning = _
  ring

/-- Only where the loop is has changed. -/
theorem share_busy {b : Busy} {δ : ℤ} (h : b.returning = c.busy.returning + δ) :
    { c with busy := b }.share = c.share + δ := by
  change c.outstanding - (c.queueing : ℤ) + b.returning = _
  unfold share
  rw [h]
  ring

/-- The share of a channel changes by what is counted, and its configuration does not. -/
theorem share_step {pm : PmState} {Valid : ℕ → Prop} {Accepts : Prop} {δ : ℤ}
    (hstep : ChanStep pm Valid Accepts c c' δ) : c'.share = c.share + δ ∧ c'.cfg = c.cfg := by
  cases hstep with
  | refused hret => exact ⟨by rw [share_returns, if_neg hret], rfl⟩
  | unmapped hret =>
    refine ⟨?_, rfl⟩
    rw [share_returns, if_neg hret]
    rfl
  | @queued buf len _ _ =>
    obtain ⟨ctxtWp, dbMode, doorbell, answered, heq⟩ := ringIf_eq (c.fill buf len).add pm
    rw [heq]
    refine ⟨?_, rfl⟩
    rw [share_returns, if_pos rfl]
    rfl
  | generated _ _ =>
    refine ⟨?_, rfl⟩
    rw [share_returns, if_pos rfl]
    -- accepted, but not counted before `mhi_queue_buf` goes on
    change c.outstanding - ((c.queueing + 1 : ℕ) : ℤ) + c.busy.returning + 1 = _
    unfold share
    push_cast
    ring
  | accounted hq =>
    obtain ⟨ctxtWp, dbMode, doorbell, answered, heq⟩ :=
        ringIf_eq { c with queueing := c.queueing - 1 } pm
    rw [heq]
    refine ⟨?_, rfl⟩
    change c.outstanding - ((c.queueing - 1 : ℕ) : ℤ) + c.busy.returning = _
    unfold share
    omega
  | ignored => exact ⟨(add_zero _).symm, rfl⟩
  | asked _ => exact ⟨(add_zero _).symm, rfl⟩
  | event hbusy _ => exact ⟨share_busy (by rw [hbusy]; rfl), rfl⟩
  | dbEvent =>
    obtain ⟨ctxtWp, dbMode, doorbell, answered, heq⟩ := dbEvent_eq c pm false
    rw [heq]
    exact ⟨(add_zero _).symm, rfl⟩
  | loopEnd hbusy => exact ⟨share_busy (by rw [hbusy]; rfl), rfl⟩
  | @handed devRp len hbusy _ =>
    refine ⟨?_, rfl⟩
    unfold share
    rw [hbusy]
    change (c.handOver len).outstanding - (c.queueing : ℤ) + 1 = c.outstanding - c.queueing + 0 + 0
    rw [outstanding_handOver]
    ring
  | called hbusy => exact ⟨share_busy (by rw [hbusy]; rfl), rfl⟩
  | disabled => exact ⟨(add_zero _).symm, rfl⟩
  | resetBegin hbusy => exact ⟨share_busy (by rw [hbusy]; rfl), rfl⟩
  | resetEnd hbusy => exact ⟨share_busy (by rw [hbusy]; rfl), rfl⟩
  | reset hbusy _ =>
    refine ⟨?_, rfl⟩
    unfold share
    rw [outstanding_handOver]
    change c.outstanding - 1 - (c.queueing : ℤ) + c.busy.returning = _
    ring

theorem share_visited (c : Chan) :
    c.visited.share = c.share ∧ c.visited.outstanding = c.outstanding ∧ c.visited.cfg = c.cfg := by
  obtain ⟨ctxtWp, dbMode, doorbell, answered, heq⟩ := visited_eq c
  rw [heq]
  exact ⟨rfl, rfl, rfl⟩

/-- What is outstanding only grows by a buffer that is accepted. -/
theorem outstanding_step {pm : PmState} {Valid : ℕ → Prop} {Accepts : Prop} {δ : ℤ}
    (hstep : ChanStep pm Valid Accepts c c' δ) (hno : ¬ Accepts) :
    c'.outstanding ≤ c.outstanding := by
  cases hstep with
  | @refused buf ret hret =>
    rw [outstanding_returns, if_neg hret, add_zero]
  | @unmapped buf len ret hret =>
    rw [outstanding_returns, if_neg hret, add_zero]
    exact le_rfl
  | queued _ ha => exact absurd ha hno
  | generated _ ha => exact absurd ha hno
  | accounted _ =>
    obtain ⟨ctxtWp, dbMode, doorbell, answered, heq⟩ :=
        ringIf_eq { c with queueing := c.queueing - 1 } pm
    rw [heq]
    exact le_rfl
  | dbEvent =>
    obtain ⟨ctxtWp, dbMode, doorbell, answered, heq⟩ := dbEvent_eq c pm false
    rw [heq]
    exact le_rfl
  | handed _ _ =>
    refine (outstanding_handOver c _).trans_le ?_
    omega
  | reset _ _ =>
    rw [outstanding_handOver]
    omega
  | ignored => exact le_rfl
  | asked _ => exact le_rfl
  | event _ _ => exact le_rfl
  | loopEnd _ => exact le_rfl
  | called _ => exact le_rfl
  | disabled => exact le_rfl
  | resetBegin _ => exact le_rfl
  | resetEnd _ => exact le_rfl

end Chan

section Sums

variable {n : ℕ}

/-- A sum over the uplink channels. -/
def sumUplink (f : Chan → ℤ) (g : Fin n → Chan) : ℤ :=
  ∑ i, if (g i).cfg.dir = .toDevice then f (g i) else 0

/-- Two sums whose terms differ at one place. -/
theorem sum_eq_add_sub {F G : Fin n → ℤ} (i : Fin n) (h : ∀ j ≠ i, F j = G j) :
    ∑ j, F j = ∑ j, G j + (F i - G i) := by
  rw [← Finset.add_sum_erase Finset.univ F (Finset.mem_univ i),
    ← Finset.add_sum_erase Finset.univ G (Finset.mem_univ i),
    Finset.sum_congr rfl fun j hj => h j (Finset.ne_of_mem_erase hj)]
  ring

/-- One channel changes, and its direction does not. -/
theorem sumUplink_update (f : Chan → ℤ) (g : Fin n → Chan) (i : Fin n) {c : Chan}
    (hcfg : c.cfg = (g i).cfg) :
    sumUplink f (Function.update g i c)
      = sumUplink f g + if (g i).cfg.dir = .toDevice then f c - f (g i) else 0 := by
  unfold sumUplink
  rw [sum_eq_add_sub i fun j hj => by rw [Function.update_of_ne hj], Function.update_self, hcfg]
  split_ifs
  · rfl
  · rw [sub_zero]

theorem sumUplink_nonneg {f : Chan → ℤ} {g : Fin n → Chan} (h : ∀ i, 0 ≤ f (g i)) :
    0 ≤ sumUplink f g := by
  refine Finset.sum_nonneg fun i _ => ?_
  split_ifs
  · exact h i
  · exact le_rfl

theorem sumUplink_eq_zero {f : Chan → ℤ} {g : Fin n → Chan} (h : ∀ i, f (g i) = 0) :
    sumUplink f g = 0 := by
  refine Finset.sum_eq_zero fun i _ => ?_
  rw [h i, ite_self]

theorem sumUplink_share (g : Fin n → Chan) :
    sumUplink Chan.share g = sumUplink Chan.outstanding g - sumUplink (fun c => c.queueing) g
      + sumUplink (fun c => c.busy.returning) g := by
  unfold sumUplink
  rw [← Finset.sum_sub_distrib, ← Finset.sum_add_distrib]
  refine Finset.sum_congr rfl fun i _ => ?_
  split_ifs
  · rfl
  · rfl

end Sums

variable {n : ℕ}

namespace St

/-- The elements of `mhi_queue_buf` that are not counted yet, and the buffers that are handed over
and not taken off. -/
def uncounted (s : St n) : ℤ := sumUplink (fun c => c.queueing) s.chan

def returning (s : St n) : ℤ := sumUplink (fun c => c.busy.returning) s.chan

/-- The count is the sum of the shares, and a reference is held while it is positive. -/
structure Accounts (s : St n) : Prop where
  pending : s.pendingPkts = sumUplink Chan.share s.chan
  runtime : s.Balanced

theorem accounts_initial (cfg : Fin n → ChanCfg) (pm : PmState) (dev : DevState) :
    (initial cfg pm dev).Accounts :=
  ⟨(sumUplink_eq_zero fun _ => rfl).symm, rfl⟩

theorem accounts_step (s : St n) (inp : Input n) (s' : St n) (h : s.Accounts)
    (hs : step s inp = some s') : s'.Accounts := by
  rcases step_chans (valid_true inp) (accepts_true s inp) hs with
    ⟨hkeep, -⟩ | ⟨i, c, δ, hstep, hchan, hcounts, -, -⟩ | ⟨i, -, hchan, -, -, hpending, hruntime⟩
  · refine ⟨by rw [hkeep.pending, hkeep.chan]; exact h.pending, ?_⟩
    have hbal := h.runtime
    unfold Balanced at hbal ⊢
    rw [hkeep.pending, hkeep.runtime, hbal]
  · obtain ⟨hshare, hcfg⟩ := Chan.share_step hstep
    refine ⟨?_, hcounts.balanced h.runtime⟩
    rw [hcounts.pending, hchan, sumUplink_update _ _ _ hcfg, hshare, h.pending,
      add_sub_cancel_left]
  · obtain ⟨hshare, -, hcfg⟩ := Chan.share_visited (s.chan i)
    refine ⟨?_, ?_⟩
    · rw [hpending, hchan, sumUplink_update _ _ _ hcfg, hshare, sub_self, ite_self, add_zero,
        h.pending]
    · have hbal := h.runtime
      unfold Balanced at hbal ⊢
      rw [hpending, hruntime, hbal]

theorem pending_eq {s : St n} (h : s.Accounts) :
    s.pendingPkts = s.uplink - s.uncounted + s.returning :=
  h.pending.trans (sumUplink_share s.chan)

theorem returning_nonneg (s : St n) : 0 ≤ s.returning :=
  sumUplink_nonneg fun i => (s.chan i).busy.returning_nonneg

/-- No call of `mhi_queue_buf` is before its count, and no `xfer_cb` before the one that follows
it. -/
def Quiet (s : St n) : Prop :=
  ∀ i, (s.chan i).queueing = 0 ∧ (s.chan i).busy.returning = 0

instance (s : St n) : Decidable s.Quiet := inferInstanceAs (Decidable (∀ _, _ ∧ _))

theorem uplink_of_quiet {s : St n} (h : s.Accounts) (hq : s.Quiet) : s.pendingPkts = s.uplink := by
  have hun : s.uncounted = 0 := sumUplink_eq_zero fun i => by rw [(hq i).1]; rfl
  have hre : s.returning = 0 := sumUplink_eq_zero fun i => (hq i).2
  rw [pending_eq h, hun, hre, sub_zero, add_zero]

end St

/-- What is outstanding is what is on the rings. -/
theorem outstanding_eq_length {c : Chan} (h : c.Sound) : c.outstanding = c.onRing.length := by
  have hlen := congrArg List.length h.queue
  rw [List.length_append, List.length_map] at hlen
  unfold Chan.outstanding
  omega

/-- `pending_pkts` is the number of uplink buffers that are outstanding, but for what is in the
middle of being counted, and a reference is held exactly while it is positive. If all transfer
events point to outstanding elements, the number is that of the elements on the uplink rings, so the
reference is held exactly while it is not 0. -/
theorem pending_eq_uplink {cfg : Fin n → ChanCfg} {pm : PmState} {dev : DevState}
    {is : List (Input n)} {s : St n} (hrun : Runs.exec step (initial cfg pm dev) is = some s) :
    s.pendingPkts = s.uplink - s.uncounted + s.returning
      ∧ s.runtime = (if 0 < s.pendingPkts then 1 else 0)
      ∧ (s.Quiet → s.pendingPkts = s.uplink)
      ∧ (Runs.Meets step PointsAtOutstanding (initial cfg pm dev) is →
        s.uplink = sumUplink (fun c => c.onRing.length) s.chan
          ∧ (s.Quiet → (s.runtime = 1 ↔ s.uplink ≠ 0) ∧ (s.runtime = 0 ↔ s.uplink = 0))) := by
  have h : s.Accounts :=
    Runs.exec_keeps St.accounts_step (St.accounts_initial cfg pm dev) hrun
  refine ⟨St.pending_eq h, h.runtime, St.uplink_of_quiet h, fun hok => ?_⟩
  have hsound := sound_of_run hok hrun
  have huplink : s.uplink = sumUplink (fun c => c.onRing.length) s.chan := by
    refine Finset.sum_congr rfl fun i _ => ?_
    rw [outstanding_eq_length (hsound i)]
  refine ⟨huplink, fun hq => ?_⟩
  have hpos : 0 ≤ s.uplink := by
    rw [huplink]
    exact sumUplink_nonneg fun i => Int.natCast_nonneg _
  have hruntime := h.runtime
  unfold St.Balanced at hruntime
  rw [St.uplink_of_quiet h hq] at hruntime
  rw [hruntime]
  split_ifs <;> omega

/-- Two buffers are queued in two ways, and the first is handed over. -/
def queueTwo : List (Input 1) :=
  [.queueSkb theChan 11 100 true, .genTre theChan 12 100 true, .queueBuf theChan,
    .event theChan 2 8192 100, .go theChan, .go theChan]

theorem pending_eq_queueTwo :
    ∃ s, Runs.exec step (initial (fun _ : Fin 1 => fourElements) .m0 .m0) queueTwo = some s
      ∧ s.pendingPkts = s.uplink ∧ s.pendingPkts = 1
      ∧ s.runtime = (if 0 < s.pendingPkts then 1 else 0) := by
  have hrun : Runs.exec step (initial (fun _ : Fin 1 => fourElements) .m0 .m0) queueTwo = some _ :=
    rfl
  have h := pending_eq_uplink hrun
  exact ⟨_, hrun, h.2.2.1 (by decide), by decide, h.2.1⟩

end Mhi

end BananaWrt
