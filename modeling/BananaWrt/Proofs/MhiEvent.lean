import BananaWrt.MhiEvent
import BananaWrt.Proofs.MhiRings

/-!
# Which transfer events are safe

The loop of `parse_xfer_event` ends at the position that the pointer of the record stands for, and
hands over every buffer before it. That is right only if the position is not past `wp`; nothing
checks it, nor the length and the channel of the record. `safe_iff` says which records are processed
as they should be.
-/

namespace BananaWrt

namespace Mhi

namespace ChanCfg

variable {cfg : ChanCfg}

/-- The address after the element that `ptr` points to. -/
def next (cfg : ChanCfg) (ptr : ℕ) : ℕ := (cfg.toVirtual ptr + sizeofTre) % 2 ^ 64

/-- What lies at or past the end of the ring stands for its first element. -/
theorem devRp_eq_addr_iff {ptr i : ℕ} (hi : i < cfg.elements) :
    cfg.devRp ptr = cfg.addr i
      ↔ cfg.next ptr = cfg.addr i ∨ (i = 0 ∧ cfg.addr cfg.elements ≤ cfg.next ptr) := by
  unfold devRp
  change (if cfg.addr cfg.elements ≤ cfg.next ptr then cfg.base else cfg.next ptr) = _ ↔ _
  unfold addr sizeofTre
  split_ifs <;> omega

end ChanCfg

namespace Chan

variable {c c' : Chan}

/-- The two rings have the same positions. -/
structure InStep (c : Chan) : Prop where
  trp : c.trp < c.cfg.elements
  twp : c.twp < c.cfg.elements
  brp : c.brp = c.trp
  bwp : c.bwp = c.twp

theorem inStep_start (cfg : ChanCfg) : cfg.start.InStep := ⟨cfg.pos, cfg.pos, rfl, rfl⟩

/-- What queueing leaves as it is: the read position and the buffers that are on the rings. -/
structure Grows (c c' : Chan) : Prop where
  cfg : c'.cfg = c.cfg
  trp : c'.trp = c.trp
  used : Ring.used c.cfg.elements c.trp c.twp ≤ Ring.used c.cfg.elements c.trp c'.twp
  slots : ∀ j < Ring.used c.cfg.elements c.trp c.twp,
    c'.slots (Ring.pos c.cfg.elements c.trp j) = c.slots (Ring.pos c.cfg.elements c.trp j)

theorem Grows.refl (c : Chan) : Grows c c := ⟨rfl, rfl, Nat.le_refl _, fun _ _ => rfl⟩

theorem Grows.trans {c'' : Chan} (h : Grows c c') (h' : Grows c' c'') : Grows c c'' := by
  obtain ⟨hcfg, htrp, hused, hslots⟩ := h'
  rw [h.cfg, h.trp] at hused hslots
  exact ⟨hcfg.trans h.cfg, htrp.trans h.trp, h.used.trans hused, fun j hj =>
    (hslots j (hj.trans_le h.used)).trans (h.slots j hj)⟩

/-- One buffer is queued. -/
theorem grows_add (h : c.InStep) (hfull : ¬ c.Full) (buf len : ℕ) :
    ((c.fill buf len).add).InStep ∧ Grows c (c.fill buf len).add := by
  have hpush := Ring.used_push h.trp h.twp hfull
  have hlt := Ring.used_lt h.trp h.twp
  refine ⟨⟨h.trp, Ring.succ_lt c.cfg.pos, h.brp, congrArg (Ring.succ c.cfg.elements) h.bwp⟩, rfl,
    rfl, ?_, fun j hj => ?_⟩
  · change _ ≤ Ring.used c.cfg.elements c.trp (Ring.succ c.cfg.elements c.twp)
    omega
  · refine Function.update_of_ne (fun heq => ?_) _ _
    rw [h.bwp, ← Ring.pos_used h.trp h.twp] at heq
    have := Ring.pos_inj (by omega) hlt heq
    omega

theorem grows_queued (bufs : List BufInfo) :
    ∀ {c : Chan}, c.InStep → (c.queued bufs).InStep ∧ Grows c (c.queued bufs) := by
  induction bufs with
  | nil => exact fun {c} h => ⟨h, Grows.refl c⟩
  | cons buf bufs ih =>
    intro c h
    unfold queued
    rw [List.foldl_cons]
    by_cases hfull : c.Full
    · rw [if_pos hfull]
      exact ih h
    · rw [if_neg hfull]
      obtain ⟨hadd, hgrows⟩ := grows_add h hfull buf.cbBuf buf.len
      obtain ⟨hin, hgrows'⟩ := ih hadd
      exact ⟨hin, hgrows.trans hgrows'⟩

theorem inStep_handOver (h : c.InStep) (bytesXferd : ℕ) : (c.handOver bytesXferd).InStep :=
  ⟨Ring.succ_lt c.cfg.pos, h.twp, congrArg (Ring.succ c.cfg.elements) h.brp, h.bwp⟩

/-- Nothing that happens to a channel brings its rings out of step. -/
theorem inStep_step {pm : PmState} {Valid : ℕ → Prop} {Accepts : Prop} {δ : ℤ} (h : c.InStep)
    (hstep : ChanStep pm Valid Accepts c c' δ) : c'.InStep := by
  have hadd : Ring.succ c.cfg.elements c.bwp = Ring.succ c.cfg.elements c.twp := by rw [h.bwp]
  have hdel : Ring.succ c.cfg.elements c.brp = Ring.succ c.cfg.elements c.trp := by rw [h.brp]
  cases hstep with
  | refused _ | unmapped _ | ignored | asked _ | event _ _ | loopEnd _ | called _ | disabled
  | resetBegin _ | resetEnd _ => exact ⟨h.trp, h.twp, h.brp, h.bwp⟩
  | accounted _ =>
    obtain ⟨ctxtWp, dbMode, doorbell, answered, heq⟩ :=
        ringIf_eq { c with queueing := c.queueing - 1 } pm
    rw [heq]
    exact ⟨h.trp, h.twp, h.brp, h.bwp⟩
  | dbEvent =>
    obtain ⟨ctxtWp, dbMode, doorbell, answered, heq⟩ := dbEvent_eq c pm false
    rw [heq]
    exact ⟨h.trp, h.twp, h.brp, h.bwp⟩
  | @queued buf len _ _ =>
    obtain ⟨ctxtWp, dbMode, doorbell, answered, heq⟩ := ringIf_eq (c.fill buf len).add pm
    rw [heq]
    exact ⟨h.trp, Ring.succ_lt c.cfg.pos, h.brp, hadd⟩
  | generated _ _ => exact ⟨h.trp, Ring.succ_lt c.cfg.pos, h.brp, hadd⟩
  | handed _ _ | reset _ _ => exact ⟨Ring.succ_lt c.cfg.pos, h.twp, hdel, h.bwp⟩

theorem inStep_visited (h : c.InStep) : c.visited.InStep := by
  obtain ⟨ctxtWp, dbMode, doorbell, answered, heq⟩ := visited_eq c
  rw [heq]
  exact ⟨h.trp, h.twp, h.brp, h.bwp⟩

/-- Whatever the modem has written, the rings stay in step. -/
theorem inStep_xferLoop {cb : ℕ → List BufInfo} {devRp len fuel k : ℕ} {calls : List XferCall}
    (h : c.InStep) (hloop : c.xferLoop cb devRp len fuel k = some (c', calls)) : c'.InStep := by
  induction fuel generalizing c k calls with
  | zero => cases hloop
  | succ fuel ih =>
    simp only [xferLoop] at hloop
    split_ifs at hloop with hend
    · cases hloop
      exact h
    · obtain ⟨r, hr, heq⟩ := Option.map_eq_some_iff.1 hloop
      cases heq
      exact ih (grows_queued (cb k) (inStep_handOver h len)).1 hr

/-- The loop ends at the position `k` if the `k` buffers before it are on the rings and `len` is not
more than their lengths. -/
def EndsAfter (c : Chan) (devRp len k : ℕ) : Prop :=
  k ≤ Ring.used c.cfg.elements c.trp c.twp
    ∧ devRp = c.cfg.addr (Ring.pos c.cfg.elements c.trp k)
    ∧ ∀ j < k, len ≤ (c.slots (Ring.pos c.cfg.elements c.trp j)).len

/-- A buffer has been handed over, and others have been queued. -/
theorem endsAfter_next {devRp len k : ℕ} (h : c.InStep) (hends : c.EndsAfter devRp len (k + 1))
    (hgrows : Grows (c.handOver len) c') : c'.EndsAfter devRp len k := by
  obtain ⟨hk, hdev, hlen⟩ := hends
  obtain ⟨hcfg, htrp, hused, hslots⟩ := hgrows
  have hlt := Ring.used_lt h.trp h.twp
  have hne : c.trp ≠ c.twp := (Ring.used_pos_iff h.trp).1 (by omega)
  have hpop := Ring.used_pop h.trp h.twp hne
  change Ring.used c.cfg.elements (Ring.succ c.cfg.elements c.trp) c.twp ≤
    Ring.used c.cfg.elements (Ring.succ c.cfg.elements c.trp) c'.twp at hused
  have hpos :
      ∀ j ≤ k, Ring.pos c'.cfg.elements c'.trp j = Ring.pos c.cfg.elements c.trp (j + 1) := by
    intro j hj
    have hj' : j < c.cfg.elements := by omega
    rw [hcfg, htrp]
    exact Ring.pos_succ h.trp hj'
  refine ⟨?_, ?_, fun j hj => ?_⟩
  · rw [hcfg, htrp]
    change k ≤ Ring.used c.cfg.elements (Ring.succ c.cfg.elements c.trp) c'.twp
    omega
  · rw [hpos k (Nat.le_refl k), hcfg]
    exact hdev
  · have hslot := hslots j (by
      change j < Ring.used c.cfg.elements (Ring.succ c.cfg.elements c.trp) c.twp
      omega)
    change c'.slots (Ring.pos c.cfg.elements (Ring.succ c.cfg.elements c.trp) j) =
      c.slots (Ring.pos c.cfg.elements (Ring.succ c.cfg.elements c.trp) j) at hslot
    rw [Ring.pos_succ h.trp (by omega)] at hslot
    rw [hpos j (by omega), hslot]
    exact hlen (j + 1) (by omega)

/-- Whatever is queued meanwhile, such a loop comes to an end, and all its calls are good. -/
theorem xferLoop_good (cb : ℕ → List BufInfo) {devRp len k : ℕ} (h : c.InStep)
    (hends : c.EndsAfter devRp len k) (m : ℕ) :
    ∃ c' calls, c.xferLoop cb devRp len (k + 1) m = some (c', calls)
      ∧ ∀ call ∈ calls, call.Good := by
  induction k generalizing c m with
  | zero =>
    have hend : c.cfg.addr c.trp = devRp := by
      rw [hends.2.1, Ring.pos_zero h.trp]
    unfold xferLoop
    rw [if_pos hend]
    exact ⟨c, [], rfl, fun _ hcall => absurd hcall List.not_mem_nil⟩
  | succ k ih =>
    obtain ⟨hin, hgrows⟩ := grows_queued (cb m) (inStep_handOver h len)
    obtain ⟨c', calls, hloop, hgood⟩ := ih hin (endsAfter_next h hends hgrows) (m + 1)
    obtain ⟨hk, hdev, hlen⟩ := hends
    have hlt := Ring.used_lt h.trp h.twp
    have hne : c.trp ≠ c.twp := (Ring.used_pos_iff h.trp).1 (by omega)
    have hgo : c.cfg.addr c.trp ≠ devRp := fun heq => by
      have hpos := (Ring.pos_zero h.trp).trans (ChanCfg.addr_inj.1 (heq.trans hdev))
      have := Ring.pos_inj c.cfg.pos (by omega) hpos
      omega
    unfold xferLoop
    rw [if_neg hgo]
    dsimp only
    rw [hloop]
    refine ⟨c', _, rfl, fun call hcall => ?_⟩
    rcases List.mem_cons.1 hcall with rfl | hcall
    · refine ⟨decide_eq_true ⟨hne, by rw [h.brp, h.bwp]; exact hne⟩, ?_⟩
      have hfirst := hlen 0 (by omega)
      rw [Ring.pos_zero h.trp, ← h.brp] at hfirst
      exact hfirst
    · exact hgood call hcall

/-- If nothing is queued, only such a loop does. -/
theorem endsAfter_of_xferLoop {devRp len fuel k : ℕ} {calls : List XferCall} (h : c.InStep)
    (hloop : c.xferLoop (fun _ => []) devRp len fuel k = some (c', calls))
    (hgood : ∀ call ∈ calls, call.Good) : ∃ i, c.EndsAfter devRp len i := by
  induction fuel generalizing c k calls with
  | zero => cases hloop
  | succ fuel ih =>
    simp only [xferLoop] at hloop
    split_ifs at hloop with hend
    · refine ⟨0, Nat.zero_le _, ?_, fun j hj => absurd hj (Nat.not_lt_zero j)⟩
      rw [Ring.pos_zero h.trp, hend]
    · obtain ⟨⟨c₁, calls₁⟩, hr, heq⟩ := Option.map_eq_some_iff.1 hloop
      cases heq
      obtain ⟨hout, hlen⟩ := hgood _ List.mem_cons_self
      have hne : c.trp ≠ c.twp := (of_decide_eq_true hout).1
      obtain ⟨i, hi, hdev, hlens⟩ := ih (inStep_handOver h len) hr fun call hcall =>
        hgood call (List.mem_cons_of_mem _ hcall)
      have hlt := Ring.used_lt h.trp h.twp
      have hpop := Ring.used_pop h.trp h.twp hne
      change i ≤ Ring.used c.cfg.elements (Ring.succ c.cfg.elements c.trp) c.twp at hi
      refine ⟨i + 1, by omega, ?_, fun j hj => ?_⟩
      · rw [← Ring.pos_succ h.trp (by omega)]
        exact hdev
      · rcases j with _ | j
        · rw [Ring.pos_zero h.trp, ← h.brp]
          exact hlen
        · rw [← Ring.pos_succ h.trp (by omega)]
          exact hlens j (by omega)

end Chan

section Runs

variable {n : ℕ}

theorem inStep_all (s : St n) (inp : Input n) (s' : St n) (h : ∀ i, (s.chan i).InStep)
    (hs : step s inp = some s') : ∀ i, (s'.chan i).InStep :=
  all_of_step (valid_true inp) (fun _ _ _ => Chan.inStep_step) (fun _ => Chan.inStep_visited) h hs

/-- Whatever the modem writes, the rings of a channel are always in step. -/
theorem inStep_of_run {cfg : Fin n → ChanCfg} {pm : PmState} {dev : DevState}
    {is : List (Input n)} {s : St n}
    (hrun : Runs.exec step (initial cfg pm dev) is = some s) : ∀ i, (s.chan i).InStep :=
  Runs.exec_keeps inStep_all (fun i => Chan.inStep_start (cfg i)) hrun

/-- The loop does to a channel what the steps of the channel do, if nothing comes between them. -/
theorem exec_go_of_xferLoop {i : Fin n} {devRp len fuel k : ℕ} {calls : List XferCall}
    {c c' : Chan} (hloop : c.xferLoop (fun _ => []) devRp len fuel k = some (c', calls)) :
    ∀ s : St n, s.chan i = { c with busy := .loop devRp len } →
      ∃ j s', Runs.exec step s (List.replicate j (.go i)) = some s'
        ∧ s'.chan i = { c' with busy := .idle } := by
  induction fuel generalizing c k calls with
  | zero => cases hloop
  | succ fuel ih =>
    intro s hc
    simp only [Chan.xferLoop] at hloop
    split_ifs at hloop with hend
    · cases hloop
      have hgo : step s (.go i) = some (s.setChan i { c' with busy := .idle }) := by
        simp only [step, stepChan, St.xferLoop, hc]
        rw [if_pos hend]
      exact ⟨1, _, by rw [List.replicate_one, Runs.exec, hgo]; rfl, Function.update_self ..⟩
    · obtain ⟨⟨c₁, calls₁⟩, hr, heq⟩ := Option.map_eq_some_iff.1 hloop
      cases heq
      let s₁ := s.setChan i { c.handOver len with busy := .called devRp len }
      let s₂ := s₁.xferCalled i devRp len
      have hgo : step s (.go i) = some s₁ := by
        simp only [step, stepChan, St.xferLoop, hc]
        rw [if_neg hend]
        rfl
      have hc₁ : s₁.chan i = { c.handOver len with busy := .called devRp len } :=
        Function.update_self ..
      have hgo' : step s₁ (.go i) = some s₂ := by
        simp only [step, stepChan, hc₁]
        rfl
      have hc₂ : s₂.chan i = { c.handOver len with busy := .loop devRp len } := by
        have hs₂ : s₂.chan i = { s₁.chan i with busy := .loop devRp len } := Function.update_self ..
        rw [hs₂, hc₁]
      obtain ⟨j, s', hrun, hs'⟩ := ih hr s₂ hc₂
      refine ⟨j + 2, s', ?_, hs'⟩
      rw [List.replicate_succ, Runs.exec, hgo, Option.bind_some, List.replicate_succ, Runs.exec,
        hgo', Option.bind_some]
      exact hrun

end Runs

namespace Chan

variable {c c' : Chan}

/-- The record points to the element before the position that is `k` after `rp`. Where that is the
first of the ring, it may point anywhere from the last element on. -/
def PointsBefore (c : Chan) (ptr k : ℕ) : Prop :=
  c.cfg.next ptr = c.cfg.addr (Ring.pos c.cfg.elements c.trp k)
    ∨ (Ring.pos c.cfg.elements c.trp k = 0 ∧ c.cfg.addr c.cfg.elements ≤ c.cfg.next ptr)

/-- The buffers before where the record points to are outstanding and hold its length. -/
def XferExpected (c : Chan) (event : Tre) : Prop :=
  ∃ k ≤ Ring.used c.cfg.elements c.trp c.twp, c.PointsBefore event.ptr.toNat k
    ∧ ∀ j < k, event.evLen ≤ (c.slots (Ring.pos c.cfg.elements c.trp j)).len

/-- The cookie is within the ring of buffers, and on an enabled channel that of an outstanding one
that holds the length. -/
def RscExpected (c : Chan) (event : Tre) : Prop :=
  event.evCookie + sizeofBufInfo ≤ sizeofBufInfo * c.cfg.elements
    ∧ (c.enabled → ∃ j < Ring.used c.cfg.elements c.trp c.twp,
      event.evCookie = sizeofBufInfo * Ring.pos c.cfg.elements c.trp j
        ∧ event.evLen ≤ (c.slots (Ring.pos c.cfg.elements c.trp j)).len)

instance (c : Chan) (ptr k : ℕ) : Decidable (c.PointsBefore ptr k) :=
  inferInstanceAs (Decidable (_ ∨ _))

instance (c : Chan) (event : Tre) : Decidable (c.XferExpected event) :=
  decidable_of_iff (∃ k < Ring.used c.cfg.elements c.trp c.twp + 1,
      c.PointsBefore event.ptr.toNat k
        ∧ ∀ j < k, event.evLen ≤ (c.slots (Ring.pos c.cfg.elements c.trp j)).len)
    (exists_congr fun _ => and_congr_left fun _ => Nat.lt_succ_iff)

theorem xferExpected_iff {event : Tre} (h : c.InStep) :
    c.XferExpected event ↔ ∃ k, c.EndsAfter (c.cfg.devRp event.ptr.toNat) event.evLen k := by
  refine exists_congr fun k => and_congr_right fun hk => and_congr_left fun _ => ?_
  have hlt := Ring.used_lt h.trp h.twp
  exact (ChanCfg.devRp_eq_addr_iff (Ring.pos_lt h.trp (by omega))).symm

theorem parseXferEvent_good_iff {pm : PmState} {event : Tre} (h : c.InStep) :
    (∀ cb, ∃ fuel r, c.parseXferEvent pm cb fuel event = some r ∧ ∀ call ∈ r.2, call.Good)
      ↔ (c.enabled →
        event.evCode ∈ [St.MHI_EV_CC_OVERFLOW, St.MHI_EV_CC_EOB, St.MHI_EV_CC_EOT] →
        c.XferExpected event) := by
  rw [xferExpected_iff h]
  unfold parseXferEvent
  by_cases hen : c.enabled = true
  · by_cases hcode : event.evCode ∈ [St.MHI_EV_CC_OVERFLOW, St.MHI_EV_CC_EOB, St.MHI_EV_CC_EOT]
    · simp only [if_neg (not_not.2 hen), if_pos hcode]
      constructor
      · intro hall _ _
        obtain ⟨fuel, r, hloop, hgood⟩ := hall fun _ => []
        exact endsAfter_of_xferLoop h hloop hgood
      · intro hexp cb
        obtain ⟨k, hends⟩ := hexp hen hcode
        obtain ⟨c', calls, hloop, hgood⟩ := xferLoop_good cb h hends 0
        exact ⟨k + 1, (c', calls), hloop, hgood⟩
    · -- no other code hands anything over
      simp only [if_neg (not_not.2 hen), if_neg hcode]
      refine iff_of_true (fun cb => ⟨0, ?_⟩) fun _ hcode' => absurd hcode' hcode
      split_ifs <;> exact ⟨_, rfl, fun _ hcall => absurd hcall List.not_mem_nil⟩
  · simp only [if_pos hen]
    exact iff_of_true (fun cb => ⟨0, _, rfl, fun _ hcall => absurd hcall List.not_mem_nil⟩)
      fun hen' => absurd hen' hen

theorem inStep_parseXferEvent {pm : PmState} {cb : ℕ → List BufInfo} {fuel : ℕ} {event : Tre}
    {r : Chan × List XferCall} (h : c.InStep)
    (hr : c.parseXferEvent pm cb fuel event = some r) : r.1.InStep := by
  unfold parseXferEvent at hr
  by_cases hen : c.enabled = true
  · rw [if_neg (not_not.2 hen)] at hr
    by_cases hcode : event.evCode ∈ [St.MHI_EV_CC_OVERFLOW, St.MHI_EV_CC_EOB, St.MHI_EV_CC_EOT]
    · rw [if_pos hcode] at hr
      exact inStep_xferLoop h hr
    rw [if_neg hcode] at hr
    by_cases hdb : event.evCode ∈ [St.MHI_EV_CC_OOB, St.MHI_EV_CC_DB_MODE]
    · rw [if_pos hdb] at hr
      cases hr
      obtain ⟨ctxtWp, dbMode, doorbell, answered, heq⟩ := dbEvent_eq c pm c.answered
      dsimp only
      rw [heq]
      exact ⟨h.trp, h.twp, h.brp, h.bwp⟩
    · rw [if_neg hdb] at hr
      cases hr
      exact h
  · rw [if_pos hen] at hr
    cases hr
    exact h

theorem onRing_iff (h : c.InStep) {i : ℕ} : c.OnRing i ↔
    ∃ j < Ring.used c.cfg.elements c.trp c.twp, i = Ring.pos c.cfg.elements c.trp j := by
  unfold OnRing
  rw [h.brp, h.bwp]

theorem parseRscEvent_good_iff {event : Tre} (h : c.InStep) :
    (∃ r, c.parseRscEvent event = some r ∧ ∀ call ∈ r.2, call.Good) ↔ c.RscExpected event := by
  unfold parseRscEvent RscExpected
  by_cases hlen : sizeofBufInfo * c.cfg.elements < event.evCookie + sizeofBufInfo
  · rw [if_pos hlen]
    exact iff_of_false (fun ⟨_, hr, _⟩ => Option.some_ne_none _ hr.symm) fun hexp => by omega
  rw [if_neg hlen, and_iff_right (Nat.le_of_not_lt hlen)]
  by_cases hen : c.enabled = true
  · rw [if_neg (not_not.2 hen)]
    simp only [Option.some.injEq, exists_eq_left', List.mem_singleton, forall_eq, hen, true_imp_iff]
    unfold bufAt XferCall.Good
    by_cases hdvd : sizeofBufInfo ∣ event.evCookie
    · obtain ⟨i, hi⟩ := hdvd
      have hdiv : event.evCookie / sizeofBufInfo = i := by
        unfold sizeofBufInfo at hi ⊢
        omega
      rw [if_pos ⟨i, hi⟩, hdiv]
      dsimp only
      rw [decide_eq_true_iff, onRing_iff h]
      constructor
      · rintro ⟨⟨j, hj, rfl⟩, hle⟩
        exact ⟨j, hj, hi, hle⟩
      · rintro ⟨j, hj, hcookie, hle⟩
        have hij : i = Ring.pos c.cfg.elements c.trp j := by
          unfold sizeofBufInfo at hi hcookie
          omega
        exact ⟨⟨j, hj, hij⟩, hij ▸ hle⟩
    · rw [if_neg hdvd]
      refine iff_of_false (fun hgood => Bool.noConfusion hgood.1) ?_
      rintro ⟨j, -, hcookie, -⟩
      exact hdvd ⟨_, hcookie⟩
  · rw [if_pos hen]
    exact iff_of_true ⟨_, rfl, fun _ hcall => absurd hcall List.not_mem_nil⟩
      fun hen' => absurd hen' hen

end Chan

/-! ## Both rings -/

section Safe

variable {maxChan : ℕ}

/-- The record is processed to its end, without an index out of bounds, and with good calls only,
whatever is queued meanwhile. -/
def Safe (pm : PmState) (ring : EvRing) (t : ChanTable maxChan) (event : Tre) : Prop :=
  ∀ cb, ∃ fuel r, processRecord pm cb fuel ring t event = some r ∧ ∀ call ∈ r.2, call.Good

/-- What the record says is right: the channel exists, and the buffers that the record reports are
outstanding. -/
def Expected (t : ChanTable maxChan) (event : Tre) : Prop :=
  ∃ h : event.evChid < maxChan,
    match t ⟨event.evChid, h⟩ with
    | none => event.evType = Tre.MHI_PKT_TYPE_TX_EVENT
    | some c =>
      if event.evType = Tre.MHI_PKT_TYPE_TX_EVENT then
        c.enabled → event.evCode ∈ [St.MHI_EV_CC_OVERFLOW, St.MHI_EV_CC_EOB, St.MHI_EV_CC_EOT] →
          c.XferExpected event
      else c.RscExpected event

theorem processRecord_eq {pm : PmState} {cb : ℕ → List BufInfo} {fuel : ℕ} {ring : EvRing}
    {t : ChanTable maxChan} {event : Tre} (h : event.IsTransfer) :
    processRecord pm cb fuel ring t event = processTransfer pm cb fuel t event := by
  cases ring with
  | data => rfl
  | ctrl => exact if_pos h

/-- What a channel has become does not matter. -/
theorem exists_map_iff {parsed : Option (Chan × List XferCall)} {f : Chan → ChanTable maxChan} :
    (∃ r, parsed.map (fun r => (f r.1, r.2)) = some r ∧ ∀ call ∈ r.2, call.Good)
      ↔ ∃ r, parsed = some r ∧ ∀ call ∈ r.2, call.Good := by
  constructor
  · rintro ⟨_, hr, hgood⟩
    obtain ⟨r, hparsed, rfl⟩ := Option.map_eq_some_iff.1 hr
    exact ⟨r, hparsed, hgood⟩
  · rintro ⟨r, hparsed, hgood⟩
    exact ⟨(f r.1, r.2), by rw [hparsed, Option.map_some], hgood⟩

/-- Whatever the modem has written there, a transfer event leaves all rings in step. -/
theorem inStep_processTransfer {pm : PmState} {cb : ℕ → List BufInfo} {fuel : ℕ}
    {t : ChanTable maxChan} {event : Tre} {r : ChanTable maxChan × List XferCall}
    (hin : ∀ i c, t i = some c → c.InStep) (h : event.evType = Tre.MHI_PKT_TYPE_TX_EVENT)
    (hr : processTransfer pm cb fuel t event = some r) : ∀ i c, r.1 i = some c → c.InStep := by
  intro i c hc
  have hrsc : event.evType ≠ Tre.MHI_PKT_TYPE_RSC_TX_EVENT := by
    rw [h]
    decide
  unfold processTransfer at hr
  by_cases hchid : event.evChid < maxChan
  · rw [dif_pos hchid] at hr
    rcases ht : t ⟨event.evChid, hchid⟩ with _ | c₀ <;> rw [ht] at hr <;> dsimp only at hr
    · rw [if_neg hrsc] at hr
      cases hr
      exact hin i c hc
    · rw [if_pos h] at hr
      obtain ⟨r', hr', rfl⟩ := Option.map_eq_some_iff.1 hr
      dsimp only at hc
      by_cases hi : i = ⟨event.evChid, hchid⟩
      · rw [hi, Function.update_self] at hc
        cases hc
        exact Chan.inStep_parseXferEvent (hin _ c₀ ht) hr'
      · rw [Function.update_of_ne hi] at hc
        exact hin i c hc
  · rw [dif_neg hchid] at hr
    cases hr

theorem processTransfer_good_iff {pm : PmState} {t : ChanTable maxChan} {event : Tre}
    (hin : ∀ i c, t i = some c → c.InStep) (h : event.IsTransfer) :
    (∀ cb, ∃ fuel r, processTransfer pm cb fuel t event = some r ∧ ∀ call ∈ r.2, call.Good)
      ↔ Expected t event := by
  unfold Expected processTransfer
  by_cases hchid : event.evChid < maxChan
  · simp only [dif_pos hchid, exists_prop_of_true hchid]
    rcases ht : t ⟨event.evChid, hchid⟩ with _ | c
    · dsimp only
      rcases h with htx | hrsc
      · have hne : event.evType ≠ Tre.MHI_PKT_TYPE_RSC_TX_EVENT := by
          rw [htx]
          decide
        simp only [if_neg hne]
        exact iff_of_true (fun cb => ⟨0, _, rfl, fun _ hcall => absurd hcall List.not_mem_nil⟩) htx
      · have hne : event.evType ≠ Tre.MHI_PKT_TYPE_TX_EVENT := by
          rw [hrsc]
          decide
        simp only [if_pos hrsc]
        exact iff_of_false (fun hall => by
          obtain ⟨_, _, hr, _⟩ := hall fun _ => []
          cases hr) hne
    · have hc := hin _ c ht
      dsimp only
      simp only [exists_map_iff (f := fun c' => Function.update t ⟨event.evChid, hchid⟩ (some c'))]
      rcases h with htx | hrsc
      · simp only [if_pos htx]
        exact Chan.parseXferEvent_good_iff hc
      · have hne : event.evType ≠ Tre.MHI_PKT_TYPE_TX_EVENT := by
          rw [hrsc]
          decide
        simp only [if_neg hne, if_pos hrsc]
        rw [← Chan.parseRscEvent_good_iff hc]
        exact ⟨fun hall => (hall fun _ => []).elim fun _ hr => hr, fun hr _ => ⟨0, hr⟩⟩
  · simp only [dif_neg hchid]
    exact iff_of_false (fun hall => by
      obtain ⟨_, _, hr, _⟩ := hall fun _ => []
      cases hr) fun hexpected => hexpected.elim fun hlt _ => hchid hlt

/-- A record is processed as it should be if and only if what it says is right. -/
theorem safe_iff {pm : PmState} {ring : EvRing} {t : ChanTable maxChan} {event : Tre}
    (hin : ∀ i c, t i = some c → c.InStep) (h : event.IsTransfer) :
    Safe pm ring t event ↔ Expected t event := by
  unfold Safe
  simp only [processRecord_eq h]
  exact processTransfer_good_iff hin h

end Safe

/-- Channel 100 alone. -/
def onlyChan (c : Chan) : ChanTable 128 := fun i => if i.val = 100 then some c else none

theorem inStep_onlyChan {c : Chan} (h : c.InStep) (i : Fin 128) (c' : Chan)
    (hi : onlyChan c i = some c') : c'.InStep := by
  unfold onlyChan at hi
  split_ifs at hi
  cases hi
  exact h

/-- Two buffers are queued. -/
def twoQueued : Chan := fourElements.start.queued [⟨11, 100⟩, ⟨12, 200⟩]

theorem inStep_twoQueued : twoQueued.InStep :=
  (Chan.grows_queued _ (Chan.inStep_start fourElements)).1

/-- Records of channel 100 that report 100 bytes at the end of a transfer, for the first element of
the ring and the second. -/
def firstDone : Tre := ⟨8192, 0x02000064, 0x64220000⟩

def secondDone : Tre := ⟨8208, 0x02000064, 0x64220000⟩

theorem safe_secondDone : Safe .m0 .data (onlyChan twoQueued) secondDone := by
  refine (safe_iff (inStep_onlyChan inStep_twoQueued) (by decide)).2 ⟨by decide, fun _ _ => ?_⟩
  decide

/-- After the one record, and after the other. -/
def oneDone : Chan := twoQueued.handOver 100

def bothDone : Chan := oneDone.handOver 100

/-- Once both records have been processed the first comes again: the loop goes around the ring and
hands over what is not outstanding. -/
theorem firstDone_again :
    twoQueued.parseXferEvent .m0 (fun _ => []) 2 firstDone = some (oneDone, [⟨true, 100, 100⟩])
      ∧ oneDone.parseXferEvent .m0 (fun _ => []) 2 secondDone = some (bothDone, [⟨true, 200, 100⟩])
      ∧ ¬ Safe .m0 .data (onlyChan bothDone) firstDone := by
  refine ⟨rfl, rfl, fun hsafe => ?_⟩
  have hin : bothDone.InStep := Chan.inStep_handOver (Chan.inStep_handOver inStep_twoQueued 100) 100
  obtain ⟨hlt, hexp⟩ := (processTransfer_good_iff (inStep_onlyChan hin) (by decide)).1 hsafe
  have hbad : ¬ bothDone.XferExpected firstDone := by decide
  exact hbad (hexp rfl (by decide))

end Mhi

end BananaWrt
