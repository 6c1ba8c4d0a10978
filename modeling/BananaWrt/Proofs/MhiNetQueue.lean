import BananaWrt.MhiNetQueue
import BananaWrt.Lib.Run

/-!
# Wake-ups of the network driver

A queue that is stopped has something that still wakes it: for the base queue a completion or a
transmission that is about to be one, for an interface the base queue. Four kinds of step can lose
that, each under a condition on the state it is taken in (`KeepsWake`), and a run without them never
leaves a queue stopped. Once the base queue is stopped with nothing left to wake it, it stays so,
whatever follows (`stopped_forever`).
-/

namespace BananaWrt

namespace NetQueue

open Mhi (getNrAvailRingElements)

section Wake

variable (c : Cfg)

/-- Every stopped queue has something that wakes it. `stopping` and the bounds are what the steps
need besides. -/
structure Inv (s : TxState) : Prop where
  ndev : s.enabled → s.ndevStopped → s.Pending ∨ s.xmit = some .queueing
  vnd : ∀ i, s.vndStopped i → s.WithBase i
  stoppedVnd : ∀ i, s.vndStopped i → i < c.qmapMode ∧ c.mpQmapNetDev i
  busyVnd : ∀ i, s.vndBusy i → i < c.qmapMode ∧ c.mpQmapNetDev i
  stopping : ∀ i, s.xmit = some (.stopping i) → ¬ s.ndevStopped

variable {c} {s : TxState}

theorem Inv.start : Inv c .start where
  ndev _ h := by simp [TxState.start] at h
  vnd i h := by simp [TxState.start] at h
  stoppedVnd i h := by simp [TxState.start] at h
  busyVnd i h := by simp [TxState.start] at h
  stopping i h := by simp [TxState.start] at h

theorem Inv.notStuck (h : Inv c s) : s.NotStuck c := by
  intro hen hout hx hcb
  have hndev : ¬ s.ndevStopped := by
    intro hs
    rcases h.ndev hen hs with (hp | ⟨p, hp, -⟩) | hq
    · omega
    · simp [hcb] at hp
    · simp [hx] at hq
  refine ⟨hndev, fun i _ _ hi => ?_⟩
  rcases h.vnd i hi with hs | ⟨k, hk, -⟩ | ⟨j, hj, -⟩
  · exact hndev hs
  · simp [hx] at hk
  · simp [hcb] at hj

theorem setStopped_true {f : ℕ → Bool} {i j : ℕ} (h : c.setStopped f j true i) :
    f i ∨ i = j ∧ c.mpQmapNetDev j := by
  unfold Cfg.setStopped at h
  split_ifs at h with hj
  · rcases eq_or_ne i j with rfl | hne
    · exact .inr ⟨rfl, hj⟩
    · exact .inl (by simpa [hne] using h)
  · exact .inl h

theorem setStopped_false {f : ℕ → Bool} {i j : ℕ} (h : c.setStopped f j false i) :
    f i ∧ (i = j → ¬ c.mpQmapNetDev j) := by
  unfold Cfg.setStopped at h
  split_ifs at h with hj
  · rcases eq_or_ne i j with rfl | hne
    · simp at h
    · exact ⟨by simpa [hne] using h, fun he => absurd he hne⟩
  · exact ⟨h, fun _ => hj⟩

theorem Inv.vndStartXmit (h : Inv c s) {i : ℕ} (hi : i < c.qmapMode ∧ c.mpQmapNetDev i) :
    Inv c (vndStartXmit s i) := by
  unfold NetQueue.vndStartXmit
  split_ifs with hs
  · refine { h with busyVnd := fun j hj => ?_ }
    rcases eq_or_ne j i with rfl | hne
    · exact hi
    · exact h.busyVnd j (by simpa [hne] using hj)
  · exact h

theorem Inv.vndStop (h : Inv c s) {i : ℕ} (hi : s.vndBusy i) (hw : s.WithBase i) :
    Inv c { s with
      vndStopped := Function.update s.vndStopped i true
      vndBusy := Function.update s.vndBusy i false } := by
  refine { h with vnd := fun j hj => ?_, stoppedVnd := fun j hj => ?_, busyVnd := fun j hj => ?_ }
  all_goals rcases eq_or_ne j i with rfl | hne
  · exact hw
  · exact h.vnd j (by simpa [hne] using hj)
  · exact h.busyVnd j hi
  · exact h.stoppedVnd j (by simpa [hne] using hj)
  · simp at hj
  · exact h.busyVnd j (by simpa [hne] using hj)

theorem Inv.netdevXmit (h : Inv c s) (hs : ¬ s.ndevStopped) (hx : s.xmit = none) :
    Inv c (netdevXmit s) where
  ndev _ h' := absurd h' hs
  vnd i hi := by
    rcases h.vnd i hi with h' | ⟨k, hk, -⟩ | hw
    · exact absurd h' hs
    · simp [hx] at hk
    · exact .inr (.inr hw)
  stoppedVnd := h.stoppedVnd
  busyVnd := h.busyVnd
  stopping _ _ := hs

theorem Inv.stopNext (h : Inv c s) {k : ℕ} (hx : s.xmit = some (.stopping k)) :
    Inv c (stopNext c s k) := by
  have hs := h.stopping k hx
  unfold NetQueue.stopNext
  split_ifs with hk
  · refine ⟨fun _ h' => absurd h' hs, fun i hi => ?_, fun i hi => ?_, h.busyVnd, fun _ _ => hs⟩
    · rcases setStopped_true hi with hi | ⟨rfl, -⟩
      · rcases h.vnd i hi with h' | ⟨k', hk', hlt⟩ | hw
        · exact absurd h' hs
        · rw [hx] at hk'
          cases hk'
          exact .inr (.inl ⟨k + 1, rfl, by omega⟩)
        · exact .inr (.inr hw)
      · exact .inr (.inl ⟨i + 1, rfl, i.lt_succ_self⟩)
    · rcases setStopped_true hi with hi | ⟨rfl, hp⟩
      · exact h.stoppedVnd i hi
      · exact ⟨hk, hp⟩
  · exact ⟨fun _ _ => .inr rfl, fun _ _ => .inl rfl, h.stoppedVnd, h.busyVnd,
      fun i hi => by simp at hi⟩

/-- A packet that is queued is one more to complete, one that is dropped leaves what there was. -/
theorem Inv.queueTransfer (h : Inv c s) (hx : s.xmit = some .queueing) {mapped : Bool}
    (hw : s.enabled → s.ndevStopped → ¬ mapped → s.Pending) :
    Inv c (queueTransfer s mapped) where
  ndev hen hs := by
    left
    by_cases hm : mapped
    · left
      simp only [NetQueue.queueTransfer, hm, true_and]
      split_ifs with hf
      · omega
      · unfold TxState.noFreeDescriptors NUM_MHI_IPA_OUT_RING_ELEMENTS at hf
        omega
    · simpa [NetQueue.queueTransfer, hm, TxState.Pending] using hw hen hs hm
  vnd i hi := by
    rcases h.vnd i hi with hs | ⟨k, hk, -⟩ | hw
    · exact .inl hs
    · simp [hx] at hk
    · exact .inr (.inr hw)
  stoppedVnd := h.stoppedVnd
  busyVnd := h.busyVnd
  stopping i hi := by simp [NetQueue.queueTransfer] at hi

theorem Inv.complete (h : Inv c s) (hcb : s.ulCb = none) (status : ℤ) :
    Inv c { s with outstanding := s.outstanding - 1, ulCb := some (.called status) } where
  ndev _ _ := .inl (.inr ⟨_, rfl, by simp⟩)
  vnd i hi := by
    rcases h.vnd i hi with hs | hx | ⟨j, hj, -⟩
    · exact .inl hs
    · exact .inr (.inl hx)
    · simp [hcb] at hj
  stoppedVnd := h.stoppedVnd
  busyVnd := h.busyVnd
  stopping := h.stopping

/-- Without a wake-up after a good completion, most of the ring is still outstanding. -/
theorem Inv.called (h : Inv c s) {status : ℤ} (hcb : s.ulCb = some (.called status))
    (hw : status ≠ 0 → s.enabled → s.ndevStopped → 0 < s.outstanding ∨ s.xmit = some .queueing) :
    Inv c (xferUlCb c s (.called status)) where
  ndev hen hs := by
    change s.enabled at hen
    change s.ndevStopped at hs
    by_cases h0 : status = 0
    · left
      by_cases hf : 32 < s.noFreeDescriptors
      · exact .inr ⟨.wake, by simp [xferUlCb, h0, hs, hen, hf], by simp⟩
      · left
        change 0 < s.outstanding
        unfold TxState.noFreeDescriptors NUM_MHI_IPA_OUT_RING_ELEMENTS at hf
        omega
    · rcases hw h0 hen hs with hp | hq
      · exact .inl (.inl hp)
      · exact .inr hq
  vnd i hi := by
    rcases h.vnd i hi with hs | hx | ⟨j, hj, -⟩
    · exact .inl hs
    · exact .inr (.inl hx)
    · simp [hcb] at hj
  stoppedVnd := h.stoppedVnd
  busyVnd := h.busyVnd
  stopping := h.stopping

theorem Inv.wake (h : Inv c s) : Inv c (xferUlCb c s .wake) where
  ndev _ hs := by simp [xferUlCb] at hs
  vnd i _ := .inr (.inr ⟨0, rfl, i.zero_le⟩)
  stoppedVnd := h.stoppedVnd
  busyVnd := h.busyVnd
  stopping _ _ := by simp [xferUlCb]

theorem Inv.waking (h : Inv c s) {j : ℕ} (hcb : s.ulCb = some (.waking j)) :
    Inv c (xferUlCb c s (.waking j)) := by
  have hndev : s.enabled → s.ndevStopped → 0 < s.outstanding ∨ s.xmit = some .queueing := by
    intro hen hs
    rcases h.ndev hen hs with (hp | ⟨p, hp, hne⟩) | hq
    · exact .inl hp
    · rw [hcb] at hp
      cases hp
      exact absurd rfl (hne j)
    · exact .inr hq
  have hrest : s.enabled → s.ndevStopped → ∀ cb : Option UlCbAt,
      (0 < s.outstanding ∨ ∃ p ∈ cb, ∀ i, p ≠ .waking i) ∨ s.xmit = some .queueing :=
    fun hen hs _ => (hndev hen hs).imp_left .inl
  simp only [xferUlCb]
  split_ifs with hj
  · refine ⟨fun hen hs => hrest hen hs _, fun i hi => ?_, fun i hi => ?_, h.busyVnd, h.stopping⟩
    · obtain ⟨hi, hne⟩ := setStopped_false hi
      rcases h.vnd i hi with hs | hx | ⟨j', hj', hle⟩
      · exact .inl hs
      · exact .inr (.inl hx)
      · rw [hcb] at hj'
        cases hj'
        have : i ≠ j := fun he => hne he (he ▸ (h.stoppedVnd i hi).2)
        exact .inr (.inr ⟨j + 1, rfl, by omega⟩)
    · exact h.stoppedVnd i (setStopped_false hi).1
  · refine ⟨fun hen hs => hrest hen hs _, fun i hi => ?_, h.stoppedVnd, h.busyVnd, h.stopping⟩
    rcases h.vnd i hi with hs | hx | ⟨j', hj', hle⟩
    · exact .inl hs
    · exact .inr (.inl hx)
    · rw [hcb] at hj'
      cases hj'
      exact absurd (h.stoppedVnd i hi).1 (by omega)

theorem Inv.reset (h : Inv c s) : Inv c { s with enabled := false, resetting := true } :=
  { h with ndev := fun hen => by simp at hen }

theorem Inv.enableIface (h : Inv c s) (hcb : s.ulCb = none) {ok : Bool}
    (hw : ok → s.ndevStopped → s.xmit = some .queueing) : Inv c (enableIface s ok) where
  ndev hok hs := .inr (hw hok hs)
  vnd i hi := by
    rcases h.vnd i hi with hs | hx | ⟨j, hj, -⟩
    · exact .inl hs
    · exact .inr (.inl hx)
    · simp [hcb] at hj
  stoppedVnd := h.stoppedVnd
  busyVnd := h.busyVnd
  stopping := h.stopping

theorem inv_step {i : Input} {s' : TxState} (h : Inv c s) (hw : KeepsWake s i)
    (hs : step c s i = some s') : Inv c s' := by
  cases i with
  | vndXmit i =>
    obtain ⟨⟨hi, hp, -⟩, hs⟩ := Option.ite_none_right_eq_some.1 hs
    cases hs
    exact h.vndStartXmit ⟨hi, hp⟩
  | vndStop i =>
    obtain ⟨hb, hs⟩ := Option.ite_none_right_eq_some.1 hs
    cases hs
    exact h.vndStop hb hw
  | xmit =>
    obtain ⟨⟨-, hn, hx⟩, hs⟩ := Option.ite_none_right_eq_some.1 hs
    cases hs
    exact h.netdevXmit hn hx
  | stopNext =>
    simp only [step] at hs
    split at hs
    · rename_i k hx
      cases hs
      exact h.stopNext hx
    · simp at hs
  | queue mapped =>
    obtain ⟨⟨-, hx⟩, hs⟩ := Option.ite_none_right_eq_some.1 hs
    cases hs
    exact h.queueTransfer hx hw
  | complete status =>
    obtain ⟨⟨-, hcb⟩, hs⟩ := Option.ite_none_right_eq_some.1 hs
    cases hs
    exact h.complete hcb status
  | ulCb =>
    obtain ⟨p, hcb, hs⟩ := Option.map_eq_some_iff.1 hs
    cases hs
    rcases p with status | _ | j
    · exact h.called hcb (hw status hcb)
    · exact h.wake
    · exact h.waking hcb
  | reset =>
    obtain ⟨-, hs⟩ := Option.ite_none_left_eq_some.1 hs
    cases hs
    exact h.reset
  | restart ok =>
    obtain ⟨⟨-, -, hcb⟩, hs⟩ := Option.ite_none_right_eq_some.1 hs
    cases hs
    exact h.enableIface hcb hw

/-- The condition is exact: a step that does not meet it leaves a queue stopped with nothing to wake
it. -/
theorem inv_step_iff {i : Input} {s' : TxState} (h : Inv c s) (hs : step c s i = some s') :
    Inv c s' ↔ KeepsWake s i := by
  refine ⟨fun h' => ?_, fun hw => inv_step h hw hs⟩
  cases i with
  | vndStop i =>
    obtain ⟨-, hs⟩ := Option.ite_none_right_eq_some.1 hs
    cases hs
    exact h'.vnd i (by simp)
  | queue mapped =>
    obtain ⟨-, hs⟩ := Option.ite_none_right_eq_some.1 hs
    cases hs
    intro hen hn hm
    rcases h'.ndev hen hn with hp | hq
    · simpa [queueTransfer, hm, TxState.Pending] using hp
    · simp [queueTransfer] at hq
  | ulCb =>
    intro status hcb h0 hen hn
    obtain ⟨p, hp, hs⟩ := Option.map_eq_some_iff.1 hs
    rw [hcb] at hp
    cases hp
    cases hs
    rcases h'.ndev hen hn with (hp | ⟨p, hp, -⟩) | hq
    · exact .inl hp
    · simp [xferUlCb, h0] at hp
    · exact .inr hq
  | restart ok =>
    obtain ⟨⟨-, -, hcb⟩, hs⟩ := Option.ite_none_right_eq_some.1 hs
    cases hs
    intro hok hn
    rcases h'.ndev hok hn with (hp | ⟨p, hp, -⟩) | hq
    · simp [enableIface] at hp
    · simp [enableIface, hcb] at hp
    · exact hq
  | vndXmit | xmit | stopNext | complete | reset => trivial

/-- `n` packets that are queued. -/
def fill (n : ℕ) : List Input := (List.replicate n [.xmit, .queue true]).flatten

/-- `n` completions whose callback does not wake. -/
def drain (n : ℕ) (status : ℤ) : List Input := (List.replicate n [.complete status, .ulCb]).flatten

theorem exec_fill : ∀ {n k : ℕ} {is : List Input}, k + n ≤ 496 →
    Runs.exec (step c) { TxState.start with outstanding := k } (fill n ++ is)
      = Runs.exec (step c) { TxState.start with outstanding := k + n } is
  | 0, _, _, _ => rfl
  | n + 1, k, is, h => by
    have hfree : ¬ NUM_MHI_IPA_OUT_RING_ELEMENTS - 1 - k < 16 := by
      unfold NUM_MHI_IPA_OUT_RING_ELEMENTS
      omega
    have hne : NUM_MHI_IPA_OUT_RING_ELEMENTS - 1 - k ≠ 0 := by omega
    have hone : Runs.exec (step c) { TxState.start with outstanding := k } [.xmit, .queue true]
        = some { TxState.start with outstanding := k + 1 } := by
      simp [Runs.exec, step, netdevXmit, queueTransfer, TxState.noFreeDescriptors, TxState.start,
        hfree, hne]
    rw [show fill (n + 1) ++ is = [.xmit, .queue true] ++ (fill n ++ is) by simp [fill,
      List.replicate_succ], Runs.exec_append hone, exec_fill (by omega), Nat.add_right_comm k 1 n,
      Nat.add_assoc k n 1]

/-- The callback does not wake before 33 descriptors are free. -/
theorem exec_drain {s : TxState} (status : ℤ) (k : ℕ) (hcb : s.ulCb = none)
    (hw : status = 0 → s.ndevStopped → s.enabled → 479 ≤ k) : ∀ (n : ℕ) (is : List Input),
    Runs.exec (step c) { s with outstanding := k + n } (drain n status ++ is)
      = Runs.exec (step c) { s with outstanding := k } is
  | 0, _ => rfl
  | n + 1, is => by
    have hone : Runs.exec (step c) { s with outstanding := k + (n + 1) } [.complete status, .ulCb]
        = some { s with outstanding := k + n } := by
      have hstay : ¬ (status = 0 ∧ s.ndevStopped ∧ s.enabled
          ∧ 32 < NUM_MHI_IPA_OUT_RING_ELEMENTS - 1 - (k + n)) := by
        rintro ⟨h0, hn, hen, hfree⟩
        have hk := hw h0 hn hen
        unfold NUM_MHI_IPA_OUT_RING_ELEMENTS at hfree
        omega
      have hcalled : xferUlCb c { s with outstanding := k + n, ulCb := some (.called status) }
          (.called status) = { s with outstanding := k + n, ulCb := none } := by
        unfold xferUlCb TxState.noFreeDescriptors
        exact congrArg (fun p => { s with outstanding := k + n, ulCb := p }) (if_neg hstay)
      simp [Runs.exec, step, hcb, ← Nat.add_assoc, hcalled]
    rw [show drain (n + 1) status ++ is = [.complete status, .ulCb] ++ (drain n status ++ is) by
      simp [drain, List.replicate_succ], Runs.exec_append hone, exec_drain status k hcb hw]

/-- Two interfaces. -/
def two : Cfg := ⟨2, fun _ => true⟩

/-- Transmissions until the queues are stopped, when the ring of 511 holds 497 packets. -/
def fillAndStop : List Input :=
  fill 496 ++ [.xmit, .stopNext, .stopNext, .stopNext, .queue true]

def fullAndStopped : TxState where
  outstanding := 497
  ndevStopped := true
  vndStopped := Function.update (Function.update (fun _ => false) 0 true) 1 true
  vndBusy := fun _ => false
  enabled := true
  prepared := true
  resetting := false
  xmit := none
  ulCb := none

theorem exec_fillAndStop :
    Runs.exec (step two) .start fillAndStop = some fullAndStopped :=
  (exec_fill (c := two) (n := 496) (k := 0) (Nat.le_refl _)).trans rfl

/-- Completions without an error, at the 19th of which the queues are woken. -/
def wakeAndDrain : List Input :=
  drain 18 0 ++ (.complete 0 :: List.replicate 5 .ulCb ++ drain 478 0)

/-- What a transmission does, and a completion without an error. -/
def Plain (i : Input) : Prop := i ∈ [.xmit, .stopNext, .queue true, .complete 0, .ulCb]

theorem forall_flatten_replicate {P : Input → Prop} {is : List Input} (h : ∀ i ∈ is, P i) (n : ℕ) :
    ∀ i ∈ (List.replicate n is).flatten, P i := by
  intro i hi
  obtain ⟨l, hl, hi⟩ := List.mem_flatten.1 hi
  rw [List.eq_of_mem_replicate hl] at hi
  exact h i hi

/-- A run of such steps keeps what wakes the queues. -/
theorem keepsWake_of_plain {is : List Input} (h : ∀ i ∈ is, Plain i) :
    Runs.Meets (step c) KeepsWake .start is := by
  refine Runs.meets_of_inv (I := fun s => ∀ status, s.ulCb = some (.called status) → status = 0)
    ?_ ?_ (fun status h => absurd h (by simp [TxState.start])) (Runs.meets_of_forall h)
  · intro s i s' hI hi hs
    simp only [Plain, List.mem_cons, List.not_mem_nil, or_false] at hi
    rcases hi with rfl | rfl | rfl | rfl | rfl
    · obtain ⟨-, hs⟩ := Option.ite_none_right_eq_some.1 hs
      cases hs
      exact hI
    · simp only [step] at hs
      split at hs
      · cases hs
        unfold stopNext
        split_ifs
        · exact hI
        · exact hI
      · cases hs
    · obtain ⟨-, hs⟩ := Option.ite_none_right_eq_some.1 hs
      cases hs
      exact hI
    · obtain ⟨-, hs⟩ := Option.ite_none_right_eq_some.1 hs
      cases hs
      intro status hst
      cases hst
      rfl
    · obtain ⟨p, hp, hs⟩ := Option.map_eq_some_iff.1 hs
      cases hs
      intro status hst
      cases p with
      | called st =>
        simp only [xferUlCb] at hst
        split_ifs at hst
        cases hst
      | wake => cases hst
      | waking i =>
        simp only [xferUlCb] at hst
        split_ifs at hst
        cases hst
  · intro s i hI hi
    simp only [Plain, List.mem_cons, List.not_mem_nil, or_false] at hi
    rcases hi with rfl | rfl | rfl | rfl | rfl
    · trivial
    · trivial
    · exact fun _ _ h => absurd rfl h
    · trivial
    · exact fun status hcb h0 => absurd (hI status hcb) h0

/-- In a run whose steps all keep what wakes the queues, no queue is left stopped. -/
theorem notStuck_of_keepsWake {is : List Input} {s : TxState}
    (hm : Runs.Meets (step c) KeepsWake .start is) (h : Runs.exec (step c) .start is = some s) :
    s.NotStuck c :=
  (Runs.exec_inv (fun _ _ _ => inv_step) Inv.start hm h).notStuck

/-- The queues are stopped and woken. -/
theorem notStuck_wokenRun : ∃ s s', Runs.exec (step two) .start fillAndStop = some s ∧ s.ndevStopped
    ∧ Runs.exec (step two) .start (fillAndStop ++ wakeAndDrain) = some s' ∧ s'.outstanding = 0
    ∧ s'.NotStuck two := by
  have hplain : ∀ i ∈ fillAndStop ++ wakeAndDrain, Plain i := by
    have hfill : ∀ i ∈ [Input.xmit, .queue true], Plain i := by simp [Plain]
    have hdrain : ∀ i ∈ [Input.complete 0, .ulCb], Plain i := by simp [Plain]
    simp only [fillAndStop, wakeAndDrain, fill, drain, List.forall_mem_append]
    refine ⟨⟨forall_flatten_replicate hfill _, by simp [Plain]⟩,
      forall_flatten_replicate hdrain _, ?_, forall_flatten_replicate hdrain _⟩
    simp [Plain]
  obtain ⟨s', hs', hout⟩ : ∃ s', Runs.exec (step two) fullAndStopped wakeAndDrain = some s'
      ∧ s'.outstanding = 0 := by
    have hfirst := exec_drain (c := two) (s := fullAndStopped) 0 479 rfl
      (fun _ _ _ => Nat.le_refl _) 18 (.complete 0 :: List.replicate 5 .ulCb ++ drain 478 0)
    have hlast := exec_drain (c := two)
      (s := { fullAndStopped with
        ndevStopped := false
        vndStopped := two.setStopped (two.setStopped fullAndStopped.vndStopped 0 false) 1 false })
      0 0 rfl (fun _ h => absurd h (by decide)) 478 []
    rw [List.append_nil] at hlast
    refine ⟨_, hfirst.trans ((Runs.exec_append rfl).trans hlast), rfl⟩
  have hexec : Runs.exec (step two) .start (fillAndStop ++ wakeAndDrain) = some s' := by
    rw [Runs.exec_append exec_fillAndStop, hs']
  exact ⟨_, s', exec_fillAndStop, rfl, hexec, hout,
    notStuck_of_keepsWake (keepsWake_of_plain hplain) hexec⟩

end Wake

/-! ## A queue that stays stopped -/

section Stuck

variable {c : Cfg}

/-- The base queue is stopped, and there is nothing that could wake it. -/
structure Stuck (s : TxState) : Prop where
  ndev : s.ndevStopped
  outstanding : s.outstanding = 0
  xmit : s.xmit = none
  ulCb : s.ulCb = none

theorem Stuck.step {s s' : TxState} {i : Input} (h : Stuck s) (hs : step c s i = some s') :
    Stuck s' := by
  obtain ⟨hn, ho, hx, hcb⟩ := h
  cases i with
  | vndXmit i =>
    obtain ⟨-, hs⟩ := Option.ite_none_right_eq_some.1 hs
    cases hs
    rw [vndStartXmit, if_pos hn]
    exact ⟨hn, ho, hx, hcb⟩
  | vndStop i =>
    obtain ⟨-, hs⟩ := Option.ite_none_right_eq_some.1 hs
    cases hs
    exact ⟨hn, ho, hx, hcb⟩
  | reset =>
    obtain ⟨-, hs⟩ := Option.ite_none_left_eq_some.1 hs
    cases hs
    exact ⟨hn, ho, hx, hcb⟩
  | restart ok =>
    obtain ⟨-, hs⟩ := Option.ite_none_right_eq_some.1 hs
    cases hs
    exact ⟨hn, rfl, hx, hcb⟩
  | xmit | stopNext | queue | complete | ulCb => simp [NetQueue.step, hn, ho, hx, hcb] at hs

/-- No input wakes it, and a reset does not either. -/
theorem stopped_forever {is : List Input} {s s' : TxState} (h : Stuck s)
    (hr : Runs.exec (step c) s is = some s') : Stuck s' :=
  Runs.exec_keeps (fun _ _ _ h hs => h.step hs) h hr

/-- The queues stay stopped when all that is outstanding is completed with an error, and also when
the channel is reset. -/
theorem left_stopped :
    (∃ s, Runs.exec (step two) .start (fillAndStop ++ drain 497 (-75)) = some s
      ∧ ¬ s.NotStuck two)
    ∧ ∃ s, Runs.exec (step two) .start
        (fillAndStop ++ .reset :: (drain 497 (-107) ++ [.restart true])) = some s
      ∧ ¬ s.NotStuck two := by
  constructor
  · refine ⟨{ fullAndStopped with outstanding := 0 }, ?_, fun h => (h rfl rfl rfl rfl).1 rfl⟩
    rw [Runs.exec_append exec_fillAndStop, ← List.append_nil (drain 497 (-75))]
    exact exec_drain (s := fullAndStopped) (-75) 0 rfl (fun h => absurd h (by decide)) 497 []
  · refine ⟨{ fullAndStopped with outstanding := 0 }, ?_, fun h => (h rfl rfl rfl rfl).1 rfl⟩
    have hreset : Runs.exec (step two) fullAndStopped [.reset]
        = some { fullAndStopped with enabled := false, resetting := true } := rfl
    have hdrain := exec_drain (c := two)
      (s := { fullAndStopped with enabled := false, resetting := true }) (-107) 0 rfl
      (fun h => absurd h (by decide)) 497 [.restart true]
    rw [Runs.exec_append exec_fillAndStop, ← List.singleton_append, Runs.exec_append hreset]
    exact hdrain.trans rfl

end Stuck

end NetQueue

end BananaWrt
