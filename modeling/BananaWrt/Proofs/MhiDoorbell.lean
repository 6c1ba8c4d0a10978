import Mathlib.Tactic.Linarith
import Mathlib.Tactic.Positivity
import BananaWrt.Proofs.MhiUplink

/-!
# No doorbell is lost

In the power state M0 the modem has been told of the outstanding elements of a channel, or something
is under way that will tell it: a call of `mhi_queue_buf`, or `mhi_pm_m0_transition`, which comes to
all channels after `pm_state` has become M0 (`Rung`). In burst mode a flag says that the doorbell is
asked for, and it is taken back only when the doorbell is rung (`Answered`).
-/

namespace BananaWrt

namespace Mhi

namespace Chan

variable {c c' : Chan}

/-- The modem knows of all elements, and need not be told again. -/
structure Told (c : Chan) : Prop where
  ctxtWp : c.ctxtWp = c.cfg.bus c.twp
  doorbell : c.cfg.brstmode = false → c.doorbell = some (c.cfg.bus c.twp)
  dbMode : c.cfg.brstmode = true → c.dbMode = false

/-- It has been answered, too: the doorbell of a started channel in burst mode has been rung since
the modem last asked for it. -/
structure Synced (c : Chan) : Prop extends c.Told where
  answered : c.cfg.brstmode = true → c.enabled = true → c.answered = true

theorem told_ringChanDb (c : Chan) : c.ringChanDb.Told := by
  unfold ringChanDb
  dsimp only
  by_cases hbrst : c.cfg.brstmode = true
  · rw [if_pos hbrst]
    by_cases hdb : c.dbMode = true
    · rw [if_pos hdb]
      exact ⟨rfl, fun h => absurd (hbrst.symm.trans h) Bool.false_ne_true.symm, fun _ => rfl⟩
    · rw [if_neg hdb]
      exact ⟨rfl, fun h => absurd (hbrst.symm.trans h) Bool.false_ne_true.symm,
        fun _ => eq_false_of_ne_true hdb⟩
  · rw [if_neg hbrst]
    exact ⟨rfl, fun _ => rfl, fun h => absurd h hbrst⟩

theorem told_ringIf (c : Chan) : (c.ringIf .m0).Told := told_ringChanDb c

/-- A channel that differs in nothing of this. -/
theorem told_congr (h : c.Told) (hcfg : c'.cfg = c.cfg) (htwp : c'.twp = c.twp)
    (hctxt : c'.ctxtWp = c.ctxtWp) (hdoorbell : c'.doorbell = c.doorbell)
    (hdb : c'.dbMode = c.dbMode) : c'.Told := by
  refine ⟨?_, ?_, ?_⟩
  · rw [hctxt, hcfg, htwp]
    exact h.ctxtWp
  · rw [hdoorbell, hcfg, htwp]
    exact h.doorbell
  · rw [hdb, hcfg]
    exact h.dbMode

/-- The flag of a started channel is taken back only when the doorbell is rung. -/
def Answered (c : Chan) : Prop := c.enabled = true → c.dbMode = false → c.answered = true

theorem answered_start (cfg : ChanCfg) : cfg.start.Answered := fun _ h => Bool.noConfusion h

theorem answered_ringChanDb (h : c.Answered) : c.ringChanDb.Answered := by
  unfold ringChanDb
  dsimp only
  split_ifs
  · exact fun _ _ => rfl
  · exact h
  · exact fun _ _ => rfl

theorem answered_ringIf (h : c.Answered) (pm : PmState) : (c.ringIf pm).Answered := by
  unfold ringIf
  split_ifs
  · exact answered_ringChanDb h
  · exact h

/-- With the flag set there is nothing to answer yet. -/
theorem answered_asked (c : Chan) : { c with dbMode := true, answered := false }.Answered :=
  fun _ h => Bool.noConfusion h

theorem answered_step {pm : PmState} {Valid : ℕ → Prop} {Accepts : Prop} {δ : ℤ} (h : c.Answered)
    (hstep : ChanStep pm Valid Accepts c c' δ) : c'.Answered := by
  cases hstep with
  | @queued buf len _ _ =>
    exact answered_ringIf (c := (c.fill buf len).add) h pm
  | accounted _ => exact answered_ringIf (c := { c with queueing := c.queueing - 1 }) h pm
  | dbEvent =>
    split_ifs
    · exact answered_ringIf (answered_asked c) pm
    · exact answered_asked c
  | asked hen => exact fun hen' => absurd hen' hen
  | disabled => exact fun hen => Bool.noConfusion hen
  | refused _ | unmapped _ | generated _ _ | ignored | event _ _ | loopEnd _ | handed _ _
  | called _ | resetBegin _ | resetEnd _ | reset _ _ => exact h

theorem answered_visited (h : c.Answered) : c.visited.Answered := by
  unfold visited
  split_ifs
  · exact answered_ringChanDb (answered_asked c)
  · exact answered_ringChanDb h
  · exact answered_asked c
  · exact h

/-- The number of outstanding elements is that of the elements on the ring, or less by a multiple of
its length where events have gone past `wp`. -/
structure Counted (c : Chan) : Prop where
  trp : c.trp < c.cfg.elements
  twp : c.twp < c.cfg.elements
  outstanding : ∃ m : ℕ, c.outstanding + m * c.cfg.elements
    = Ring.used c.cfg.elements c.trp c.twp

theorem counted_start (cfg : ChanCfg) : cfg.start.Counted := by
  refine ⟨cfg.pos, cfg.pos, 0, ?_⟩
  rw [ChanCfg.start, Ring.used_self]
  change (0 : ℤ) - 0 + ((0 : ℕ) : ℤ) * _ = ((0 : ℕ) : ℤ)
  push_cast
  ring

theorem ne_of_outstanding (h : c.Counted) (hpos : 0 < c.outstanding) : c.twp ≠ c.trp := by
  intro heq
  obtain ⟨m, hm⟩ := h.outstanding
  rw [heq, Ring.used_self] at hm
  have hmn : (0 : ℤ) ≤ m * c.cfg.elements := by positivity
  push_cast at hm
  omega

/-- A channel with the same positions and calls. -/
theorem counted_congr (h : c.Counted) (hcfg : c'.cfg = c.cfg) (htrp : c'.trp = c.trp)
    (htwp : c'.twp = c.twp) (hout : c'.outstanding = c.outstanding) : c'.Counted := by
  refine ⟨?_, ?_, ?_⟩
  · rw [htrp, hcfg]
    exact h.trp
  · rw [htwp, hcfg]
    exact h.twp
  · rw [htrp, htwp, hcfg, hout]
    exact h.outstanding

theorem counted_add (h : c.Counted) (hfull : ¬ c.Full) (hcfg : c'.cfg = c.cfg)
    (htrp : c'.trp = c.trp) (htwp : c'.twp = Ring.succ c.cfg.elements c.twp)
    (hout : c'.outstanding = c.outstanding + 1) : c'.Counted := by
  obtain ⟨m, hm⟩ := h.outstanding
  have hused := Ring.used_push h.trp h.twp hfull
  refine ⟨?_, ?_, m, ?_⟩
  · rw [htrp, hcfg]
    exact h.trp
  · rw [htwp, hcfg]
    exact Ring.succ_lt c.cfg.pos
  · rw [htrp, htwp, hcfg, hout, hused]
    push_cast
    linarith

theorem counted_handOver (h : c.Counted) (hcfg : c'.cfg = c.cfg)
    (htrp : c'.trp = Ring.succ c.cfg.elements c.trp) (htwp : c'.twp = c.twp)
    (hout : c'.outstanding = c.outstanding - 1) : c'.Counted := by
  obtain ⟨m, hm⟩ := h.outstanding
  refine ⟨?_, ?_, ?_⟩
  · rw [htrp, hcfg]
    exact Ring.succ_lt c.cfg.pos
  · rw [htwp, hcfg]
    exact h.twp
  · rw [htrp, htwp, hcfg, hout]
    by_cases hempty : c.trp = c.twp
    · -- the read position goes past `wp`, once more around the ring
      have hused := Ring.used_pop_empty h.trp
      rw [hempty, Ring.used_self] at hm
      rw [hempty] at hused
      refine ⟨m + 1, ?_⟩
      rw [hempty]
      push_cast at hm ⊢
      have hused' : (Ring.used c.cfg.elements (Ring.succ c.cfg.elements c.twp) c.twp : ℤ) + 1
          = c.cfg.elements := by exact_mod_cast hused
      linarith
    · have hused := Ring.used_pop h.trp h.twp hempty
      refine ⟨m, ?_⟩
      have hused' : (Ring.used c.cfg.elements (Ring.succ c.cfg.elements c.trp) c.twp : ℤ) + 1
          = Ring.used c.cfg.elements c.trp c.twp := by exact_mod_cast hused
      linarith

theorem counted_step {pm : PmState} {Valid : ℕ → Prop} {Accepts : Prop} {δ : ℤ} (h : c.Counted)
    (hstep : ChanStep pm Valid Accepts c c' δ) : c'.Counted := by
  cases hstep with
  | @refused buf ret hret =>
    refine counted_congr h rfl rfl rfl ?_
    rw [outstanding_returns, if_neg hret, add_zero]
  | @unmapped buf len ret hret =>
    refine counted_congr h rfl rfl rfl ?_
    rw [outstanding_returns, if_neg hret, add_zero]
    rfl
  | @queued buf len hfull _ =>
    obtain ⟨ctxtWp, dbMode, doorbell, answered, heq⟩ := ringIf_eq (c.fill buf len).add pm
    rw [heq]
    exact counted_add h hfull rfl rfl rfl (outstanding_returns _ _ _)
  | @generated buf len hfull _ =>
    exact counted_add h hfull rfl rfl rfl (outstanding_returns _ _ _)
  | accounted _ =>
    obtain ⟨ctxtWp, dbMode, doorbell, answered, heq⟩ :=
        ringIf_eq { c with queueing := c.queueing - 1 } pm
    rw [heq]
    exact counted_congr h rfl rfl rfl rfl
  | dbEvent =>
    obtain ⟨ctxtWp, dbMode, doorbell, answered, heq⟩ := dbEvent_eq c pm false
    rw [heq]
    exact counted_congr h rfl rfl rfl rfl
  | handed _ _ => exact counted_handOver h rfl rfl rfl (outstanding_handOver c _)
  | reset _ _ => exact counted_handOver h rfl rfl rfl (outstanding_handOver c 0)
  | ignored => exact h
  | asked _ => exact counted_congr h rfl rfl rfl rfl
  | event _ _ => exact counted_congr h rfl rfl rfl rfl
  | loopEnd _ => exact counted_congr h rfl rfl rfl rfl
  | called _ => exact counted_congr h rfl rfl rfl rfl
  | disabled => exact counted_congr h rfl rfl rfl rfl
  | resetBegin _ => exact counted_congr h rfl rfl rfl rfl
  | resetEnd _ => exact counted_congr h rfl rfl rfl rfl

/-- A channel with outstanding elements has been rung, or will be; `pending` says that an M0
transition is still to come to it. -/
def Rung (pending : Prop) (c : Chan) : Prop :=
  0 < c.outstanding → c.Told ∨ 0 < c.queueing ∨ pending

theorem rung_step {Valid : ℕ → Prop} {Accepts pending : Prop} {δ : ℤ} (hcount : c.Counted)
    (h : c.Rung pending) (hstep : ChanStep .m0 Valid Accepts c c' δ) : c'.Rung pending := by
  -- a channel with the same ring and doorbell, and no more elements
  have hsame : ∀ {c' : Chan}, c'.outstanding ≤ c.outstanding → c'.queueing = c.queueing →
      (c.Told → c'.Told) → c'.Rung pending := by
    intro c' hle hq htold hpos
    rcases h (by omega) with ht | hqueue | hp
    · exact Or.inl (htold ht)
    · exact Or.inr (Or.inl (hq ▸ hqueue))
    · exact Or.inr (Or.inr hp)
  cases hstep with
  | @refused buf ret hret =>
    refine hsame ?_ rfl fun ht => told_congr ht rfl rfl rfl rfl rfl
    rw [outstanding_returns, if_neg hret, add_zero]
  | @unmapped buf len ret hret =>
    refine hsame ?_ rfl fun ht => told_congr ht rfl rfl rfl rfl rfl
    rw [outstanding_returns, if_neg hret, add_zero]
    exact le_rfl
  | @queued buf len _ _ =>
    intro _
    exact Or.inl (told_congr (told_ringIf (c.fill buf len).add) rfl rfl rfl rfl rfl)
  | generated _ _ => exact fun _ => Or.inr (Or.inl (Nat.succ_pos _))
  | accounted _ => exact fun _ => Or.inl (told_ringIf _)
  | dbEvent =>
    by_cases hne : c.twp ≠ c.trp
    · rw [if_pos hne]
      exact fun _ => Or.inl (told_ringIf _)
    · rw [if_neg hne]
      exact fun hpos => absurd (ne_of_outstanding hcount hpos) hne
  | handed _ _ =>
    refine hsame ?_ rfl fun ht => told_congr ht rfl rfl rfl rfl rfl
    refine (outstanding_handOver c _).trans_le ?_
    omega
  | reset _ _ =>
    refine hsame ?_ rfl fun ht => told_congr ht rfl rfl rfl rfl rfl
    rw [outstanding_handOver]
    omega
  | ignored => exact h
  | asked _ => exact hsame le_rfl rfl fun ht => told_congr ht rfl rfl rfl rfl rfl
  | event _ _ => exact hsame le_rfl rfl fun ht => told_congr ht rfl rfl rfl rfl rfl
  | loopEnd _ => exact hsame le_rfl rfl fun ht => told_congr ht rfl rfl rfl rfl rfl
  | called _ => exact hsame le_rfl rfl fun ht => told_congr ht rfl rfl rfl rfl rfl
  | disabled => exact hsame le_rfl rfl fun ht => told_congr ht rfl rfl rfl rfl rfl
  | resetBegin _ => exact hsame le_rfl rfl fun ht => told_congr ht rfl rfl rfl rfl rfl
  | resetEnd _ => exact hsame le_rfl rfl fun ht => told_congr ht rfl rfl rfl rfl rfl

/-- The visit of an M0 transition rings a channel that has elements. -/
theorem told_visited (hcount : c.Counted) (hpos : 0 < c.visited.outstanding) :
    c.visited.Told := by
  rw [(share_visited c).2.1] at hpos
  unfold visited
  rw [if_pos (ne_of_outstanding hcount hpos)]
  exact told_ringChanDb _

theorem counted_visited (h : c.Counted) : c.visited.Counted := by
  obtain ⟨ctxtWp, dbMode, doorbell, answered, heq⟩ := visited_eq c
  rw [heq]
  exact counted_congr h rfl rfl rfl rfl

end Chan

variable {n : ℕ}

/-- An M0 transition has not come to channel `i` yet. -/
def St.ToVisit (s : St n) (i : Fin n) : Prop :=
  s.m0 = some .entered ∨ ∃ k, k ≤ i.val ∧ s.m0 = some (.visiting k)

structure Rings (s : St n) : Prop where
  counted : ∀ i, (s.chan i).Counted
  answered : ∀ i, (s.chan i).Answered
  rung : s.pmState = .m0 → ∀ i, (s.chan i).Rung (s.ToVisit i)

theorem rings_initial (cfg : Fin n → ChanCfg) (pm : PmState) (dev : DevState) :
    Rings (initial cfg pm dev) :=
  ⟨fun i => Chan.counted_start (cfg i), fun i => Chan.answered_start (cfg i),
    fun _ _ hpos => absurd hpos (lt_irrefl 0)⟩

theorem rings_step (s : St n) (inp : Input n) (s' : St n) (h : Rings s)
    (hs : step s inp = some s') : Rings s' := by
  have hcounted := all_of_step (valid_true inp) (fun _ _ _ => Chan.counted_step)
    (fun _ => Chan.counted_visited) h.counted hs
  have hanswered := all_of_step (valid_true inp) (fun _ _ _ => Chan.answered_step)
    (fun _ => Chan.answered_visited) h.answered hs
  refine ⟨hcounted, hanswered, fun hpm => ?_⟩
  rcases step_chans (valid_true inp) (accepts_true s inp) hs with
    ⟨hkeep, -⟩ | ⟨i, c, δ, hstep, hchan, -, hsame, hm0⟩ | ⟨i, hm0, hchan, hm0', hsame, -, -⟩
  · intro i
    rw [hkeep.chan]
    rcases hkeep.m0 hpm with hnew | ⟨hold, heq | ⟨-, hvisit⟩ | ⟨k, hk, hvisit, -⟩⟩
    · exact fun _ => Or.inr (Or.inr (Or.inl hnew))
    · have hrung := h.rung hold i
      unfold St.ToVisit at hrung ⊢
      rw [heq]
      exact hrung
    · exact fun _ => Or.inr (Or.inr (Or.inr ⟨0, Nat.zero_le _, hvisit⟩))
    · -- the transition has come to all channels
      intro hpos
      rcases h.rung hold i hpos with ht | hq | hvis | ⟨k', hk', hvis⟩
      · exact Or.inl ht
      · exact Or.inr (Or.inl hq)
      · rw [hvisit] at hvis
        cases hvis
      · rw [hvisit] at hvis
        cases hvis
        exact absurd i.isLt (by omega)
  · have hvisit : s'.ToVisit = s.ToVisit := by
      unfold St.ToVisit
      rw [hm0]
    rw [hsame.pmState] at hpm
    rw [hpm] at hstep
    rw [hchan, hvisit]
    exact (Function.forall_update_iff s.chan fun j c => c.Rung (s.ToVisit j)).2
      ⟨Chan.rung_step (h.counted i) (h.rung hpm i) hstep, fun j _ => h.rung hpm j⟩
  · rw [hsame.pmState] at hpm
    rw [hchan]
    refine (Function.forall_update_iff s.chan fun j c => c.Rung (s'.ToVisit j)).2
      ⟨fun hpos => Or.inl (Chan.told_visited (h.counted i) hpos), fun j hji hpos => ?_⟩
    rcases h.rung hpm j hpos with ht | hq | hvis | ⟨k, hk, hvis⟩
    · exact Or.inl ht
    · exact Or.inr (Or.inl hq)
    · rw [hm0] at hvis
      cases hvis
    · rw [hm0] at hvis
      cases hvis
      have hne : (i : ℕ) ≠ j := fun heq => hji (Fin.ext heq.symm)
      exact Or.inr (Or.inr (Or.inr ⟨i + 1, by omega, hm0'⟩))

/-- In M0, with no M0 transition and no call of `mhi_queue_buf` in progress, the modem knows of all
outstanding elements of every channel. -/
theorem no_lost_doorbell {cfg : Fin n → ChanCfg} {pm : PmState} {dev : DevState}
    {is : List (Input n)} {s : St n} (hrun : Runs.exec step (initial cfg pm dev) is = some s)
    (hpm : s.pmState = .m0) (hm0 : s.m0 = none) (hqueue : ∀ i, (s.chan i).queueing = 0)
    (i : Fin n) :
    (0 < (s.chan i).outstanding → (s.chan i).Synced)
      ∧ (Runs.Meets step PointsAtOutstanding (initial cfg pm dev) is →
        (s.chan i).trp ≠ (s.chan i).twp → (s.chan i).Synced) := by
  have h : Rings s := Runs.exec_keeps rings_step (rings_initial cfg pm dev) hrun
  have htold : 0 < (s.chan i).outstanding → (s.chan i).Told := by
    intro hpos
    rcases h.rung hpm i hpos with ht | hq | hvis | ⟨k, -, hvis⟩
    · exact ht
    · rw [hqueue i] at hq
      exact absurd hq (lt_irrefl 0)
    · rw [hm0] at hvis
      cases hvis
    · rw [hm0] at hvis
      cases hvis
  have hsynced : 0 < (s.chan i).outstanding → (s.chan i).Synced := fun hpos =>
    ⟨htold hpos, fun hbrst hen => h.answered i hen ((htold hpos).dbMode hbrst)⟩
  refine ⟨hsynced, fun hok hne => hsynced ?_⟩
  have hsound := sound_of_run hok hrun i
  rw [outstanding_eq_length hsound]
  unfold Chan.onRing
  rw [List.length_map, Ring.length_contents]
  exact Nat.cast_pos.2 ((Ring.used_pos_iff hsound.trp).2 hne)

def plainChan : Fin 2 := ⟨0, by decide⟩
def burstChan : Fin 2 := ⟨1, by decide⟩

/-- The second of two channels has its doorbell in burst mode. -/
def oneInBurst (i : Fin 2) : ChanCfg := { fourElements with brstmode := i = burstChan }

/-- In M2, where no doorbell may be rung, a buffer is queued on one channel, and the modem asks for
the doorbell of the other one, which has been rung in M0. It then comes back to M0. -/
def askInM2 : List (Input 2) :=
  [.queueSkb burstChan 21 100 true, .m1Event, .m1Go, .m1Go, .queueSkb plainChan 11 100 true,
    .event burstChan 5 0 0, .m0Event, .m0Go, .m0Go, .m0Go, .m0Go]

theorem no_lost_doorbell_askInM2 :
    ∃ s, Runs.exec step (initial oneInBurst .m0 .m0) askInM2 = some s
      ∧ ∀ i, 0 < (s.chan i).outstanding ∧ (s.chan i).Synced := by
  obtain ⟨s, hrun, hpm, hm0, hqueue, hpos⟩ : ∃ s,
      Runs.exec step (initial oneInBurst .m0 .m0) askInM2 = some s ∧ s.pmState = .m0
        ∧ s.m0 = none ∧ (∀ i, (s.chan i).queueing = 0) ∧ ∀ i, 0 < (s.chan i).outstanding := by
    refine ⟨_, rfl, ?_, ?_, ?_, ?_⟩ <;> decide
  exact ⟨s, hrun, fun i => ⟨hpos i, (no_lost_doorbell hrun hpm hm0 hqueue i).1 (hpos i)⟩⟩

end Mhi

end BananaWrt
