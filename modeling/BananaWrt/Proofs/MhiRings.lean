import BananaWrt.Proofs.MhiSteps

/-!
# Every buffer is handed over once and in order

The two rings of a channel have the same positions, and what has been handed over, followed by what
is on the rings, is what has been accepted (`Chan.Sound`). An event that points to an element on the
ring makes the loop of `parse_xfer_event` end at a position up to `wp`, whatever is queued
meanwhile.
-/

namespace BananaWrt

namespace Mhi

namespace ChanCfg

variable {cfg : ChanCfg}

theorem addr_inj {i j : ℕ} : cfg.addr i = cfg.addr j ↔ i = j := by
  unfold addr sizeofTre
  omega

/-- An event that points to an element makes the loop end at the next one. -/
theorem devRp_bus {i : ℕ} (hi : i < cfg.elements) :
    cfg.devRp (cfg.bus i) = cfg.addr (Ring.succ cfg.elements i) := by
  have hfits := cfg.fits
  have hvirt : cfg.toVirtual (cfg.bus i) = cfg.addr i := by
    unfold toVirtual bus addr
    unfold sizeofTre at hfits ⊢
    omega
  unfold devRp
  rw [hvirt]
  unfold addr Ring.succ
  unfold sizeofTre at hfits ⊢
  dsimp only
  rw [Nat.mod_eq_of_lt (by omega)]
  split_ifs <;> omega

end ChanCfg

namespace Chan

variable {c c' : Chan}

/-- Ringing the doorbell changes nothing else. -/
theorem ringChanDb_eq (c : Chan) : ∃ ctxtWp dbMode doorbell answered,
    c.ringChanDb = { c with
      ctxtWp := ctxtWp, dbMode := dbMode, doorbell := doorbell, answered := answered } := by
  unfold ringChanDb
  dsimp only
  split_ifs <;> exact ⟨_, _, _, _, rfl⟩

theorem ringIf_eq (c : Chan) (pm : PmState) : ∃ ctxtWp dbMode doorbell answered,
    c.ringIf pm = { c with
      ctxtWp := ctxtWp, dbMode := dbMode, doorbell := doorbell, answered := answered } := by
  unfold ringIf
  split_ifs
  · exact ringChanDb_eq c
  · exact ⟨_, _, _, _, rfl⟩

theorem visited_eq (c : Chan) : ∃ ctxtWp dbMode doorbell answered,
    c.visited = { c with
      ctxtWp := ctxtWp, dbMode := dbMode, doorbell := doorbell, answered := answered } := by
  unfold visited
  split_ifs
  · obtain ⟨ctxtWp, dbMode, doorbell, answered, h⟩ :=
      ringChanDb_eq { c with dbMode := true, answered := false }
    exact ⟨ctxtWp, dbMode, doorbell, answered, h⟩
  · exact ringChanDb_eq c
  · exact ⟨_, _, _, _, rfl⟩
  · exact ⟨_, _, _, _, rfl⟩

/-- So does an event of the doorbell mode. -/
theorem dbEvent_eq (c : Chan) (pm : PmState) (asked : Bool) : ∃ ctxtWp dbMode doorbell answered,
    (if c.twp ≠ c.trp then { c with dbMode := true, answered := asked }.ringIf pm
      else { c with dbMode := true, answered := asked })
      = { c with
        ctxtWp := ctxtWp, dbMode := dbMode, doorbell := doorbell, answered := answered } := by
  split_ifs
  · obtain ⟨ctxtWp, dbMode, doorbell, answered, h⟩ :=
      ringIf_eq { c with dbMode := true, answered := asked } pm
    exact ⟨ctxtWp, dbMode, doorbell, answered, h⟩
  · exact ⟨_, _, _, _, rfl⟩

theorem accepted_returns (c : Chan) (buf : ℕ) (ret : ℤ) :
    (c.returns buf ret).accepted = if ret = 0 then c.accepted ++ [buf] else c.accepted := by
  unfold accepted returns
  by_cases h : ret = 0
  · rw [if_pos h, List.filter_append, List.map_append, List.filter_singleton]
    simp [h]
  · rw [if_neg h, List.filter_append, List.filter_singleton]
    simp [h]

/-- The buffers on the rings. -/
def onRing (c : Chan) : List ℕ :=
  (Ring.contents c.slots c.cfg.elements c.trp c.twp).map (·.cbBuf)

/-- The loop ends at a position up to `wp`. -/
def Reaches (c : Chan) (devRp : ℕ) : Prop :=
  ∃ k ≤ Ring.used c.cfg.elements c.trp c.twp, devRp = c.cfg.addr (Ring.pos c.cfg.elements c.trp k)

structure Sound (c : Chan) : Prop where
  trp : c.trp < c.cfg.elements
  twp : c.twp < c.cfg.elements
  brp : c.brp = c.trp
  bwp : c.bwp = c.twp
  queue : c.handed.map (·.buf) ++ c.onRing = c.accepted
  ends : ∀ devRp len, c.busy = .loop devRp len ∨ c.busy = .called devRp len → c.Reaches devRp

/-- A descriptor that has been put on the ring and not been taken off. -/
def PointsAtOutstanding (c : Chan) (ptr : ℕ) : Prop :=
  ∃ k < Ring.used c.cfg.elements c.trp c.twp,
    ptr = c.cfg.bus (Ring.pos c.cfg.elements c.trp k)

instance (c : Chan) (ptr : ℕ) : Decidable (c.PointsAtOutstanding ptr) :=
  inferInstanceAs (Decidable (∃ k < _, _))

theorem sound_start (cfg : ChanCfg) : cfg.start.Sound where
  trp := cfg.pos
  twp := cfg.pos
  brp := rfl
  bwp := rfl
  queue := by
    unfold onRing
    rw [ChanCfg.start, Ring.contents_self]
    rfl
  ends := by rintro devRp len (h | h) <;> cases h

theorem fill_eq (h : c.Sound) (buf len : ℕ) : (c.fill buf len).onRing = c.onRing := by
  unfold onRing fill
  dsimp only
  rw [h.bwp, Ring.contents_update c.slots h.trp h.twp]

theorem sound_fill (h : c.Sound) (buf len : ℕ) : (c.fill buf len).Sound :=
  ⟨h.trp, h.twp, h.brp, h.bwp, by rw [fill_eq h]; exact h.queue, h.ends⟩

/-- A buffer that is put on the rings and accepted. -/
theorem sound_add (h : c.Sound) (hfull : ¬ c.Full) (buf len queueing : ℕ) :
    ({ (c.fill buf len).add with queueing := queueing }.returns buf 0).Sound := by
  have hf := sound_fill h buf len
  have hpush := Ring.contents_push (c.fill buf len).slots h.trp h.twp hfull
  have hused := Ring.used_push h.trp h.twp hfull
  have hslot : (c.fill buf len).slots c.twp = ⟨buf, len⟩ := by
    unfold fill
    rw [h.bwp]
    exact Function.update_self ..
  refine ⟨h.trp, Ring.succ_lt c.cfg.pos, h.brp, congrArg (Ring.succ c.cfg.elements) h.bwp, ?_,
    fun devRp len' hbusy => ?_⟩
  · rw [accepted_returns, if_pos rfl]
    unfold onRing
    change c.handed.map (·.buf) ++ (Ring.contents (c.fill buf len).slots c.cfg.elements c.trp
      (Ring.succ c.cfg.elements c.twp)).map (·.cbBuf) = c.accepted ++ [buf]
    rw [hpush, hslot, List.map_append, ← List.append_assoc]
    exact congrArg (· ++ [buf]) hf.queue
  · obtain ⟨k, hk, hdev⟩ := h.ends devRp len' hbusy
    refine ⟨k, ?_, hdev⟩
    change k ≤ Ring.used c.cfg.elements c.trp (Ring.succ c.cfg.elements c.twp)
    omega

/-- The first buffer on the rings is handed over. -/
theorem sound_handOver (h : c.Sound) (hne : c.trp ≠ c.twp) (bytesXferd : ℕ) {busy : Busy}
    (hends : ∀ devRp len, busy = .loop devRp len ∨ busy = .called devRp len →
      (c.handOver bytesXferd).Reaches devRp) :
    { c.handOver bytesXferd with busy := busy }.Sound := by
  have hpop := Ring.contents_pop c.slots h.trp h.twp hne
  refine ⟨Ring.succ_lt c.cfg.pos, h.twp, congrArg (Ring.succ c.cfg.elements) h.brp, h.bwp, ?_,
    hends⟩
  rw [← show c.accepted = ({ c.handOver bytesXferd with busy := busy } : Chan).accepted from rfl,
    ← h.queue]
  unfold onRing
  rw [hpop]
  change (c.handed ++ [_]).map Handed.buf ++ _ = _
  rw [List.map_append, List.append_assoc, h.brp]
  rfl

/-- The loop goes on only while there are buffers on the rings. -/
theorem reaches_handOver (h : c.Sound) {devRp : ℕ} (hreach : c.Reaches devRp)
    (hne : c.cfg.addr c.trp ≠ devRp) (bytesXferd : ℕ) :
    c.trp ≠ c.twp ∧ (c.handOver bytesXferd).Reaches devRp := by
  obtain ⟨k, hk, hdev⟩ := hreach
  have hlt := Ring.used_lt h.trp h.twp
  have hpos : k ≠ 0 := by
    rintro rfl
    exact hne (hdev.trans (congrArg _ (Ring.pos_zero h.trp))).symm
  have hrp : c.trp ≠ c.twp := (Ring.used_pos_iff h.trp).1 (by omega)
  have hpop := Ring.used_pop h.trp h.twp hrp
  refine ⟨hrp, k - 1, ?_, ?_⟩
  · change k - 1 ≤ Ring.used c.cfg.elements (Ring.succ c.cfg.elements c.trp) c.twp
    omega
  · change devRp = c.cfg.addr (Ring.pos c.cfg.elements (Ring.succ c.cfg.elements c.trp) (k - 1))
    rw [Ring.pos_succ h.trp (by omega), Nat.sub_add_cancel (by omega)]
    exact hdev

/-- An event that points to a buffer on the ring. -/
theorem reaches_of_points (h : c.Sound) {ptr : ℕ} (hptr : c.PointsAtOutstanding ptr) :
    c.Reaches (c.cfg.devRp ptr) := by
  obtain ⟨k, hk, rfl⟩ := hptr
  have hlt := Ring.used_lt h.trp h.twp
  refine ⟨k + 1, hk, ?_⟩
  rw [ChanCfg.devRp_bus (Ring.pos_lt h.trp (by omega)), Ring.succ_pos h.trp (by omega)]

theorem sound_step {pm : PmState} {δ : ℤ} {Accepts : Prop} (h : c.Sound)
    (hstep : ChanStep pm c.PointsAtOutstanding Accepts c c' δ) : c'.Sound := by
  cases hstep with
  | refused hret =>
    exact ⟨h.trp, h.twp, h.brp, h.bwp, by rw [accepted_returns, if_neg hret]; exact h.queue, h.ends⟩
  | @unmapped buf len ret hret =>
    have hf := sound_fill h buf len
    exact ⟨hf.trp, hf.twp, hf.brp, hf.bwp, by rw [accepted_returns, if_neg hret]; exact hf.queue,
      hf.ends⟩
  | @queued buf len hfull _ =>
    have hadd := sound_add h hfull buf len c.queueing
    obtain ⟨ctxtWp, dbMode, doorbell, answered, heq⟩ := ringIf_eq (c.fill buf len).add pm
    rw [heq]
    exact ⟨hadd.trp, hadd.twp, hadd.brp, hadd.bwp, hadd.queue, hadd.ends⟩
  | @generated buf len hfull _ => exact sound_add h hfull buf len (c.queueing + 1)
  | accounted _ =>
    obtain ⟨ctxtWp, dbMode, doorbell, answered, heq⟩ :=
        ringIf_eq { c with queueing := c.queueing - 1 } pm
    rw [heq]
    exact ⟨h.trp, h.twp, h.brp, h.bwp, h.queue, h.ends⟩
  | ignored => exact h
  | asked _ => exact ⟨h.trp, h.twp, h.brp, h.bwp, h.queue, h.ends⟩
  | event _ hptr =>
    refine ⟨h.trp, h.twp, h.brp, h.bwp, h.queue, ?_⟩
    rintro devRp len (hbusy | hbusy) <;> cases hbusy
    exact reaches_of_points h hptr
  | dbEvent =>
    obtain ⟨ctxtWp, dbMode, doorbell, answered, heq⟩ := dbEvent_eq c pm false
    rw [heq]
    exact ⟨h.trp, h.twp, h.brp, h.bwp, h.queue, h.ends⟩
  | loopEnd _ =>
    refine ⟨h.trp, h.twp, h.brp, h.bwp, h.queue, ?_⟩
    rintro devRp len (hbusy | hbusy) <;> cases hbusy
  | @handed devRp len hbusy hne =>
    obtain ⟨hrp, hreach⟩ := reaches_handOver h (h.ends devRp len (Or.inl hbusy)) hne len
    refine sound_handOver h hrp len ?_
    rintro devRp' len' (hbusy' | hbusy') <;> cases hbusy'
    exact hreach
  | @called devRp len hbusy =>
    refine ⟨h.trp, h.twp, h.brp, h.bwp, h.queue, ?_⟩
    rintro devRp' len' (hbusy' | hbusy') <;> cases hbusy'
    exact h.ends devRp len (Or.inr hbusy)
  | disabled => exact ⟨h.trp, h.twp, h.brp, h.bwp, h.queue, h.ends⟩
  | resetBegin _ =>
    refine ⟨h.trp, h.twp, h.brp, h.bwp, h.queue, ?_⟩
    rintro devRp len (hbusy | hbusy) <;> cases hbusy
  | resetEnd _ =>
    refine ⟨h.trp, h.twp, h.brp, h.bwp, h.queue, ?_⟩
    rintro devRp len (hbusy | hbusy) <;> cases hbusy
  | reset hbusy hne =>
    have hends : ∀ devRp len, c.busy = .loop devRp len ∨ c.busy = .called devRp len →
        (c.handOver 0).Reaches devRp := by
      rintro devRp len (hbusy' | hbusy') <;> cases hbusy.symm.trans hbusy'
    exact sound_handOver h hne 0 hends

theorem sound_visited (h : c.Sound) : c.visited.Sound := by
  obtain ⟨ctxtWp, dbMode, doorbell, answered, heq⟩ := visited_eq c
  rw [heq]
  exact ⟨h.trp, h.twp, h.brp, h.bwp, h.queue, h.ends⟩

end Chan

variable {n : ℕ}

/-- Every transfer event points to an element that is outstanding. -/
def PointsAtOutstanding (s : St n) : Input n → Prop :=
  ValidInput fun i => (s.chan i).PointsAtOutstanding

instance (s : St n) (inp : Input n) : Decidable (PointsAtOutstanding s inp) :=
  inferInstanceAs (Decidable (ValidInput _ inp))

theorem sound_all (s : St n) (inp : Input n) (s' : St n) (h : ∀ i, (s.chan i).Sound)
    (hok : PointsAtOutstanding s inp) (hs : step s inp = some s') : ∀ i, (s'.chan i).Sound :=
  all_of_step hok (fun _ _ _ => Chan.sound_step) (fun _ => Chan.sound_visited) h hs

theorem sound_of_run {cfg : Fin n → ChanCfg} {pm : PmState} {dev : DevState} {is : List (Input n)}
    {s : St n} (hok : Runs.Meets step PointsAtOutstanding (initial cfg pm dev) is)
    (hrun : Runs.exec step (initial cfg pm dev) is = some s) : ∀ i, (s.chan i).Sound :=
  Runs.exec_inv sound_all (fun i => Chan.sound_start (cfg i)) hok hrun

theorem fourElements_pos : 0 < 4 := by decide

/-- An uplink channel with rings of four elements. -/
def fourElements : ChanCfg where
  dir := .toDevice
  elements := 4
  base := 4096
  iommuBase := 8192
  brstmode := false
  resetReq := false
  pos := fourElements_pos
  fits := by decide
  iommuFits := by decide

/-- The one channel there is. -/
def theChan : Fin 1 := 0

/-- Three buffers are queued and an event finishes the first two; while the first is handed over, a
fourth is queued, which the ring has room for, and a fifth, which it has not. The channel is then
reset. -/
def queueAndReset : List (Input 1) :=
  [.queueSkb theChan 11 100 true, .genTre theChan 12 100 true, .queueBuf theChan,
    .queueSkb theChan 13 100 true, .event theChan 2 8208 100, .go theChan,
    .queueSkb theChan 14 100 true, .queueSkb theChan 15 100 true, .go theChan, .go theChan,
    .go theChan, .go theChan, .disable theChan, .resetChan theChan, .go theChan, .go theChan,
    .go theChan]

end Mhi

end BananaWrt
