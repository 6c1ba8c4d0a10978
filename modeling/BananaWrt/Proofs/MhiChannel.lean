import BananaWrt.MhiChannel
import BananaWrt.Proofs.MhiRings

/-!
# The modem reads what was queued, and hands it back once

The descriptors are a log in a ring of records (`Lib.Records`): the modem is never more than the
ring behind the driver, so what it fetches is what was stored. Its events point to what is
outstanding when they are written; as the driver handles them in order and takes off only what they
report, they still do when it gets to them, however many of them lie in between (`Handling`). So the
assumption under which `MhiRings` follows the rings is met, and a buffer is handed over only when
the modem has finished with it, with the length that was reported.
-/

namespace BananaWrt

namespace Mhi

namespace Tre

@[simp] theorem length_toBytes (tre : Tre) : tre.toBytes.length = sizeofTre := rfl

theorem ofBytes_toBytes (tre : Tre) : ofBytes tre.toBytes = tre := by
  have h0 : Bytes.le32 tre.toBytes 0 = tre.ptr.toNat % 2 ^ 32 := Bytes.le32_ofLe32 _
  have h4 : Bytes.le32 tre.toBytes 4 = tre.ptr.toNat / 2 ^ 32 % 2 ^ 32 := Bytes.le32_ofLe32 _
  have h8 : Bytes.le32 tre.toBytes 8 = tre.dword0.toNat % 2 ^ 32 := Bytes.le32_ofLe32 _
  have h12 : Bytes.le32 tre.toBytes 12 = tre.dword1.toNat % 2 ^ 32 := Bytes.le32_ofLe32 _
  have hptr : tre.ptr.toNat % 2 ^ 32 + 2 ^ 32 * (tre.ptr.toNat / 2 ^ 32 % 2 ^ 32)
      = tre.ptr.toNat := by
    have hlt := tre.ptr.isLt
    omega
  unfold ofBytes
  rw [h0, h4, h8, h12, hptr, Nat.mod_eq_of_lt tre.dword0.isLt, Nat.mod_eq_of_lt tre.dword1.isLt]
  simp only [BitVec.ofNat_toNat, BitVec.setWidth_eq]

end Tre

namespace Report

variable {r : Report}

/-- The fields of an event as `parse_xfer_event` takes them out. -/
theorem event_fields (h : r.Valid) {ptr : ℕ} (hptr : ptr < 2 ^ 64) :
    (r.event ptr).evCode = r.code ∧ (r.event ptr).evLen = r.len
      ∧ (r.event ptr).ptr.toNat = ptr := by
  obtain ⟨-, hcode, hlen⟩ := h
  have hlt : r.code < 2 ^ 8 := by
    simp only [St.MHI_EV_CC_OVERFLOW, St.MHI_EV_CC_EOB, St.MHI_EV_CC_EOT, List.mem_cons,
      List.not_mem_nil, or_false] at hcode
    omega
  have hor : r.code <<< 24 ||| r.len = r.code * 2 ^ 24 + r.len := by
    rw [← Nat.shiftLeft_add_eq_or_of_lt (by omega), Nat.shiftLeft_eq]
  have hdword : (r.event ptr).dword0.toNat = r.code * 2 ^ 24 + r.len := by
    change (BitVec.ofNat 32 (r.code <<< 24 ||| r.len)).toNat = _
    rw [BitVec.toNat_ofNat, hor, Nat.mod_eq_of_lt (by omega)]
  refine ⟨?_, ?_, Nat.mod_eq_of_lt hptr⟩
  · unfold Tre.evCode
    rw [BitVec.toNat_and, BitVec.toNat_ushiftRight, hdword, Nat.shiftRight_eq_div_pow]
    change (_ &&& (2 ^ 8 - 1)) = _
    rw [Nat.and_two_pow_sub_one_eq_mod]
    omega
  · unfold Tre.evLen
    rw [BitVec.toNat_and, hdword]
    change (_ &&& (2 ^ 16 - 1)) = _
    rw [Nat.and_two_pow_sub_one_eq_mod]
    omega

end Report

namespace ChanCfg

variable (cfg : ChanCfg)

theorem bus_lt {i : ℕ} (hi : i < cfg.elements) : cfg.bus i < 2 ^ 64 := by
  have hfits := cfg.iommuFits
  unfold bus
  unfold sizeofTre at hfits ⊢
  omega

/-- The modem goes on to the next descriptor as the driver does. -/
theorem bus_next {i : ℕ} (hi : i < cfg.elements) :
    (if cfg.iommuBase + sizeofTre * cfg.elements ≤ cfg.bus i + sizeofTre then cfg.iommuBase
      else cfg.bus i + sizeofTre) = cfg.bus (Ring.succ cfg.elements i) := by
  unfold bus Ring.succ sizeofTre
  split_ifs <;> omega

/-- Counted from the start of the channel. -/
theorem bus_succ_mod (k : ℕ) :
    Ring.succ cfg.elements (k % cfg.elements) = (k + 1) % cfg.elements := by
  rw [Ring.succ_eq_mod (Nat.mod_lt k cfg.pos), Nat.mod_add_mod]

end ChanCfg

/-- A section that may put buffers on the rings, and ring the doorbell; it takes nothing off. -/
structure Queues (bufs : List ℕ) (c c' : Chan) : Prop where
  cfg : c'.cfg = c.cfg
  enabled : c'.enabled = c.enabled
  trp : c'.trp = c.trp
  twp : bufs = [] → c'.twp = c.twp
  handed : c'.handed = c.handed
  busy : c'.busy = c.busy
  accepted : c'.accepted = c.accepted ++ bufs
  ctxtWp : c'.ctxtWp = c.ctxtWp ∨ c'.ctxtWp = c.cfg.bus c'.twp

namespace Queues

variable {c c' c'' : Chan} {bufs : List ℕ}

theorem refl (c : Chan) : Queues [] c c :=
  ⟨rfl, rfl, rfl, fun _ => rfl, rfl, rfl, (List.append_nil _).symm, Or.inl rfl⟩

theorem trans (h : Queues bufs c c') (h' : Queues [] c' c'') : Queues bufs c c'' := by
  refine ⟨h'.cfg.trans h.cfg, h'.enabled.trans h.enabled, h'.trp.trans h.trp,
    fun hbufs => (h'.twp rfl).trans (h.twp hbufs), h'.handed.trans h.handed, h'.busy.trans h.busy,
    ?_, ?_⟩
  · rw [h'.accepted, List.append_nil, h.accepted]
  · rcases h'.ctxtWp with hwp | hwp
    · rw [hwp, h'.twp rfl]
      exact h.ctxtWp
    · exact Or.inr (hwp.trans (congrArg (fun cfg => ChanCfg.bus cfg c''.twp) h.cfg))

theorem ringChanDb (c : Chan) : Queues [] c c.ringChanDb := by
  unfold Chan.ringChanDb
  dsimp only
  split_ifs <;>
    exact ⟨rfl, rfl, rfl, fun _ => rfl, rfl, rfl, (List.append_nil _).symm, Or.inr rfl⟩

theorem ringIf (c : Chan) (pm : PmState) : Queues [] c (c.ringIf pm) := by
  unfold Chan.ringIf
  split_ifs
  · exact ringChanDb c
  · exact refl c

theorem asked (c : Chan) (dbMode : Bool) :
    Queues [] c { c with dbMode := dbMode, answered := false } :=
  ⟨rfl, rfl, rfl, fun _ => rfl, rfl, rfl, (List.append_nil _).symm, Or.inl rfl⟩

theorem queueing (c : Chan) (k : ℕ) : Queues [] c { c with queueing := k } :=
  ⟨rfl, rfl, rfl, fun _ => rfl, rfl, rfl, (List.append_nil _).symm, Or.inl rfl⟩

theorem visited (c : Chan) : Queues [] c c.visited := by
  unfold Chan.visited
  split_ifs
  · exact (asked c true).trans (ringChanDb _)
  · exact ringChanDb c
  · exact asked c true
  · exact refl c

/-- A call that fails. -/
theorem returns (c : Chan) (buf : ℕ) {ret : ℤ} (hret : ret ≠ 0) :
    Queues [] c (c.returns buf ret) := by
  refine ⟨rfl, rfl, rfl, fun _ => rfl, rfl, rfl, ?_, Or.inl rfl⟩
  rw [Chan.accepted_returns, if_neg hret, List.append_nil]

theorem fill (c : Chan) (buf len : ℕ) : Queues [] c (c.fill buf len) :=
  ⟨rfl, rfl, rfl, fun _ => rfl, rfl, rfl, (List.append_nil _).symm, Or.inl rfl⟩

/-- A buffer that is put on the rings, and accepted. -/
theorem put (c : Chan) (buf len queueing : ℕ) :
    Queues [buf] c ({ (c.fill buf len).add with queueing := queueing }.returns buf 0) := by
  refine ⟨rfl, rfl, rfl, fun hbufs => absurd hbufs (List.cons_ne_nil buf []), rfl, rfl, ?_,
    Or.inl rfl⟩
  rw [Chan.accepted_returns, if_pos rfl]
  rfl

theorem putRing (c : Chan) (buf len : ℕ) (pm : PmState) :
    Queues [buf] c (((c.fill buf len).add.ringIf pm).returns buf 0) := by
  have hring := ringIf (c.fill buf len).add pm
  refine ⟨hring.cfg, hring.enabled, hring.trp,
    fun hbufs => absurd hbufs (List.cons_ne_nil buf []), hring.handed, hring.busy, ?_,
    hring.ctxtWp⟩
  rw [Chan.accepted_returns, if_pos rfl, hring.accepted, List.append_nil]
  rfl

end Queues

section Sections

variable {n : ℕ} {s s' : St n} {inp : Input n}

@[simp] theorem wakeGet_chan (s : St n) : s.wakeGet.chan = s.chan := by
  unfold St.wakeGet
  split_ifs <;> rfl

/-- Power management leaves the channels alone but for the visits in M0. -/
theorem chan_of_isPm (hinp : inp.IsPm) (h : step s inp = some s') :
    s'.chan = s.chan ∨ ∃ i, s'.chan = Function.update s.chan i (s.chan i).visited := by
  cases inp with
  | queueSkb | genTre | queueBuf | event | go | disable | resetChan => exact hinp.elim
  | m0Go =>
    simp only [step, stepM0] at h
    rcases hm0 : s.m0 with _ | _ | i <;> rw [hm0] at h
    · cases h
    · cases h
      exact Or.inl (wakeGet_chan s)
    · cases h
      unfold St.m0Visit
      by_cases hi : i < n
      · rw [dif_pos hi]
        refine Or.inr ⟨⟨i, hi⟩, congrArg (Function.update s.chan ⟨i, hi⟩) ?_⟩
        unfold Chan.visited
        split_ifs <;> rfl
      · rw [dif_neg hi]
        exact Or.inl rfl
  | m1Go =>
    simp only [step, stepM1] at h
    rcases hm1 : s.m1 with _ | m <;> rw [hm1] at h <;> cases h
    unfold St.m1Wake St.wakePut
    dsimp only
    split_ifs
    · exact Or.inl rfl
    · exact Or.inl (wakeGet_chan s)
    · exact Or.inl rfl
  | suspendWaited timeout =>
    simp only [step, stepWaited] at h
    split_ifs at h <;> cases h <;> exact Or.inl rfl
  | resume =>
    cases h
    unfold St.mhiPmResume
    split_ifs
    · exact Or.inl rfl
    · exact Or.inl (wakeGet_chan _)
    · exact Or.inl rfl
  | m0Event | m3Event =>
    simp only [step, Option.ite_none_left_eq_some, Option.some.injEq] at h
    obtain ⟨-, rfl⟩ := h
    exact Or.inl rfl
  | m1Event =>
    simp only [step, Option.ite_none_left_eq_some, Option.some.injEq] at h
    obtain ⟨-, rfl⟩ := h
    unfold St.mhiPmM1Transition
    split_ifs <;> exact Or.inl rfl
  | systemSuspend suspends =>
    simp only [step, Option.ite_none_right_eq_some, Option.some.injEq] at h
    obtain ⟨-, rfl⟩ := h
    unfold St.mhiSystemSuspend
    split_ifs <;> exact Or.inl rfl
  | pmSuspend =>
    simp only [step, Option.ite_none_right_eq_some, Option.some.injEq] at h
    obtain ⟨-, rfl⟩ := h
    unfold St.mhiPmSuspend
    split_ifs
    · exact Or.inl rfl
    · exact Or.inl (wakeGet_chan s)
  | m3Enter =>
    simp only [step, Option.ite_none_right_eq_some, Option.some.injEq] at h
    obtain ⟨-, rfl⟩ := h
    unfold St.m3Enter
    split_ifs <;> exact Or.inl rfl
  | tryset state =>
    simp only [step, Option.ite_none_left_eq_some, Option.some.injEq] at h
    obtain ⟨-, rfl⟩ := h
    exact Or.inl rfl

/-- Where a section does something to one channel. -/
theorem queues_update {i : Fin n} {c' : Chan} (hchan : s'.chan = Function.update s.chan i c')
    (h : Queues [] (s.chan i) c') (j : Fin n) : Queues [] (s.chan j) (s'.chan j) := by
  rw [hchan]
  rcases eq_or_ne j i with rfl | hne
  · rw [Function.update_self]
    exact h
  · rw [Function.update_of_ne hne]
    exact Queues.refl _

theorem assertWake_chan (s : St n) (dir : Dir) : (s.assertWake dir).chan = s.chan := by
  unfold St.assertWake
  split_ifs
  · exact wakeGet_chan s
  · rfl

theorem incFor_chan (s : St n) (dir : Dir) : (s.incFor dir).chan = s.chan := by
  unfold St.incFor
  split_ifs <;> rfl

/-- What the driver does by itself puts nothing on the rings, and takes nothing off outside of the
loop of `parse_xfer_event`. -/
theorem queues_internal (hinp : inp.Internal) (hgo : ∀ i, inp ≠ .go i)
    (h : step s inp = some s') : ∀ j, Queues [] (s.chan j) (s'.chan j) := by
  by_cases hpm : inp.IsPm
  · rcases chan_of_isPm hpm h with hchan | ⟨i, hchan⟩
    · intro j
      rw [hchan]
      exact Queues.refl _
    · exact queues_update hchan (Queues.visited _)
  cases inp with
  | queueSkb | genTre | disable | resetChan => exact hinp.elim
  | go i => exact absurd rfl (hgo i)
  | queueBuf i =>
    simp only [step, Option.ite_none_left_eq_some, Option.some.injEq] at h
    obtain ⟨-, rfl⟩ := h
    have hring := Queues.ringIf { s.chan i with queueing := (s.chan i).queueing - 1 }
      ((s.assertWake (s.chan i).cfg.dir).incFor (s.chan i).cfg.dir).pmState
    refine queues_update (i := i) ?_ ((Queues.queueing (s.chan i) _).trans hring)
    unfold St.mhiQueueBuf St.setChan
    dsimp only
    rw [incFor_chan, assertWake_chan]
  | event i code ptr len =>
    simp only [step, Option.ite_none_right_eq_some, Option.some.injEq] at h
    obtain ⟨-, rfl⟩ := h
    by_cases hdb : code ∈ [St.MHI_EV_CC_OOB, St.MHI_EV_CC_DB_MODE]
    · rw [St.dbEvent_asked s ptr len hdb]
      split_ifs
      · exact queues_update (i := i) rfl
          ((Queues.asked (s.chan i) true).trans (Queues.ringIf _ s.pmState))
      · exact queues_update (i := i) rfl (Queues.asked (s.chan i) true)
      · exact queues_update (i := i) rfl (Queues.asked (s.chan i) (s.chan i).dbMode)
    · -- nothing is done with an event of another code
      rw [show s.asked i code = s from if_neg hdb]
      unfold St.parseXferEvent
      dsimp only
      rw [if_neg hinp, if_neg hdb, ite_self]
      exact fun j => Queues.refl _
  | _ => exact absurd trivial hpm

/-- A call puts its buffer on the rings if there is room, no error and an address. -/
theorem queueSkb_chan (s : St n) (i : Fin n) (buf len : ℕ) (mapped : Bool) : ∃ c',
    (s.mhiQueueSkb i buf len mapped).chan = Function.update s.chan i c'
      ∧ Queues (if ((s.chan i).Full ∨ s.pmState.InError) ∨ mapped = false then [] else [buf])
          (s.chan i) c' := by
  unfold St.mhiQueueSkb
  dsimp only
  by_cases hfull : (s.chan i).Full
  · rw [if_pos hfull, if_pos (Or.inl (Or.inl hfull))]
    exact ⟨_, rfl, Queues.returns _ buf (by decide)⟩
  rw [if_neg hfull]
  by_cases herr : s.pmState.InError
  · rw [if_pos herr, if_pos (Or.inl (Or.inr herr))]
    exact ⟨_, rfl, Queues.returns _ buf (by decide)⟩
  rw [if_neg herr]
  cases mapped with
  | true =>
    rw [if_pos rfl, if_neg (by simp only [hfull, herr, or_self, Bool.true_eq_false,
      not_false_eq_true])]
    refine ⟨_, ?_, Queues.putRing (s.chan i) buf len (s.assertWake (s.chan i).cfg.dir).pmState⟩
    unfold St.setChan
    dsimp only
    rw [incFor_chan, assertWake_chan]
  | false =>
    rw [if_neg Bool.false_ne_true, if_pos (Or.inr rfl)]
    refine ⟨_, ?_, (Queues.fill (s.chan i) buf len).trans
      (Queues.returns _ buf (show - ENOMEM ≠ 0 by decide))⟩
    unfold St.setChan
    dsimp only
    rw [assertWake_chan]

theorem genTre_chan (s : St n) (i : Fin n) (buf len : ℕ) (mapped : Bool) : ∃ c',
    (s.mhiGenTre i buf len mapped).chan = Function.update s.chan i c'
      ∧ Queues (if ((s.chan i).Full ∨ s.pmState.InError) ∨ mapped = false then [] else [buf])
          (s.chan i) c' := by
  unfold St.mhiGenTre
  dsimp only
  by_cases herr : s.pmState.InError
  · rw [if_pos herr, if_pos (Or.inl (Or.inr herr))]
    exact ⟨_, rfl, Queues.returns _ buf (by decide)⟩
  rw [if_neg herr]
  by_cases hfull : (s.chan i).Full
  · rw [if_pos hfull, if_pos (Or.inl (Or.inl hfull))]
    exact ⟨_, rfl, Queues.returns _ buf (by decide)⟩
  rw [if_neg hfull]
  cases mapped with
  | true =>
    rw [if_pos rfl, if_neg (by simp only [hfull, herr, or_self, Bool.true_eq_false,
      not_false_eq_true])]
    exact ⟨_, rfl, Queues.put (s.chan i) buf len ((s.chan i).queueing + 1)⟩
  | false =>
    rw [if_neg Bool.false_ne_true, if_pos (Or.inr rfl)]
    exact ⟨_, rfl, (Queues.fill (s.chan i) buf len).trans
      (Queues.returns _ buf (show - ENOMEM ≠ 0 by decide))⟩

end Sections

theorem lensOf_append (rs rs' : List Report) : lensOf (rs ++ rs') = lensOf rs ++ lensOf rs' :=
  List.flatMap_append

theorem lensOf_singleton (r : Report) : lensOf [r] = List.replicate r.count r.len :=
  List.flatMap_singleton _ r

theorem lensOf_cons (r : Report) (rs : List Report) :
    lensOf (r :: rs) = List.replicate r.count r.len ++ lensOf rs :=
  List.flatMap_cons

/-- The events of the reports that follow the one after which `start` descriptors were reported. -/
def inFlight (cfg : ChanCfg) : ℕ → List Report → List Bytes
  | _, [] => []
  | start, r :: rs =>
    (r.event (cfg.bus ((start + r.count - 1) % cfg.elements))).toBytes
      :: inFlight cfg (start + r.count) rs

theorem inFlight_append (cfg : ChanCfg) (r : Report) : ∀ (rs : List Report) (start : ℕ),
    inFlight cfg start (rs ++ [r]) = inFlight cfg start rs
      ++ [(r.event (cfg.bus ((start + (lensOf rs).length + r.count - 1) % cfg.elements))).toBytes]
  | [], start => by
    rw [List.nil_append, inFlight, inFlight, inFlight]
    rfl
  | r' :: rs, start => by
    rw [List.cons_append, inFlight, inFlight_append cfg r rs, inFlight, lensOf_cons,
      List.length_append, List.length_replicate, List.cons_append, Nat.add_assoc start]

/-- What has been handed over of the reports whose events have been taken from the event ring: all
of it between events, and in the loop for the last one what comes before a stretch of its length. -/
structure Handling (c : Chan) (past : List Report) : Prop where
  le : c.handed.length ≤ (lensOf past).length
  lens : c.handed.map (·.bytesXferd) = (lensOf past).take c.handed.length
  idle : c.busy = .idle → c.handed.length = (lensOf past).length
  loop : ∀ devRp len, c.busy = .loop devRp len ∨ c.busy = .called devRp len →
    devRp = c.cfg.addr ((lensOf past).length % c.cfg.elements)
      ∧ (lensOf past).drop c.handed.length
        = List.replicate ((lensOf past).length - c.handed.length) len

/-! ## The invariant -/

structure Linked (c : Chan) (d : Side) : Prop where
  sound : c.Sound
  enabled : c.enabled = true
  running : c.busy ≠ .resetting
  accepted : d.requests.map (·.buf) = c.accepted
  trp : c.trp = c.handed.length % c.cfg.elements
  size : d.ring.length = sizeofTre * c.cfg.elements
  holds : Records.Holds d.ring sizeofTre c.cfg.elements c.handed.length
    (d.requests.map (·.tre.toBytes))
  rp : d.modem.rp = c.cfg.bus (d.modem.fetched.length % c.cfg.elements)
  limits : ∃ l w, d.modem.fetched.length ≤ l ∧ l ≤ w ∧ w ≤ d.requests.length
    ∧ d.modem.limit = c.cfg.bus (l % c.cfg.elements) ∧ c.ctxtWp = c.cfg.bus (w % c.cfg.elements)
  fetched : ∀ k a tre, d.modem.fetched[k]? = some (a, tre) →
    a = c.cfg.bus (k % c.cfg.elements) ∧ (d.requests.map Request.tre)[k]? = some tre
  reported : d.modem.reported = (lensOf d.reports).length
  le : d.modem.reported ≤ d.modem.fetched.length
  valid : ∀ r ∈ d.reports, r.Valid
  events : ∃ past coming, d.reports = past ++ coming
    ∧ d.events = inFlight c.cfg (lensOf past).length coming ∧ Handling c past

section Counts

variable {c c' : Chan} {d : Side}

/-- How far the driver is ahead, counted from the start. -/
theorem Chan.Sound.counts (h : c.Sound) (htrp : c.trp = c.handed.length % c.cfg.elements) :
    c.handed.length + Ring.used c.cfg.elements c.trp c.twp = c.accepted.length
      ∧ c.accepted.length < c.handed.length + c.cfg.elements
      ∧ c.twp = c.accepted.length % c.cfg.elements := by
  have hused := Ring.used_lt h.trp h.twp
  have hlen := congrArg List.length h.queue
  unfold Chan.onRing at hlen
  rw [List.length_append, List.length_map, List.length_map, Ring.length_contents] at hlen
  refine ⟨hlen, by omega, ?_⟩
  rw [← hlen, ← Ring.pos_mod c.cfg.pos (Nat.le_of_lt hused), ← htrp, Ring.pos_used h.trp h.twp]

theorem Linked.length_requests (h : Linked c d) : d.requests.length = c.accepted.length := by
  rw [← h.accepted, List.length_map]

theorem Linked.fetched_le (h : Linked c d) : d.modem.fetched.length ≤ d.requests.length := by
  obtain ⟨l, w, hl, hlw, hw, -, -⟩ := h.limits
  omega

theorem Linked.handed_le (h : Linked c d) : c.handed.length ≤ d.modem.reported := by
  obtain ⟨past, coming, hreports, -, hhand⟩ := h.events
  have hle := hhand.le
  rw [h.reported, hreports, lensOf_append, List.length_append]
  omega

end Counts

section Steps

variable {c c' : Chan} {d d' : Side} {past : List Report}

theorem Handling.congr (h : Handling c past) (hcfg : c'.cfg = c.cfg)
    (hhanded : c'.handed = c.handed) (hbusy : c'.busy = c.busy) : Handling c' past := by
  refine ⟨?_, ?_, ?_, ?_⟩
  · rw [hhanded]
    exact h.le
  · rw [hhanded]
    exact h.lens
  · rw [hhanded, hbusy]
    exact h.idle
  · rw [hhanded, hbusy, hcfg]
    exact h.loop

theorem linked_queues (h : Linked c d) (hq : Queues [] c c') (hs : c'.Sound) : Linked c' d := by
  have hcounts := h.sound.counts h.trp
  refine ⟨hs, hq.enabled.trans h.enabled, ?_, ?_, ?_, ?_, ?_, ?_, ?_, ?_, h.reported, h.le, h.valid,
    ?_⟩
  · rw [hq.busy]
    exact h.running
  · rw [h.accepted, hq.accepted, List.append_nil]
  · rw [hq.trp, hq.handed, hq.cfg, h.trp]
  · rw [hq.cfg]
    exact h.size
  · rw [hq.cfg, hq.handed]
    exact h.holds
  · rw [hq.cfg]
    exact h.rp
  · -- the write pointer of the context is what it was, or that of the ring
    obtain ⟨l, w, hl, hlw, hw, hlimit, hwp⟩ := h.limits
    rw [hq.cfg]
    rcases hq.ctxtWp with hold | hnew
    · exact ⟨l, w, hl, hlw, hw, hlimit, hold.trans hwp⟩
    · refine ⟨l, d.requests.length, hl, Nat.le_trans hlw hw, Nat.le_refl _, hlimit, ?_⟩
      rw [hnew, hq.twp rfl, hcounts.2.2, h.length_requests]
  · rw [hq.cfg]
    exact h.fetched
  · obtain ⟨past, coming, hreports, hevents, hhand⟩ := h.events
    refine ⟨past, coming, hreports, ?_, hhand.congr hq.cfg hq.handed hq.busy⟩
    rw [hq.cfg]
    exact hevents

/-- A descriptor is stored where none of those is that the modem may still read. -/
theorem linked_store {r : Request} (h : Linked c d) (hq : Queues [r.buf] c c') (hs : c'.Sound) :
    Linked c' (d.storeTre c.twp r) := by
  obtain ⟨-, hroom, htwp⟩ := h.sound.counts h.trp
  rw [← h.length_requests] at hroom htwp
  have hcfg := hq.cfg
  have hpos := c.cfg.pos
  have hlt : c.twp < c.cfg.elements := h.sound.twp
  have htrp : c'.trp = c'.handed.length % c'.cfg.elements := by
    rw [hq.trp, hq.handed, hcfg, h.trp]
  have hlen : (d.storeTre c.twp r).requests.length = d.requests.length + 1 := List.length_append
  have haccepted : (d.storeTre c.twp r).requests.map (·.buf) = c'.accepted := by
    rw [hq.accepted, ← h.accepted]
    exact List.map_append
  refine ⟨hs, hq.enabled.trans h.enabled, ?_, haccepted, htrp, ?_, ?_, ?_, ?_, ?_, h.reported, h.le,
    h.valid, ?_⟩
  · rw [hq.busy]
    exact h.running
  · rw [hcfg]
    exact Records.length_write_record h.size (Tre.length_toBytes r.tre) hlt
  · rw [hcfg, hq.handed]
    have hpush := h.holds.push hpos h.size (Tre.length_toBytes r.tre)
      (by rw [List.length_map]; exact hroom)
    rw [List.length_map, ← htwp] at hpush
    unfold Side.storeTre
    rw [List.map_append]
    exact hpush
  · rw [hcfg]
    exact h.rp
  · obtain ⟨l, w, hl, hlw, hw, hlimit, hwp⟩ := h.limits
    rw [hcfg]
    rcases hq.ctxtWp with hold | hnew
    · exact ⟨l, w, hl, hlw, by omega, hlimit, hold.trans hwp⟩
    · refine ⟨l, d.requests.length + 1, hl, by omega, by omega, hlimit, ?_⟩
      have hcounts' := (hs.counts htrp).2.2
      rw [← haccepted, List.length_map, hlen, hcfg] at hcounts'
      rw [hnew, hcounts']
  · intro k a tre hk
    rw [hcfg]
    obtain ⟨ha, htre⟩ := h.fetched k a tre hk
    refine ⟨ha, ?_⟩
    obtain ⟨hklt, -⟩ := List.getElem?_eq_some_iff.1 htre
    unfold Side.storeTre
    rw [List.map_append, List.getElem?_append_left hklt]
    exact htre
  · obtain ⟨past, coming, hreports, hevents, hhand⟩ := h.events
    refine ⟨past, coming, hreports, ?_, hhand.congr hcfg hq.handed hq.busy⟩
    rw [hcfg]
    exact hevents

theorem linked_look (h : Linked c d) : Linked c (d.look c.ctxtWp) := by
  obtain ⟨l, w, hl, hlw, hw, hlimit, hwp⟩ := h.limits
  exact ⟨h.sound, h.enabled, h.running, h.accepted, h.trp, h.size, h.holds, h.rp,
    ⟨w, w, Nat.le_trans hl hlw, Nat.le_refl w, hw, hwp, hwp⟩, h.fetched, h.reported, h.le, h.valid,
    h.events⟩

/-- The modem fetches the descriptor that was stored for the next request. -/
theorem linked_fetch (h : Linked c d) (hd : d.fetch c.cfg = some d') : Linked c d' := by
  obtain ⟨l, w, hl, hlw, hw, hlimit, hwp⟩ := h.limits
  have hpos := c.cfg.pos
  have hmod := Nat.mod_lt d.modem.fetched.length hpos
  unfold Side.fetch at hd
  rw [Option.ite_none_left_eq_some] at hd
  obtain ⟨hne, hd⟩ := hd
  cases hd
  -- it has not come to the limit, so that there is a request
  have hlt : d.modem.fetched.length < l := by
    refine Nat.lt_of_le_of_ne hl fun heq => hne ?_
    rw [h.rp, hlimit, heq]
  have hslot : (d.ring.drop (d.modem.rp - c.cfg.iommuBase)).take sizeofTre
      = Records.record d.ring sizeofTre (d.modem.fetched.length % c.cfg.elements) := by
    unfold Records.record
    rw [h.rp]
    unfold ChanCfg.bus
    rw [Nat.add_sub_cancel_left]
  have hreq : d.modem.fetched.length < d.requests.length := by omega
  have hread := h.holds d.modem.fetched.length d.requests[d.modem.fetched.length].tre.toBytes
    (Nat.le_trans h.handed_le h.le)
    (by rw [List.getElem?_map, List.getElem?_eq_getElem hreq, Option.map_some])
  refine ⟨h.sound, h.enabled, h.running, h.accepted, h.trp, h.size, h.holds, ?_, ?_, ?_, h.reported,
    ?_, h.valid, h.events⟩
  · dsimp only
    rw [h.rp, c.cfg.bus_next hmod, c.cfg.bus_succ_mod, List.length_append, List.length_singleton]
  · refine ⟨l, w, ?_, hlw, hw, hlimit, hwp⟩
    rw [List.length_append, List.length_singleton]
    exact hlt
  · intro k a tre hk
    dsimp only at hk
    rcases Nat.lt_or_ge k d.modem.fetched.length with hold | hnew
    · rw [List.getElem?_append_left hold] at hk
      exact h.fetched k a tre hk
    · rw [List.getElem?_append_right hnew, List.getElem?_singleton] at hk
      split_ifs at hk with hzero
      cases hk
      have heq : k = d.modem.fetched.length := by omega
      refine ⟨by rw [heq]; exact h.rp, ?_⟩
      rw [hslot, hread, Tre.ofBytes_toBytes, heq, List.getElem?_map, List.getElem?_eq_getElem hreq,
        Option.map_some]
  · have hle := h.le
    dsimp only
    rw [List.length_append]
    omega

/-- The modem reports what it has fetched. -/
theorem linked_report {r : Report} (h : Linked c d) (hd : d.report r = some d') :
    Linked c d' := by
  unfold Side.report at hd
  rw [Option.ite_none_left_eq_some, not_not, Option.map_eq_some_iff] at hd
  obtain ⟨hvalid, ⟨a, tre⟩, hlast, hd⟩ := hd
  cases hd
  obtain ⟨ha, -⟩ := h.fetched _ a tre hlast
  obtain ⟨hlt, -⟩ := List.getElem?_eq_some_iff.1 hlast
  have hcount := hvalid.1
  refine ⟨h.sound, h.enabled, h.running, h.accepted, h.trp, h.size, h.holds, h.rp, h.limits,
    h.fetched, ?_, ?_, ?_, ?_⟩
  · dsimp only
    rw [lensOf_append, lensOf_singleton, List.length_append, List.length_replicate, h.reported]
  · dsimp only
    omega
  · intro r' hr'
    rcases List.mem_append.1 hr' with hold | hnew
    · exact h.valid r' hold
    · rw [List.mem_singleton.1 hnew]
      exact hvalid
  · obtain ⟨past, coming, hreports, hevents, hhand⟩ := h.events
    refine ⟨past, coming ++ [r], ?_, ?_, hhand⟩
    · dsimp only
      rw [hreports, List.append_assoc]
    · have hreported := h.reported
      rw [hreports, lensOf_append, List.length_append] at hreported
      dsimp only
      rw [inFlight_append, hevents, ha, hreported]

/-- The channel once the loop for an event has begun. -/
def Chan.handles (c : Chan) (event : Tre) : Chan :=
  { c with busy := .loop (c.cfg.devRp event.ptr.toNat) event.evLen }

/-- The first event that is not handled points to what is outstanding. -/
theorem linked_event {e : Bytes} {es : List Bytes} (h : Linked c d) (hbusy : c.busy = .idle)
    (he : d.events = e :: es) :
    (Tre.ofBytes e).evCode ∈ [St.MHI_EV_CC_OVERFLOW, St.MHI_EV_CC_EOB, St.MHI_EV_CC_EOT]
      ∧ c.PointsAtOutstanding (Tre.ofBytes e).ptr.toNat
      ∧ ((c.handles (Tre.ofBytes e)).Sound →
        Linked (c.handles (Tre.ofBytes e)) { d with events := es }) := by
  obtain ⟨hused, hroom, -⟩ := h.sound.counts h.trp
  obtain ⟨past, coming, hreports, hevents, hhand⟩ := h.events
  cases coming with
  | nil =>
    rw [he] at hevents
    cases hevents
  | cons r coming =>
    rw [he] at hevents
    obtain ⟨rfl, rfl⟩ := List.cons.inj hevents
    have hmem : r ∈ d.reports := by
      rw [hreports]
      exact List.mem_append_right past List.mem_cons_self
    have hvalid := h.valid r hmem
    have hcount := hvalid.1
    have hidle := hhand.idle hbusy
    have hpos := c.cfg.pos
    have hmod := Nat.mod_lt ((lensOf past).length + r.count - 1) hpos
    obtain ⟨hcode, hlen, hptr⟩ := Report.event_fields hvalid (c.cfg.bus_lt hmod)
    unfold Chan.handles
    rw [Tre.ofBytes_toBytes, hcode, hlen, hptr]
    -- what is reported has been fetched, and what has been fetched was queued
    have hbound : (lensOf past).length + r.count ≤ c.accepted.length := by
      have hreported := h.reported
      have hle := h.le
      have hfetched := h.fetched_le
      have hrequests := h.length_requests
      rw [hreports, lensOf_append, lensOf_cons, List.length_append, List.length_append,
        List.length_replicate] at hreported
      omega
    have hsucc : (lensOf past).length + r.count - 1 + 1 = (lensOf past).length + r.count := by
      omega
    have hdev : c.cfg.devRp (c.cfg.bus (((lensOf past).length + r.count - 1) % c.cfg.elements))
        = c.cfg.addr (((lensOf past).length + r.count) % c.cfg.elements) := by
      rw [ChanCfg.devRp_bus hmod, c.cfg.bus_succ_mod, hsucc]
    refine ⟨hvalid.2.1, ⟨r.count - 1, by omega, ?_⟩, fun hs => ?_⟩
    · rw [h.trp, Ring.pos_mod hpos (by omega), hidle, ← Nat.add_sub_assoc hcount]
    refine ⟨hs, h.enabled, fun hreset => Busy.noConfusion hreset, h.accepted, h.trp, h.size,
      h.holds, h.rp, h.limits, h.fetched, h.reported, h.le, h.valid, past ++ [r], coming, ?_, ?_,
      ?_⟩
    · dsimp only
      rw [hreports, List.append_assoc]
      rfl
    · rw [lensOf_append, lensOf_singleton, List.length_append, List.length_replicate]
    have hall : (lensOf (past ++ [r])).length = (lensOf past).length + r.count := by
      rw [lensOf_append, lensOf_singleton, List.length_append, List.length_replicate]
    refine ⟨?_, ?_, fun hidle' => Busy.noConfusion hidle', fun devRp len hloop => ?_⟩
    · rw [hall]
      exact Nat.le_trans hhand.le (Nat.le_add_right _ _)
    · rw [lensOf_append, List.take_append_of_le_length hhand.le]
      exact hhand.lens
    · rcases hloop with hloop | hloop <;> cases hloop
      rw [hall]
      refine ⟨hdev, ?_⟩
      dsimp only
      rw [hidle, lensOf_append, lensOf_singleton, List.drop_left, Nat.add_sub_cancel_left]

/-- The loop ends when all that the event reports has been handed over. -/
theorem linked_loop {devRp len : ℕ} (h : Linked c d) (hbusy : c.busy = .loop devRp len) :
    (c.cfg.addr c.trp = devRp → { c with busy := .idle }.Sound →
        Linked { c with busy := .idle } d)
      ∧ (c.cfg.addr c.trp ≠ devRp → { c.handOver len with busy := .called devRp len }.Sound →
        Linked { c.handOver len with busy := .called devRp len } d) := by
  obtain ⟨-, hroom, -⟩ := h.sound.counts h.trp
  obtain ⟨past, coming, hreports, hevents, hhand⟩ := h.events
  obtain ⟨hdev, hdrop⟩ := hhand.loop devRp len (Or.inl hbusy)
  have hle := hhand.le
  have hbound : (lensOf past).length ≤ c.accepted.length := by
    have hreported := h.reported
    have hle' := h.le
    have hfetched := h.fetched_le
    have hrequests := h.length_requests
    rw [hreports, lensOf_append, List.length_append] at hreported
    omega
  refine ⟨fun hend hs => ?_, fun hne hs => ?_⟩
  · -- positions that agree less than a ring apart are the same
    have hall : c.handed.length = (lensOf past).length := by
      rw [hdev, ChanCfg.addr_inj, h.trp] at hend
      by_contra hne
      exact Records.mod_ne (Nat.lt_of_le_of_ne hle hne) (by omega) hend
    refine ⟨hs, h.enabled, fun hreset => Busy.noConfusion hreset, h.accepted, h.trp, h.size,
      h.holds, h.rp, h.limits, h.fetched, h.reported, h.le, h.valid, past, coming, hreports,
      hevents, hle, hhand.lens, fun _ => hall, ?_⟩
    rintro devRp' len' (hloop | hloop) <;> cases hloop
  · have hlt : c.handed.length < (lensOf past).length := by
      refine Nat.lt_of_le_of_ne hle fun heq => hne ?_
      rw [hdev, h.trp, heq]
    have hlen : ({ c.handOver len with busy := .called devRp len } : Chan).handed.length
        = c.handed.length + 1 := List.length_append
    have hnext : (lensOf past)[c.handed.length]? = some len := by
      have hzero := congrArg (fun l => l[0]?) hdrop
      rw [List.getElem?_drop, Nat.add_zero, List.getElem?_replicate, if_pos (by omega)] at hzero
      exact hzero
    refine ⟨hs, h.enabled, fun hreset => Busy.noConfusion hreset, h.accepted, ?_, h.size, ?_, h.rp,
      h.limits, h.fetched, h.reported, h.le, h.valid, past, coming, hreports, hevents, ?_, ?_,
      fun hidle => Busy.noConfusion hidle, fun devRp' len' hloop => ?_⟩
    · rw [hlen]
      change Ring.succ c.cfg.elements c.trp = _
      rw [h.trp, c.cfg.bus_succ_mod]
      rfl
    · rw [hlen]
      exact h.holds.mono (Nat.le_succ _)
    · rw [hlen]
      exact hlt
    · rw [hlen, List.take_add_one, hnext]
      change (c.handed ++ [_]).map Handed.bytesXferd = _
      rw [List.map_append, hhand.lens]
      rfl
    · rcases hloop with hloop | hloop <;> cases hloop
      refine ⟨hdev, ?_⟩
      rw [hlen, ← List.drop_drop, hdrop, List.drop_replicate, Nat.sub_sub]

theorem linked_called {devRp len : ℕ} (h : Linked c d) (hbusy : c.busy = .called devRp len)
    (hs : { c with busy := .loop devRp len }.Sound) :
    Linked { c with busy := .loop devRp len } d := by
  obtain ⟨past, coming, hreports, hevents, hhand⟩ := h.events
  refine ⟨hs, h.enabled, fun hreset => Busy.noConfusion hreset, h.accepted, h.trp, h.size, h.holds,
    h.rp, h.limits, h.fetched, h.reported, h.le, h.valid, past, coming, hreports, hevents, hhand.le,
    hhand.lens, fun hidle => Busy.noConfusion hidle, fun devRp' len' hloop => ?_⟩
  rcases hloop with hloop | hloop <;> cases hloop
  exact hhand.loop devRp len (Or.inr hbusy)

end Steps

/-! ## Runs -/

section Runs

variable {n : ℕ} {s s' : Sys n}

theorem decFor_chan (s : St n) (dir : Dir) : (s.decFor dir).chan = s.chan := by
  unfold St.decFor
  split_ifs <;> rfl

/-- Where something happens to one channel, or at its other end. -/
theorem linked_update {host : St n} {side : Fin n → Side} {i : Fin n} {c : Chan} {d : Side}
    (h : ∀ j, Linked (s.host.chan j) (s.side j))
    (hchan : host.chan = Function.update s.host.chan i c)
    (hside : side = Function.update s.side i d) (hc : Linked c d) :
    ∀ j, Linked (host.chan j) (side j) := by
  intro j
  rw [hchan, hside]
  rcases eq_or_ne j i with rfl | hne
  · rw [Function.update_self, Function.update_self]
    exact hc
  · rw [Function.update_of_ne hne, Function.update_of_ne hne]
    exact h j

theorem linked_store_call {host : St n} {i : Fin n} {buf : ℕ} {dma : Option ℕ} {r : ℕ → Request}
    (h : ∀ j, Linked (s.host.chan j) (s.side j)) (hs : ∀ j, (host.chan j).Sound)
    (hr : ∀ p, (r p).buf = buf)
    (hcall : ∃ c', host.chan = Function.update s.host.chan i c'
      ∧ Queues (if ((s.host.chan i).Full ∨ s.host.pmState.InError) ∨ dma.isSome = false then []
          else [buf]) (s.host.chan i) c') :
    ∀ j, Linked ((s.store i dma r host).host.chan j) ((s.store i dma r host).side j) := by
  obtain ⟨c', hchan, hq⟩ := hcall
  have hs' : c'.Sound := by
    have hi := hs i
    rwa [hchan, Function.update_self] at hi
  have hsame : s.side = Function.update s.side i (s.side i) := (Function.update_eq_self i _).symm
  unfold Sys.store
  dsimp only
  by_cases hrefused : (s.host.chan i).Full ∨ s.host.pmState.InError
  · rw [if_pos (Or.inl hrefused)] at hq
    rw [if_pos hrefused]
    exact linked_update h hchan hsame (linked_queues (h i) hq hs')
  rw [if_neg hrefused]
  cases dma with
  | none =>
    rw [if_pos (Or.inr Option.isSome_none)] at hq
    exact linked_update h hchan hsame (linked_queues (h i) hq hs')
  | some p =>
    rw [if_neg (by simp only [hrefused, Option.isSome_some, Bool.true_eq_false, or_self,
      not_false_eq_true]), ← hr p] at hq
    exact linked_update h hchan rfl (linked_store (h i) hq hs')

/-- The loop of `parse_xfer_event` goes on. -/
theorem linked_go {host : St n} {i : Fin n} (h : ∀ j, Linked (s.host.chan j) (s.side j))
    (hs : ∀ j, (host.chan j).Sound) (hgo : Mhi.step s.host (.go i) = some host) :
    ∀ j, Linked (host.chan j) (s.side j) := by
  have hsame : s.side = Function.update s.side i (s.side i) := (Function.update_eq_self i _).symm
  have hc : ∀ c', host.chan = Function.update s.host.chan i c' → c'.Sound := by
    intro c' hchan
    have hi := hs i
    rwa [hchan, Function.update_self] at hi
  simp only [Mhi.step, stepChan] at hgo
  rcases hbusy : (s.host.chan i).busy with _ | ⟨devRp, len⟩ | ⟨devRp, len⟩ | _ <;> rw [hbusy] at hgo
  · cases hgo
  · cases hgo
    obtain ⟨hend, hnext⟩ := linked_loop (h i) hbusy
    unfold St.xferLoop at hc ⊢
    dsimp only at hc ⊢
    split_ifs at hc ⊢ with haddr
    · exact linked_update h rfl hsame (hend haddr (hc _ rfl))
    · exact linked_update h rfl hsame (hnext haddr (hc _ rfl))
  · cases hgo
    have hchan : (s.host.xferCalled i devRp len).chan
        = Function.update s.host.chan i { s.host.chan i with busy := .loop devRp len } := by
      unfold St.xferCalled St.wakePut St.setChan
      dsimp only
      rw [decFor_chan]
    exact linked_update h hchan hsame (linked_called (h i) hbusy (hc _ hchan))
  · exact absurd hbusy (h i).running

/-- No step but an event of the modem points to a descriptor. -/
theorem points_of_internal {inp : Input n} (h : inp.Internal) (s : St n) :
    PointsAtOutstanding s inp := by
  cases inp with
  | event i code ptr len => exact fun hcode => absurd hcode h
  | _ => trivial

theorem linked_parse {i : Fin n} (h : ∀ j, Linked (s.host.chan j) (s.side j))
    (hs : s.parseEvent i = some s') : ∀ j, Linked (s'.host.chan j) (s'.side j) := by
  unfold Sys.parseEvent at hs
  rcases hevents : (s.side i).events with _ | ⟨e, es⟩ <;> rw [hevents] at hs
  · cases hs
  obtain ⟨host, hhost, rfl⟩ := Option.map_eq_some_iff.1 hs
  have hstep := hhost
  simp only [Mhi.step, Option.ite_none_right_eq_some, Option.some.injEq] at hstep
  obtain ⟨hbusy, hparse⟩ := hstep
  obtain ⟨hcode, hpoints, hlinked⟩ := linked_event (h i) hbusy hevents
  have hok : PointsAtOutstanding s.host (.event i (Tre.ofBytes e).evCode
      (Tre.ofBytes e).ptr.toNat (Tre.ofBytes e).evLen) := fun _ => hpoints
  have hsound := sound_all s.host _ host (fun j => (h j).sound) hok hhost
  have hchan : host.chan
      = Function.update s.host.chan i ((s.host.chan i).handles (Tre.ofBytes e)) := by
    rw [← hparse]
    have hdb : (Tre.ofBytes e).evCode ∉ [St.MHI_EV_CC_OOB, St.MHI_EV_CC_DB_MODE] :=
      St.not_dbMode_of_xfer hcode
    rw [show s.host.asked i (Tre.ofBytes e).evCode = s.host from if_neg hdb]
    unfold St.parseXferEvent
    dsimp only
    rw [if_neg (not_not.2 (h i).enabled), if_pos hcode]
    rfl
  have hi := hsound i
  rw [hchan, Function.update_self] at hi
  exact linked_update h hchan rfl (hlinked hi)

theorem linked_step (s : Sys n) (a : Act n) (s' : Sys n)
    (h : ∀ j, Linked (s.host.chan j) (s.side j)) (hs : s.step a = some s') :
    ∀ j, Linked (s'.host.chan j) (s'.side j) := by
  have hsound : ∀ j, (s.host.chan j).Sound := fun j => (h j).sound
  have hsame : ∀ i, s.host.chan = Function.update s.host.chan i (s.host.chan i) :=
    fun i => (Function.update_eq_self i _).symm
  cases a with
  | queueSkb i buf len dma =>
    cases hs
    exact linked_store_call h
      (sound_all s.host (.queueSkb i buf len dma.isSome) _ hsound trivial rfl) (fun _ => rfl)
      (queueSkb_chan s.host i buf len dma.isSome)
  | genTre i buf len dma flags =>
    cases hs
    exact linked_store_call h
      (sound_all s.host (.genTre i buf len dma.isSome) _ hsound trivial rfl) (fun _ => rfl)
      (genTre_chan s.host i buf len dma.isSome)
  | host inp =>
    simp only [Sys.step, Option.ite_none_right_eq_some, Option.map_eq_some_iff] at hs
    obtain ⟨hinp, host, hhost, rfl⟩ := hs
    have hsound' := sound_all s.host inp host hsound (points_of_internal hinp s.host) hhost
    by_cases hgo : ∃ i, inp = .go i
    · obtain ⟨i, rfl⟩ := hgo
      exact linked_go (s := s) h hsound' hhost
    · have hq := queues_internal hinp (fun i heq => hgo ⟨i, heq⟩) hhost
      exact fun j => linked_queues (h j) (hq j) (hsound' j)
  | look i =>
    cases hs
    exact linked_update h (hsame i) rfl (linked_look (h i))
  | fetch i =>
    obtain ⟨d, hd, rfl⟩ := Option.map_eq_some_iff.1 hs
    exact linked_update h (hsame i) rfl (linked_fetch (h i) hd)
  | report i r =>
    obtain ⟨d, hd, rfl⟩ := Option.map_eq_some_iff.1 hs
    exact linked_update h (hsame i) rfl (linked_report (h i) hd)
  | event i => exact linked_parse h hs

theorem linked_start (cfg : ChanCfg) (intmod : Bool) : Linked cfg.start (cfg.side intmod) where
  sound := Chan.sound_start cfg
  enabled := rfl
  running := fun h => Busy.noConfusion h
  accepted := rfl
  trp := (Nat.zero_mod _).symm
  size := List.length_replicate
  holds := Records.holds_nil
  rp := by
    change cfg.iommuBase = cfg.bus (0 % cfg.elements)
    rw [Nat.zero_mod]
    rfl
  limits := by
    refine ⟨0, 0, Nat.le_refl 0, Nat.le_refl 0, Nat.le_refl 0, ?_, ?_⟩
    · rw [Nat.zero_mod]
      rfl
    · rw [Nat.zero_mod]
      rfl
  fetched := fun k a tre h => by
    change ([] : List (ℕ × Tre))[k]? = some (a, tre) at h
    rw [List.getElem?_nil] at h
    cases h
  reported := rfl
  le := Nat.le_refl 0
  valid := fun r h => absurd h List.not_mem_nil
  events := ⟨[], [], rfl, rfl, Nat.le_refl 0, rfl, fun _ => rfl, by
    rintro devRp len (h | h) <;> cases h⟩

/-- Whatever the driver and the modem do in whatever order: what the modem has fetched are the
descriptors of the buffers that were accepted, as they were stored and in their order; and what has
been handed over are these buffers in the same order, each with the length that was reported for it,
and none before it was fetched and reported. Once no event is left, all that was reported has been
handed over. -/
theorem channel_run {cfg : Fin n → ChanCfg} {intmod : Fin n → Bool} {pm : PmState} {dev : DevState}
    {acts : List (Act n)} {s : Sys n}
    (hrun : Runs.exec Sys.step (Sys.initial cfg intmod pm dev) acts = some s) (i : Fin n) :
    (s.side i).requests.map (·.buf) = (s.host.chan i).accepted
      ∧ (s.side i).modem.fetched.map (·.2) <+: (s.side i).requests.map Request.tre
      ∧ (s.host.chan i).handed <+:
        List.zipWith Handed.mk (s.host.chan i).accepted (lensOf (s.side i).reports)
      ∧ (lensOf (s.side i).reports).length ≤ (s.side i).modem.fetched.length
      ∧ ((s.side i).events = [] → (s.host.chan i).busy = .idle →
        (s.host.chan i).handed.length = (lensOf (s.side i).reports).length) := by
  have h : Linked (s.host.chan i) (s.side i) :=
    Runs.exec_keeps linked_step (fun j => linked_start (cfg j) (intmod j)) hrun i
  obtain ⟨past, coming, hreports, hevents, hhand⟩ := h.events
  refine ⟨h.accepted, ?_, ?_, ?_, fun hnone hidle => ?_⟩
  · refine List.prefix_iff_getElem?.2 fun k hk => ?_
    rw [List.length_map] at hk
    rw [List.getElem_map]
    exact (h.fetched k _ _ (List.getElem?_eq_getElem hk)).2
  · have hbufs : (s.host.chan i).handed.map (·.buf)
        = (s.host.chan i).accepted.take (s.host.chan i).handed.length := by
      rw [← h.sound.queue, ← List.length_map (·.buf), List.take_left]
    have hlens : (s.host.chan i).handed.map (·.bytesXferd)
        = (lensOf (s.side i).reports).take (s.host.chan i).handed.length := by
      rw [hreports, lensOf_append, List.take_append_of_le_length hhand.le]
      exact hhand.lens
    have hzip : (s.host.chan i).handed = List.zipWith Handed.mk
        ((s.host.chan i).handed.map (·.buf)) ((s.host.chan i).handed.map (·.bytesXferd)) := by
      rw [List.zipWith_map, List.zipWith_self]
      exact (List.map_id _).symm
    rw [hzip, hbufs, hlens, ← List.take_zipWith]
    exact List.take_prefix _ _
  · rw [← h.reported]
    exact h.le
  · rw [hevents] at hnone
    cases coming with
    | nil =>
      rw [hreports, List.append_nil]
      exact hhand.idle hidle
    | cons r coming => cases hnone

/-- Two buffers are queued and fetched, and reported by one event; a third is queued and fetched
before the driver gets to the event. -/
def oneEventForTwo : List (Act 1) :=
  [.queueSkb theChan 11 100 (some 65536), .genTre theChan 12 70000 (some 131072) .mhiEot,
    .host (.queueBuf theChan), .look theChan, .fetch theChan, .fetch theChan,
    .report theChan ⟨2, 2, 4464⟩, .queueSkb theChan 13 300 (some 262144), .look theChan,
    .fetch theChan, .event theChan, .host (.go theChan), .host (.go theChan), .host (.go theChan),
    .host (.go theChan), .host (.go theChan)]

theorem channel_run_oneEventForTwo : ∃ s,
    Runs.exec Sys.step (Sys.initial (fun _ : Fin 1 => fourElements) (fun _ => false) .m0 .m0)
        oneEventForTwo = some s
      ∧ (s.host.chan 0).handed <+:
        List.zipWith Handed.mk (s.host.chan 0).accepted (lensOf (s.side 0).reports)
      ∧ (s.host.chan 0).accepted = [11, 12, 13]
      ∧ (s.host.chan 0).handed = [⟨11, 4464⟩, ⟨12, 4464⟩]
      ∧ (s.side 0).modem.fetched.length = 3 :=
  ⟨_, rfl, (@channel_run 1 (fun _ => fourElements) (fun _ => false) .m0 .m0 oneEventForTwo _ rfl
    0).2.2.1, by decide, by decide, by decide⟩

end Runs

end Mhi

end BananaWrt
