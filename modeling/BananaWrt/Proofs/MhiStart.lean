import BananaWrt.MhiStart
import Mathlib.Data.List.Basic

/-!
# Starting a channel is all or nothing

Every block that a call has allocated is the channel's (`blocks`) or has been freed (`Accounted`).
The tear-down frees what is the channel's, so that after a failed start all that the call has
allocated is freed, once (`Released`). Each label drops the references that were taken before it,
and leaves the other channels alone (`Keeps`).
-/

namespace BananaWrt

namespace MhiStart

variable {cfgs : ℕ → ChanCfg} {ch : ℕ} {s s' s₀ : Ctl}

namespace Ctl

@[simp] theorem chan_kfree (block : Option ℕ) : (s.kfree block).chan = s.chan := rfl

@[simp] theorem set_chan_self (c : MhiChan) : (s.set ch c).chan ch = c := Function.update_self ..

theorem set_chan_of_ne {ch' : ℕ} (h : ch' ≠ ch) (c : MhiChan) :
    (s.set ch c).chan ch' = s.chan ch' := by
  unfold set
  exact Function.update_of_ne h c s.chan

/-- What a command takes, it gives back. -/
theorem refs_of_command (s : Ctl) : s.wakeGet.runtimeGet.runtimePut.wakePut = s := by
  simp [wakeGet, runtimeGet, runtimePut, wakePut]

end Ctl

theorem neg_ENOMEM : - ENOMEM < 0 := by decide

theorem neg_ENOTCONN : - ENOTCONN < 0 := by decide

theorem neg_eio : - EIO < 0 := by decide

/-- The other channels, and the references. -/
structure Keeps (ch : ℕ) (s s' : Ctl) : Prop where
  chan : ∀ ch' ≠ ch, s'.chan ch' = s.chan ch'
  wake : s'.wake = s.wake
  runtime : s'.runtime = s.runtime
  pendingPkts : s'.pendingPkts = s.pendingPkts

theorem Keeps.refl (ch : ℕ) (s : Ctl) : Keeps ch s s := ⟨fun _ _ => rfl, rfl, rfl, rfl⟩

theorem Keeps.trans {s'' : Ctl} (h : Keeps ch s s') (h' : Keeps ch s' s'') : Keeps ch s s'' where
  chan ch' hne := (h'.chan ch' hne).trans (h.chan ch' hne)
  wake := h'.wake.trans h.wake
  runtime := h'.runtime.trans h.runtime
  pendingPkts := h'.pendingPkts.trans h.pendingPkts

theorem Keeps.set (h : Keeps ch s s') (c : MhiChan) : Keeps ch s (s'.set ch c) where
  chan ch' hne := (Ctl.set_chan_of_ne hne c).trans (h.chan ch' hne)
  wake := h.wake
  runtime := h.runtime
  pendingPkts := h.pendingPkts

theorem Keeps.kfree (h : Keeps ch s s') (block : Option ℕ) : Keeps ch s (s'.kfree block) :=
  ⟨h.chan, h.wake, h.runtime, h.pendingPkts⟩

/-- The array of `buf_ring`, and the buffers that the driver has put on the ring. -/
def blocks (cfg : ChanCfg) (c : MhiChan) : List ℕ :=
  if cfg.offloadCh then []
  else c.bufBase.toList
    ++ if cfg.preAlloc then Ring.contents c.slots cfg.elements c.brp c.bwp else []

/-- Every block allocated since `s₀` is the channel's or has been freed, once. -/
structure Accounted (cfgs : ℕ → ChanCfg) (ch : ℕ) (s₀ s : Ctl) : Prop where
  next_le : s₀.next ≤ s.next
  perm : (s.freed ++ blocks (cfgs ch) (s.chan ch)).Perm
    (s₀.freed ++ List.range' s₀.next (s.next - s₀.next))

/-- Every block allocated since `s₀` has been freed, once. -/
structure Released (s₀ s : Ctl) : Prop where
  next_le : s₀.next ≤ s.next
  perm : s.freed.Perm (s₀.freed ++ List.range' s₀.next (s.next - s₀.next))

theorem Released.refl (s : Ctl) : Released s s where
  next_le := Nat.le_refl _
  perm := by rw [Nat.sub_self, List.range'_zero, List.append_nil]

theorem range'_split {a b d : ℕ} (hab : a ≤ b) (hbd : b ≤ d) :
    List.range' a (b - a) ++ List.range' b (d - b) = List.range' a (d - a) := by
  have h := List.range'_append_1 (s := a) (m := b - a) (n := d - b)
  rw [Nat.add_sub_cancel' hab] at h
  rw [h]
  congr 1
  omega

/-- What another channel takes and gives back in the meantime. -/
theorem Accounted.released (h : Accounted cfgs ch s₀ s) (hr : Released s s')
    (hchan : s'.chan ch = s.chan ch) : Accounted cfgs ch s₀ s' where
  next_le := Nat.le_trans h.next_le hr.next_le
  perm := by
    rw [hchan, ← range'_split h.next_le hr.next_le, ← List.append_assoc]
    refine (hr.perm.append_right _).trans ?_
    rw [List.append_assoc]
    refine (List.perm_append_comm.append_left _).trans ?_
    rw [← List.append_assoc]
    exact h.perm.append_right _

/-- The same channel and the same blocks. -/
theorem Accounted.congr (h : Accounted cfgs ch s₀ s) (hnext : s'.next = s.next)
    (hfreed : s'.freed = s.freed)
    (hblocks : blocks (cfgs ch) (s'.chan ch) = blocks (cfgs ch) (s.chan ch)) :
    Accounted cfgs ch s₀ s' where
  next_le := hnext ▸ h.next_le
  perm := by
    rw [hfreed, hblocks, hnext]
    exact h.perm

/-- A block is allocated, and is the channel's or is freed. -/
theorem Accounted.kmalloc (h : Accounted cfgs ch s₀ s) (hnext : s'.next = s.next + 1)
    (hperm : (s'.freed ++ blocks (cfgs ch) (s'.chan ch)).Perm
      (s.freed ++ blocks (cfgs ch) (s.chan ch) ++ [s.next])) : Accounted cfgs ch s₀ s' where
  next_le := by
    have := h.next_le
    omega
  perm := by
    have hle := h.next_le
    refine hperm.trans ?_
    rw [hnext, Nat.succ_sub hle, List.range'_1_concat, Nat.add_sub_cancel' hle, ← List.append_assoc]
    exact h.perm.append_right _

/-- The two rings go together. -/
structure Rings (cfg : ChanCfg) (c : MhiChan) : Prop where
  brp : c.brp = c.trp
  bwp : c.bwp = c.twp
  trp_lt : c.trp < cfg.elements
  twp_lt : c.twp < cfg.elements

/-- A channel that has been started and on which no client has queued a buffer. -/
structure Prepared (cfg : ChanCfg) (c : MhiChan) : Prop where
  chState : c.chState = .enabled
  rings : ¬ cfg.offloadCh → Rings cfg c
  idle : ¬ cfg.offloadCh → ¬ cfg.preAlloc → c.trp = c.twp

theorem ChanCfg.elements_pos {cfg : ChanCfg} (h : ¬ cfg.offloadCh) : 0 < cfg.elements :=
  Nat.pos_of_ne_zero h

theorem ChanCfg.not_offloadCh {cfg : ChanCfg} (h : cfg.preAlloc) : ¬ cfg.offloadCh := by
  intro hoff
  have hdir := cfg.offload_iff.1 hoff
  rw [cfg.preAlloc_dir h] at hdir
  cases hdir

/-- The step of a loop over the ring: what the channel has and what has been freed add up as
before. -/
structure Turns (cfgs : ℕ → ChanCfg) (ch : ℕ) (s s' : Ctl) : Prop where
  keeps : Keeps ch s s'
  chState : (s'.chan ch).chState = (s.chan ch).chState
  accounted : ∀ s₀, Accounted cfgs ch s₀ s → Accounted cfgs ch s₀ s'

theorem Turns.refl (cfgs : ℕ → ChanCfg) (ch : ℕ) (s : Ctl) : Turns cfgs ch s s :=
  ⟨Keeps.refl ch s, rfl, fun _ h => h⟩

theorem Turns.trans {s'' : Ctl} (h : Turns cfgs ch s s') (h' : Turns cfgs ch s' s'') :
    Turns cfgs ch s s'' where
  keeps := h.keeps.trans h'.keeps
  chState := h'.chState.trans h.chState
  accounted s₀ hacc := h'.accounted s₀ (h.accounted s₀ hacc)

theorem blocks_preAlloc {cfg : ChanCfg} (hpre : cfg.preAlloc) (c : MhiChan) :
    blocks cfg c = c.bufBase.toList ++ Ring.contents c.slots cfg.elements c.brp c.bwp := by
  unfold blocks
  rw [if_neg (ChanCfg.not_offloadCh hpre), if_pos hpre]

/-- The first buffer on the ring is freed. -/
def popped (cfg : ChanCfg) (ch : ℕ) (s : Ctl) : Ctl :=
  let c := s.chan ch
  (s.set ch { c with brp := Ring.succ cfg.elements c.brp, trp := Ring.succ cfg.elements c.trp }).kfree
    (some (c.slots c.brp))

theorem chan_popped (cfg : ChanCfg) (ch : ℕ) (s : Ctl) :
    (popped cfg ch s).chan ch = { s.chan ch with
      brp := Ring.succ cfg.elements (s.chan ch).brp
      trp := Ring.succ cfg.elements (s.chan ch).trp } :=
  Ctl.set_chan_self _

theorem mhiResetDataChan_succ (hpre : (cfgs ch).preAlloc) (hne : (s.chan ch).trp ≠ (s.chan ch).twp)
    (fuel : ℕ) : mhiResetDataChan cfgs ch (fuel + 1) s
      = mhiResetDataChan cfgs ch fuel (popped (cfgs ch) ch s) := by
  have hdir : (cfgs ch).dir ≠ .toDevice := by
    rw [(cfgs ch).preAlloc_dir hpre]
    nofun
  rw [mhiResetDataChan]
  dsimp only
  rw [if_neg hne, if_neg hdir, if_pos hpre]
  rfl

theorem turns_popped (hpre : (cfgs ch).preAlloc) (hr : Rings (cfgs ch) (s.chan ch))
    (hne : (s.chan ch).trp ≠ (s.chan ch).twp) : Turns cfgs ch s (popped (cfgs ch) ch s) where
  keeps := ((Keeps.refl ch s).set _).kfree _
  chState := by rw [chan_popped]
  accounted s₀ h := by
    have hpop := Ring.contents_pop (s.chan ch).slots (hr.brp ▸ hr.trp_lt) (hr.bwp ▸ hr.twp_lt)
      (by rw [hr.brp, hr.bwp]; exact hne)
    refine ⟨h.next_le, List.Perm.trans ?_ h.perm⟩
    rw [blocks_preAlloc hpre, blocks_preAlloc hpre, chan_popped]
    dsimp only
    rw [hpop]
    change (s.freed ++ [_] ++ _).Perm _
    rw [List.append_assoc, List.singleton_append]
    exact List.perm_middle.symm.append_left _

/-- The loop frees the buffers on the ring. -/
theorem mhiResetDataChan_spec : ∀ (fuel : ℕ) {s : Ctl}, Rings (cfgs ch) (s.chan ch) →
    (¬ (cfgs ch).preAlloc → (s.chan ch).trp = (s.chan ch).twp) →
    Ring.used (cfgs ch).elements (s.chan ch).trp (s.chan ch).twp ≤ fuel →
      Turns cfgs ch s (mhiResetDataChan cfgs ch fuel s)
        ∧ ((mhiResetDataChan cfgs ch fuel s).chan ch).brp
          = ((mhiResetDataChan cfgs ch fuel s).chan ch).bwp
  | 0, s, hr, _, hfuel => by
    have heq : (s.chan ch).trp = (s.chan ch).twp :=
      (Ring.used_eq_zero_iff hr.trp_lt).1 (Nat.le_zero.1 hfuel)
    refine ⟨Turns.refl cfgs ch s, ?_⟩
    change (s.chan ch).brp = (s.chan ch).bwp
    rw [hr.brp, hr.bwp, heq]
  | fuel + 1, s, hr, hidle, hfuel => by
    by_cases heq : (s.chan ch).trp = (s.chan ch).twp
    · rw [mhiResetDataChan]
      dsimp only
      rw [if_pos heq]
      refine ⟨Turns.refl cfgs ch s, ?_⟩
      rw [hr.brp, hr.bwp, heq]
    · have hpre : (cfgs ch).preAlloc := by
        by_contra hno
        exact heq (hidle hno)
      have hrings : Rings (cfgs ch) ((popped (cfgs ch) ch s).chan ch) := by
        rw [chan_popped]
        exact ⟨congrArg (Ring.succ _) hr.brp, hr.bwp, Ring.succ_lt (Nat.zero_lt_of_lt hr.trp_lt),
          hr.twp_lt⟩
      have hused := Ring.used_pop hr.trp_lt hr.twp_lt heq
      rw [mhiResetDataChan_succ hpre heq]
      obtain ⟨hturns, hempty⟩ := mhiResetDataChan_spec fuel hrings (fun hno => absurd hpre hno) (by
        rw [chan_popped]
        dsimp only
        omega)
      exact ⟨(turns_popped hpre hr heq).trans hturns, hempty⟩

theorem mhiDeinitChanCtxt_keeps (ch : ℕ) (s : Ctl) : Keeps ch s (mhiDeinitChanCtxt ch s) :=
  ((Keeps.refl ch s).kfree _).set _

/-- With no buffers on the ring, the array is all that is left to be freed. -/
theorem Accounted.deinit (h : Accounted cfgs ch s₀ s) (hoff : ¬ (cfgs ch).offloadCh)
    (hempty : (s.chan ch).brp = (s.chan ch).bwp) : Released s₀ (mhiDeinitChanCtxt ch s) where
  next_le := h.next_le
  perm := by
    have hblocks : blocks (cfgs ch) (s.chan ch) = (s.chan ch).bufBase.toList := by
      unfold blocks
      rw [if_neg hoff, hempty, Ring.contents_self, ite_self, List.append_nil]
    have hperm := h.perm
    rw [hblocks] at hperm
    exact hperm

/-- Whatever comes of the command. -/
theorem mhiUnprepareChannel_enabled (hen : (s.chan ch).chState = .enabled) (inErrorState : Bool) :
    mhiUnprepareChannel cfgs ch inErrorState s
      = if (cfgs ch).offloadCh then s.set ch { s.chan ch with chState := .disabled }
        else mhiDeinitChanCtxt ch (mhiResetDataChan cfgs ch (cfgs ch).elements
          (s.set ch { s.chan ch with chState := .disabled })) := by
  unfold mhiUnprepareChannel
  dsimp only
  rw [if_neg (not_not_intro hen), Ctl.refs_of_command, ite_self]

/-- An offload channel has no blocks. -/
theorem Accounted.offload (h : Accounted cfgs ch s₀ s) (hoff : (cfgs ch).offloadCh) :
    Released s₀ s where
  next_le := h.next_le
  perm := by
    have hperm := h.perm
    unfold blocks at hperm
    rw [if_pos hoff, List.append_nil] at hperm
    exact hperm

/-- A channel that has been started is taken down. -/
theorem mhiUnprepareChannel_spec (hp : Prepared (cfgs ch) (s.chan ch)) (inErrorState : Bool) :
    Keeps ch s (mhiUnprepareChannel cfgs ch inErrorState s)
      ∧ ((mhiUnprepareChannel cfgs ch inErrorState s).chan ch).chState = .disabled
      ∧ ∀ s₀, Accounted cfgs ch s₀ s →
        Released s₀ (mhiUnprepareChannel cfgs ch inErrorState s) := by
  rw [mhiUnprepareChannel_enabled hp.chState]
  generalize hs₁ : s.set ch { s.chan ch with chState := .disabled } = s₁
  have hchan : s₁.chan ch = { s.chan ch with chState := .disabled } := by
    rw [← hs₁]
    exact Ctl.set_chan_self _
  have hkeeps : Keeps ch s s₁ := by
    rw [← hs₁]
    exact (Keeps.refl ch s).set _
  have hacc : ∀ s₀, Accounted cfgs ch s₀ s → Accounted cfgs ch s₀ s₁ := by
    intro s₀ h
    refine h.congr ?_ ?_ ?_
    · rw [← hs₁]
      rfl
    · rw [← hs₁]
      rfl
    · rw [hchan]
      rfl
  by_cases hoff : (cfgs ch).offloadCh
  · rw [if_pos hoff]
    refine ⟨hkeeps, ?_, fun s₀ h => (hacc s₀ h).offload hoff⟩
    rw [hchan]
  · rw [if_neg hoff]
    have hr := hp.rings hoff
    have hr₁ : Rings (cfgs ch) (s₁.chan ch) := by
      rw [hchan]
      exact ⟨hr.brp, hr.bwp, hr.trp_lt, hr.twp_lt⟩
    obtain ⟨hturns, hempty⟩ := mhiResetDataChan_spec (cfgs ch).elements hr₁
      (by rw [hchan]; exact hp.idle hoff) (Nat.le_of_lt (Ring.used_lt hr₁.trp_lt hr₁.twp_lt))
    refine ⟨(hkeeps.trans hturns.keeps).trans (mhiDeinitChanCtxt_keeps ch _), ?_, fun s₀ h =>
      (hturns.accounted s₀ (hacc s₀ h)).deinit hoff hempty⟩
    unfold mhiDeinitChanCtxt
    rw [Ctl.set_chan_self]
    change ((mhiResetDataChan cfgs ch _ s₁).chan ch).chState = _
    rw [hturns.chState, hchan]

/-! ## Starting a channel -/

/-- A channel whose rings have been set up and are empty. -/
structure Ready (cfg : ChanCfg) (c : MhiChan) : Prop where
  chState : c.chState = .disabled
  rings : ¬ cfg.offloadCh → Rings cfg c
  empty : ¬ cfg.offloadCh → c.trp = c.twp

/-- The rings have been set up. -/
def ringsSet (cfg : ChanCfg) (ch : ℕ) (s : Ctl) : Ctl :=
  s.kmalloc.set ch ((s.chan ch).setUp cfg s.next)

theorem chan_ringsSet (cfg : ChanCfg) (ch : ℕ) (s : Ctl) :
    (ringsSet cfg ch s).chan ch = (s.chan ch).setUp cfg s.next :=
  Ctl.set_chan_self _

theorem keeps_ringsSet (cfg : ChanCfg) (ch : ℕ) (s : Ctl) : Keeps ch s (ringsSet cfg ch s) :=
  ⟨fun _ hne => Ctl.set_chan_of_ne hne _, rfl, rfl, rfl⟩

theorem ready_ringsSet (hdis : (s.chan ch).chState = .disabled) (hoff : ¬ (cfgs ch).offloadCh) :
    Ready (cfgs ch) ((ringsSet (cfgs ch) ch s).chan ch) := by
  have hpos := ChanCfg.elements_pos hoff
  rw [chan_ringsSet]
  exact ⟨hdis, fun _ => ⟨rfl, rfl, hpos, hpos⟩, fun _ => rfl⟩

theorem accounted_ringsSet (hoff : ¬ (cfgs ch).offloadCh) (s : Ctl) :
    Accounted cfgs ch s (ringsSet (cfgs ch) ch s) where
  next_le := Nat.le_succ _
  perm := by
    have hblocks : blocks (cfgs ch) ((ringsSet (cfgs ch) ch s).chan ch) = [s.next] := by
      rw [chan_ringsSet]
      unfold blocks MhiChan.setUp
      rw [if_neg hoff, Ring.contents_self, ite_self]
      rfl
    have hnext : (ringsSet (cfgs ch) ch s).next = s.next + 1 := rfl
    rw [hblocks, hnext, Nat.add_sub_cancel_left]
    exact List.Perm.refl _

theorem succ_ne_of_used {n rp wp : ℕ} (h : Ring.used n rp wp + 1 < n) : Ring.succ n wp ≠ rp := by
  intro heq
  have hwp : wp < n := by
    by_contra hge
    unfold Ring.used at h
    unfold Ring.succ at heq
    split_ifs at h heq <;> omega
  have hfull := Ring.used_pop_empty hwp
  rw [heq] at hfull
  omega

/-- A new buffer is put on the ring. -/
def pushed (cfg : ChanCfg) (ch : ℕ) (s : Ctl) : Ctl :=
  let c := s.chan ch
  s.kmalloc.set ch { c with
    slots := Function.update c.slots c.bwp s.next
    twp := Ring.succ cfg.elements c.twp
    bwp := Ring.succ cfg.elements c.bwp }

/-- A new buffer that cannot be mapped is freed. -/
def unmapped (ch : ℕ) (s : Ctl) : Ctl :=
  let c := s.chan ch
  (s.kmalloc.set ch { c with slots := Function.update c.slots c.bwp s.next }).kfree (some s.next)

theorem chan_pushed (cfg : ChanCfg) (ch : ℕ) (s : Ctl) :
    (pushed cfg ch s).chan ch = { s.chan ch with
      slots := Function.update (s.chan ch).slots (s.chan ch).bwp s.next
      twp := Ring.succ cfg.elements (s.chan ch).twp
      bwp := Ring.succ cfg.elements (s.chan ch).bwp } :=
  Ctl.set_chan_self _

theorem chan_unmapped (ch : ℕ) (s : Ctl) : (unmapped ch s).chan ch = { s.chan ch with
    slots := Function.update (s.chan ch).slots (s.chan ch).bwp s.next } :=
  Ctl.set_chan_self _

theorem preAllocLoop_pushed {buffers : ℕ → BufferEnv} {nrEl : ℕ} (hbuf : (buffers nrEl).allocated)
    (hmap : (buffers nrEl).mapped) (s : Ctl) : preAllocLoop cfgs ch buffers (nrEl + 1) s
      = preAllocLoop cfgs ch buffers nrEl (pushed (cfgs ch) ch s) := by
  rw [preAllocLoop, if_neg (not_not_intro hbuf)]
  unfold mhiGenTre
  rw [if_pos hmap]
  rfl

theorem preAllocLoop_unmapped {buffers : ℕ → BufferEnv} {nrEl : ℕ}
    (hbuf : (buffers nrEl).allocated) (hmap : ¬ (buffers nrEl).mapped) (s : Ctl) :
    preAllocLoop cfgs ch buffers (nrEl + 1) s = (unmapped ch s, - ENOMEM) := by
  rw [preAllocLoop, if_neg (not_not_intro hbuf)]
  unfold mhiGenTre
  rw [if_neg hmap]
  rfl

theorem preAllocLoop_stops {buffers : ℕ → BufferEnv} {nrEl : ℕ}
    (hbuf : ¬ (buffers nrEl).allocated) (s : Ctl) :
    preAllocLoop cfgs ch buffers (nrEl + 1) s = (s, - ENOMEM) := by
  rw [preAllocLoop]
  exact if_pos hbuf

theorem Rings.pushed (hr : Rings (cfgs ch) (s.chan ch)) :
    Rings (cfgs ch) ((pushed (cfgs ch) ch s).chan ch) := by
  rw [chan_pushed]
  exact ⟨hr.brp, congrArg (Ring.succ _) hr.bwp, hr.trp_lt,
    Ring.succ_lt (Nat.zero_lt_of_lt hr.trp_lt)⟩

/-- The channel has the new buffer. -/
theorem turns_pushed (hpre : (cfgs ch).preAlloc) (hr : Rings (cfgs ch) (s.chan ch))
    (hfull : Ring.succ (cfgs ch).elements (s.chan ch).twp ≠ (s.chan ch).trp) :
    Turns cfgs ch s (pushed (cfgs ch) ch s) where
  keeps := ⟨fun _ hne => Ctl.set_chan_of_ne hne _, rfl, rfl, rfl⟩
  chState := by rw [chan_pushed]
  accounted s₀ h := by
    have hbrp : (s.chan ch).brp < (cfgs ch).elements := hr.brp ▸ hr.trp_lt
    have hbwp : (s.chan ch).bwp < (cfgs ch).elements := hr.bwp ▸ hr.twp_lt
    have hpush := Ring.contents_push (Function.update (s.chan ch).slots (s.chan ch).bwp s.next)
      hbrp hbwp (by rw [hr.brp, hr.bwp]; exact hfull)
    refine h.kmalloc rfl ?_
    rw [blocks_preAlloc hpre, blocks_preAlloc hpre, chan_pushed]
    dsimp only
    rw [hpush, Ring.contents_update _ hbrp hbwp, Function.update_self]
    change (s.freed ++ _).Perm _
    rw [List.append_assoc, List.append_assoc]

theorem turns_unmapped (hpre : (cfgs ch).preAlloc) (hr : Rings (cfgs ch) (s.chan ch)) :
    Turns cfgs ch s (unmapped ch s) where
  keeps := ⟨fun _ hne => Ctl.set_chan_of_ne hne _, rfl, rfl, rfl⟩
  chState := by rw [chan_unmapped]
  accounted s₀ h := by
    refine h.kmalloc rfl ?_
    rw [blocks_preAlloc hpre, blocks_preAlloc hpre, chan_unmapped]
    dsimp only
    rw [Ring.contents_update _ (hr.brp ▸ hr.trp_lt) (hr.bwp ▸ hr.twp_lt)]
    change (s.freed ++ [s.next] ++ _).Perm _
    rw [List.append_assoc, List.append_assoc]
    exact List.perm_append_comm.append_left _

/-- Each buffer that is put on the ring is a new block, which the channel has, or which is freed if
it cannot be mapped. -/
theorem preAllocLoop_spec (hpre : (cfgs ch).preAlloc) (buffers : ℕ → BufferEnv) :
    ∀ (nrEl : ℕ) {s : Ctl}, Rings (cfgs ch) (s.chan ch) →
    Ring.used (cfgs ch).elements (s.chan ch).trp (s.chan ch).twp + nrEl < (cfgs ch).elements →
      Turns cfgs ch s (preAllocLoop cfgs ch buffers nrEl s).1
        ∧ Rings (cfgs ch) ((preAllocLoop cfgs ch buffers nrEl s).1.chan ch)
        ∧ ((preAllocLoop cfgs ch buffers nrEl s).2 = 0
          ∨ (preAllocLoop cfgs ch buffers nrEl s).2 < 0)
  | 0, s, hr, _ => ⟨Turns.refl cfgs ch s, hr, .inl rfl⟩
  | nrEl + 1, s, hr, hroom => by
    by_cases hbuf : (buffers nrEl).allocated
    · by_cases hmap : (buffers nrEl).mapped
      · have hfull : Ring.succ (cfgs ch).elements (s.chan ch).twp ≠ (s.chan ch).trp :=
          succ_ne_of_used (by omega)
        have hused := Ring.used_push hr.trp_lt hr.twp_lt hfull
        rw [preAllocLoop_pushed hbuf hmap]
        obtain ⟨hturns, hrings, hret⟩ := preAllocLoop_spec hpre buffers nrEl hr.pushed (by
          rw [chan_pushed]
          dsimp only
          omega)
        exact ⟨(turns_pushed hpre hr hfull).trans hturns, hrings, hret⟩
      · rw [preAllocLoop_unmapped hbuf hmap]
        refine ⟨turns_unmapped hpre hr, ?_, .inr neg_ENOMEM⟩
        dsimp only
        rw [chan_unmapped]
        exact ⟨hr.brp, hr.bwp, hr.trp_lt, hr.twp_lt⟩
    · rw [preAllocLoop_stops hbuf]
      exact ⟨Turns.refl cfgs ch s, hr, .inr neg_ENOMEM⟩

/-- The labels `error_pm_state` and `error_send_cmd`. -/
theorem errorPmState_spec (hready : Ready (cfgs ch) (s.chan ch))
    (hacc : Accounted cfgs ch s₀ s) :
    Keeps ch s (errorPmState cfgs ch s)
      ∧ ((errorPmState cfgs ch s).chan ch).chState = .disabled
      ∧ Released s₀ (errorPmState cfgs ch s) := by
  unfold errorPmState
  by_cases hoff : (cfgs ch).offloadCh
  · rw [if_pos hoff]
    exact ⟨Keeps.refl ch s, hready.chState, hacc.offload hoff⟩
  · rw [if_neg hoff]
    have hr := hready.rings hoff
    refine ⟨mhiDeinitChanCtxt_keeps ch s, ?_, hacc.deinit hoff ?_⟩
    · unfold mhiDeinitChanCtxt
      rw [Ctl.set_chan_self]
      exact hready.chState
    · rw [hr.brp, hr.bwp, hready.empty hoff]

/-- What a call comes to: the channel is started, or there is nothing left of it. -/
def AllOrNothing (cfgs : ℕ → ChanCfg) (ch : ℕ) (s₀ : Ctl) (r : Ctl × ℤ) : Prop :=
  (r.2 = 0 ∧ Prepared (cfgs ch) (r.1.chan ch) ∧ Accounted cfgs ch s₀ r.1)
    ∨ (r.2 < 0 ∧ (r.1.chan ch).chState = .disabled ∧ Released s₀ r.1)

theorem getNrAvailRingElements_self {n p : ℕ} (hp : p < n) :
    getNrAvailRingElements n p p = n - 1 := by
  unfold getNrAvailRingElements
  rw [if_neg (Nat.lt_irrefl _)]
  omega

/-- The channel, when the command has been completed. -/
def commanded (ch : ℕ) (s : Ctl) : Ctl :=
  s.runtimePut.set ch { s.chan ch with chState := .enabled }

theorem chan_commanded (ch : ℕ) (s : Ctl) :
    (commanded ch s).chan ch = { s.chan ch with chState := .enabled } :=
  Ctl.set_chan_self _

theorem Ready.prepared (h : Ready (cfgs ch) (s.chan ch)) :
    Prepared (cfgs ch) ((commanded ch s).chan ch) := by
  rw [chan_commanded]
  refine ⟨rfl, fun hoff => ?_, fun hoff _ => h.empty hoff⟩
  have hr := h.rings hoff
  exact ⟨hr.brp, hr.bwp, hr.trp_lt, hr.twp_lt⟩

/-- All elements but one are free. -/
theorem Ready.used_commanded (h : Ready (cfgs ch) (s.chan ch)) (hoff : ¬ (cfgs ch).offloadCh) :
    Ring.used (cfgs ch).elements ((commanded ch s).chan ch).trp ((commanded ch s).chan ch).twp
      + ((cfgs ch).elements - 1) < (cfgs ch).elements := by
  have hpos := ChanCfg.elements_pos hoff
  rw [chan_commanded]
  dsimp only
  rw [h.empty hoff, Ring.used_self]
  omega

theorem mhiPreAlloc_of_preAlloc (hpre : (cfgs ch).preAlloc) (hready : Ready (cfgs ch) (s.chan ch))
    (e : PrepareEnv) {r : Ctl × ℤ}
    (hr : preAllocLoop cfgs ch e.buffers ((cfgs ch).elements - 1) (commanded ch s) = r) :
    mhiPreAlloc cfgs ch e s
      = if r.2 ≠ 0 then (mhiUnprepareChannel cfgs ch e.resetInErrorState r.1.wakePut, r.2)
        else ((if e.dbAccessValid then mhiRingChanDb cfgs ch r.1 else r.1).wakePut, 0) := by
  have hoff := ChanCfg.not_offloadCh hpre
  have hcount : getNrAvailRingElements (cfgs ch).elements ((commanded ch s).chan ch).trp
      ((commanded ch s).chan ch).twp = (cfgs ch).elements - 1 := by
    rw [chan_commanded]
    dsimp only
    rw [hready.empty hoff, getNrAvailRingElements_self (hready.rings hoff).twp_lt]
  rw [← hcount] at hr
  rw [← hr]
  unfold mhiPreAlloc
  dsimp only
  rw [if_pos hpre]
  rfl

theorem mhiPreAlloc_of_not (hpre : ¬ (cfgs ch).preAlloc) (e : PrepareEnv) (s : Ctl) :
    mhiPreAlloc cfgs ch e s = ((commanded ch s).wakePut, 0) := by
  unfold mhiPreAlloc
  dsimp only
  rw [if_neg hpre]
  rfl

/-- The doorbell changes the context only. -/
theorem ringDb_eq (cfgs : ℕ → ChanCfg) (ch : ℕ) (dbAccessValid : Bool) (s : Ctl) :
    (if dbAccessValid then mhiRingChanDb cfgs ch s else s)
      = s.set ch { s.chan ch with ctxt := { (s.chan ch).ctxt with
          wp := if dbAccessValid then (cfgs ch).iommuBase + sizeofTre * (s.chan ch).twp
            else (s.chan ch).ctxt.wp } } := by
  cases dbAccessValid with
  | true => rfl
  | false =>
    change s = { s with chan := Function.update s.chan ch (s.chan ch) }
    rw [Function.update_eq_self]

theorem Prepared.ctxt {cfg : ChanCfg} {c : MhiChan} (h : Prepared cfg c) (ctxt : ChanCtxt) :
    Prepared cfg { c with ctxt := ctxt } where
  chState := h.chState
  rings hoff := ⟨(h.rings hoff).brp, (h.rings hoff).bwp, (h.rings hoff).trp_lt, (h.rings hoff).twp_lt⟩
  idle := h.idle

theorem mhiPreAlloc_spec (e : PrepareEnv) (hready : Ready (cfgs ch) (s.chan ch))
    (hacc : Accounted cfgs ch s₀ s) :
    Keeps ch s.runtimePut.wakePut (mhiPreAlloc cfgs ch e s).1
      ∧ AllOrNothing cfgs ch s₀ (mhiPreAlloc cfgs ch e s) := by
  have hkeeps : Keeps ch s.runtimePut (commanded ch s) := (Keeps.refl ch s.runtimePut).set _
  have hacc₁ : Accounted cfgs ch s₀ (commanded ch s) :=
    hacc.congr rfl rfl (by rw [chan_commanded]; rfl)
  have hwake : ∀ {s₂ : Ctl}, Keeps ch (commanded ch s) s₂ →
      Keeps ch s.runtimePut.wakePut s₂.wakePut := by
    intro s₂ h
    have hk := hkeeps.trans h
    exact ⟨hk.chan, congrArg (· - 1) hk.wake, hk.runtime, hk.pendingPkts⟩
  by_cases hpre : (cfgs ch).preAlloc
  · have hoff := ChanCfg.not_offloadCh hpre
    obtain ⟨hturns, hrings, hret⟩ := preAllocLoop_spec hpre e.buffers ((cfgs ch).elements - 1)
      (hready.prepared.rings hoff) (hready.used_commanded hoff)
    rw [mhiPreAlloc_of_preAlloc hpre hready e rfl]
    generalize preAllocLoop cfgs ch e.buffers _ _ = r at hturns hrings hret ⊢
    have hprep : Prepared (cfgs ch) (r.1.chan ch) :=
      ⟨hturns.chState.trans hready.prepared.chState, fun _ => hrings, fun _ hno => absurd hpre hno⟩
    have hacc₂ := hturns.accounted s₀ hacc₁
    rcases hret with hzero | hneg
    · rw [if_neg (not_not_intro hzero), ringDb_eq]
      refine ⟨hwake (hturns.keeps.set _), .inl ⟨rfl, ?_, hacc₂.congr rfl rfl ?_⟩⟩
      · change Prepared _ ((r.1.set ch _).chan ch)
        rw [Ctl.set_chan_self]
        exact hprep.ctxt _
      · change blocks _ ((r.1.set ch _).chan ch) = _
        rw [Ctl.set_chan_self]
        rfl
    · rw [if_pos (Int.ne_of_lt hneg)]
      obtain ⟨hk, hdis, hrel⟩ :=
        mhiUnprepareChannel_spec (s := r.1.wakePut) hprep e.resetInErrorState
      exact ⟨(hwake hturns.keeps).trans hk, .inr ⟨hneg, hdis, hrel s₀ (hacc₂.congr rfl rfl rfl)⟩⟩
  · rw [mhiPreAlloc_of_not hpre]
    exact ⟨hwake (Keeps.refl ch _), .inl ⟨rfl, hready.prepared, hacc₁.congr rfl rfl rfl⟩⟩

theorem errorSendCmd_eq (cfgs : ℕ → ChanCfg) (ch : ℕ) (s : Ctl) :
    errorSendCmd cfgs ch s.wakeGet.runtimeGet = errorPmState cfgs ch s := by
  unfold errorSendCmd
  rw [Ctl.refs_of_command]

/-- The part of the call after the rings have been set up. -/
def afterSetUp (cfgs : ℕ → ChanCfg) (ch : ℕ) (e : PrepareEnv) (s : Ctl) : Ctl × ℤ :=
  if e.inErrorState then (errorPmState cfgs ch s, - EIO)
  else if e.cmdRingFull then (errorPmState cfgs ch s, - ENOMEM)
  else if e.completed ≠ some evCcSuccess then (errorPmState cfgs ch s, - EIO)
  else mhiPreAlloc cfgs ch e s.wakeGet.runtimeGet

theorem mhiPrepareChannel_eq {e : PrepareEnv} (hee : 1 <<< e.ee &&& (cfgs ch).eeMask ≠ 0)
    (hdis : (s.chan ch).chState = .disabled) : mhiPrepareChannel cfgs ch e s
      = if (cfgs ch).offloadCh then afterSetUp cfgs ch e s
        else if e.ringAllocated then afterSetUp cfgs ch e (ringsSet (cfgs ch) ch s)
        else (s.set ch { s.chan ch with treBase := some (cfgs ch).base, bufBase := none }, - ENOMEM) := by
  unfold mhiPrepareChannel afterSetUp
  dsimp only
  rw [if_neg hee, if_neg (not_not_intro hdis)]
  by_cases hoff : (cfgs ch).offloadCh
  · rw [if_pos hoff, if_pos hoff]
    dsimp only
    rw [if_neg (not_not_intro rfl), errorSendCmd_eq]
  · rw [if_neg hoff, if_neg hoff]
    cases e.ringAllocated with
    | false => exact if_pos (Int.ne_of_lt neg_ENOMEM)
    | true =>
      have hinit : mhiInitChanCtxt cfgs ch true s = (ringsSet (cfgs ch) ch s, 0) := rfl
      rw [hinit, if_pos rfl]
      dsimp only
      rw [if_neg (not_not_intro rfl), errorSendCmd_eq]

theorem afterSetUp_spec (e : PrepareEnv) (hready : Ready (cfgs ch) (s.chan ch))
    (hacc : Accounted cfgs ch s₀ s) :
    Keeps ch s (afterSetUp cfgs ch e s).1 ∧ AllOrNothing cfgs ch s₀ (afterSetUp cfgs ch e s) := by
  have herror : ∀ ret < 0, Keeps ch s (errorPmState cfgs ch s)
      ∧ AllOrNothing cfgs ch s₀ (errorPmState cfgs ch s, ret) := by
    intro ret hret
    obtain ⟨hk, hdis, hrel⟩ := errorPmState_spec hready hacc
    exact ⟨hk, .inr ⟨hret, hdis, hrel⟩⟩
  unfold afterSetUp
  split_ifs
  · exact herror _ neg_eio
  · exact herror _ neg_ENOMEM
  · exact herror _ neg_eio
  · have hpre := mhiPreAlloc_spec (s := s.wakeGet.runtimeGet) e hready (hacc.congr rfl rfl rfl)
    rw [Ctl.refs_of_command] at hpre
    exact hpre

/-- Offload channels have no blocks. -/
theorem accounted_offload (hoff : (cfgs ch).offloadCh) (s : Ctl) : Accounted cfgs ch s s where
  next_le := Nat.le_refl _
  perm := by
    unfold blocks
    rw [if_pos hoff, Nat.sub_self, List.range'_zero]

theorem mhiPrepareChannel_spec (cfgs : ℕ → ChanCfg) (hdis : (s.chan ch).chState = .disabled) (e : PrepareEnv) :
    Keeps ch s (mhiPrepareChannel cfgs ch e s).1
      ∧ AllOrNothing cfgs ch s (mhiPrepareChannel cfgs ch e s) := by
  by_cases hee : 1 <<< e.ee &&& (cfgs ch).eeMask = 0
  · unfold mhiPrepareChannel
    rw [if_pos hee]
    exact ⟨Keeps.refl ch s, .inr ⟨neg_ENOTCONN, hdis, Released.refl s⟩⟩
  · rw [mhiPrepareChannel_eq hee hdis]
    by_cases hoff : (cfgs ch).offloadCh
    · rw [if_pos hoff]
      exact afterSetUp_spec e ⟨hdis, fun hno => absurd hoff hno, fun hno => absurd hoff hno⟩
        (accounted_offload hoff s)
    · rw [if_neg hoff]
      by_cases hring : e.ringAllocated
      · rw [if_pos hring]
        obtain ⟨hk, hall⟩ :=
            afterSetUp_spec e (ready_ringsSet hdis hoff) (accounted_ringsSet hoff s)
        exact ⟨(keeps_ringsSet _ ch s).trans hk, hall⟩
      · rw [if_neg hring]
        refine ⟨(Keeps.refl ch s).set _, .inr ⟨neg_ENOMEM, ?_, Nat.le_refl _,
          (Released.refl s).perm⟩⟩
        exact (congrArg MhiChan.chState (Ctl.set_chan_self _)).trans hdis

/-- What is expected of a call: all channels are started, or none is and all that has been allocated
is freed; the references are as before. -/
structure AllStarted (d : MhiDevice) (s : Ctl) (r : Ctl × ℤ) : Prop where
  chans : (r.2 = 0 ∧ ∀ ch ∈ d.chans, (r.1.chan ch).chState = .enabled)
    ∨ (r.2 < 0 ∧ (∀ ch ∈ d.chans, (r.1.chan ch).chState = .disabled) ∧ Released s r.1)
  wake : r.1.wake = s.wake
  runtime : r.1.runtime = s.runtime

theorem AllOrNothing.state {r : Ctl × ℤ} (h : AllOrNothing cfgs ch s₀ r) (hret : r.2 = 0) :
    Prepared (cfgs ch) (r.1.chan ch) ∧ Accounted cfgs ch s₀ r.1 := by
  rcases h with ⟨-, h⟩ | ⟨hneg, -⟩
  · exact h
  · omega

theorem AllOrNothing.undone {r : Ctl × ℤ} (h : AllOrNothing cfgs ch s₀ r) (hret : r.2 ≠ 0) :
    r.2 < 0 ∧ (r.1.chan ch).chState = .disabled ∧ Released s₀ r.1 := by
  rcases h with ⟨hzero, -⟩ | h
  · exact absurd hzero hret
  · exact h

/-- A device with one channel. -/
theorem allStarted_single {d : MhiDevice} {r : Ctl × ℤ} (hchans : ∀ ch' ∈ d.chans, ch' = ch)
    (hk : Keeps ch s r.1) (hall : AllOrNothing cfgs ch s r) : AllStarted d s r := by
  refine ⟨?_, hk.wake, hk.runtime⟩
  rcases hall with ⟨hret, hprep, -⟩ | ⟨hret, hdis, hrel⟩
  · refine .inl ⟨hret, fun ch' hch => ?_⟩
    rw [hchans ch' hch]
    exact hprep.chState
  · refine .inr ⟨hret, fun ch' hch => ?_, hrel⟩
    rw [hchans ch' hch]
    exact hdis

/-- The first channel of a device is not started, and the second one is not reached. -/
theorem allStarted_undone {d : MhiDevice} {r : Ctl × ℤ}
    (hdis : ∀ ch' ∈ d.chans, (s.chan ch').chState = .disabled) (hk : Keeps ch s r.1)
    (hall : AllOrNothing cfgs ch s r) (hret : r.2 ≠ 0) : AllStarted d s r := by
  obtain ⟨hneg, hoff, hrel⟩ := hall.undone hret
  refine ⟨.inr ⟨hneg, fun ch' hch => ?_, hrel⟩, hk.wake, hk.runtime⟩
  by_cases heq : ch' = ch
  · subst heq
    exact hoff
  · exact (congrArg MhiChan.chState (hk.chan ch' heq)).trans (hdis ch' hch)

/-- The second channel of a device, after the first one has been started. -/
theorem allStarted_second {ul dl : ℕ} (hne : dl ≠ ul) {s₁ : Ctl} (hk : Keeps ul s s₁)
    (hprep : Prepared (cfgs ul) (s₁.chan ul)) (hacc : Accounted cfgs ul s s₁) {r : Ctl × ℤ}
    (hk' : Keeps dl s₁ r.1) (hall : AllOrNothing cfgs dl s₁ r) (inErrorState : Bool) :
    AllStarted ⟨some ul, some dl⟩ s
      (if r.2 ≠ 0 then (mhiUnprepareChannel cfgs ul inErrorState r.1, r.2) else (r.1, 0)) := by
  have hul : r.1.chan ul = s₁.chan ul := hk'.chan ul hne.symm
  by_cases hret : r.2 = 0
  · rw [if_neg (not_not_intro hret)]
    obtain ⟨hprep', -⟩ := hall.state hret
    refine ⟨.inl ⟨rfl, fun ch hch => ?_⟩, hk'.wake.trans hk.wake, hk'.runtime.trans hk.runtime⟩
    rcases List.mem_pair.1 hch with rfl | rfl
    · exact (congrArg MhiChan.chState hul).trans hprep.chState
    · exact hprep'.chState
  · rw [if_pos hret]
    obtain ⟨hneg, hdis, hrel⟩ := hall.undone hret
    obtain ⟨hk'', hdis', hrel'⟩ := mhiUnprepareChannel_spec (hul ▸ hprep) inErrorState
    refine ⟨.inr ⟨hneg, fun ch hch => ?_, hrel' s (hacc.released hrel hul)⟩,
      hk''.wake.trans (hk'.wake.trans hk.wake), hk''.runtime.trans (hk'.runtime.trans hk.runtime)⟩
    rcases List.mem_pair.1 hch with rfl | rfl
    · exact hdis'
    · exact (congrArg MhiChan.chState (hk''.chan _ hne)).trans hdis

/-- The channels of a device are started all or not at all. -/
theorem mhiPrepareForTransfer_allStarted (cfgs : ℕ → ChanCfg) (d : MhiDevice) (e : DeviceEnv)
    (s : Ctl) (hdis : ∀ ch ∈ d.chans, (s.chan ch).chState = .disabled) :
    AllStarted d s (mhiPrepareForTransfer cfgs d e s) := by
  obtain ⟨ulChan, dlChan⟩ := d
  unfold mhiPrepareForTransfer
  dsimp only
  cases ulChan with
  | none =>
    cases dlChan with
    | none => exact ⟨.inl ⟨rfl, fun _ h => absurd h List.not_mem_nil⟩, rfl, rfl⟩
    | some dl =>
      obtain ⟨hk, hall⟩ := mhiPrepareChannel_spec cfgs
        (hdis dl (List.mem_singleton.2 rfl)) e.dl
      change AllStarted _ s (if (mhiPrepareChannel cfgs dl e.dl s).2 ≠ 0 then
        ((mhiPrepareChannel cfgs dl e.dl s).1, (mhiPrepareChannel cfgs dl e.dl s).2)
        else ((mhiPrepareChannel cfgs dl e.dl s).1, 0))
      have hsame : ∀ r : Ctl × ℤ, (if r.2 ≠ 0 then (r.1, r.2) else (r.1, 0)) = r := by
        rintro ⟨s₁, ret⟩
        by_cases hret : ret = 0
        · subst hret
          rfl
        · exact if_pos hret
      rw [hsame]
      exact allStarted_single (fun ch h => List.mem_singleton.1 h) hk hall
  | some ul =>
    obtain ⟨hk, hall⟩ := mhiPrepareChannel_spec cfgs
      (hdis ul (List.mem_append_left _ (List.mem_singleton.2 rfl))) e.ul
    obtain ⟨s₁, ret, hfirst⟩ : ∃ s₁ ret, prepareOpt cfgs (some ul) e.ul s = (s₁, ret) :=
      ⟨_, _, rfl⟩
    replace hk : Keeps ul s (prepareOpt cfgs (some ul) e.ul s).1 := hk
    replace hall : AllOrNothing cfgs ul s (prepareOpt cfgs (some ul) e.ul s) := hall
    rw [hfirst] at hk hall ⊢
    dsimp only at hk hall ⊢
    by_cases hret : ret = 0
    · obtain ⟨hprep, hacc⟩ := hall.state hret
      subst hret
      rw [if_neg (not_not_intro rfl)]
      by_cases hboth : dlChan = some ul
      · subst hboth
        rw [if_pos ⟨rfl, rfl⟩]
        refine allStarted_single (fun ch h => ?_) hk hall
        rcases List.mem_pair.1 h with rfl | rfl <;> rfl
      · rw [if_neg fun h => hboth h.2]
        cases dlChan with
        | none => exact allStarted_single (fun ch h => List.mem_singleton.1 h) hk hall
        | some dl =>
          have hne : dl ≠ ul := fun heq => hboth (congrArg some heq)
          have hdis' : (s₁.chan dl).chState = .disabled := by
            rw [hk.chan dl hne]
            exact hdis dl (List.mem_pair.2 (.inr rfl))
          obtain ⟨hk', hall'⟩ := mhiPrepareChannel_spec cfgs hdis' e.dl
          exact allStarted_second hne hk hprep hacc hk' hall' e.resetInErrorState
    · rw [if_pos hret]
      exact allStarted_undone hdis hk hall hret

/-- A channel to the modem, and one from it with three buffers on its ring. -/
def twoChans (ch : ℕ) : ChanCfg :=
  if ch = 0 then ⟨.toDevice, 4, 4096, 8192, 4, false, by decide, by decide⟩
  else ⟨.fromDevice, 4, 12288, 16384, 4, true, by decide, by decide⟩

def offChan : MhiChan where
  chState := .disabled
  treBase := none
  bufBase := none
  trp := 0
  twp := 0
  brp := 0
  bwp := 0
  slots _ := 0
  ctxt := ⟨.disabled, 0, 0, 0, 0⟩

def offCtl : Ctl where
  chan _ := offChan
  wake := 0
  runtime := 0
  pendingPkts := 0
  next := 0
  freed := []

/-- Nothing fails but the mapping of the last buffer. -/
def lastFails : PrepareEnv where
  ee := 2
  ringAllocated := true
  inErrorState := false
  cmdRingFull := false
  completed := some evCcSuccess
  buffers nrEl := ⟨true, nrEl ≠ 0⟩
  dbAccessValid := true
  resetInErrorState := false

/-- All five blocks are freed. -/
theorem twoChans_allStarted :
    (mhiPrepareForTransfer twoChans ⟨some 0, some 1⟩ ⟨lastFails, lastFails, false⟩ offCtl).2 = - ENOMEM
      ∧ (mhiPrepareForTransfer twoChans ⟨some 0, some 1⟩ ⟨lastFails, lastFails, false⟩ offCtl).1.freed
        = [4, 2, 3, 1, 0]
      ∧ AllStarted ⟨some 0, some 1⟩ offCtl
        (mhiPrepareForTransfer twoChans ⟨some 0, some 1⟩ ⟨lastFails, lastFails, false⟩ offCtl) := by
  refine ⟨by decide +kernel, by decide +kernel, ?_⟩
  exact mhiPrepareForTransfer_allStarted twoChans ⟨some 0, some 1⟩ ⟨lastFails, lastFails, false⟩
    offCtl fun _ _ => rfl

end MhiStart

end BananaWrt
