import Mathlib.Tactic.Common
import BananaWrt.MhiCapability

/-!
# The walk stays in the window exactly if the chain does

At the entry number `k` the loop has made `2 * k + 1` reads (`reaches`). An entry in the window
leads less than `0x1000` bytes on, so that the first one outside it is read there, and its offset
does not wrap. While the chain stays in the window its offsets grow, which bounds the walk.
-/

namespace BananaWrt

namespace Mhi

namespace RegSpace

variable {dev : RegSpace} {capability offset : BitVec 32}

theorem toNat_capId (v : BitVec 32) :
    ((v &&& CAP_CAPID_MASK) >>> CAP_CAPID_SHIFT).toNat = v.toNat / 2 ^ 24 := by
  have hmask : CAP_CAPID_MASK >>> CAP_CAPID_SHIFT = BitVec.ofNat 32 (2 ^ 8 - 1) := rfl
  rw [BitVec.ushiftRight_and_distrib, hmask, BitVec.toNat_and, BitVec.toNat_ofNat,
    Nat.mod_eq_of_lt (by decide), Nat.and_two_pow_sub_one_eq_mod, BitVec.toNat_ushiftRight,
    Nat.shiftRight_eq_div_pow]
  have := v.isLt
  exact Nat.mod_eq_of_lt (by unfold CAP_CAPID_SHIFT; omega)

theorem toNat_nextCap (v : BitVec 32) :
    ((v &&& CAP_NEXT_CAP_MASK) >>> CAP_NEXT_CAP_SHIFT).toNat = v.toNat / 2 ^ 12 % 2 ^ 12 := by
  have hmask : CAP_NEXT_CAP_MASK >>> CAP_NEXT_CAP_SHIFT = BitVec.ofNat 32 (2 ^ 12 - 1) := rfl
  rw [BitVec.ushiftRight_and_distrib, hmask, BitVec.toNat_and, BitVec.toNat_ofNat,
    Nat.mod_eq_of_lt (by decide), Nat.and_two_pow_sub_one_eq_mod, BitVec.toNat_ushiftRight,
    Nat.shiftRight_eq_div_pow]
  rfl

theorem misc_field (v : BitVec 32) : (v &&& MISC_CAP_MASK) >>> MISC_CAP_SHIFT = v := by
  change (v &&& BitVec.allOnes 32) >>> 0 = v
  rw [BitVec.and_allOnes, BitVec.ushiftRight_zero]

theorem Entry.pred {k o : ℕ} (h : dev.Entry (k + 1) o) : ∃ o', dev.Entry k o' := by
  cases h with
  | next h _ _ _ => exact ⟨_, h⟩

/-- A chain that has no entry of some number has none after it. -/
theorem Entry.lt {k : ℕ} (hnone : ∀ o, ¬ dev.Entry k o) : ∀ {j o : ℕ}, dev.Entry j o → j < k
  | 0, o, h => Nat.pos_of_ne_zero fun hk => hnone o (hk ▸ h)
  | j + 1, o, h => by
    obtain ⟨o', h'⟩ := h.pred
    have hj := Entry.lt hnone h'
    refine Nat.lt_of_le_of_ne hj fun hk => hnone o (hk ▸ h)

theorem Entry.unique {k o : ℕ} (h : dev.Entry k o) : ∀ {o'}, dev.Entry k o' → o = o' := by
  induction h with
  | first hv _ =>
    intro o' h'
    cases h' with
    | first hv' _ =>
      rw [hv] at hv'
      cases hv'
      rfl
  | next _ _ hv _ ih =>
    intro o' h'
    cases h' with
    | next h' _ hv' _ =>
      cases ih h'
      rw [hv] at hv'
      cases hv'
      rfl

/-- The next entry is where the registers of this one lead. -/
theorem Entry.of_succ {k o o' : ℕ} (h : dev.Entry k o) (h' : dev.Entry (k + 1) o') :
    (dev.mhiReadReg (2 * k + 1) (BitVec.ofNat 32 o)).isSome
      ∧ ∃ v, dev.mhiReadReg (2 * k + 2) (BitVec.ofNat 32 o) = some v
        ∧ v.toNat / 2 ^ 12 % 2 ^ 12 ≠ 0 := by
  cases h' with
  | next h'' hid hv hne =>
    rw [← h.unique h''] at hid hv
    exact ⟨hid, _, hv, hne⟩

theorem NoneBefore.succ {k o : ℕ} (h : dev.NoneBefore capability k) (he : dev.Entry k o)
    (hid : ¬ dev.HasId capability k o) : dev.NoneBefore capability (k + 1) := by
  intro j hj o' h'
  rcases Nat.lt_succ_iff_lt_or_eq.1 hj with hlt | rfl
  · exact h j hlt o' h'
  · rw [← he.unique h']
    exact hid

theorem noneBefore_zero (dev : RegSpace) (capability : BitVec 32) : dev.NoneBefore capability 0 :=
  fun _ hj => absurd hj (Nat.not_lt_zero _)

/-- Where the loop ends: with the entry, or because it cannot be read or is the last one. -/
def Ends (dev : RegSpace) (capability : BitVec 32) (k o : ℕ) (ret : ℤ) (off : BitVec 32) : Prop :=
  ret = 0 ∧ off = BitVec.ofNat 32 o ∧ dev.HasId capability k o
    ∨ ret ≠ 0 ∧ ¬ dev.HasId capability k o ∧ ∀ o', ¬ dev.Entry (k + 1) o'

/-- An iteration ends the loop or goes on with the next entry. -/
theorem capLoop_step (capability : BitVec 32) {k o : ℕ} (h : dev.Entry k o) :
    (∃ reads ret off, (∀ r ∈ reads, r = BitVec.ofNat 32 o) ∧ dev.Ends capability k o ret off
        ∧ ∀ fuel, dev.capLoop capability (fuel + 1) (2 * k + 1) (BitVec.ofNat 32 o)
          = (reads, some (ret, off)))
      ∨ ∃ o', o < o' ∧ o' < o + 0x1000 ∧ dev.Entry (k + 1) o' ∧ ¬ dev.HasId capability k o
        ∧ ∀ fuel, dev.capLoop capability (fuel + 1) (2 * k + 1) (BitVec.ofNat 32 o)
          = (BitVec.ofNat 32 o :: BitVec.ofNat 32 o
              :: (dev.capLoop capability fuel (2 * (k + 1) + 1) (BitVec.ofNat 32 o')).1,
            (dev.capLoop capability fuel (2 * (k + 1) + 1) (BitVec.ofNat 32 o')).2) := by
  set off := BitVec.ofNat 32 o with hoff
  simp only [capLoop, mhiReadRegField]
  rcases hid : dev.mhiReadReg (2 * k + 1) off with _ | v
  · refine .inl ⟨[off], - EIO, off, by simp, .inr ⟨by decide, ?_, ?_⟩, fun fuel => rfl⟩
    · rintro ⟨v, hv, -⟩
      rw [← hoff, hid] at hv
      cases hv
    · intro o' h'
      have hsome := (h.of_succ h').1
      rw [← hoff, hid] at hsome
      cases hsome
  have hhas : dev.HasId capability k o
      ↔ (v &&& CAP_CAPID_MASK) >>> CAP_CAPID_SHIFT = capability := by
    rw [← BitVec.toNat_inj, toNat_capId]
    unfold HasId
    rw [← hoff, hid]
    simp
  simp only [Option.map_some]
  by_cases hc : (v &&& CAP_CAPID_MASK) >>> CAP_CAPID_SHIFT = capability
  · simp only [if_pos hc]
    exact .inl ⟨[off], 0, off, by simp, .inl ⟨rfl, hoff, hhas.2 hc⟩, fun fuel => rfl⟩
  simp only [if_neg hc]
  rw [← hhas] at hc
  rcases hnext : dev.mhiReadReg (2 * k + 1 + 1) off with _ | w
  · refine .inl ⟨[off, off], - EIO, off, by simp, .inr ⟨by decide, hc, ?_⟩, fun fuel => rfl⟩
    intro o' h'
    obtain ⟨-, v, hv, -⟩ := h.of_succ h'
    cases hnext.symm.trans hv
  have hw := toNat_nextCap w
  simp only [Option.map_some]
  by_cases hz : (w &&& CAP_NEXT_CAP_MASK) >>> CAP_NEXT_CAP_SHIFT = 0
  · simp only [if_pos hz]
    refine .inl ⟨[off, off], - ENXIO, _, by simp, .inr ⟨by decide, hc, ?_⟩, fun fuel => rfl⟩
    intro o' h'
    obtain ⟨-, v, hv, hne⟩ := h.of_succ h'
    cases hnext.symm.trans hv
    rw [← hw, hz] at hne
    exact hne rfl
  · simp only [if_neg hz]
    have hne : w.toNat / 2 ^ 12 % 2 ^ 12 ≠ 0 := fun heq => hz (BitVec.toNat_inj.1 (hw.trans heq))
    refine .inr ⟨o + w.toNat / 2 ^ 12 % 2 ^ 12, by omega, by omega, ?_, hc, fun fuel => ?_⟩
    · exact .next h (by rw [← hoff, hid]; rfl) hnext hne
    · have hsum : BitVec.ofNat 32 (o + w.toNat / 2 ^ 12 % 2 ^ 12)
          = off + (w &&& CAP_NEXT_CAP_MASK) >>> CAP_NEXT_CAP_SHIFT := by
        rw [BitVec.ofNat_add, ← hw, BitVec.ofNat_toNat, BitVec.setWidth_eq]
      rw [hsum]
      rfl

theorem mem_capLoop (fuel n : ℕ) (o : BitVec 32) :
    o ∈ (dev.capLoop capability (fuel + 1) n o).1 := by
  simp only [capLoop]
  split
  · exact List.mem_singleton_self o
  · split_ifs
    · exact List.mem_singleton_self o
    · split
      · exact List.mem_cons_self
      · split_ifs <;> exact List.mem_cons_self

/-- There is no chain, or the loop starts at its first entry. -/
theorem start_cases (dev : RegSpace) (capability offset : BitVec 32) :
    (∃ ret off, ret ≠ 0 ∧ (∀ k o, ¬ dev.Entry k o)
        ∧ ∀ fuel, dev.mhiGetCapabilityOffset capability offset fuel
          = ([MISC_OFFSET], some (ret, off)))
      ∨ ∃ o, dev.Entry 0 o
        ∧ ∀ fuel, dev.mhiGetCapabilityOffset capability offset fuel
          = (MISC_OFFSET :: (dev.capLoop capability fuel 1 (BitVec.ofNat 32 o)).1,
            (dev.capLoop capability fuel 1 (BitVec.ofNat 32 o)).2) := by
  have hchain : (∀ v, dev.mhiReadReg 0 MISC_OFFSET = some v → 0x1000 ≤ v.toNat) →
      ∀ k o, ¬ dev.Entry k o := by
    intro hv k o h
    refine Nat.not_lt_zero k (Entry.lt (fun o h => ?_) h)
    cases h with
    | first hv' hlt => exact Nat.not_lt.2 (hv _ hv') hlt
  simp only [mhiGetCapabilityOffset, mhiReadRegField]
  rcases hm : dev.mhiReadReg 0 MISC_OFFSET with _ | v
  · refine .inl ⟨- EIO, offset, by decide, hchain fun v hv => ?_, fun fuel => rfl⟩
    cases hm.symm.trans hv
  simp only [Option.map_some, misc_field]
  by_cases hlt : 0x1000#32 ≤ v
  · simp only [if_pos hlt]
    refine .inl ⟨- ENXIO, v, by decide, hchain fun w hw => ?_, fun fuel => rfl⟩
    cases hm.symm.trans hw
    exact hlt
  · simp only [if_neg hlt]
    refine .inr ⟨v.toNat, .first hm (Nat.not_le.1 hlt), fun fuel => ?_⟩
    rw [BitVec.ofNat_toNat, BitVec.setWidth_eq]

/-- The entries up to the first one with the identifier, or all where none has it, lie in the
window. -/
def InWindow (dev : RegSpace) (capability : BitVec 32) : Prop :=
  ∀ k o, dev.Entry k o → dev.NoneBefore capability k → o < 0x1000

/-- What is expected of the walk: it comes to an end, all it reads lies in the window, and it finds
the first entry with the identifier if there is one. -/
structure WalkRight (dev : RegSpace) (capability offset : BitVec 32) : Prop where
  ends : ∃ fuel, (dev.mhiGetCapabilityOffset capability offset fuel).2.isSome
  reads : ∀ fuel, ∀ r ∈ (dev.mhiGetCapabilityOffset capability offset fuel).1, r.toNat < 0x1000
  found : ∀ fuel ret off, (dev.mhiGetCapabilityOffset capability offset fuel).2 = some (ret, off) →
    (ret = 0 ↔ ∃ k o, dev.Entry k o ∧ dev.HasId capability k o)
  first : ∀ fuel off, (dev.mhiGetCapabilityOffset capability offset fuel).2 = some (0, off) →
    ∃ k, dev.Entry k off.toNat ∧ dev.HasId capability k off.toNat ∧ dev.NoneBefore capability k

section Loop

theorem loop_ends (hin : dev.InWindow capability) : ∀ {fuel k o : ℕ}, dev.Entry k o →
    dev.NoneBefore capability k → 0x1000 ≤ o + fuel →
      (dev.capLoop capability fuel (2 * k + 1) (BitVec.ofNat 32 o)).2.isSome
  | 0, k, o, h, hnone, hfuel => absurd (hin k o h hnone) (Nat.not_lt.2 hfuel)
  | fuel + 1, k, o, h, hnone, hfuel => by
    rcases capLoop_step capability h with
      ⟨reads, ret, off, -, -, heq⟩ | ⟨o', hlt, -, h', hid, heq⟩
    · rw [heq fuel]
      rfl
    · rw [heq fuel]
      exact loop_ends hin h' (hnone.succ h hid) (by omega)

theorem loop_reads (hin : dev.InWindow capability) : ∀ (fuel : ℕ) {k o : ℕ}, dev.Entry k o →
    dev.NoneBefore capability k →
      ∀ r ∈ (dev.capLoop capability fuel (2 * k + 1) (BitVec.ofNat 32 o)).1, r.toNat < 0x1000
  | 0, _, _, _, _ => by simp [capLoop]
  | fuel + 1, k, o, h, hnone => by
    have ho : (BitVec.ofNat 32 o).toNat < 0x1000 := by
      have := hin k o h hnone
      rw [BitVec.toNat_ofNat]
      omega
    rcases capLoop_step capability h with
      ⟨reads, ret, off, hreads, -, heq⟩ | ⟨o', -, -, h', hid, heq⟩
    · rw [heq fuel]
      intro r hr
      rw [hreads r hr]
      exact ho
    · rw [heq fuel]
      have ih := loop_reads hin fuel h' (hnone.succ h hid)
      simp only [List.mem_cons, forall_eq_or_imp]
      exact ⟨ho, ho, ih⟩

/-- What the loop returns is 0 with the first entry that has the identifier, or no entry has it. -/
theorem loop_result : ∀ {fuel k o : ℕ} {ret : ℤ} {off : BitVec 32}, dev.Entry k o →
    dev.NoneBefore capability k →
      (dev.capLoop capability fuel (2 * k + 1) (BitVec.ofNat 32 o)).2 = some (ret, off) →
        (ret = 0 ∧ ∃ k o, off = BitVec.ofNat 32 o ∧ dev.Entry k o ∧ dev.HasId capability k o
            ∧ dev.NoneBefore capability k)
          ∨ ret ≠ 0 ∧ ∀ k o, dev.Entry k o → ¬ dev.HasId capability k o
  | 0, _, _, _, _, _, _, hr => by simp [capLoop] at hr
  | fuel + 1, k, o, ret, off, h, hnone, hr => by
    rcases capLoop_step capability h with
      ⟨reads, ret', off', -, hends, heq⟩ | ⟨o', -, -, h', hid, heq⟩
    · rw [heq fuel] at hr
      cases hr
      rcases hends with ⟨hret, hoff, hid⟩ | ⟨hret, hid, hlast⟩
      · exact .inl ⟨hret, k, o, hoff, h, hid, hnone⟩
      · exact .inr ⟨hret, fun j o' h' => hnone.succ h hid j (Entry.lt hlast h') o' h'⟩
    · rw [heq fuel] at hr
      exact loop_result h' (hnone.succ h hid) hr

end Loop

/-- The walk comes to every entry up to the first with the identifier. -/
theorem reaches (offset : BitVec 32) {k o : ℕ} (h : dev.Entry k o) :
    dev.NoneBefore capability k → ∃ pre, ∀ fuel,
      (dev.mhiGetCapabilityOffset capability offset (k + fuel)).1
        = pre ++ (dev.capLoop capability fuel (2 * k + 1) (BitVec.ofNat 32 o)).1 := by
  induction h with
  | first hv hlt =>
    intro _
    rcases start_cases dev capability offset with ⟨-, -, -, hempty, -⟩ | ⟨o, h', heq⟩
    · exact absurd (Entry.first hv hlt) (hempty _ _)
    · refine ⟨[MISC_OFFSET], fun fuel => ?_⟩
      rw [heq, Nat.zero_add, (Entry.first hv hlt).unique h']
      rfl
  | @next k o v h hsome hv hne ih =>
    intro hnone
    obtain ⟨pre, hpre⟩ := ih fun j hj => hnone j (Nat.lt_succ_of_lt hj)
    rcases capLoop_step capability h with
      ⟨_, _, _, -, hends, -⟩ | ⟨o', -, -, h', -, heq⟩
    · rcases hends with ⟨-, -, hid⟩ | ⟨-, -, hlast⟩
      · exact absurd hid (hnone k (Nat.lt_succ_self k) o h)
      · exact absurd (Entry.next h hsome hv hne) (hlast _)
    · refine ⟨pre ++ [BitVec.ofNat 32 o, BitVec.ofNat 32 o], fun fuel => ?_⟩
      rw [Nat.add_right_comm, Nat.add_assoc, hpre (fuel + 1), heq fuel,
        (Entry.next h hsome hv hne).unique h', List.append_assoc]
      rfl

/-- The reads of the walk lie in the window only if the entries it comes to do. -/
theorem inWindow_of_reads
    (hreads : ∀ fuel, ∀ r ∈ (dev.mhiGetCapabilityOffset capability offset fuel).1,
      r.toNat < 0x1000) : dev.InWindow capability := by
  intro k o h
  have hread : ∀ {k o}, dev.Entry k o → dev.NoneBefore capability k →
      (BitVec.ofNat 32 o).toNat < 0x1000 := by
    intro k o h hnone
    obtain ⟨pre, hpre⟩ := reaches offset h hnone
    refine hreads (k + 1) _ ?_
    rw [hpre 1]
    exact List.mem_append_right pre (mem_capLoop 0 _ _)
  induction h with
  | first _ hlt => exact fun _ => hlt
  | @next k o v h hsome hv hne ih =>
    intro hnone
    have ho := ih fun j hj => hnone j (Nat.lt_succ_of_lt hj)
    have hnext := hread (Entry.next h hsome hv hne) hnone
    rw [BitVec.toNat_ofNat, Nat.mod_eq_of_lt (by omega)] at hnext
    exact hnext

theorem walkRight_of_inWindow (hin : dev.InWindow capability) :
    dev.WalkRight capability offset := by
  rcases start_cases dev capability offset with ⟨ret, off, hret, hempty, heq⟩ | ⟨o, h, heq⟩
  · refine ⟨⟨0, by rw [heq]; rfl⟩, fun fuel => ?_, fun fuel ret' off' hr => ?_,
      fun fuel off' hr => ?_⟩
    · rw [heq]
      simp [MISC_OFFSET]
    · rw [heq] at hr
      cases hr
      refine iff_of_false hret ?_
      rintro ⟨k, o, h, -⟩
      exact hempty k o h
    · rw [heq] at hr
      cases hr
      exact absurd rfl hret
  · have hnone := noneBefore_zero dev capability
    refine ⟨⟨0x1000, ?_⟩, fun fuel => ?_, fun fuel ret off hr => ?_, fun fuel off hr => ?_⟩
    · rw [heq]
      exact loop_ends hin h hnone (Nat.le_add_left _ o)
    · rw [heq]
      simp only [List.mem_cons, forall_eq_or_imp]
      exact ⟨by decide, loop_reads hin fuel h hnone⟩
    · rw [heq] at hr
      rcases loop_result h hnone hr with ⟨hret, k, o, -, h, hid, -⟩ | ⟨hret, hno⟩
      · exact iff_of_true hret ⟨k, o, h, hid⟩
      · exact iff_of_false hret fun ⟨k, o, h, hid⟩ => hno k o h hid
    · rw [heq] at hr
      rcases loop_result h hnone hr with ⟨-, k, o, rfl, h, hid, hbefore⟩ | ⟨hret, -⟩
      · have ho := hin k o h hbefore
        rw [BitVec.toNat_ofNat, Nat.mod_eq_of_lt (by omega)]
        exact ⟨k, h, hid, hbefore⟩
      · exact absurd rfl hret

/-- Only the first offset is tested, so that the chain itself has to stay in the window. -/
theorem walk_right_iff (dev : RegSpace) (capability offset : BitVec 32) :
    dev.WalkRight capability offset ↔ dev.InWindow capability :=
  ⟨fun h => inWindow_of_reads h.reads, walkRight_of_inWindow⟩

/-- Each capability of this modem leads `0x800` bytes on, and the first one is at 0. -/
def endless : RegSpace where
  regs := fun o => if o = MISC_OFFSET then 0 else 0x00800000#32
  linkDown := fun _ => false

theorem endless_loop : ∀ (fuel n : ℕ) (o : BitVec 32), o.toNat % 0x800 = 0 →
    (endless.capLoop 2 fuel n o).2 = none
  | 0, _, _, _ => rfl
  | fuel + 1, n, o, ho => by
    have hne : o ≠ MISC_OFFSET := by
      rintro rfl
      revert ho
      decide
    have hread : ∀ n, endless.mhiReadReg n o = some 0x00800000#32 := by
      intro n
      have hreg : endless.regs o = 0x00800000#32 := if_neg hne
      unfold mhiReadReg
      rw [hreg]
      rfl
    have ih := endless_loop fuel (n + 2) (o + 0x800) (by
      rw [BitVec.toNat_add]
      simp only [BitVec.reduceToNat]
      omega)
    simp only [capLoop, mhiReadRegField, hread, Option.map_some]
    exact ih

/-- The walk leaves the window and never ends. -/
theorem walk_endless : ¬ endless.WalkRight 2 0
    ∧ 0x1000#32 ∈ (endless.mhiGetCapabilityOffset 2 0 3).1
    ∧ ∀ fuel, (endless.mhiGetCapabilityOffset 2 0 fuel).2 = none := by
  have hnever : ∀ fuel, (endless.mhiGetCapabilityOffset 2 0 fuel).2 = none :=
    fun fuel => endless_loop fuel 1 0 rfl
  refine ⟨fun h => ?_, by decide, hnever⟩
  obtain ⟨fuel, hfuel⟩ := h.ends
  rw [hnever fuel] at hfuel
  cases hfuel

end RegSpace

end Mhi

end BananaWrt
