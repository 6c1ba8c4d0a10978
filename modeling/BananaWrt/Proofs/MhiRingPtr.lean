import BananaWrt.MhiRingPtr

/-!
# The pointers of a ring count its elements

`rp` and `wp` stay addresses of elements (`RingCfg.place`), so that each of the computations on
addresses is one on positions: the room in the ring, what is used of it and whether it is full all
follow `Ring.used`, which every step moves by one (`step_counted`).
-/

namespace BananaWrt

namespace Mhi

namespace RingCfg

variable {cfg : RingCfg}

/-- The address of an element. -/
def addr (cfg : RingCfg) (i : ℕ) : ℕ := cfg.base + cfg.elSize * i

/-- The ring with its pointers at two elements. -/
def place (cfg : RingCfg) (i j : ℕ) : MhiRing where
  cfg := cfg
  rp := cfg.addr i
  wp := cfg.addr j

theorem addr_lt_iff {i j : ℕ} : cfg.addr i < cfg.addr j ↔ i < j := by
  unfold addr
  rw [Nat.add_lt_add_iff_left, Nat.mul_lt_mul_left cfg.elSize_pos]

theorem addr_le_iff {i j : ℕ} : cfg.addr i ≤ cfg.addr j ↔ i ≤ j := by
  rw [← Nat.not_lt, ← Nat.not_lt, addr_lt_iff]

theorem addr_inj {i j : ℕ} : cfg.addr i = cfg.addr j ↔ i = j := by
  unfold addr
  rw [Nat.add_left_cancel_iff, Nat.mul_right_inj (Nat.ne_of_gt cfg.elSize_pos)]

/-- What lies between two elements. -/
theorem addr_sub (i j : ℕ) : (cfg.addr i - cfg.addr j) / cfg.elSize = i - j := by
  unfold addr
  rw [Nat.add_sub_add_left, ← Nat.mul_sub, Nat.mul_div_cancel_left _ cfg.elSize_pos]

theorem addr_zero (cfg : RingCfg) : cfg.addr 0 = cfg.base := rfl

theorem addr_elements : cfg.addr cfg.elements = cfg.base + cfg.len := rfl

theorem addr_succ (i : ℕ) : cfg.addr (i + 1) = cfg.addr i + cfg.elSize := by
  unfold addr
  rw [Nat.mul_succ, Nat.add_assoc]

theorem next_addr (i : ℕ) : cfg.next (cfg.addr i) = cfg.addr (Ring.succ cfg.elements i) := by
  unfold next Ring.succ
  simp only [← addr_succ, ← addr_elements, addr_le_iff]
  split_ifs
  · exact (addr_zero cfg).symm
  · rfl

theorem inside_addr {i : ℕ} (hi : i < cfg.elements) : cfg.Inside (cfg.addr i) := by
  refine ⟨Nat.le_add_right cfg.base _, ?_, ⟨i, ?_⟩⟩
  · rw [← addr_elements, addr_lt_iff]
    exact hi
  · exact Nat.add_sub_cancel_left ..

theorem full_place {i j : ℕ} :
    (cfg.place i j).mhiIsRingFull ↔ Ring.succ cfg.elements j = i := by
  change cfg.next (cfg.addr j) = cfg.addr i ↔ _
  rw [next_addr, addr_inj]

/-- Either way, what is left of the elements but one. -/
theorem avail_place {i j : ℕ} (hi : i < cfg.elements) (hj : j < cfg.elements) :
    (cfg.place i j).getNrAvailRingElements
      = ((cfg.elements : ℤ) - 1 - Ring.used cfg.elements i j).bmod (2 ^ 32) := by
  unfold MhiRing.getNrAvailRingElements
  simp only [place, ← addr_elements]
  simp only [← addr_zero cfg, addr_lt_iff, addr_sub, Int.bmod_add_bmod]
  unfold Ring.used
  split_ifs with hlt hle hle
  · omega
  · refine congrArg (Int.bmod · (2 ^ 32)) ?_
    omega
  · refine congrArg (Int.bmod · (2 ^ 32)) ?_
    omega
  · omega

theorem usedElements_addr {i j : ℕ} (hel : cfg.elSize = MhiRing.sizeofTre) (hi : i < cfg.elements) :
    getUsedRingElements (cfg.addr i) (cfg.addr j) cfg.elements
      = Ring.used cfg.elements i j % 2 ^ 32 := by
  unfold getUsedRingElements Ring.used
  simp only [← hel, addr_le_iff, addr_sub]
  split_ifs
  · rfl
  · omega

end RingCfg

/-- The pointers are at elements, with as many elements from one to the other as are outstanding. -/
def Counted (cfg : RingCfg) (k : ℕ) (ring : MhiRing) : Prop :=
  ∃ i j, i < cfg.elements ∧ j < cfg.elements ∧ ring = cfg.place i j
    ∧ Ring.used cfg.elements i j = k

section Steps

variable {cfg : RingCfg} {ring ring' : MhiRing}

theorem elements_pos : 0 < cfg.elements := by
  have := cfg.two_le
  omega

theorem counted_init : Counted cfg 0 cfg.init := by
  refine ⟨0, 0, elements_pos, elements_pos, rfl, ?_⟩
  exact Ring.used_self

theorem step_add {k : ℕ} (h : Counted cfg k ring) (hs : stepRing ring .add = some ring') :
    Counted cfg (k + 1) ring' ∧ ring'.rp = ring.rp := by
  obtain ⟨i, j, hi, hj, rfl, rfl⟩ := h
  simp only [stepRing, Option.ite_none_left_eq_some, Option.some.injEq] at hs
  obtain ⟨hfull, rfl⟩ := hs
  rw [RingCfg.full_place] at hfull
  refine ⟨⟨i, Ring.succ cfg.elements j, hi, Ring.succ_lt elements_pos, ?_, ?_⟩, rfl⟩
  · change MhiRing.mk cfg (cfg.addr i) (cfg.next (cfg.addr j)) = _
    rw [RingCfg.next_addr]
    rfl
  · exact Ring.used_push hi hj hfull

theorem step_del {k : ℕ} (h : Counted cfg k ring) (hs : stepRing ring .del = some ring') :
    (∃ k', k = k' + 1 ∧ Counted cfg k' ring') ∧ ring'.rp = cfg.next ring.rp := by
  obtain ⟨i, j, hi, hj, rfl, rfl⟩ := h
  simp only [stepRing, Option.ite_none_left_eq_some, Option.some.injEq] at hs
  obtain ⟨hne, rfl⟩ := hs
  have hij : i ≠ j := fun heq => hne (congrArg cfg.addr heq)
  refine ⟨⟨Ring.used cfg.elements (Ring.succ cfg.elements i) j, ?_, ?_⟩, rfl⟩
  · exact (Ring.used_pop hi hj hij).symm
  · refine ⟨Ring.succ cfg.elements i, j, Ring.succ_lt elements_pos, hj, ?_, rfl⟩
    change MhiRing.mk cfg (cfg.next (cfg.addr i)) (cfg.addr j) = _
    rw [RingCfg.next_addr]
    rfl

/-- A run moves the count by what it adds and deletes, and `rp` by what it deletes. -/
theorem exec_counted : ∀ {ops : List RingOp} {k i : ℕ} {ring ring' : MhiRing},
    Counted cfg k ring → ring.rp = cfg.addr i → i < cfg.elements →
      Runs.exec stepRing ring ops = some ring' →
        (∃ k', k' + ops.count .del = k + ops.count .add ∧ Counted cfg k' ring')
          ∧ ring'.rp = cfg.addr ((i + ops.count .del) % cfg.elements)
  | [], k, i, ring, ring', h, hrp, hi, hr => by
    cases hr
    refine ⟨⟨k, rfl, h⟩, ?_⟩
    rw [List.count_nil, Nat.add_zero, Nat.mod_eq_of_lt hi, hrp]
  | .add :: ops, k, i, ring, ring', h, hrp, hi, hr => by
    obtain ⟨ring₁, h1, h2⟩ := Runs.exec_cons hr
    obtain ⟨hcount, hrp₁⟩ := step_add h h1
    obtain ⟨⟨k', hk', hlast⟩, hrp'⟩ := exec_counted hcount (hrp₁.trans hrp) hi h2
    rw [List.count_cons_self, List.count_cons_of_ne (by decide)]
    exact ⟨⟨k', by omega, hlast⟩, hrp'⟩
  | .del :: ops, k, i, ring, ring', h, hrp, hi, hr => by
    obtain ⟨ring₁, h1, h2⟩ := Runs.exec_cons hr
    obtain ⟨⟨k₁, rfl, hcount⟩, hrp₁⟩ := step_del h h1
    rw [hrp, RingCfg.next_addr] at hrp₁
    obtain ⟨⟨k', hk', hlast⟩, hrp'⟩ :=
      exec_counted hcount hrp₁ (Ring.succ_lt elements_pos) h2
    rw [List.count_cons_self, List.count_cons_of_ne (by decide)]
    refine ⟨⟨k', by omega, hlast⟩, ?_⟩
    rw [hrp', Ring.succ_eq_mod hi, Nat.mod_add_mod]
    refine congrArg (fun m => cfg.addr (m % cfg.elements)) ?_
    omega

end Steps

/-- An `int` holds what it is assigned up to `2 ^ 31`. -/
theorem bmod_int_of_lt {m : ℕ} (h : m < 2 ^ 31) : (m : ℤ).bmod (2 ^ 32) = m := by
  exact Int.bmod_eq_of_le (by omega) (by omega)

/-- In a ring of up to `2 ^ 31` elements the number that is returned is that of the elements that
may still be added; the number used is right up to `2 ^ 32` elements. -/
theorem ring_arithmetic (cfg : RingCfg) (ops : List RingOp) (ring : MhiRing)
    (h : Runs.exec stepRing cfg.init ops = some ring) :
    cfg.Inside ring.rp ∧ cfg.Inside ring.wp
      ∧ ops.count .del ≤ ops.count .add ∧ outstanding ops ≤ cfg.elements - 1
      ∧ ring.getNrAvailRingElements
          = ((cfg.elements - 1 - outstanding ops : ℕ) : ℤ).bmod (2 ^ 32)
      ∧ (cfg.elements ≤ 2 ^ 31 →
          ring.getNrAvailRingElements = (cfg.elements - 1 - outstanding ops : ℕ))
      ∧ (ring.mhiIsRingFull ↔ cfg.elements - 1 - outstanding ops = 0)
      ∧ (ring.rp = ring.wp ↔ outstanding ops = 0)
      ∧ ∀ ops' ring', Runs.exec stepRing ring ops' = some ring' →
          cfg.elSize = MhiRing.sizeofTre → ops'.count .del < cfg.elements →
          getUsedRingElements ring.rp ring'.rp cfg.elements = ops'.count .del % 2 ^ 32
            ∧ (cfg.elements ≤ 2 ^ 32 →
                getUsedRingElements ring.rp ring'.rp cfg.elements = ops'.count .del) := by
  obtain ⟨⟨k, hk, hcount⟩, -⟩ := exec_counted counted_init rfl elements_pos h
  have hkout : outstanding ops = k := by
    unfold outstanding
    omega
  obtain ⟨i, j, hi, hj, rfl, hused⟩ := id hcount
  have hlt : k < cfg.elements := hused ▸ Ring.used_lt hi hj
  have havail : (cfg.place i j).getNrAvailRingElements
      = ((cfg.elements - 1 - k : ℕ) : ℤ).bmod (2 ^ 32) := by
    rw [RingCfg.avail_place hi hj, hused]
    refine congrArg (Int.bmod · (2 ^ 32)) ?_
    omega
  rw [hkout]
  refine ⟨RingCfg.inside_addr hi, RingCfg.inside_addr hj, by omega, by omega, havail,
    fun hn => ?_, ?_, ?_, fun ops' ring' hr hel hdel => ?_⟩
  · rw [havail, bmod_int_of_lt (by omega)]
  · rw [RingCfg.full_place, Ring.succ_eq_iff_used hi hj, hused]
    omega
  · change cfg.addr i = cfg.addr j ↔ _
    rw [RingCfg.addr_inj, ← hused, Ring.used_eq_zero_iff hi]
  · obtain ⟨-, hrp'⟩ := exec_counted hcount rfl hi hr
    have hget : getUsedRingElements (cfg.addr i) ring'.rp cfg.elements
        = ops'.count .del % 2 ^ 32 := by
      rw [hrp', RingCfg.usedElements_addr hel hi, Ring.used_add_mod hi hdel]
    refine ⟨hget, fun hn => ?_⟩
    rw [← Nat.mod_eq_of_lt (show ops'.count .del < 2 ^ 32 by omega)]
    exact hget

/-- A ring of three elements, to which two are added and one is deleted. -/
def ringOfThree : RingCfg where
  base := 0
  elSize := 16
  elements := 3
  elSize_pos := Nat.succ_pos 15
  two_le := Nat.le_succ 2

theorem ring_arithmetic_three :
    Runs.exec stepRing ringOfThree.init [.add, .add, .del] = some ⟨ringOfThree, 16, 32⟩
      ∧ outstanding [.add, .add, .del] = 1
      ∧ (MhiRing.mk ringOfThree 16 32).getNrAvailRingElements = 1
      ∧ getUsedRingElements 16 0 3 = 2 := by
  have hrun : Runs.exec stepRing ringOfThree.init [.add, .add, .del]
      = some ⟨ringOfThree, 16, 32⟩ := rfl
  have hrun' : Runs.exec stepRing ⟨ringOfThree, 16, 32⟩ [.add, .del, .del]
      = some ⟨ringOfThree, 0, 0⟩ := rfl
  obtain ⟨-, -, -, -, -, havail, -, -, hused⟩ := ring_arithmetic ringOfThree _ _ hrun
  refine ⟨hrun, rfl, havail (by decide), ?_⟩
  exact (hused _ _ hrun' rfl (by decide)).2 (by decide)

/-- One element more than an `int` can count. -/
def ringOfInt : RingCfg where
  base := 0
  elSize := 16
  elements := 2 ^ 31 + 1
  elSize_pos := Nat.succ_pos 15
  two_le := Nat.le_add_left 2 (2 ^ 31 - 1)

/-- All of it is free, and the number returned is negative. -/
theorem ring_avail_negative :
    Runs.exec stepRing ringOfInt.init [] = some ringOfInt.init
      ∧ ringOfInt.init.getNrAvailRingElements = -2 ^ 31
      ∧ ringOfInt.init.getNrAvailRingElements
          ≠ (ringOfInt.elements - 1 - outstanding [] : ℕ) := by
  refine ⟨rfl, by decide, by decide⟩

end Mhi

end BananaWrt
