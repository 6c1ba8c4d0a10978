import BananaWrt.QmapLink
import BananaWrt.Lib.Run

/-!
# The two copies of a link state

`link_state_store` sets the flag of an interface to its bit where the bit changes, so copies that
agree once agree for ever. They do after the probe of a device whose word is 0 at first. For the
others the word is 1, which without QMAP stands for the one interface there is, and the first
interface has its bit set and its flag clear: a write that brings it up changes nothing.
-/

namespace BananaWrt

namespace QmapLink

theorem bitOf_eq (w : BitVec 32) {i : ℕ} (hi : i < 32) : bitOf w i = w.getLsbD i := by
  unfold bitOf
  rw [← BitVec.twoPow_eq, BitVec.and_twoPow]
  cases w.getLsbD i
  · rfl
  · simp only [if_true, bne_iff_ne, ne_eq]
    intro h0
    have hbit := congrArg (BitVec.getLsbD · i) h0
    simp [hi] at hbit

theorem getLsbD_or_bit (w : BitVec 32) {i : ℕ} (hi : i < 32) (j : ℕ) :
    (w ||| 1#32 <<< i).getLsbD j = (w.getLsbD j || decide (j = i)) := by
  rw [BitVec.getLsbD_or, ← BitVec.twoPow_eq, BitVec.getLsbD_twoPow, decide_eq_true hi,
    Bool.true_and, decide_eq_decide.2 eq_comm]

theorem getLsbD_and_not_bit (w : BitVec 32) {i : ℕ} (hi : i < 32) (j : ℕ) :
    (w &&& ~~~(1#32 <<< i)).getLsbD j = (w.getLsbD j && !decide (j = i)) := by
  rw [BitVec.getLsbD_and, BitVec.getLsbD_not, ← BitVec.twoPow_eq, BitVec.getLsbD_twoPow,
    decide_eq_true hi, Bool.true_and, decide_eq_decide.2 eq_comm]
  by_cases hj : j < 32
  · rw [decide_eq_true hj, Bool.true_and]
  · rw [BitVec.getLsbD_of_ge w j (by omega)]
    rfl

/-- A write of `v` brings an interface up, whose number it is. -/
structure BringsUp (s : St) (v i : ℕ) : Prop where
  offsetId : offsetId v = i
  lt : i < s.qmapMode
  up : v / 128 % 2 = 0

/-- With `qmap_mode` above 1, a write changes one bit of one interface. -/
theorem newLink_spec {s : St} (hmode : 1 < s.qmapMode) (hle : s.qmapMode ≤ 32) {v i : ℕ}
    {link : BitVec 32} (h : newLink s v = some (i, link)) :
    i < s.qmapMode ∧ i = offsetId v ∧ (∀ j ≠ i, link.getLsbD j = s.linkState.getLsbD j)
      ∧ (v / 128 % 2 = 0 → link.getLsbD i = true) := by
  unfold newLink at h
  rw [if_neg (by omega), if_pos hmode] at h
  split_ifs at h with hlt hdown
  · obtain ⟨rfl, rfl⟩ := Prod.mk.inj (Option.some.inj h)
    refine ⟨by omega, rfl, fun j hj => ?_, fun h0 => by omega⟩
    rw [getLsbD_and_not_bit _ (by omega), decide_eq_false hj]
    simp
  · obtain ⟨rfl, rfl⟩ := Prod.mk.inj (Option.some.inj h)
    refine ⟨by omega, rfl, fun j hj => ?_, fun _ => ?_⟩
    · rw [getLsbD_or_bit _ (by omega), decide_eq_false hj, Bool.or_false]
    · rw [getLsbD_or_bit _ (by omega), decide_eq_true rfl, Bool.or_true]

theorem newLink_of_bringsUp {s : St} (hmode : 1 < s.qmapMode) {v i : ℕ} (h : BringsUp s v i) :
    newLink s v = some (i, s.linkState ||| 1#32 <<< i) := by
  obtain ⟨rfl, hlt, hup⟩ := h
  unfold newLink
  rw [if_neg (by omega), if_pos hmode, if_neg (by omega), if_neg (by omega)]

/-- The copies agree, no bit is set beyond the interfaces, and an interface that is open has its
carrier on if its link is up. -/
structure Inv (s : St) : Prop where
  mode : 1 < s.qmapMode ∧ s.qmapMode ≤ Qmap.QUECTEL_WWAN_QMAP
  net : ∀ i, s.mpQmapNetDev i = .qmap → i < s.qmapMode
  flag : ∀ i, s.mpQmapNetDev i = .qmap → (s.priv i).linkState = s.linkState.getLsbD i
  bits : ∀ i, s.qmapMode ≤ i → s.linkState.getLsbD i = false
  carrier : ∀ i, s.mpQmapNetDev i = .qmap → (s.priv i).up = true →
    (s.priv i).linkState = true → (s.priv i).carrier = true

section Step

variable {s : St}

theorem inv_linkStateStore (h : Inv s) (v : ℕ) : Inv (linkStateStore s v) := by
  obtain ⟨⟨hmode, hle⟩, hnet, hflag, hbits, hcarrier⟩ := h
  simp only [Qmap.QUECTEL_WWAN_QMAP] at hle
  unfold linkStateStore
  rcases hnew : newLink s v with _ | ⟨i, link⟩
  · exact ⟨⟨hmode, hle⟩, hnet, hflag, hbits, hcarrier⟩
  · obtain ⟨hlt, -, hother, -⟩ := newLink_spec hmode (by omega) hnew
    dsimp only
    by_cases hsame : s.linkState = link
    · rw [if_pos hsame]
      exact ⟨⟨hmode, hle⟩, hnet, hflag, hbits, hcarrier⟩
    rw [if_neg hsame]
    by_cases hqmap : s.mpQmapNetDev i = .qmap
    · -- the interface is there: its flag becomes its bit
      rw [if_pos hqmap]
      refine ⟨⟨hmode, hle⟩, hnet, fun j hj => ?_, fun j hj => ?_, fun j hj => ?_⟩
      · change (Function.update s.priv i _ j).linkState = link.getLsbD j
        by_cases hji : j = i
        · rw [hji, Function.update_self, ← bitOf_eq link (by omega)]
          rfl
        · rw [Function.update_of_ne hji, hflag j hj, hother j hji]
      · change link.getLsbD j = false
        change s.qmapMode ≤ j at hj
        rw [hother j (by omega)]
        exact hbits j hj
      · change (Function.update s.priv i _ j).up = true →
          (Function.update s.priv i _ j).linkState = true →
          (Function.update s.priv i _ j).carrier = true
        by_cases hji : j = i
        · rw [hji, Function.update_self]
          intro hup hlink
          exact (if_pos hup).trans hlink
        · rw [Function.update_of_ne hji]
          exact hcarrier j hj
    · rw [if_neg hqmap]
      refine ⟨⟨hmode, hle⟩, hnet, fun j hj => ?_, fun j hj => ?_, hcarrier⟩
      · change (s.priv j).linkState = link.getLsbD j
        rw [hflag j hj, hother j fun hji => hqmap (hji ▸ hj)]
      · change link.getLsbD j = false
        change s.qmapMode ≤ j at hj
        rw [hother j (by omega)]
        exact hbits j hj

/-- An interface whose link state stays as it is, and whose carrier is on if it is open and its
link is up. -/
theorem inv_update (h : Inv s) {i : ℕ} {f : Iface} (baseCarrier : Bool)
    (hlink : f.linkState = (s.priv i).linkState)
    (hcarrier : f.up = true → f.linkState = true → f.carrier = true) :
    Inv { s with baseCarrier := baseCarrier, priv := Function.update s.priv i f } := by
  refine ⟨h.mode, h.net, fun j hj => ?_, h.bits, fun j hj => ?_⟩
  · change (Function.update s.priv i f j).linkState = _
    by_cases hji : j = i
    · rw [hji, Function.update_self, hlink]
      exact hji ▸ h.flag j hj
    · rw [Function.update_of_ne hji]
      exact h.flag j hj
  · change (Function.update s.priv i f j).up = true →
      (Function.update s.priv i f j).linkState = true →
      (Function.update s.priv i f j).carrier = true
    by_cases hji : j = i
    · rw [hji, Function.update_self]
      exact hcarrier
    · rw [Function.update_of_ne hji]
      exact h.carrier j hj

theorem inv_qmapOpen (h : Inv s) (i : ℕ) : Inv (qmapOpen s i) := by
  unfold qmapOpen
  split_ifs with hbase hlink
  · exact inv_update h _ rfl fun _ _ => rfl
  · exact inv_update h s.baseCarrier rfl fun _ hup => absurd hup hlink
  · exact h

end Step

theorem inv_step (s : St) (i : Input) (s' : St) (h : Inv s) (hs : step s i = some s') : Inv s' := by
  cases i with
  | linkStateStore v =>
    cases hs
    exact inv_linkStateStore h v
  | «open» carrier =>
    simp only [step, Option.ite_none_left_eq_some, Option.some.injEq] at hs
    obtain ⟨-, rfl⟩ := hs
    exact ⟨h.mode, h.net, h.flag, h.bits, h.carrier⟩
  | stop carrier =>
    simp only [step, Option.ite_none_right_eq_some, Option.some.injEq] at hs
    obtain ⟨-, rfl⟩ := hs
    exact ⟨h.mode, h.net, h.flag, h.bits, h.carrier⟩
  | qmapOpen i =>
    simp only [step, Option.ite_none_right_eq_some, Option.some.injEq] at hs
    obtain ⟨-, rfl⟩ := hs
    exact inv_qmapOpen h i
  | qmapStop i =>
    simp only [step, Option.ite_none_right_eq_some, Option.some.injEq] at hs
    obtain ⟨-, rfl⟩ := hs
    exact inv_update h s.baseCarrier rfl fun hup => absurd hup Bool.false_ne_true

theorem mpQmapNetDev_eq_qmap_iff {c : Config} (hmode : 1 < c.mode) (i : ℕ) :
    c.mpQmapNetDev i = .qmap ↔ i < c.mode ∧ c.registers i = true := by
  unfold Config.mpQmapNetDev
  rw [if_neg (by omega)]
  by_cases h : i < c.mode ∧ c.registers i = true
  · rw [if_pos h]
    exact iff_of_true rfl h
  · rw [if_neg h]
    exact iff_of_false QmapNet.noConfusion h

theorem mode_le (c : Config) : c.mode ≤ Qmap.QUECTEL_WWAN_QMAP := by
  unfold Config.mode Qmap.QUECTEL_WWAN_QMAP
  split_ifs <;> omega

/-- The word after the probe is 1 if the device is not taken for LTE-A. -/
theorem getLsbD_probe {c : Config} (hmode : 1 < c.mode) (i : ℕ) :
    c.probe.linkState.getLsbD i = (!c.lteA && decide (i = 0)) := by
  have hlink : c.probe.linkState = if c.lteA then 0#32 else 1#32 := if_pos (by omega)
  rw [hlink]
  cases c.lteA
  · exact BitVec.getLsbD_one.trans (by simp)
  · exact BitVec.getLsbD_zero

theorem inv_probe {c : Config} (hmode : 1 < c.mode) (hc : c.lteA = true ∨ c.registers 0 = false) :
    Inv c.probe := by
  refine ⟨⟨hmode, mode_le c⟩, fun i hi => ((mpQmapNetDev_eq_qmap_iff hmode i).1 hi).1,
    fun i hi => ?_, fun i hi => ?_, fun i _ hup => absurd hup Bool.false_ne_true⟩
  · rw [getLsbD_probe hmode]
    rcases hc with hlte | hreg
    · rw [hlte]
      rfl
    · have hi' := ((mpQmapNetDev_eq_qmap_iff hmode i).1 hi).2
      have hne : i ≠ 0 := by
        rintro rfl
        exact Bool.false_ne_true (hreg.symm.trans hi')
      rw [decide_eq_false hne, Bool.and_false]
      rfl
  · change c.mode ≤ i at hi
    rw [getLsbD_probe hmode, decide_eq_false (by omega), Bool.and_false]

/-- The flags are the bits, there are no other bits, and an interface that a write brings up while
it and the interface of the device are open has its carrier on. -/
structure Agrees (s : St) : Prop where
  flag : ∀ i, s.mpQmapNetDev i = .qmap → (s.priv i).linkState = s.linkState.getLsbD i
  bits : ∀ i, s.qmapMode ≤ i → s.linkState.getLsbD i = false
  carrier : ∀ v i, BringsUp s v i → s.mpQmapNetDev i = .qmap → s.baseUp = true →
    (s.priv i).up = true → ((linkStateStore s v).priv i).carrier = true

theorem agrees_of_inv {s : St} (h : Inv s) : Agrees s := by
  refine ⟨h.flag, h.bits, fun v i hv hi _ hup => ?_⟩
  have hinv := inv_linkStateStore h v
  obtain ⟨hmode, hle⟩ := h.mode
  simp only [Qmap.QUECTEL_WWAN_QMAP] at hle
  have hlt := hv.lt
  have hnew := newLink_of_bringsUp hmode hv
  have hstore : ((linkStateStore s v).priv i).up = true
      ∧ (linkStateStore s v).linkState.getLsbD i = true
      ∧ (linkStateStore s v).mpQmapNetDev i = .qmap := by
    have hbit : (s.linkState ||| 1#32 <<< i).getLsbD i = true := by
      rw [getLsbD_or_bit _ (by omega), decide_eq_true rfl, Bool.or_true]
    unfold linkStateStore
    rw [hnew]
    dsimp only
    by_cases hsame : s.linkState = s.linkState ||| 1#32 <<< i
    · rw [if_pos hsame]
      exact ⟨hup, hsame ▸ hbit, hi⟩
    · rw [if_neg hsame, if_pos hi]
      refine ⟨?_, hbit, hi⟩
      dsimp only
      rw [Function.update_self]
      exact hup
  obtain ⟨hup', hbit, hi'⟩ := hstore
  exact hinv.carrier i hi' hup' ((hinv.flag i hi').trans hbit)

/-- The copies agree in every run of a device if and only if it is taken for LTE-A, or its first
interface could not be registered. -/
theorem agrees_iff (c : Config) (hmode : 1 < c.mode) :
    (∀ is s, Runs.exec step c.probe is = some s → Agrees s)
      ↔ c.lteA = true ∨ c.registers 0 = false := by
  constructor
  · intro h
    by_contra hc
    obtain ⟨hlte, hreg⟩ := not_or.1 hc
    have hflag := (h [] c.probe rfl).flag 0
      ((mpQmapNetDev_eq_qmap_iff hmode 0).2 ⟨by omega, eq_true_of_ne_false hreg⟩)
    rw [getLsbD_probe hmode, eq_false_of_ne_true hlte] at hflag
    exact Bool.false_ne_true hflag
  · intro hc is s hrun
    exact agrees_of_inv (Runs.exec_keeps inv_step (inv_probe hmode hc) hrun)

/-- A device of LTE category 4 at high speed, with `qmap_mode` 4. -/
def highSpeed : Config where
  noArp := true
  driverData := 0x0504
  idProduct := 0x0125
  speed := 3
  qmapMode := 4
  registers := fun _ => true

/-- The write that should bring the first interface up changes nothing, and its carrier stays off.
-/
theorem highSpeed_disagrees :
    ∃ s, Runs.exec step highSpeed.probe [.open true, .qmapOpen 0, .linkStateStore 1] = some s
      ∧ s.baseUp = true ∧ s.linkState.getLsbD 0 = true
      ∧ s.priv 0 = ⟨false, true, false⟩ ∧ ¬ Agrees s := by
  refine ⟨_, rfl, rfl, by decide, by decide, fun h => ?_⟩
  exact absurd (h.flag 0 (by decide)) (by decide)

/-- A device of LTE-A. -/
def superSpeed : Config := { highSpeed with idProduct := 0x0800, speed := 5 }

theorem superSpeed_agrees :
    ∃ s, Runs.exec step superSpeed.probe [.open true, .qmapOpen 1, .linkStateStore 2] = some s
      ∧ s.priv 1 = ⟨true, true, true⟩ ∧ Agrees s :=
  ⟨_, rfl, by decide, (agrees_iff superSpeed (by decide)).2 (Or.inl (by decide))
    [.open true, .qmapOpen 1, .linkStateStore 2] _ rfl⟩

end QmapLink

end BananaWrt
