import BananaWrt.MhiLink
import BananaWrt.Proofs.QmapLink

/-!
# The link states agree while interfaces open with their bit set

A write that changes a word changes one bit of it, and gives the carriers the new values, so it
keeps what `Agrees` says. An interface that opens takes the carrier of `rmnet_mhi` for its own, and
that is on if any interface has its link up (`agrees_open_iff`).
-/

namespace BananaWrt

namespace MhiLink

/-- The interfaces of the device, and what holds of the word and of `rmnet_mhi` in every run. -/
structure Inv (s : St) : Prop where
  one_le : 1 ≤ s.qmapMode
  le_eight : s.qmapMode ≤ 8
  net : ∀ i, s.mpQmapNetDev i = true → i < s.qmapMode
  bits : ∀ i, s.qmapMode ≤ i → s.linkState.getLsbD i = false
  base : s.ndev.carrier = true ↔ s.linkState ≠ 0

section Step

variable {s : St}

/-- A write that changes the word changes the bit of an interface, and no other. -/
theorem newLink_spec (h : Inv s) (v : ℕ) (hne : s.linkState ≠ newLink s v) :
    offsetId s v < s.qmapMode
      ∧ ∀ j ≠ offsetId s v, (newLink s v).getLsbD j = s.linkState.getLsbD j := by
  have hone := h.one_le
  have hle := h.le_eight
  by_cases hmode : 1 < s.qmapMode
  · have hoff : offsetId s v = (v % 16 + 2 ^ 32 - 1) % 2 ^ 32 := if_pos hmode
    unfold newLink at hne ⊢
    rw [if_pos hmode] at hne ⊢
    split_ifs at hne ⊢ with hup hdown
    · refine ⟨by omega, fun j hj => ?_⟩
      rw [QmapLink.getLsbD_or_bit _ (by omega), decide_eq_false hj, Bool.or_false]
    · refine ⟨by omega, fun j hj => ?_⟩
      rw [QmapLink.getLsbD_and_not_bit _ (by omega), decide_eq_false hj, Bool.not_false,
        Bool.and_true]
    · exact absurd rfl hne
  · have hoff : offsetId s v = 0 := if_neg hmode
    rw [hoff]
    refine ⟨hone, fun j hj => ?_⟩
    have hold := h.bits j (by omega)
    unfold newLink
    rw [if_neg hmode, hold]
    split_ifs
    · exact BitVec.getLsbD_one.trans (by rw [decide_eq_false hj, Bool.and_false])
    · exact BitVec.getLsbD_zero

/-- A write that changes nothing, or that makes `link` of the word, which differs in the bit `i`. -/
theorem linkStateStore_cases (h : Inv s) (value : ℕ) :
    linkStateStore s value = s
      ∨ ∃ i < s.qmapMode, ∃ link : BitVec 32,
          (∀ j ≠ i, link.getLsbD j = s.linkState.getLsbD j)
          ∧ linkStateStore s value = { s with
              linkState := link
              ndev := { s.ndev with carrier := decide (link ≠ 0) }
              vnd := if s.mpQmapNetDev i then
                  Function.update s.vnd i { s.vnd i with carrier := QmapLink.bitOf link i }
                else s.vnd } := by
  unfold linkStateStore
  dsimp only
  by_cases hsame : s.linkState = newLink s (value % 2 ^ 32)
  · exact .inl (if_pos hsame)
  · obtain ⟨hlt, hother⟩ := newLink_spec h (value % 2 ^ 32) hsame
    exact .inr ⟨_, hlt, _, hother, if_neg hsame⟩

theorem inv_linkStateStore (h : Inv s) (value : ℕ) : Inv (linkStateStore s value) := by
  rcases linkStateStore_cases h value with heq | ⟨i, hlt, link, hother, heq⟩ <;> rw [heq]
  · exact h
  · refine ⟨h.one_le, h.le_eight, h.net, fun j hj => ?_, decide_eq_true_iff⟩
    change s.qmapMode ≤ j at hj
    change link.getLsbD j = false
    rw [hother j (by omega)]
    exact h.bits j hj

theorem agrees_linkStateStore (h : Inv s) (ha : Agrees s) (value : ℕ) :
    Agrees (linkStateStore s value) := by
  have hinv := inv_linkStateStore h value
  refine ⟨hinv.bits, hinv.base, ?_⟩
  rcases linkStateStore_cases h value with heq | ⟨i, hlt, link, hother, heq⟩ <;> rw [heq]
  · exact ha.carrier
  · have hle := h.le_eight
    intro j hj hcarrier
    change s.mpQmapNetDev j = true at hj
    change link.getLsbD j = true
    by_cases hji : j = i
    · -- the interface of the bit gets the bit for its carrier
      subst hji
      simp only [hj, if_true, Function.update_self] at hcarrier
      rwa [QmapLink.bitOf_eq link (by omega)] at hcarrier
    · rw [hother j hji]
      refine ha.carrier j hj ?_
      dsimp only at hcarrier
      split_ifs at hcarrier
      · rwa [Function.update_of_ne hji] at hcarrier
      · exact hcarrier

theorem agrees_open_iff (h : Agrees s) {i : ℕ} (hi : s.mpQmapNetDev i = true) :
    Agrees (rmnetVndOpen s i) ↔
      (s.ndev.up = true → s.ndev.carrier = true → s.linkState.getLsbD i = true) := by
  unfold rmnetVndOpen
  by_cases hup : s.ndev.up = true
  · rw [if_pos hup]
    constructor
    · intro hopen _ hcarrier
      refine hopen.carrier i hi ?_
      dsimp only
      rw [Function.update_self, hcarrier, Bool.or_true]
    · intro hbit
      refine ⟨h.bits, h.base, fun j hj hcarrier => ?_⟩
      by_cases hji : j = i
      · subst hji
        dsimp only at hcarrier
        rw [Function.update_self] at hcarrier
        rcases Bool.or_eq_true_iff.1 hcarrier with hown | hbase
        · exact h.carrier j hj hown
        · exact hbit hup hbase
      · dsimp only at hcarrier
        rw [Function.update_of_ne hji] at hcarrier
        exact h.carrier j hj hcarrier
  · rw [if_neg hup]
    exact iff_of_true h fun hup' => absurd hup' hup

theorem agrees_stop (h : Agrees s) (i : ℕ) : Agrees (rmnetVndStop s i) := by
  refine ⟨h.bits, h.base, fun j hj hcarrier => h.carrier j hj ?_⟩
  unfold rmnetVndStop at hcarrier
  dsimp only at hcarrier
  by_cases hji : j = i
  · subst hji
    rw [Function.update_self] at hcarrier
    exact absurd hcarrier Bool.false_ne_true
  · rwa [Function.update_of_ne hji] at hcarrier

end Step

/-- An interface that is opened or stopped changes its own flag and carrier alone. -/
theorem inv_step (s : St) (i : Input) (s' : St) (h : Inv s) (hs : step s i = some s') : Inv s' := by
  cases i with
  | linkStateStore value =>
    cases hs
    exact inv_linkStateStore h value
  | mhiNetdevUp up =>
    cases hs
    exact ⟨h.one_le, h.le_eight, h.net, h.bits, h.base⟩
  | rmnetVndOpen i =>
    simp only [step, Option.ite_none_right_eq_some, Option.some.injEq] at hs
    obtain ⟨-, rfl⟩ := hs
    unfold rmnetVndOpen
    split
    · exact ⟨h.one_le, h.le_eight, h.net, h.bits, h.base⟩
    · exact h
  | rmnetVndStop i =>
    simp only [step, Option.ite_none_right_eq_some, Option.some.injEq] at hs
    obtain ⟨-, rfl⟩ := hs
    exact ⟨h.one_le, h.le_eight, h.net, h.bits, h.base⟩

/-- A step keeps what the link states agree on exactly if it does not open an interface whose link
is down while another one's is up. -/
theorem agrees_step_iff (s : St) (i : Input) (s' : St) (h : Inv s ∧ Agrees s)
    (hs : step s i = some s') : OpensLinked s i ↔ ∀ s'' ∈ step s i, Agrees s'' := by
  obtain ⟨hinv, ha⟩ := h
  have hthe : (∀ s'' ∈ step s i, Agrees s'') ↔ Agrees s' := by
    rw [hs]
    exact ⟨fun h => h s' rfl, fun h s'' hs'' => Option.some.inj hs'' ▸ h⟩
  rw [hthe]
  cases i with
  | linkStateStore value =>
    cases hs
    exact iff_of_true trivial (agrees_linkStateStore hinv ha value)
  | mhiNetdevUp up =>
    cases hs
    exact iff_of_true trivial ⟨ha.bits, ha.base, ha.carrier⟩
  | rmnetVndOpen i =>
    simp only [step, Option.ite_none_right_eq_some, Option.some.injEq] at hs
    obtain ⟨⟨hi, -⟩, rfl⟩ := hs
    exact (agrees_open_iff ha hi).symm
  | rmnetVndStop i =>
    simp only [step, Option.ite_none_right_eq_some, Option.some.injEq] at hs
    obtain ⟨-, rfl⟩ := hs
    exact iff_of_true trivial (agrees_stop ha i)

theorem agrees_probe (c : Config) : Agrees c.probe :=
  ⟨fun _ _ => BitVec.getLsbD_zero, iff_of_false Bool.false_ne_true fun h => h rfl,
    fun _ _ h => absurd h Bool.false_ne_true⟩

theorem inv_probe (c : Config) : Inv c.probe := by
  refine ⟨c.one_le, c.le_eight, fun i hi => ?_, (agrees_probe c).bits, (agrees_probe c).base⟩
  exact of_decide_eq_true (Bool.and_eq_true_iff.1 hi).1

/-- There are never bits beyond the interfaces, and the carrier of `rmnet_mhi` always agrees. -/
theorem inv_of_run {c : Config} {is : List Input} {s : St}
    (hrun : Runs.exec step c.probe is = some s) : Inv s :=
  Runs.exec_keeps inv_step (inv_probe c) hrun

/-- The link states agree in every state that a run comes to exactly if every interface that the run
opens while `rmnet_mhi` is up with its carrier on has its own link up. -/
theorem agrees_iff_opensLinked (c : Config) (is : List Input) (s : St)
    (hrun : Runs.exec step c.probe is = some s) :
    (∀ js s', js <+: is → Runs.exec step c.probe js = some s' → Agrees s')
      ↔ Runs.Meets step OpensLinked c.probe is := by
  rw [Runs.forall_prefix_iff, and_iff_right (agrees_probe c)]
  refine (Runs.meets_congr_inv (I := fun s => Inv s ∧ Agrees s) agrees_step_iff
    (fun s i s' h hsafe hs => ⟨inv_step s i s' h.1 hs, hsafe s' hs⟩)
    ⟨inv_probe c, agrees_probe c⟩ hrun).symm

/-- Two interfaces, of which the first has its link up. -/
def twoIfaces : Config where
  qmapMode := 2
  registers := fun _ => true
  one_le := by decide
  le_eight := by decide

theorem agrees_twoIfaces :
    (Runs.exec step twoIfaces.probe
      [.mhiNetdevUp true, .linkStateStore 2, .rmnetVndOpen 1, .linkStateStore 0x82]).isSome
    ∧ ∀ js s', js <+: [.mhiNetdevUp true, .linkStateStore 2, .rmnetVndOpen 1, .linkStateStore 0x82] →
      Runs.exec step twoIfaces.probe js = some s' → Agrees s' :=
  ⟨rfl, (agrees_iff_opensLinked twoIfaces
    [.mhiNetdevUp true, .linkStateStore 2, .rmnetVndOpen 1, .linkStateStore 0x82] _ rfl).2
    (by decide)⟩

/-- The second one is opened, and its carrier is on. -/
theorem twoIfaces_disagree :
    ∃ s, Runs.exec step twoIfaces.probe [.mhiNetdevUp true, .linkStateStore 1, .rmnetVndOpen 1]
        = some s ∧ (s.vnd 1).carrier = true ∧ s.linkState.getLsbD 1 = false ∧ ¬ Agrees s := by
  refine ⟨_, rfl, by decide, by decide, fun h => ?_⟩
  exact absurd (h.carrier 1 (by decide) (by decide)) (by decide)

end MhiLink

end BananaWrt
