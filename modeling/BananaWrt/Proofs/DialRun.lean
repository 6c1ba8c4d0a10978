import BananaWrt.DialRun
import BananaWrt.Proofs.DialConfig
import BananaWrt.Proofs.StopQmi

/-!
# A section works on its own modem as long as no number is left over

All effects of a section are on the modem whose number is in `modem_no` after the lookup
(`modemNo_of_mem_effects`). This is its own if there is one, and else the one that was left, so that
a section without a modem has to come while the variable is empty, or to have nothing to do
(`ownModem_iff`). What a section does then depends on the records of its own network alone, and
these are the same without the sections with other networks (`Agree`).
-/

namespace BananaWrt

namespace DialRun

open Dial

variable {env : Env} {file : List Rec} {n : Name} {s s₁ s₂ : St} {t : DialOptions}

theorem getModemNo_eq (c : Cfg) (network : Name) (modemNo : Option ℕ) :
    c.getModemNo network modemNo = (c.getModemNo network none).or modemNo := by
  unfold Cfg.getModemNo
  rw [Option.or_none]

/-- Every effect of a section is on the modem that the lookup leaves. -/
theorem modemNo_of_mem_effects {e : ℕ × Effect} (h : e ∈ (dial env s t).2) :
    env.cfg.getModemNo t.network s.modemNo = some e.1 := by
  have hmap : ∀ {no : ℕ} {es : List Effect}, e ∈ es.map (fun x => (no, x)) → no = e.1 := by
    intro no es hmem
    obtain ⟨x, -, rfl⟩ := List.mem_map.1 hmem
    rfl
  unfold dial stopDial at h
  dsimp only at h
  rcases hno : env.cfg.getModemNo t.network s.modemNo with _ | no
  · simp only [hno] at h
    split_ifs at h <;> exact absurd h List.not_mem_nil
  · simp only [hno] at h
    refine congrArg some ?_
    by_cases hen : t.enable
    · rw [if_neg (not_not_intro hen)] at h
      split_ifs at h
      · exact (congrArg Prod.fst (List.mem_singleton.1 h)).symm
      · exact hmap h
      · exact (congrArg Prod.fst (List.mem_singleton.1 h)).symm
      · exact hmap h
    · rw [if_pos hen] at h
      split_ifs at h
      · exact hmap h
      · exact absurd h List.not_mem_nil

theorem stopMode_eq_nil_iff (network : Name) (modemNo : ℕ) :
    env.stopMode network modemNo (env.cfg.getMode modemNo) = [] ↔ StopsNothing env modemNo := by
  have hqmi : env.stopQmi network modemNo = [] ↔ _ :=
    List.map_eq_nil_iff.trans (stopQmi_eq_nil_iff network.chars modemNo _ env.instances)
  unfold StopsNothing
  cases hmode : env.cfg.getMode modemNo with
  | unknown => simp [Env.stopMode]
  | qmi => simpa [Env.stopMode] using hqmi
  | mbim => simpa [Env.stopMode] using hqmi
  | gobinet =>
    simp only [Env.stopMode, Env.stopGobinet]
    split_ifs <;> simp
  | ecm =>
    simp only [Env.stopMode, Env.stopEcm]
    split_ifs <;> simp
  | rndis =>
    simp only [Env.stopMode, Env.stopEcm]
    split_ifs <;> simp
  | ncm =>
    simp only [Env.stopMode, Env.stopEcm]
    split_ifs <;> simp

/-- An enabled section with a number does something. -/
theorem effects_ne_nil {no : ℕ} (hno : env.cfg.getModemNo t.network s.modemNo = some no)
    (hen : t.enable) : (dial env s t).2 ≠ [] := by
  unfold dial
  rw [if_neg (not_not_intro hen)]
  simp only [hno]
  split_ifs
  · exact List.cons_ne_nil _ _
  · exact List.cons_ne_nil _ _
  · exact List.cons_ne_nil _ _
  · exact List.cons_ne_nil _ _

/-- One that is not enabled does what there is to stop. -/
theorem effects_eq_nil_iff {no : ℕ} (hno : env.cfg.getModemNo t.network s.modemNo = some no)
    (hen : ¬ t.enable) :
    (dial env s t).2 = [] ↔ ((∃ r ∈ s.file, t.network.Finds r) → StopsNothing env no) := by
  unfold dial stopDial
  rw [if_pos hen]
  by_cases hf : ∃ r ∈ s.file, t.network.Finds r
  · rw [if_pos hf]
    simp only [hno, List.map_eq_nil_iff, stopMode_eq_nil_iff]
    exact ⟨fun h _ => h, fun h => h hf⟩
  · rw [if_neg hf]
    exact iff_of_true rfl fun h => absurd h hf

/-- Without a modem of its own, a section is right if it does nothing. -/
theorem ownModem_iff : OwnModem env s t ↔ OwnWhen env s t := by
  unfold OwnModem OwnWhen
  have hlookup := getModemNo_eq env.cfg t.network s.modemNo
  rcases hown : env.cfg.getModemNo t.network none with _ | no
  · rw [hown, Option.none_or] at hlookup
    rcases hleft : s.modemNo with _ | no
    · refine iff_of_true (fun e he => ?_) (fun _ h => absurd h (Option.not_mem_none _))
      have hmem := modemNo_of_mem_effects he
      rw [hlookup, hleft] at hmem
      exact hmem
    · have hno : env.cfg.getModemNo t.network s.modemNo = some no := hlookup.trans hleft
      constructor
      · intro h no' hno' _
        obtain rfl := Option.mem_some.1 hno'
        have hnil : (dial env s t).2 = [] := by
          refine List.eq_nil_iff_forall_not_mem.2 fun e he => ?_
          exact absurd (h e he) (Option.some_ne_none _).symm
        have hen : ¬ t.enable := fun hen => effects_ne_nil hno hen hnil
        exact ⟨hen, (effects_eq_nil_iff hno hen).1 hnil⟩
      · intro h e he
        obtain ⟨hen, hstop⟩ := h no rfl rfl
        rw [(effects_eq_nil_iff hno hen).2 hstop] at he
        exact absurd he List.not_mem_nil
  · refine iff_of_true (fun e he => ?_) (fun _ _ h => absurd h (Option.some_ne_none _))
    have hmem := modemNo_of_mem_effects he
    rw [hlookup, hown, Option.some_or] at hmem
    exact hmem

theorem modemNo_dial (hown : env.cfg.getModemNo t.network none = none) :
    (dial env s t).1.modemNo = s.modemNo := by
  have hlookup := getModemNo_eq env.cfg t.network s.modemNo
  rw [hown, Option.none_or] at hlookup
  unfold dial stopDial
  rcases hleft : s.modemNo with _ | no
  · simp only [hleft] at hlookup
    simp only [hlookup]
    split_ifs
    · rfl
    · rfl
    · exact hleft
  · simp only [hleft] at hlookup
    simp only [hlookup]
    split_ifs <;> first | rfl | exact hleft

theorem file_dial_of_not_enable (hen : ¬ t.enable) :
    (dial env s t).1.file = if ∃ r ∈ s.file, t.network.Finds r then
      s.file.filter fun r => ¬ t.id.Finds r else s.file := by
  unfold dial stopDial
  rw [if_pos hen]
  split_ifs
  · dsimp only
    rcases env.cfg.getModemNo t.network s.modemNo with _ | no <;> rfl
  · rfl

/-- A section is recorded if its modem has a known driver and its network is found in no record. -/
theorem file_dial_of_enable (hen : t.enable) :
    (dial env s t).1.file =
      if (∃ no ∈ env.cfg.getModemNo t.network s.modemNo, env.cfg.getMode no ≠ .unknown)
        ∧ (s.file.filter fun r => t.network.Finds r) = []
      then s.file ++ [t.record] else s.file := by
  unfold dial
  rw [if_neg (not_not_intro hen)]
  dsimp only
  rcases env.cfg.getModemNo t.network s.modemNo with _ | no
  · simp
  · simp only [Option.mem_some_iff, exists_eq_left', List.map_eq_nil_iff]
    split_ifs <;> simp_all

theorem mem_file_dial {r : Rec} (h : r ∈ (dial env s t).1.file) : r ∈ s.file ∨ r = t.record := by
  by_cases hen : t.enable
  · rw [file_dial_of_enable hen] at h
    split_ifs at h
    · exact (List.mem_append.1 h).imp_right List.mem_singleton.1
    · exact .inl h
  · rw [file_dial_of_not_enable hen] at h
    split_ifs at h
    · exact .inl (List.mem_of_mem_filter h)
    · exact .inl h

/-- The run file and the variable are those of `Dial.dial`. -/
theorem dial_state (s : Dial.St) :
    (dial env ⟨s.file, s.modemNo⟩ t).1
      = ⟨(Dial.dial env.cfg s t.toDialSection).file,
        (Dial.dial env.cfg s t.toDialSection).modemNo⟩ := by
  unfold dial stopDial Dial.dial Dial.stopDial
  dsimp only
  rcases env.cfg.getModemNo t.network s.modemNo with _ | no
  · split_ifs <;> rfl
  · dsimp only
    split_ifs <;> rfl

/-- The state of a run and that of the same run without the sections with other networks than `n`:
they have the same records of `n`, and where `n` has no modem, no number is left in the second. -/
structure Agree (env : Env) (file : List Rec) (n : Name) (s₁ s₂ : St) : Prop where
  records : (s₁.file.filter fun r => r.network = n) = s₂.file.filter fun r => r.network = n
  other : ∀ r ∈ s₂.file, r.network ≠ n → r ∈ file
  modemNo : env.cfg.getModemNo n none = none → s₂.modemNo = none

theorem Agree.start : Agree env file n (.start file) (.start file) where
  records := rfl
  other := fun _ hr _ => hr
  modemNo := fun _ => rfl

/-- What is in the second file was there at first or is in the first. -/
theorem Agree.mem (h : Agree env file n s₁ s₂) {r : Rec} (hr : r ∈ s₂.file) :
    r ∈ file ++ s₁.file := by
  by_cases hn : r.network = n
  · have hmem : r ∈ s₂.file.filter fun r => r.network = n :=
      List.mem_filter.2 ⟨hr, decide_eq_true hn⟩
    rw [← h.records] at hmem
    exact List.mem_append_right _ (List.mem_of_mem_filter hmem)
  · exact List.mem_append_left _ (h.other r hr hn)

/-- Among records that are apart, those that the section finds are among those of its network. -/
theorem filter_finds {l : List Rec} (h : ∀ r ∈ l, t.network.Finds r → r.network = t.network) :
    (l.filter fun r => t.network.Finds r)
      = (l.filter fun r => r.network = t.network).filter fun r => t.network.Finds r := by
  rw [List.filter_filter]
  refine List.filter_congr fun r hr => ?_
  rw [← Bool.decide_and, decide_eq_decide]
  exact ⟨fun hf => ⟨hf, h r hr hf⟩, And.left⟩

theorem Agree.finds (h : Agree env file t.network s₁ s₂) (ha : Apart file s₁ t) :
    (s₁.file.filter fun r => t.network.Finds r) = s₂.file.filter fun r => t.network.Finds r := by
  rw [filter_finds fun r hr => (ha r (List.mem_append_right _ hr)).1,
    filter_finds fun r hr => (ha r (h.mem hr)).1, h.records]

theorem exists_finds_iff (l : List Rec) :
    (∃ r ∈ l, n.Finds r) ↔ (l.filter fun r => n.Finds r) ≠ [] := by
  rw [Ne, List.filter_eq_nil_iff]
  simp

/-- What is done is decided by the number and the records that the section finds. -/
theorem effects_congr
    (hno : env.cfg.getModemNo t.network s₁.modemNo = env.cfg.getModemNo t.network s₂.modemNo)
    (hf : (s₁.file.filter fun r => t.network.Finds r)
      = s₂.file.filter fun r => t.network.Finds r) :
    (dial env s₁ t).2 = (dial env s₂ t).2 := by
  unfold dial stopDial
  simp only [exists_finds_iff, hno, hf]
  rcases env.cfg.getModemNo t.network s₂.modemNo with _ | no
  · split_ifs <;> rfl
  · dsimp only
    split_ifs <;> rfl

theorem effects_eq_nil (hown : env.cfg.getModemNo t.network none = none)
    (hw : OwnWhen env s t) : (dial env s t).2 = [] := by
  refine List.eq_nil_iff_forall_not_mem.2 fun e he => ?_
  have hsome := ownModem_iff.2 hw e he
  rw [hown] at hsome
  exact absurd hsome.symm (Option.some_ne_none _)

/-- A section works with its own number in both runs, or does nothing in both. -/
theorem Agree.effects (h : Agree env file t.network s₁ s₂) (hw : OwnWhen env s₁ t)
    (ha : Apart file s₁ t) : (dial env s₁ t).2 = (dial env s₂ t).2 := by
  rcases hown : env.cfg.getModemNo t.network none with _ | no
  · have hw₂ : OwnWhen env s₂ t := by
      intro no hno
      rw [h.modemNo hown] at hno
      exact absurd hno (Option.not_mem_none _)
    rw [effects_eq_nil hown hw, effects_eq_nil hown hw₂]
  · refine effects_congr ?_ (h.finds ha)
    rw [getModemNo_eq _ _ s₁.modemNo, getModemNo_eq _ _ s₂.modemNo, hown, Option.some_or,
      Option.some_or]

/-- A section with another network keeps the records of `n`. -/
theorem Agree.other_step {u : DialOptions} (h : Agree env file n s₁ s₂) (hu : u.network ≠ n)
    (ha : Apart file s₁ u) : Agree env file n (dial env s₁ u).1 s₂ where
  records := by
    rw [← h.records]
    by_cases hen : u.enable
    · rw [file_dial_of_enable hen]
      split_ifs
      · have hnil : ([u.record].filter fun r => r.network = n) = [] := by
          simpa [DialOptions.record] using hu
        rw [List.filter_append, hnil, List.append_nil]
      · rfl
    · rw [file_dial_of_not_enable hen]
      split_ifs
      · rw [List.filter_filter]
        refine List.filter_congr fun r hr => ?_
        rw [← Bool.decide_and, decide_eq_decide]
        refine ⟨And.left, fun hn => ⟨hn, fun hf => hu ?_⟩⟩
        exact ((ha r (List.mem_append_right _ hr)).2 hen hf).symm.trans hn
      · rfl
  other := h.other
  modemNo := h.modemNo

/-- A section with the network `n` is handled in both runs. -/
theorem Agree.own_step (h : Agree env file t.network s₁ s₂) (hw : OwnWhen env s₁ t)
    (ha : Apart file s₁ t) :
    Agree env file t.network (dial env s₁ t).1 (dial env s₂ t).1 where
  records := by
    have hfinds := h.finds ha
    by_cases hen : t.enable
    · have hno : env.cfg.getModemNo t.network s₁.modemNo
          = env.cfg.getModemNo t.network s₂.modemNo := by
        rw [getModemNo_eq _ _ s₁.modemNo, getModemNo_eq _ _ s₂.modemNo]
        rcases hown : env.cfg.getModemNo t.network none with _ | no
        · rw [h.modemNo hown]
          refine congrArg _ (Option.eq_none_iff_forall_not_mem.2 fun no hno => ?_)
          exact (hw no hno hown).1 hen
        · rw [Option.some_or, Option.some_or]
      rw [file_dial_of_enable hen, file_dial_of_enable hen, hno, hfinds]
      split_ifs
      · rw [List.filter_append, List.filter_append, h.records]
      · exact h.records
    · rw [file_dial_of_not_enable hen, file_dial_of_not_enable hen]
      simp only [exists_finds_iff, hfinds]
      split_ifs
      · rw [List.filter_comm, h.records, List.filter_comm]
      · exact h.records
  other := by
    intro r hr hn
    rcases mem_file_dial hr with hmem | rfl
    · exact h.other r hmem hn
    · exact absurd rfl hn
  modemNo := by
    intro hown
    rw [modemNo_dial hown]
    exact h.modemNo hown

/-- At every section of the network the two runs agree. -/
theorem Agree.effects_after : ∀ {ps ts : List DialOptions} {s₁ s₂ : St},
    Agree env file t.network s₁ s₂ →
      Runs.Meets (step env) (fun s t => OwnWhen env s t ∧ Apart file s t) s₁ ts →
      ps ++ [t] <+: ts → (dial env (after env s₁ ps) t).2
        = (dial env (after env s₂ (ps.filter fun u => u.network = t.network)) t).2
  | [], ts, s₁, s₂, h, hm, hp => by
    obtain ⟨rest, rfl⟩ := hp
    exact h.effects hm.1.1 hm.1.2
  | u :: ps, ts, s₁, s₂, h, hm, hp => by
    obtain ⟨rest, rfl⟩ := hp
    obtain ⟨⟨hw, ha⟩, hrest⟩ := hm
    have hnext := hrest _ rfl
    by_cases hu : u.network = t.network
    · rw [List.filter_cons_of_pos (by simpa using hu)]
      rw [← hu] at h
      have hstep := h.own_step hw ha
      rw [hu] at hstep
      exact hstep.effects_after hnext ⟨rest, rfl⟩
    · rw [List.filter_cons_of_neg (by simpa using hu)]
      exact (h.other_step hu ha).effects_after hnext ⟨rest, rfl⟩

/-- All sections work on their own modems exactly if each of them meets the condition; if the
records are apart too, what a section does is what it does without the sections with other networks.
-/
theorem modem_right (env : Env) (file : List Rec) (ts : List DialOptions) :
    (Runs.Meets (step env) (OwnModem env) (.start file) ts
        ↔ Runs.Meets (step env) (OwnWhen env) (.start file) ts)
      ∧ (Runs.Meets (step env) (fun s t => OwnWhen env s t ∧ Apart file s t) (.start file) ts →
        Independent env (.start file) ts) := by
  constructor
  · refine Runs.meets_iff_of_inv (I := fun _ => True) (fun s t _ => ownModem_iff) ?_ trivial
    exact fun _ _ _ _ _ => trivial
  · intro h ps t hp
    exact Agree.start.effects_after h hp

theorem OwnWhen.of_own (h : env.cfg.getModemNo t.network none ≠ none) : OwnWhen env s t :=
  fun _ _ hown => absurd hown h

theorem OwnWhen.of_empty (h : s.modemNo = none) : OwnWhen env s t := by
  intro no hno
  rw [h] at hno
  exact absurd hno (Option.not_mem_none _)

def wwan0Device : Device where
  network := some wwan0
  netDriver := "qmi_wwan"
  manufacturer := "quectel"
  atPort := "/dev/ttyUSB2"
  platform := "qualcomm"
  defineConnect := "1"
  path := "/sys/devices/platform/usb1/1-1"
  networkInterface := "wwan0"

def usb0Device : Device where
  network := some usb0
  netDriver := "cdc_ether"
  manufacturer := "fibocom"
  atPort := "/dev/ttyUSB6"
  platform := "mediatek"
  defineConnect := "1"
  path := "/sys/devices/platform/usb1/1-2"
  networkInterface := "usb0"

def envOf (devices : List Device) : Env where
  devices := devices
  instances := []
  nullMac := fun _ => false

/-- A section that is enabled. -/
def enabledSection (id : Id) (network : Name) : DialOptions where
  id := id
  enable := true
  network := network
  dialTool := ""
  pdpType := "ipv4"
  networkBridge := "0"
  apn := ""
  username := ""
  password := ""
  auth := "none"

/-- The first of the sections has no modem, and comes while the variable is empty. -/
def inOrder : List DialOptions :=
  [enabledSection idA wwan0_1, enabledSection idB wwan0, enabledSection idA usb0]

theorem inOrder_meets : Runs.Meets (step (envOf [wwan0Device, usb0Device]))
    (fun s t => OwnWhen (envOf [wwan0Device, usb0Device]) s t ∧ Apart [] s t) (.start [])
    inOrder := by
  refine ⟨⟨.of_empty rfl, by decide +kernel⟩, fun s₁ h₁ => ?_⟩
  cases h₁
  refine ⟨⟨.of_own (by decide), by decide +kernel⟩, fun s₂ h₂ => ?_⟩
  cases h₂
  exact ⟨⟨.of_own (by decide), by decide +kernel⟩, fun _ _ => trivial⟩

theorem modem_right_inOrder :
    Runs.Meets (step (envOf [wwan0Device, usb0Device])) (OwnModem (envOf [wwan0Device, usb0Device]))
        (.start []) inOrder
      ∧ Independent (envOf [wwan0Device, usb0Device]) (.start []) inOrder := by
  obtain ⟨hown, hindep⟩ := modem_right (envOf [wwan0Device, usb0Device]) [] inOrder
  refine ⟨hown.2 ?_, hindep inOrder_meets⟩
  exact Runs.meets_of_inv (I := fun _ => True) (fun _ _ _ _ _ _ => trivial) (fun _ _ _ h => h.1)
    trivial inOrder_meets

/-- The second section has no modem, and dials on that of the first one. -/
theorem modem_wrong :
    ¬ Runs.Meets (step (envOf [wwan0Device])) (OwnModem (envOf [wwan0Device])) (.start [])
        [enabledSection idA wwan0, enabledSection idB usb0]
      ∧ ¬ Independent (envOf [wwan0Device]) (.start [])
        [enabledSection idA wwan0, enabledSection idB usb0] := by
  constructor
  · intro h
    have hwhen := ownModem_iff.1 (h.2 _ rfl).1
    exact (hwhen 0 rfl rfl).1 rfl
  · intro h
    have heq := h [enabledSection idA wwan0] (enabledSection idB usb0) List.prefix_rfl
    have hno : (envOf [wwan0Device]).cfg.getModemNo usb0 (some 0) = some 0 := rfl
    exact effects_ne_nil hno rfl (heq.trans rfl)

end DialRun

end BananaWrt
