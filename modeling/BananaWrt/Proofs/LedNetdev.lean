import Mathlib.Data.List.Nodup
import Mathlib.Data.List.TakeWhile
import BananaWrt.Lib.Keyed
import BananaWrt.Lib.Run
import BananaWrt.LedNetdev

/-!
# The trigger follows its device

Over any run the trigger holds one reference, to its device, and none once it is deactivated. The
LED follows the device as long as all steps are tidy: a device that is down with its carrier on is
not bound, no other device is bound under hardware control, and no blink leaves the LED on that is
to be off.
-/

namespace BananaWrt

namespace LedNetdev

open Ledger (clean)

variable {hw : Hw} {s t : St} {d : ℕ} {v : Dev}

namespace St

theorem setBaselineState_eq (s : St) : s.setBaselineState =
    { s with
      led := some s.wanted
      work := s.work || (!s.hwControl && s.carrierLinkUp && s.counts) } := by
  unfold setBaselineState wanted
  cases s.hwControl
  · cases s.carrierLinkUp <;> simp
  · simp

/-- The reference of the trigger. -/
def Holds (s : St) : Prop := s.refs = clean (s.netDev.toList : Multiset ℕ)

theorem putDev_eq (h : s.Holds) : s.putDev = { s with netDev := none, refs := clean 0 } := by
  unfold Holds at h
  unfold putDev
  cases hd : s.netDev with
  | none =>
    rw [hd, Option.toList_none, Multiset.coe_nil] at h
    simp only [← h, ← hd]
  | some d =>
    have hdrop : s.refs.drop d = clean 0 := by
      rw [h, hd]
      exact Ledger.drop_clean 0 d
    simp only [hdrop]

theorem holds_putDev (h : s.Holds) : s.putDev.Holds := by
  rw [putDev_eq h]
  rfl

/-- The device is exchanged. -/
theorem holdDev_putDev (h : s.Holds) (d : ℕ) :
    s.putDev.holdDev d = { s with netDev := some d, refs := clean {d} } := by
  rw [putDev_eq h]
  rfl

end St

/-- The speed and the duplex mode that `get_device_state` finds. -/
def Dev.seen (v : Dev) : ℤ × ℕ :=
  if v.carrier then v.settings.getD (SPEED_UNKNOWN, DUPLEX_UNKNOWN)
  else (SPEED_UNKNOWN, DUPLEX_UNKNOWN)

namespace St

/-- The device `v` has been looked at. -/
def see (s : St) (v : Dev) : St :=
  { s with carrierLinkUp := v.carrier, linkSpeed := v.seen.1, duplex := v.seen.2 }

theorem getDeviceState_eq (hd : s.netDev = some d) :
    s.getDeviceState = (s.useDev d).getLink (s.dev d) := by
  simp only [getDeviceState, hd]

theorem useDev_eq (h : s.Holds) (hd : s.netDev = some d) : s.useDev d = s := by
  have huse : s.refs.use d = s.refs := by
    refine Ledger.use_of_mem ?_
    rw [h, hd]
    exact Multiset.mem_singleton_self d
  unfold useDev
  rw [huse]

theorem getLink_unknown (s : St) (v : Dev) : s.unknown.getLink (some v) = s.see v := by
  obtain ⟨id, name, up, carrier, settings⟩ := v
  cases carrier
  · rfl
  · cases settings <;> rfl

theorem getDeviceState_unknown (h : s.Holds) (hv : s.device = some v) :
    s.unknown.getDeviceState = s.see v := by
  obtain ⟨d, hd, hdev⟩ := Option.bind_eq_some_iff.1 hv
  rw [getDeviceState_eq (s := s.unknown) hd, useDev_eq (s := s.unknown) h hd]
  exact hdev ▸ getLink_unknown s v

end St

section Follows

open St

theorem linkUp_eq (h : s.device = some v) : s.linkUp = (v.up && v.carrier) := by
  rw [linkUp, h, Option.any_some]

theorem linkUp_none (h : s.device = none) : s.linkUp = false := by
  rw [linkUp, h, Option.any_none]

theorem settings_eq (h : s.device = some v) :
    s.settings = v.settings.getD (SPEED_UNKNOWN, DUPLEX_UNKNOWN) := by
  rw [St.settings, h, Option.bind_some]

/-- `set_baseline_state` makes the LED right, and the work. -/
theorem follows_setBaselineState (hwork : s.work = false) : Follows hw s.setBaselineState ↔
    s.carrierLinkUp = s.linkUp ∧ (s.linkUp = true → (s.linkSpeed, s.duplex) = s.settings)
      ∧ (s.hwControl = true → s.canHwControl hw = true) := by
  rw [setBaselineState_eq, hwork, Bool.false_or]
  refine ⟨fun h => ⟨h.carrier, h.settings, h.hwControl⟩, fun ⟨hc, hs, hh⟩ =>
    ⟨hc, hs, hh, fun l hl => ?_, rfl⟩⟩
  cases hl
  rfl

/-- The device has been looked at. -/
theorem follows_see (hv : s.device = some v) (hwork : s.work = false) :
    Follows hw (s.see v).setBaselineState ↔
      (v.carrier = true → v.up = true) ∧ (s.hwControl = true → s.canHwControl hw = true) := by
  have hlink : (s.see v).linkUp = (v.up && v.carrier) := linkUp_eq (s := s.see v) hv
  have hset : (s.see v).settings = v.settings.getD (SPEED_UNKNOWN, DUPLEX_UNKNOWN) :=
    settings_eq (s := s.see v) hv
  rw [follows_setBaselineState (s := s.see v) hwork, hlink, hset]
  refine and_congr ?_ (and_iff_right fun hup => ?_)
  · change v.carrier = (v.up && v.carrier) ↔ _
    cases v.carrier <;> cases v.up <;> simp
  · have hcarrier : v.carrier = true := (Bool.and_eq_true_iff.1 hup).2
    change (v.seen.1, v.seen.2) = _
    rw [Dev.seen, if_pos hcarrier]

/-- The device has not been looked at. -/
theorem follows_unknown (hwork : s.work = false) :
    Follows hw s.unknown.setBaselineState ↔
      s.linkUp = false ∧ (s.hwControl = true → s.canHwControl hw = true) := by
  rw [follows_setBaselineState (s := s.unknown) hwork]
  refine ⟨fun ⟨hc, _, hh⟩ => ⟨hc.symm, hh⟩, fun ⟨hl, hh⟩ => ⟨hl.symm, fun hup => ?_, hh⟩⟩
  exact absurd (hl.symm.trans hup) Bool.false_ne_true

/-- Nothing has changed but other devices. -/
theorem Follows.congr {devs : List Dev} (h : Follows hw s)
    (hdev : (s.setDevs devs).device = s.device) : Follows hw (s.setDevs devs) := by
  have hlink : (s.setDevs devs).linkUp = s.linkUp := by rw [linkUp, linkUp, hdev]
  have hset : (s.setDevs devs).settings = s.settings := by rw [St.settings, St.settings, hdev]
  exact ⟨h.carrier.trans hlink.symm, fun hup => (h.settings (hlink ▸ hup)).trans hset.symm,
    h.hwControl, h.led, h.work⟩

/-- Hardware control has been found possible, and the device is still that of the LED. -/
theorem canHwControl_iff (h : s.canHwControl hw = true) (ht : t.interval = s.interval)
    (hmode : t.mode = s.mode) : t.canHwControl hw = true ↔ t.netDev = s.netDev := by
  obtain ⟨hsup, hint, hval, hmodes⟩ := of_decide_eq_true h
  obtain ⟨hsome, hdev⟩ := of_decide_eq_true hval
  refine ⟨fun h' => ?_, fun hnet => decide_eq_true ⟨hsup, ht.trans hint, ?_, hmode ▸ hmodes⟩⟩
  · obtain ⟨_, _, hval', _⟩ := of_decide_eq_true h'
    exact (of_decide_eq_true hval').2.trans hdev.symm
  · exact decide_eq_true ⟨hsome, hnet.trans hdev⟩

/-- The device is another one, or there is none. -/
theorem hwControl_iff (h : Follows hw s) (hhw : t.hwControl = s.hwControl)
    (ht : t.interval = s.interval) (hmode : t.mode = s.mode) :
    (t.hwControl = true → t.canHwControl hw = true) ↔
      (s.hwControl = true → t.netDev = s.netDev) := by
  rw [hhw]
  exact forall_congr' fun hctl => canHwControl_iff (h.hwControl hctl) ht hmode

end Follows

structure World (devs : List Dev) : Prop where
  ids : (devs.map Dev.id).Nodup
  names : (devs.map Dev.name).Nodup
  valid : ∀ v ∈ devs, ValidName v.name

section Devices

open St

theorem World.id_inj {devs : List Dev} (h : World devs) {v w : Dev} (hv : v ∈ devs) (hw : w ∈ devs)
    (heq : v.id = w.id) : v = w :=
  List.inj_on_of_nodup_map h.ids hv hw heq

theorem World.name_inj {devs : List Dev} (h : World devs) {v w : Dev} (hv : v ∈ devs)
    (hw : w ∈ devs) (heq : v.name = w.name) : v = w :=
  List.inj_on_of_nodup_map h.names hv hw heq

theorem mem_of_dev (h : s.dev d = some v) : v ∈ s.devs ∧ v.id = d :=
  ⟨List.mem_of_find?_eq_some h,
    of_decide_eq_true (List.find?_some (p := fun v : Dev => decide (v.id = d)) h)⟩

theorem dev_of_mem (h : World s.devs) (hv : v ∈ s.devs) : s.dev v.id = some v :=
  List.find?_of_unique hv (decide_eq_true rfl) fun _ hw heq =>
    h.id_inj hw hv (of_decide_eq_true heq)

theorem getByName_of_mem (h : World s.devs) (hv : v ∈ s.devs) : getByName s v.name = some v :=
  List.find?_of_unique hv (decide_eq_true rfl) fun _ hw heq =>
    h.name_inj hw hv (of_decide_eq_true heq)

theorem mem_of_getByName {name : List Char} (h : getByName s name = some v) :
    v ∈ s.devs ∧ v.name = name :=
  ⟨List.mem_of_find?_eq_some h,
    of_decide_eq_true (List.find?_some (p := fun v : Dev => decide (v.name = name)) h)⟩

theorem device_eq (hd : s.netDev = some d) : s.device = s.dev d := by
  rw [device, hd, Option.bind_some]

theorem device_setDevs {devs : List Dev}
    (h : ∀ d, s.netDev = some d → (s.setDevs devs).dev d = s.dev d) :
    (s.setDevs devs).device = s.device := by
  cases hn : s.netDev with
  | none =>
    rw [device, device, hn]
    exact congrArg (fun o : Option ℕ => o.bind (s.setDevs devs).dev) hn
  | some d => rw [device_eq hn, device_eq (s := s.setDevs devs) hn, h d hn]

section Update

variable {f : Dev → Dev} (hf : ∀ v, (f v).id = v.id)

include hf

theorem dev_updateDev (e : ℕ) :
    (s.updateDev d f).dev e = (s.dev e).map fun v => if v.id = d then f v else v := by
  unfold dev updateDev setDevs
  rw [List.find?_map]
  congr 2
  funext v
  change decide ((if v.id = d then f v else v).id = e) = _
  split_ifs
  · rw [hf]
  · rfl

theorem dev_updateDev_self (hv : s.dev d = some v) : (s.updateDev d f).dev d = some (f v) := by
  rw [dev_updateDev hf, hv, Option.map_some, if_pos (mem_of_dev hv).2]

/-- It is not the device of the trigger. -/
theorem device_updateDev_of_ne (hd : s.netDev ≠ some d) :
    (s.updateDev d f).device = s.device := by
  refine device_setDevs fun e hn => ?_
  change (s.updateDev d f).dev e = _
  have hne : e ≠ d := fun he => hd (hn.trans (congrArg some he))
  rw [dev_updateDev hf]
  cases hv : s.dev e with
  | none => rfl
  | some v => rw [Option.map_some, if_neg ((mem_of_dev hv).2 ▸ hne)]

theorem World.updateDev (h : World s.devs) (hname : ∀ v, (f v).name = v.name) :
    World (s.updateDev d f).devs := by
  have hmap : ∀ {α : Type} (g : Dev → α), (∀ v, g (f v) = g v) →
      (s.updateDev d f).devs.map g = s.devs.map g := by
    intro α g hg
    unfold St.updateDev setDevs
    rw [List.map_map]
    refine List.map_congr_left fun v _ => ?_
    change g (if v.id = d then f v else v) = g v
    split_ifs
    · exact hg v
    · rfl
  refine ⟨hmap Dev.id hf ▸ h.ids, hmap Dev.name hname ▸ h.names, fun v hv => ?_⟩
  obtain ⟨w, hw, hwv⟩ := List.mem_map.1 (hmap Dev.name hname ▸ List.mem_map_of_mem hv)
  exact hwv ▸ h.valid w hw

end Update

end Devices

/-- The trigger is bound to the device `d`, or to none. -/
def St.bindTo (s : St) (d : Option ℕ) : St :=
  { s with work := false, netDev := d, refs := clean (d.toList : Multiset ℕ) }

section Notify

open St

variable {evt : Event} {name : List Char}

theorem notify_of_not (h : ¬ Notices s evt d name) : netdevTrigNotify s evt d name = s := if_pos h

theorem notify_of (h : Notices s evt d name) : netdevTrigNotify s evt d name =
    (handle s.cancelWork.unknown evt d).setBaselineState :=
  if_neg (not_not_intro h)

theorem notify_up (hs : s.Holds) (hd : s.netDev = some d) (hv : s.device = some v)
    (hevt : evt = .up ∨ evt = .change) :
    netdevTrigNotify s evt d name = (s.cancelWork.see v).setBaselineState := by
  rw [notify_of (Or.inl hd), ← getDeviceState_unknown (s := s.cancelWork) hs hv]
  obtain rfl | rfl := hevt <;> rfl

theorem notify_down (hd : s.netDev = some d) :
    netdevTrigNotify s .down d name = s.cancelWork.unknown.setBaselineState :=
  notify_of (Or.inl hd)

theorem notify_unregister (hs : s.Holds) (hd : s.netDev = some d) :
    netdevTrigNotify s .unregister d name = (s.bindTo none).unknown.setBaselineState := by
  rw [notify_of (Or.inl hd)]
  exact congrArg St.setBaselineState (putDev_eq (s := s.cancelWork.unknown) hs)

theorem notify_register (hs : s.Holds) (h : s.netDev = some d ∨ name = s.deviceName) :
    netdevTrigNotify s .register d name = (s.bindTo (some d)).unknown.setBaselineState := by
  rw [notify_of (h.imp_right fun h => Or.inr ⟨rfl, h⟩)]
  exact congrArg St.setBaselineState (holdDev_putDev (s := s.cancelWork.unknown) hs d)

theorem notify_changename (hs : s.Holds) (h : s.netDev = some d ∨ name = s.deviceName)
    (hv : s.dev d = some v) :
    netdevTrigNotify s .changename d name = ((s.bindTo (some d)).see v).setBaselineState := by
  rw [notify_of (h.imp_right fun h => Or.inl ⟨rfl, h⟩)]
  have hholds := holdDev_putDev (s := s.cancelWork.unknown) hs d
  change ((s.cancelWork.unknown.putDev.holdDev d).getDeviceState).setBaselineState = _
  rw [hholds]
  exact congrArg St.setBaselineState (getDeviceState_unknown (s := s.bindTo (some d)) rfl hv)

theorem not_notices (hd : s.netDev ≠ some d) (hevt : evt ≠ .changename) (hevt' : evt ≠ .register) :
    ¬ Notices s evt d name := by
  rintro (h | ⟨rfl, _⟩ | ⟨rfl, _⟩)
  · exact hd h
  · exact hevt rfl
  · exact hevt' rfl

end Notify

/-! ## Steps -/

/-- The references are right, and the devices. -/
structure Base (s : St) : Prop extends Refs s where
  world : World s.devs

/-- A step keeps the references right, and goes on following the device if and only if `ok`. -/
def Kept (hw : Hw) (s s' : St) (ok : Prop) : Prop :=
  Base s' ∧ (Follows hw s → (Follows hw s' ↔ ok))

section Steps

open St

theorem Base.device (h : Base s) (hd : s.netDev = some d) : ∃ v, s.dev d = some v :=
  Option.isSome_iff_exists.1 (h.registered d hd)

theorem base_setBaselineState (h : Base s) : Base s.setBaselineState := by
  rw [setBaselineState_eq]
  exact ⟨⟨h.refs, h.registered⟩, h.world⟩

/-- Other devices than that of the trigger have changed. -/
theorem kept_of_device {devs : List Dev} (h : Base s) (hworld : World devs)
    (hdev : (s.setDevs devs).device = s.device) :
    Kept hw s (s.setDevs devs) True := by
  refine ⟨⟨⟨h.refs, fun d hd => ?_⟩, hworld⟩, fun hf => iff_of_true (hf.congr hdev) trivial⟩
  have hd' : (s.setDevs devs).dev d = s.dev d := by
    exact (device_eq (s := (s.setDevs devs)) hd).symm.trans (hdev.trans (device_eq hd))
  rw [hd']
  exact h.registered d hd

theorem Kept.congr {s' : St} {ok ok' : Prop} (h : Kept hw s s' ok) (hok : ok ↔ ok') :
    Kept hw s s' ok' :=
  ⟨h.1, fun hf => (h.2 hf).trans hok⟩

theorem kept_refl (h : Base s) : Kept hw s s True := ⟨h, fun hf => iff_of_true hf trivial⟩

/-- A device that nothing is known of is bound. -/
theorem base_bindTo (h : World s.devs) (hd : (s.dev d).isSome = true) : Base (s.bindTo (some d)) :=
  ⟨⟨rfl, fun _ he => Option.some.inj he ▸ hd⟩, h⟩

theorem base_unbind (h : World s.devs) : Base (s.bindTo none) :=
  ⟨⟨rfl, fun _ he => absurd he (Option.not_mem_none _)⟩, h⟩

theorem Base.unknown (h : Base s) : Base s.unknown := ⟨⟨h.refs, h.registered⟩, h.world⟩

theorem Base.see (h : Base s) (v : Dev) : Base (s.see v) := ⟨⟨h.refs, h.registered⟩, h.world⟩

theorem Base.cancelWork (h : Base s) : Base s.cancelWork := ⟨⟨h.refs, h.registered⟩, h.world⟩

section Register

variable (h : Base s) (hup : v.up = false) (hvalid : ValidName v.name)
  (hnew : ∀ w ∈ s.devs, w.id ≠ v.id ∧ w.name ≠ v.name)

include h hnew

theorem netDev_ne_new : s.netDev ≠ some v.id := by
  intro hd
  obtain ⟨w, hw⟩ := h.device hd
  exact (hnew w (mem_of_dev hw).1).1 (mem_of_dev hw).2

include hvalid

theorem world_register : World (s.devs ++ [v]) := by
  refine ⟨?_, ?_, fun w hw => ?_⟩
  · rw [List.map_append, List.nodup_append_comm]
    refine List.nodup_cons.2 ⟨fun hmem => ?_, h.world.ids⟩
    obtain ⟨w, hw, heq⟩ := List.mem_map.1 hmem
    exact (hnew w hw).1 heq
  · rw [List.map_append, List.nodup_append_comm]
    refine List.nodup_cons.2 ⟨fun hmem => ?_, h.world.names⟩
    obtain ⟨w, hw, heq⟩ := List.mem_map.1 hmem
    exact (hnew w hw).2 heq
  · rcases List.mem_append.1 hw with hw | hw
    · exact h.world.valid w hw
    · rwa [List.mem_singleton.1 hw]

theorem device_register : (s.setDevs (s.devs ++ [v])).device = s.device := by
  refine device_setDevs fun d hn => ?_
  obtain ⟨w, hw⟩ := h.device hn
  have hmem : w ∈ s.devs ++ [v] := List.mem_append_left _ (mem_of_dev hw).1
  rw [hw, ← (mem_of_dev hw).2]
  exact dev_of_mem (s := s.setDevs (s.devs ++ [v])) (world_register h hvalid hnew) hmem

include hup

theorem kept_register :
    Kept hw s (netdevTrigNotify (s.setDevs (s.devs ++ [v])) .register v.id v.name)
      (v.name = s.deviceName → s.hwControl = false) := by
  have hworld := world_register h hvalid hnew
  have hne := netDev_ne_new h hnew
  by_cases hname : v.name = s.deviceName
  · rw [notify_register (s := s.setDevs (s.devs ++ [v])) h.refs (Or.inr hname)]
    have hdev : (s.setDevs (s.devs ++ [v])).dev v.id = some v :=
      dev_of_mem (s := s.setDevs (s.devs ++ [v])) hworld
        (List.mem_append_right _ (List.mem_singleton_self v))
    let t := (s.setDevs (s.devs ++ [v])).bindTo (some v.id)
    have hlink : t.linkUp = false := by
      rw [linkUp_eq (s := t) hdev, hup, Bool.false_and]
    refine ⟨base_setBaselineState (base_bindTo hworld (Option.isSome_of_eq_some hdev)).unknown,
      fun hf => ?_⟩
    rw [follows_unknown (s := t) rfl, and_iff_right hlink, hwControl_iff (t := t) hf rfl rfl rfl]
    refine ⟨fun hctl _ => ?_, fun hctl htrue => ?_⟩
    · exact eq_false_of_ne_true fun htrue => hne (hctl htrue).symm
    · exact absurd ((hctl hname).symm.trans htrue) Bool.false_ne_true
  · rw [notify_of_not]
    · exact (kept_of_device h hworld (device_register h hvalid hnew)).congr
        (iff_of_true trivial fun heq => absurd heq hname)
    · rintro (heq | ⟨hevt, _⟩ | ⟨_, heq⟩)
      · exact hne heq
      · exact Event.noConfusion hevt
      · exact hname heq

end Register

section Update

variable {evt : Event} {name : List Char} {f : Dev → Dev}

/-- The device of the trigger stays registered. -/
theorem Base.updateDev (h : Base s) (hf : ∀ v, (f v).id = v.id)
    (hworld : World (s.updateDev d f).devs) : Base (s.updateDev d f) := by
  refine ⟨⟨h.refs, fun e he => ?_⟩, hworld⟩
  rw [dev_updateDev hf, Option.isSome_map]
  exact h.registered e he

variable (h : Base s) (hv : s.dev d = some v) (hf : ∀ v, (f v).id = v.id)
  (hname : ∀ v, (f v).name = v.name)

include h hv hf hname

/-- The device of the trigger is looked at, which is up. -/
theorem kept_up (hevt : evt = .up ∨ evt = .change) (hup : (f v).up = true) :
    Kept hw s (netdevTrigNotify (s.updateDev d f) evt d name) True := by
  have hbase := h.updateDev hf (h.world.updateDev (d := d) hf hname)
  by_cases hd : s.netDev = some d
  · have hdev : (s.updateDev d f).device = some (f v) :=
      (device_eq (s := s.updateDev d f) hd).trans (dev_updateDev_self hf hv)
    rw [notify_up (s := s.updateDev d f) h.refs hd hdev hevt]
    refine ⟨base_setBaselineState (hbase.cancelWork.see (f v)), fun hfol => ?_⟩
    rw [follows_see (s := (s.updateDev d f).cancelWork) hdev rfl,
      hwControl_iff (t := (s.updateDev d f).cancelWork) hfol rfl rfl rfl]
    exact iff_of_true ⟨fun _ => hup, fun _ => rfl⟩ trivial
  · rw [notify_of_not (not_notices (s := s.updateDev d f) hd _ _)]
    · exact kept_of_device h hbase.world (device_updateDev_of_ne hf hd)
    · obtain rfl | rfl := hevt <;> exact Event.noConfusion
    · obtain rfl | rfl := hevt <;> exact Event.noConfusion

theorem kept_down (hup : (f v).up = false) :
    Kept hw s (netdevTrigNotify (s.updateDev d f) .down d name) True := by
  have hbase := h.updateDev hf (h.world.updateDev (d := d) hf hname)
  by_cases hd : s.netDev = some d
  · have hdev : (s.updateDev d f).device = some (f v) :=
      (device_eq (s := s.updateDev d f) hd).trans (dev_updateDev_self hf hv)
    have hlink : (s.updateDev d f).cancelWork.linkUp = false := by
      rw [linkUp_eq (s := (s.updateDev d f).cancelWork) hdev, hup, Bool.false_and]
    rw [notify_down (s := s.updateDev d f) hd]
    refine ⟨base_setBaselineState hbase.cancelWork.unknown, fun hfol => ?_⟩
    rw [follows_unknown (s := (s.updateDev d f).cancelWork) rfl,
      hwControl_iff (t := (s.updateDev d f).cancelWork) hfol rfl rfl rfl]
    exact iff_of_true ⟨hlink, fun _ => rfl⟩ trivial
  · rw [notify_of_not (not_notices (s := s.updateDev d f) hd Event.noConfusion Event.noConfusion)]
    exact kept_of_device h hbase.world (device_updateDev_of_ne hf hd)

/-- A device that is down says nothing when its carrier changes. -/
theorem kept_silent (hdown : v.up = false) (hup : (f v).up = false) :
    Kept hw s (s.updateDev d f) True := by
  have hbase := h.updateDev hf (h.world.updateDev (d := d) hf hname)
  by_cases hd : s.netDev = some d
  · refine ⟨hbase, fun hfol => iff_of_true ?_ trivial⟩
    have hdev : (s.updateDev d f).device = some (f v) :=
      (device_eq (s := s.updateDev d f) hd).trans (dev_updateDev_self hf hv)
    have hlink : (s.updateDev d f).linkUp = false := by rw [linkUp_eq hdev, hup, Bool.false_and]
    have hlink' : s.linkUp = false := by
      rw [linkUp_eq ((device_eq hd).trans hv), hdown, Bool.false_and]
    exact ⟨hfol.carrier.trans (hlink'.trans hlink.symm),
      fun htrue => absurd (hlink.symm.trans htrue) Bool.false_ne_true, hfol.hwControl, hfol.led,
      hfol.work⟩
  · exact kept_of_device h hbase.world (device_updateDev_of_ne hf hd)

end Update

theorem kept_closeDev (h : Base s) (hv : s.dev d = some v) : Kept hw s (s.closeDev v) True := by
  obtain ⟨-, rfl⟩ := mem_of_dev hv
  unfold closeDev
  split_ifs
  · exact kept_down h hv (fun _ => rfl) (fun _ => rfl) rfl
  · exact kept_refl h

/-- The trigger keeps its device and its hold of the LED. -/
theorem closeDev_frame (s : St) (v : Dev) :
    (s.closeDev v).netDev = s.netDev ∧ (s.closeDev v).hwControl = s.hwControl := by
  unfold closeDev
  split_ifs
  · by_cases hn : Notices (s.updateDev v.id fun v => { v with up := false }) .down v.id v.name
    · rw [notify_of hn, setBaselineState_eq]
      exact ⟨rfl, rfl⟩
    · rw [notify_of_not hn]
      exact ⟨rfl, rfl⟩
  · exact ⟨rfl, rfl⟩

section Unregister

variable {name : List Char} (h : Base s)

include h

theorem world_filter (d : ℕ) : World (s.devs.filter fun w => w.id ≠ d) := by
  have hsub := List.filter_sublist (p := fun w : Dev => decide (w.id ≠ d)) (l := s.devs)
  exact ⟨(hsub.map Dev.id).nodup h.world.ids, (hsub.map Dev.name).nodup h.world.names,
    fun v hv => h.world.valid v (hsub.subset hv)⟩

theorem kept_unregister :
    Kept hw s (netdevTrigNotify (s.setDevs (s.devs.filter fun w => w.id ≠ d)) .unregister d name)
      (s.hwControl = true → s.netDev ≠ some d) := by
  have hworld := world_filter h d
  by_cases hd : s.netDev = some d
  · let t := (s.setDevs (s.devs.filter fun w => w.id ≠ d)).bindTo none
    rw [notify_unregister (s := s.setDevs (s.devs.filter fun w => w.id ≠ d)) h.refs hd]
    refine ⟨base_setBaselineState (base_unbind hworld).unknown, fun hfol => ?_⟩
    rw [follows_unknown (s := t) rfl, hwControl_iff (t := t) hfol rfl rfl rfl,
      and_iff_right (linkUp_none rfl)]
    refine forall_congr' fun _ => ⟨fun heq _ => ?_, fun hne => absurd hd hne⟩
    cases (heq.trans hd : (none : Option ℕ) = some d)
  · rw [notify_of_not (not_notices (s := s.setDevs (s.devs.filter fun w => w.id ≠ d)) hd
      Event.noConfusion Event.noConfusion)]
    refine (kept_of_device h hworld (device_setDevs fun e hn => ?_)).congr
      (iff_of_true trivial fun _ => hd)
    obtain ⟨w, hw⟩ := h.device hn
    obtain ⟨hmem, rfl⟩ := mem_of_dev hw
    rw [hw]
    refine dev_of_mem (s := s.setDevs (s.devs.filter fun w => w.id ≠ d)) hworld
      (List.mem_filter.2 ⟨hmem, decide_eq_true fun heq => hd ?_⟩)
    exact hn.trans (congrArg some heq)

end Unregister

section Rename

variable {name : List Char} (h : Base s) (hv : s.dev d = some v) (hvalid : ValidName name)
  (hnew : ∀ w ∈ s.devs, w.name ≠ name)

include h hvalid hnew

theorem world_rename : World (s.updateDev d fun v => { v with name := name }).devs := by
  have hnodup : s.devs.Nodup := h.world.ids.of_map
  unfold St.updateDev setDevs
  refine ⟨?_, ?_, fun v hv => ?_⟩
  · rw [List.map_map]
    refine (List.nodup_map_iff_inj_on hnodup).2 fun v hv w hw heq => h.world.id_inj hv hw ?_
    simp only [Function.comp] at heq
    split_ifs at heq <;> exact heq
  · rw [List.map_map]
    refine (List.nodup_map_iff_inj_on hnodup).2 fun v hv w hw heq => ?_
    simp only [Function.comp] at heq
    split_ifs at heq with hvd hwd hwd
    · exact h.world.id_inj hv hw (hvd.trans hwd.symm)
    · exact absurd heq.symm (hnew w hw)
    · exact absurd heq (hnew v hv)
    · exact h.world.name_inj hv hw heq
  · obtain ⟨w, hw, rfl⟩ := List.mem_map.1 hv
    split_ifs
    · exact hvalid
    · exact h.world.valid w hw

include hv

theorem kept_rename :
    Kept hw s (netdevTrigNotify (s.updateDev d fun v => { v with name := name }) .changename d name)
      (s.netDev = some d ∨ name = s.deviceName →
        (v.carrier = true → v.up = true) ∧ (s.hwControl = true → s.netDev = some d)) := by
  have hworld := world_rename (d := d) h hvalid hnew
  have hdev : (s.updateDev d fun v => { v with name := name }).dev d
      = some { v with name := name } := dev_updateDev_self (fun _ => rfl) hv
  by_cases hn : s.netDev = some d ∨ name = s.deviceName
  · let t := (s.updateDev d fun v => { v with name := name }).bindTo (some d)
    rw [notify_changename (s := s.updateDev d fun v => { v with name := name }) h.refs hn hdev]
    refine ⟨base_setBaselineState
      ((base_bindTo hworld (Option.isSome_of_eq_some hdev)).see _), fun hfol => ?_⟩
    rw [follows_see (s := t) hdev rfl, hwControl_iff (t := t) hfol rfl rfl rfl]
    refine Iff.trans (and_congr_right_iff.2 fun _ => ?_) (imp_iff_right hn).symm
    exact forall_congr' fun _ => eq_comm
  · rw [notify_of_not]
    · refine (kept_of_device h hworld ?_).congr (iff_of_true trivial fun hn' => absurd hn' hn)
      exact device_updateDev_of_ne (fun _ => rfl) fun hd => hn (Or.inl hd)
    · rintro (heq | ⟨_, heq⟩ | ⟨hevt, _⟩)
      · exact hn (Or.inl heq)
      · exact hn (Or.inr heq)
      · exact Event.noConfusion hevt

end Rename

section Attributes

variable {buf : List Char}

/-- The trigger looks at a device that it finds by a new name. -/
def St.named (s : St) (name : List Char) : St := { s with deviceName := name, lastActivity := 0 }

theorem setDeviceName_none (hs : s.Holds) (hlen : buf.length < IFNAMSIZ)
    (hfound : getByName s (nameOf buf) = none) : setDeviceName s buf =
      .ok ((s.bindTo none).named (nameOf buf)).unknown.setBaselineState := by
  have hput := putDev_eq (s := s.cancelWork) hs
  have hfound' : getByName { s.cancelWork.putDev with deviceName := nameOf buf } (nameOf buf)
      = none := by
    rw [hput]
    exact hfound
  simp only [setDeviceName, if_neg (Nat.not_le_of_lt hlen), hfound', ite_self]
  rw [hput]
  rfl

theorem setDeviceName_some (hs : s.Holds) (hworld : World s.devs) (hlen : buf.length < IFNAMSIZ)
    (hfound : getByName s (nameOf buf) = some v) : setDeviceName s buf =
      .ok (((s.bindTo (some v.id)).named (nameOf buf)).see v).setBaselineState := by
  obtain ⟨hmem, hname⟩ := mem_of_getByName hfound
  have hne : nameOf buf ≠ [] := hname ▸ (hworld.valid v hmem).1
  have hput := putDev_eq (s := s.cancelWork) hs
  have hfound' : getByName { s.cancelWork.putDev with deviceName := nameOf buf } (nameOf buf)
      = some v := by
    rw [hput]
    exact hfound
  have hsee : ({ s.bindTo (some v.id) with deviceName := nameOf buf } : St).unknown.getDeviceState
      = ({ s.bindTo (some v.id) with deviceName := nameOf buf } : St).see v :=
    getDeviceState_unknown rfl (dev_of_mem hworld hmem)
  simp only [setDeviceName, if_neg (Nat.not_le_of_lt hlen), hfound', if_pos hne]
  rw [hput]
  exact congrArg (fun t : St => Except.ok { t with lastActivity := 0 }.setBaselineState) hsee

theorem kept_deviceName (h : Base s) : Kept hw s (written s (deviceNameStore s buf))
    (buf.length < IFNAMSIZ →
      (∀ v ∈ getByName s (nameOf buf), v.carrier = true → v.up = true)
        ∧ (s.hwControl = true → (getByName s (nameOf buf)).map Dev.id = s.netDev)) := by
  by_cases hlen : buf.length < IFNAMSIZ
  · refine Kept.congr ?_ (imp_iff_right hlen).symm
    unfold deviceNameStore
    cases hfound : getByName s (nameOf buf) with
    | none =>
      let t := (s.bindTo none).named (nameOf buf)
      rw [setDeviceName_none h.refs hlen hfound]
      refine ⟨base_setBaselineState ⟨⟨rfl, fun _ he => absurd he (Option.not_mem_none _)⟩, h.world⟩,
        fun hfol => ?_⟩
      change Follows hw t.unknown.setBaselineState ↔ _
      rw [follows_unknown (s := t) rfl, hwControl_iff (t := t) hfol rfl rfl rfl]
      exact and_congr (iff_of_true (linkUp_none rfl) fun _ hv => absurd hv (Option.not_mem_none _))
        Iff.rfl
    | some v =>
      obtain ⟨hmem, -⟩ := mem_of_getByName hfound
      have hdev : s.dev v.id = some v := dev_of_mem h.world hmem
      let t := (s.bindTo (some v.id)).named (nameOf buf)
      have hbase : Base t :=
        ⟨⟨rfl, fun _ he => Option.some.inj he ▸ Option.isSome_of_eq_some hdev⟩, h.world⟩
      rw [setDeviceName_some h.refs h.world hlen hfound]
      refine ⟨base_setBaselineState (hbase.see v), fun hfol => ?_⟩
      change Follows hw (t.see v).setBaselineState ↔ _
      rw [follows_see (s := t) hdev rfl, hwControl_iff (t := t) hfol rfl rfl rfl]
      refine and_congr ⟨fun hc w hw => ?_, fun hc => hc v rfl⟩ Iff.rfl
      cases hw
      exact hc
  · have hrefused : deviceNameStore s buf = .error (- EINVAL) := if_pos (Nat.le_of_not_lt hlen)
    rw [hrefused]
    exact (kept_refl h).congr (iff_of_true trivial fun hlt => absurd hlt hlen)

theorem kept_attr (h : Base s) (attr : NetdevMode) (value : Except ℤ ℕ) :
    Kept hw s (written s (netdevLedAttrStore hw s attr value)) True := by
  unfold netdevLedAttrStore
  cases value with
  | error ret => exact kept_refl h
  | ok state =>
    dsimp only
    generalize (if state ≠ 0 then insert attr s.mode else s.mode.erase attr) = mode
    split_ifs
    · exact kept_refl h
    · refine ⟨base_setBaselineState ⟨⟨h.refs, h.registered⟩, h.world⟩, fun hfol => ?_⟩
      refine iff_of_true ((follows_setBaselineState rfl).2 ?_) trivial
      exact ⟨hfol.carrier, hfol.settings, id⟩

theorem kept_interval (h : Base s) (value : Except ℤ ℕ) :
    Kept hw s (written s (intervalStore hw s value)) True := by
  unfold intervalStore
  split_ifs with hctl
  · exact kept_refl h
  · cases value with
    | error ret => exact kept_refl h
    | ok value =>
      dsimp only
      split_ifs
      · refine ⟨base_setBaselineState ⟨⟨h.refs, h.registered⟩, h.world⟩, fun hfol => ?_⟩
        refine iff_of_true ((follows_setBaselineState rfl).2 ?_) trivial
        exact ⟨hfol.carrier, hfol.settings, fun htrue => absurd htrue hctl⟩
      · exact kept_refl h

end Attributes

section Work

theorem invert_of_blinkOn (h : s.blinkOn = true) : invert s = true := by
  have h := of_decide_eq_true h
  refine decide_eq_true ?_
  tauto

variable {tx rx : ℕ}

/-- A work is pending only for a device with a link. -/
theorem Follows.of_work (h : Follows hw s) (hwork : s.work = true) :
    s.hwControl = false ∧ s.linkUp = true ∧ s.carrierLinkUp = true ∧ s.counts = true := by
  obtain ⟨hboth, hcounts⟩ := Bool.and_eq_true_iff.1 (h.work.symm.trans hwork)
  obtain ⟨hctl, hlink⟩ := Bool.and_eq_true_iff.1 hboth
  exact ⟨by simpa using hctl, h.carrier.symm.trans hlink, hlink, hcounts⟩

/-- What a work may change. -/
def St.counted (s : St) (led : Option Led) (activity : ℕ) (work : Bool) : St :=
  { s with led := led, lastActivity := activity, work := work }

theorem base_counted (h : Base s) (led : Option Led) (activity : ℕ) (work : Bool) :
    Base (s.counted led activity work) :=
  ⟨⟨h.refs, h.registered⟩, h.world⟩

theorem work_none (hn : s.netDev = none) :
    netdevTrigWork s tx rx = s.counted (some (.soft false)) s.lastActivity false := by
  simp only [netdevTrigWork, hn]
  rfl

theorem work_some (hn : s.netDev = some d) :
    netdevTrigWork s tx rx = lookAtCounters s.cancelWork d tx rx := by
  simp only [netdevTrigWork, hn]

theorem work_idle (hn : s.netDev = some d) (hcounts : ¬ s.counts = true) :
    netdevTrigWork s tx rx = s.counted s.led s.lastActivity false :=
  (work_some hn).trans (if_pos hcounts)

theorem work_counts (h : s.Holds) (hn : s.netDev = some d) (hcounts : s.counts = true) :
    netdevTrigWork s tx rx =
      if s.lastActivity ≠ newActivity s tx rx then
        s.counted (some (.soft (invert s))) (newActivity s tx rx) true
      else s.counted s.led s.lastActivity true := by
  have hcounts' : ¬ ¬ s.cancelWork.counts = true := not_not_intro hcounts
  rw [work_some hn, lookAtCounters, if_neg hcounts', useDev_eq (s := s.cancelWork) h hn,
    noteActivity]
  change { (if s.lastActivity ≠ newActivity s tx rx then _ else s.cancelWork) with
    work := true } = _
  split_ifs <;> rfl

theorem kept_work (h : Base s) (hwork : s.work = true) : Kept hw s (netdevTrigWork s tx rx)
    (s.lastActivity ≠ newActivity s tx rx → invert s = true → s.blinkOn = true) := by
  cases hn : s.netDev with
  | none =>
    rw [work_none hn]
    refine ⟨base_counted h _ _ _, fun hfol => ?_⟩
    have hlink := (hfol.of_work hwork).2.1
    rw [linkUp_none (by rw [device, hn, Option.bind_none])] at hlink
    exact absurd hlink Bool.false_ne_true
  | some d =>
    by_cases hcounts : s.counts = true
    · rw [work_counts h.refs hn hcounts]
      split_ifs with hact
      · refine ⟨base_counted h _ _ _, fun hfol => ?_⟩
        obtain ⟨hctl, -, hlink, -⟩ := hfol.of_work hwork
        have hwanted : s.wanted = .soft s.blinkOn := by
          rw [wanted, if_neg (by rw [hctl]; exact Bool.false_ne_true), hlink, Bool.true_and]
        refine ⟨fun hfol' _ hinv => ?_, fun hblink => ⟨hfol.carrier, hfol.settings, hfol.hwControl,
          fun l hl => ?_, hwork.symm.trans hfol.work⟩⟩
        · have hsoft : Led.soft (invert s) = .soft s.blinkOn :=
            (hfol'.led _ rfl).trans hwanted
          exact (Led.soft.inj hsoft).symm.trans hinv
        · cases hl
          refine Eq.trans (congrArg Led.soft ?_) hwanted.symm
          exact Bool.eq_iff_iff.2 ⟨hblink hact, invert_of_blinkOn⟩
      · refine ⟨base_counted h _ _ _, fun hfol => iff_of_true ?_ fun hne => absurd hne hact⟩
        exact ⟨hfol.carrier, hfol.settings, hfol.hwControl, hfol.led, hwork.symm.trans hfol.work⟩
    · rw [work_idle hn hcounts]
      exact ⟨base_counted h _ _ _, fun hfol => absurd (hfol.of_work hwork).2.2.2 hcounts⟩

end Work

end Steps

/-- No device that is down with its carrier on is bound, under hardware control no other device than
that of the LED is, and no blink leaves the LED on that is to be off. -/
def Tidy (s : St) : Input → Prop
  | .register v => v.name = s.deviceName → s.hwControl = false
  | .rename d name => s.netDev = some d ∨ name = s.deviceName →
    (∀ v ∈ s.dev d, v.carrier = true → v.up = true) ∧ (s.hwControl = true → s.netDev = some d)
  | .unregister d => s.hwControl = true → s.netDev ≠ some d
  | .deviceName buf => buf.length < IFNAMSIZ →
    (∀ v ∈ getByName s (nameOf buf), v.carrier = true → v.up = true)
      ∧ (s.hwControl = true → (getByName s (nameOf buf)).map Dev.id = s.netDev)
  | .work tx rx => s.lastActivity ≠ newActivity s tx rx → invert s = true → s.blinkOn = true
  | .openDev .. | .closeDev _ | .change .. | .attr .. | .interval _ => True

instance (s : St) : ∀ i, Decidable (Tidy s i)
  | .register _ => inferInstanceAs (Decidable (_ → _))
  | .rename .. => inferInstanceAs (Decidable (_ → (∀ _ ∈ _, _) ∧ _))
  | .unregister _ => inferInstanceAs (Decidable (_ → _))
  | .deviceName _ => inferInstanceAs (Decidable (_ → (∀ _ ∈ _, _) ∧ _))
  | .work .. => inferInstanceAs (Decidable (_ → _ → _))
  | .openDev .. | .closeDev _ | .change .. | .attr .. | .interval _ => .isTrue trivial

section Step

open St

variable {s' : St} {i : Input}

theorem kept_step (h : Base s) (hs : step hw s i = some s') : Kept hw s s' (Tidy s i) := by
  cases i with
  | register v =>
    obtain ⟨⟨hup, hvalid, hnew⟩, hs⟩ := Option.ite_none_right_eq_some.1 hs
    cases hs
    exact kept_register h hup hvalid hnew
  | openDev d carrier settings =>
    obtain ⟨v, hv, hs⟩ := Option.bind_eq_some_iff.1 hs
    obtain ⟨-, hs⟩ := Option.ite_none_left_eq_some.1 hs
    cases hs
    exact kept_up h hv (fun _ => rfl) (fun _ => rfl) (Or.inl rfl) rfl
  | closeDev d =>
    obtain ⟨v, hv, hs⟩ := Option.bind_eq_some_iff.1 hs
    obtain ⟨-, hs⟩ := Option.ite_none_right_eq_some.1 hs
    cases hs
    exact kept_closeDev h hv
  | change d carrier settings =>
    obtain ⟨v, hv, hs⟩ := Option.bind_eq_some_iff.1 hs
    cases hs
    split_ifs with hup
    · exact kept_up h hv (fun _ => rfl) (fun _ => rfl) (Or.inr rfl) hup
    · exact kept_silent h hv (fun _ => rfl) (fun _ => rfl) (eq_false_of_ne_true hup)
        (eq_false_of_ne_true hup)
  | rename d name =>
    obtain ⟨v, hv, hs⟩ := Option.bind_eq_some_iff.1 hs
    obtain ⟨⟨hvalid, hnew⟩, hs⟩ := Option.ite_none_right_eq_some.1 hs
    cases hs
    refine (kept_rename h hv hvalid hnew).congr (forall_congr' fun _ => and_congr ?_ Iff.rfl)
    rw [hv]
    exact ⟨fun hc w hw => Option.some.inj hw ▸ hc, fun hc => hc v rfl⟩
  | unregister d =>
    obtain ⟨v, hv, hs⟩ := Option.bind_eq_some_iff.1 hs
    cases hs
    obtain ⟨hbase, hfol⟩ : Kept hw s (s.closeDev v) True := kept_closeDev h hv
    obtain ⟨hnet, hctl⟩ := closeDev_frame s v
    obtain ⟨hbase', hfol'⟩ : Kept hw (s.closeDev v) _ _ := kept_unregister (d := d) hbase
    refine ⟨hbase', fun hf => ?_⟩
    rw [hfol' ((hfol hf).2 trivial), hnet, hctl]
    rfl
  | deviceName buf =>
    cases hs
    exact kept_deviceName h
  | attr attr value =>
    cases hs
    exact kept_attr h attr value
  | interval value =>
    cases hs
    exact kept_interval h value
  | work tx rx =>
    obtain ⟨hwork, hs⟩ := Option.ite_none_right_eq_some.1 hs
    cases hs
    exact kept_work h hwork

end Step

section Activation

open St

theorem replay_append (s : St) : ∀ l l' : List Dev, replay s (l ++ l') = replay (replay s l) l'
  | [], _ => rfl
  | v :: l, l' => by
    rw [List.cons_append, replay, replay, replay_append]

/-- Other devices with other names are not noticed. -/
theorem replay_other : ∀ {l : List Dev} {s : St},
    (∀ w ∈ l, s.netDev ≠ some w.id ∧ w.name ≠ s.deviceName) → replay s l = s
  | [], _, _ => rfl
  | v :: l, s, h => by
    obtain ⟨hid, hname⟩ := h v List.mem_cons_self
    have hquiet : ∀ evt, netdevTrigNotify s evt v.id v.name = s := fun evt =>
      notify_of_not (by rintro (heq | ⟨_, heq⟩ | ⟨_, heq⟩) <;> contradiction)
    rw [replay, hquiet, hquiet, ite_self]
    exact replay_other fun w hw => h w (List.mem_cons_of_mem v hw)

theorem nameOf_valid {name : List Char} (h : ValidName name) : nameOf name = name := by
  obtain ⟨-, -, hline, hzero⟩ := h
  have hlast : name.getLast? ≠ some '\n' := fun heq => hline (List.mem_of_getLast? heq)
  unfold nameOf
  rw [if_neg hlast]
  refine List.takeWhile_eq_self_iff.2 fun c hc => decide_eq_true fun heq => hzero ?_
  exact heq ▸ hc

variable {devs : List Dev}

theorem holds_fresh : (fresh hw devs).Holds := rfl

theorem base_fresh (h : World devs) : Base (fresh hw devs) :=
  ⟨⟨rfl, fun _ hd => absurd hd (Option.not_mem_none _)⟩, h⟩

theorem mem_of_hwDev (h : hw.dev devs = some v) :
    hw.supports = true ∧ hw.device = some v.id ∧ v ∈ devs := by
  obtain ⟨hsup, h⟩ := Option.ite_none_right_eq_some.1 h
  obtain ⟨d, hd, hfind⟩ := Option.bind_eq_some_iff.1 h
  have hid : v.id = d :=
    of_decide_eq_true (List.find?_some (p := fun v : Dev => decide (v.id = d)) hfind)
  exact ⟨hsup, hid ▸ hd, List.mem_of_find?_eq_some hfind⟩

/-- The trigger has been handed the LED by its driver, with the device `v`. -/
structure Handed (hw : Hw) (devs : List Dev) (v : Dev) (s : St) : Prop where
  devs : s.devs = devs
  netDev : s.netDev = some v.id
  deviceName : s.deviceName = v.name
  refs : s.Holds
  hwControl : s.hwControl = true
  mode : s.mode = hw.mode.getD ∅
  interval : s.interval = hw.msecsToJiffies NETDEV_LED_DEFAULT_INTERVAL

theorem Handed.base (h : Handed hw devs v s) (hworld : World devs) (hv : v ∈ devs) : Base s := by
  have hworld' : World s.devs := h.devs.symm ▸ hworld
  refine ⟨⟨h.refs, fun d hd => ?_⟩, hworld'⟩
  obtain rfl : v.id = d := Option.some.inj (h.netDev.symm.trans hd)
  exact Option.isSome_of_eq_some (dev_of_mem hworld' (h.devs.symm ▸ hv))

theorem Handed.device (h : Handed hw devs v s) (hworld : World devs) (hv : v ∈ devs) :
    s.device = some v :=
  (device_eq h.netDev).trans (dev_of_mem (h.devs.symm ▸ hworld) (h.devs.symm ▸ hv))

theorem Handed.canHwControl_iff (h : Handed hw devs v s) (hsup : hw.supports = true)
    (hdev : hw.device = some v.id) :
    (s.hwControl = true → s.canHwControl hw = true) ↔ hw.isSupported (hw.mode.getD ∅) = true := by
  rw [imp_iff_right h.hwControl]
  refine decide_eq_true_iff.trans ⟨fun ⟨_, _, _, hmode⟩ => h.mode ▸ hmode, fun hmode => ?_⟩
  exact ⟨hsup, h.interval, decide_eq_true ⟨Option.isSome_of_eq_some hdev, h.netDev.trans hdev.symm⟩,
    h.mode.symm ▸ hmode⟩

/-- What the notifier is told of the device when it is registered. -/
theorem replay_handed (h : Handed hw devs v s) (hworld : World devs) (hv : v ∈ devs)
    (hsup : hw.supports = true) (hdev : hw.device = some v.id) :
    Handed hw devs v (replay s [v])
      ∧ (Follows hw (replay s [v]) ↔ hw.isSupported (hw.mode.getD ∅) = true) := by
  let t := (s.bindTo (some v.id)).unknown.setBaselineState
  have ht : netdevTrigNotify s .register v.id v.name = t := notify_register h.refs (Or.inl h.netDev)
  have hfields : t = { s.bindTo (some v.id) with
      carrierLinkUp := false, linkSpeed := SPEED_UNKNOWN, duplex := DUPLEX_UNKNOWN
      led := some (s.bindTo (some v.id)).unknown.wanted
      work := false || (!s.hwControl && false && s.counts) } := setBaselineState_eq _
  have hhanded : Handed hw devs v t := by
    rw [hfields]
    exact ⟨h.devs, rfl, h.deviceName, rfl, h.hwControl, h.mode, h.interval⟩
  have hdevice := hhanded.device hworld hv
  have hreplay : replay s [v] =
      if v.up then netdevTrigNotify t .up v.id v.name else t := by
    rw [replay, ht]
    rfl
  rw [hreplay]
  split_ifs with hup
  · rw [notify_up hhanded.refs hhanded.netDev hdevice (Or.inl rfl)]
    have hcancel : Handed hw devs v t.cancelWork :=
      ⟨hhanded.devs, hhanded.netDev, hhanded.deviceName, hhanded.refs, hhanded.hwControl,
        hhanded.mode, hhanded.interval⟩
    refine ⟨?_, ?_⟩
    · rw [setBaselineState_eq]
      exact ⟨hcancel.devs, hcancel.netDev, hcancel.deviceName, hcancel.refs, hcancel.hwControl,
        hcancel.mode, hcancel.interval⟩
    · rw [follows_see (s := t.cancelWork) hdevice rfl, and_iff_right fun _ => hup,
        hcancel.canHwControl_iff hsup hdev]
  · refine ⟨hhanded, ?_⟩
    have hbound : Handed hw devs v (s.bindTo (some v.id)) :=
      ⟨h.devs, rfl, h.deviceName, rfl, h.hwControl, h.mode, h.interval⟩
    have hlink : (s.bindTo (some v.id)).linkUp = false := by
      rw [linkUp_eq (hbound.device hworld hv), eq_false_of_ne_true hup, Bool.false_and]
    rw [follows_unknown (s := s.bindTo (some v.id)) rfl, and_iff_right hlink,
      hbound.canHwControl_iff hsup hdev]

theorem handed_takeOver (hworld : World devs) (hv : v ∈ devs) :
    Handed hw devs v (takeOver hw (fresh hw devs) v) := by
  have hvalid := hworld.valid v hv
  have hfound : getByName (fresh hw devs) (nameOf v.name) = some v := by
    rw [nameOf_valid hvalid]
    exact getByName_of_mem (s := fresh hw devs) hworld hv
  unfold takeOver
  rw [setDeviceName_some holds_fresh hworld hvalid.2.1 hfound]
  dsimp only [written]
  rw [setBaselineState_eq]
  exact ⟨rfl, rfl, nameOf_valid hvalid, rfl, rfl, rfl, rfl⟩

theorem activate_spec (hw : Hw) (hworld : World devs) : Base (netdevTrigActivate hw devs)
    ∧ (Follows hw (netdevTrigActivate hw devs)
      ↔ ∀ v ∈ hw.dev devs, hw.isSupported (hw.mode.getD ∅) = true) := by
  unfold netdevTrigActivate
  cases hdev : hw.dev devs with
  | none =>
    have hreplay : replay (fresh hw devs) devs = fresh hw devs := replay_other fun w hw =>
      ⟨fun heq => Option.some_ne_none w.id heq.symm, (hworld.valid w hw).1⟩
    dsimp only
    rw [hreplay]
    refine ⟨base_fresh hworld, iff_of_true ?_ fun _ hv => absurd hv (Option.not_mem_none _)⟩
    exact ⟨rfl, fun hup => absurd hup Bool.false_ne_true,
      fun hctl => absurd hctl Bool.false_ne_true, fun _ hl => absurd hl (Option.not_mem_none _), rfl⟩
  | some v =>
    obtain ⟨hsup, hdevice, hv⟩ := mem_of_hwDev hdev
    have hhanded : Handed hw devs v (takeOver hw (fresh hw devs) v) := handed_takeOver hworld hv
    obtain ⟨hafter, hiff⟩ := replay_handed hhanded hworld hv hsup hdevice
    have hother : ∀ {s : St}, Handed hw devs v s → ∀ w ∈ devs, w ≠ v →
        s.netDev ≠ some w.id ∧ w.name ≠ s.deviceName := fun h w hw hne =>
      ⟨fun heq => hne (hworld.id_inj hw hv (Option.some.inj (heq.symm.trans h.netDev))),
        fun heq => hne (hworld.name_inj hw hv (heq.trans h.deviceName))⟩
    -- the devices before and after it are not noticed
    obtain ⟨l, l', hsplit⟩ := List.append_of_mem hv
    have hnodup : (l ++ v :: l').Nodup := hsplit ▸ hworld.ids.of_map
    have hne : ∀ w, w ∈ l ∨ w ∈ l' → w ≠ v := by
      rintro w hw rfl
      have hcount := List.nodup_middle.1 hnodup
      exact (List.nodup_cons.1 hcount).1 (List.mem_append.2 hw)
    have hmem : ∀ w, w ∈ l ∨ w ∈ l' → w ∈ devs := fun w hw =>
      hsplit ▸ List.mem_append.2 (hw.imp_right (List.mem_cons_of_mem v))
    have hreplay : ∀ s, replay s devs = replay (replay (replay s l) [v]) l' := fun s => by
      rw [hsplit, ← List.singleton_append, replay_append, replay_append]
    dsimp only
    rw [hreplay,
      replay_other fun w hw => hother hhanded w (hmem w (Or.inl hw)) (hne w (Or.inl hw)),
      replay_other fun w hw => hother hafter w (hmem w (Or.inr hw)) (hne w (Or.inr hw))]
    exact ⟨hafter.base hworld hv, hiff.trans ⟨fun h _ _ => h, fun h => h v rfl⟩⟩

theorem holds_setBaselineState (h : s.Holds) : s.setBaselineState.Holds := by
  rw [setBaselineState_eq]
  exact h

theorem holds_unreplay : ∀ {l : List Dev} {s : St}, s.Holds → (unreplay s l).Holds
  | [], _, h => h
  | v :: l, s, h => by
    have hunregister : ∀ {s : St}, s.Holds →
        (netdevTrigNotify s .unregister v.id v.name).Holds := by
      intro s h
      by_cases hn : Notices s .unregister v.id v.name
      · rw [notify_of hn]
        exact holds_setBaselineState (holds_putDev (s := s.cancelWork.unknown) h)
      · rwa [notify_of_not hn]
    have hdown : (netdevTrigNotify s .down v.id v.name).Holds := by
      by_cases hn : Notices s .down v.id v.name
      · rw [notify_of hn]
        exact holds_setBaselineState (s := s.cancelWork.unknown) h
      · rwa [notify_of_not hn]
    rw [unreplay]
    refine holds_unreplay (hunregister ?_)
    split_ifs
    · exact hdown
    · exact h

theorem refs_deactivate (h : s.Holds) : (netdevTrigDeactivate s).refs = clean 0 := by
  have hholds : ({ (unreplay s s.devs).cancelWork with led := some (.soft false) } : St).Holds :=
    holds_unreplay (l := s.devs) h
  unfold netdevTrigDeactivate
  dsimp only
  rw [putDev_eq hholds]

end Activation

/-! ## Runs -/

variable {devs : List Dev} {is : List Input}

/-- Whatever happens to the devices and is written to the attributes: the trigger has one reference,
to its device, which is registered, and none once it is deactivated; and it follows its device all
along if and only if the mode that it has taken over is one that the driver of the LED can do, and
all steps are tidy. -/
theorem trigger_run (hworld : World devs)
    (hrun : Runs.exec (step hw) (netdevTrigActivate hw devs) is = some s) :
    (Refs s ∧ (netdevTrigDeactivate s).refs = clean 0)
      ∧ ((∀ js s', js <+: is → Runs.exec (step hw) (netdevTrigActivate hw devs) js = some s' →
          Follows hw s')
        ↔ (∀ v ∈ hw.dev devs, hw.isSupported (hw.mode.getD ∅) = true)
          ∧ Runs.Meets (step hw) Tidy (netdevTrigActivate hw devs) is) := by
  obtain ⟨hbase, hfirst⟩ := activate_spec hw hworld
  refine ⟨?_, ?_⟩
  · have hend : Base s := Runs.exec_keeps (I := Base)
      (fun _ _ _ h hs => (kept_step h hs).1) hbase hrun
    exact ⟨hend.toRefs, refs_deactivate hend.refs⟩
  · rw [Runs.forall_prefix_iff, hfirst]
    refine and_congr_right fun hmode => ?_
    refine Runs.meets_right_iff (I := fun s => Base s ∧ Follows hw s) (fun s i s' h hs => ?_)
      ⟨hbase, hfirst.2 hmode⟩ hrun
    obtain ⟨hbase', hiff⟩ := kept_step h.1 hs
    exact ⟨fun htidy => ⟨⟨hbase', (hiff h.2).2 htidy⟩, (hiff h.2).2 htidy⟩, (hiff h.2).1⟩

/-- A wired and a cellular interface, and an LED that the kernel has to switch. -/
def eth0 : Dev := ⟨1, ['e', 't', 'h', '0'], true, true, some (SPEED_1000, DUPLEX_FULL)⟩

def wwan0 : Dev := ⟨2, ['w', 'w', 'a', 'n', '0'], false, true, none⟩

def plainLed : Hw := ⟨false, none, fun _ => false, none, 100⟩

/-- The LED shows the wired link and its traffic; the interface goes down, and comes back with
another speed and another name. -/
def linkFlap : List Input :=
  [.deviceName ['e', 't', 'h', '0', '\n'], .attr .link1000 (.ok 1), .attr .rx (.ok 1), .work 0 7,
    .closeDev 1, .rename 2 ['e', 't', 'h', '1'], .openDev 1 true (some (SPEED_100, DUPLEX_FULL)),
    .rename 1 ['l', 'a', 'n'], .work 0 7]

theorem trigger_run_linkFlap : ∃ s,
    Runs.exec (step plainLed) (netdevTrigActivate plainLed [eth0, wwan0]) linkFlap = some s
      ∧ s.refs = clean {1} ∧ Follows plainLed s := by
  have hworld : World [eth0, wwan0] := ⟨by decide, by decide, by decide⟩
  have htidy : Runs.Meets (step plainLed) Tidy (netdevTrigActivate plainLed [eth0, wwan0])
      linkFlap := by decide
  have hrun : Runs.exec (step plainLed) (netdevTrigActivate plainLed [eth0, wwan0]) linkFlap
      = some _ := rfl
  obtain ⟨hrefs, hfollows⟩ := trigger_run hworld hrun
  refine ⟨_, hrun, hrefs.1.refs, ?_⟩
  exact hfollows.2 ⟨fun _ hv => absurd hv (Option.not_mem_none _), htidy⟩ linkFlap _
    List.prefix_rfl hrun

end LedNetdev

end BananaWrt
