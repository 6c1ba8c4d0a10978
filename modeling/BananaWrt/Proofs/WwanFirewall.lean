import Mathlib.Tactic.Common
import BananaWrt.WwanFirewall

/-!
# An interface joins the zone that has the number of lines

What a call does to the lists of the zones is to append to the one whose number is the number of
lines with `name='wan'`, or nothing (`networkOf_add`), and no zone changes its number by it
(`wanNo_setFirewall`). So an interface joins the zone `wan` alone exactly if the two numbers agree
and what `uci` is asked tells whether it is there (`joins_iff`).
-/

namespace BananaWrt

namespace Firewall

open Dial (digits)

theorem digits_inj {m n : ℕ} (h : digits m = digits n) : m = n := by
  unfold digits at h
  rw [← @Nat.ofDigitChars_ten_toDigits m, h, Nat.ofDigitChars_ten_toDigits]

theorem Interface.name_inj {i j : Interface} : i.name = j.name ↔ i = j := by
  refine ⟨fun h => ?_, congrArg _⟩
  have hfifth := congrArg (fun l => l[4]?) h
  cases i with
  | ipv4 m =>
    cases j with
    | ipv4 n => exact congrArg _ (digits_inj (List.append_cancel_left h))
    | ipv6 n => exact absurd (Option.some.inj hfifth) (by decide)
  | ipv6 m =>
    cases j with
    | ipv4 n => exact absurd (Option.some.inj hfifth) (by decide)
    | ipv6 n => exact congrArg _ (digits_inj (List.append_cancel_left h))

theorem zones_modifyZone {f : Section → Section} (hf : ∀ s, (f s).type = s.type) :
    ∀ (k : ℕ) (firewall : List Section),
      zones (modifyZone f k firewall) = (zones firewall).modify k f
  | k, [] => by
    unfold modifyZone
    exact (List.modify_nil f k).symm
  | k, s :: rest => by
    have ih := fun k => zones_modifyZone hf k rest
    unfold modifyZone
    unfold zones at ih ⊢
    split_ifs with hs
    · rw [List.filter_cons_of_pos (by simpa using hs)]
      cases k with
      | zero =>
        rw [List.filter_cons_of_pos (by simpa [hf] using hs)]
        rfl
      | succ k =>
        dsimp only
        rw [List.filter_cons_of_pos (by simpa using hs), ih k]
        rfl
    · rw [List.filter_cons_of_neg (by simpa using hs), List.filter_cons_of_neg (by simpa using hs),
        ih k]

theorem lookup_addList_self (option value : Text) : ∀ options : List (Text × List Text),
    (addList option value options).lookup option
      = some ((options.lookup option).getD [] ++ [value])
  | [] => by simp [addList]
  | (name, values) :: options => by
    have ih := lookup_addList_self option value options
    unfold addList
    by_cases h : name = option
    · simp [h]
    · have hb : (option == name) = false := beq_eq_false_iff_ne.2 (Ne.symm h)
      simp [h, List.lookup_cons, hb, ih]

theorem lookup_addList_of_ne {option option' : Text} (hne : option' ≠ option) (value : Text) :
    ∀ options : List (Text × List Text),
      (addList option value options).lookup option' = options.lookup option'
  | [] => by simp [addList, List.lookup_cons, beq_eq_false_iff_ne.2 hne]
  | (name, values) :: options => by
    have ih := lookup_addList_of_ne hne value options
    unfold addList
    by_cases h : name = option
    · have hb : (option' == option) = false := beq_eq_false_iff_ne.2 hne
      simp [h, List.lookup_cons, hb]
    · simp [h, List.lookup_cons, ih]

theorem network_addNetwork (s : Section) (value : Text) :
    (s.addNetwork value).network = s.network ++ [value] := by
  unfold Section.network Section.get Section.addNetwork
  rw [lookup_addList_self, Option.getD_some]

theorem isWan_addNetwork (s : Section) (value : Text) : (s.addNetwork value).IsWan ↔ s.IsWan := by
  unfold Section.IsWan Section.get Section.addNetwork
  rw [lookup_addList_of_ne (by decide)]

theorem findIdx_modify {α : Type*} {p : α → Bool} {f : α → α} (h : ∀ a, p (f a) = p a) :
    ∀ (k : ℕ) (l : List α), (l.modify k f).findIdx p = l.findIdx p
  | k, [] => by rw [List.modify_nil]
  | 0, a :: l => by
    rw [List.modify_zero_cons, List.findIdx_cons, List.findIdx_cons, h]
  | k + 1, a :: l => by
    rw [List.modify_succ_cons, List.findIdx_cons, List.findIdx_cons, findIdx_modify h k l]

section Add

variable (i : Interface) (num : ℕ) (firewall : List Section)

theorem zones_add : zones (modifyZone (Section.addNetwork i.name) num firewall)
    = (zones firewall).modify num (Section.addNetwork i.name) := by
  refine zones_modifyZone (fun s => ?_) num firewall
  rfl

theorem wanNo_add :
    wanNo (modifyZone (Section.addNetwork i.name) num firewall) = wanNo firewall := by
  unfold wanNo
  rw [zones_add]
  refine findIdx_modify (fun s => ?_) num _
  rw [decide_eq_decide]
  exact isWan_addNetwork s i.name

/-- The zone with the number gets the interface at the end of its list. -/
theorem networkOf_add (k : ℕ) :
    networkOf (modifyZone (Section.addNetwork i.name) num firewall) k
      = if num = k then (networkOf firewall k).map (· ++ [i.name]) else networkOf firewall k := by
  unfold networkOf
  rw [zones_add, List.getElem?_modify]
  rcases (zones firewall)[k]? with _ | z
  · simp
  · split_ifs with h
    · simp [network_addNetwork]
    · simp

end Add

section SetUp

variable {firewall : List Section} {i j : Interface}

theorem setFirewall_of_found (h : WwanFound firewall (nameLines firewall) i) :
    setFirewall firewall i = firewall := by
  unfold setFirewall
  exact if_pos h

theorem setFirewall_of_not_found (h : ¬ WwanFound firewall (nameLines firewall) i) :
    setFirewall firewall i
      = modifyZone (Section.addNetwork i.name) (nameLines firewall) firewall := by
  unfold setFirewall
  exact if_neg h

theorem wanNo_setFirewall (firewall : List Section) (i : Interface) :
    wanNo (setFirewall firewall i) = wanNo firewall := by
  by_cases h : WwanFound firewall (nameLines firewall) i
  · rw [setFirewall_of_found h]
  · rw [setFirewall_of_not_found h, wanNo_add]

theorem networkOf_eq_none_iff {k : ℕ} :
    networkOf firewall k = none ↔ (zones firewall).length ≤ k := by
  unfold networkOf
  rw [Option.map_eq_none_iff, List.getElem?_eq_none_iff]

theorem append_ne_self {network : Option (List Text)} {value : Text} (h : network ≠ none) :
    network.map (· ++ [value]) ≠ network := by
  obtain ⟨values, rfl⟩ := Option.ne_none_iff_exists'.1 h
  rw [Option.map_some, Ne, Option.some.injEq]
  exact fun heq => absurd (congrArg List.length heq) (by simp)

theorem listedIn_eq {values : List Text} (h : networkOf firewall (wanNo firewall) = some values)
    (j : Interface) : listedIn firewall j = values.count j.name := by
  unfold listedIn
  rw [h]
  rfl

/-- The zone `wan` has one more of the interface, or the list that it had. -/
theorem wan_setFirewall {values : List Text}
    (h : networkOf firewall (wanNo firewall) = some values) :
    networkOf (setFirewall firewall i) (wanNo firewall)
      = some (if nameLines firewall = wanNo firewall
            ∧ ¬ WwanFound firewall (nameLines firewall) i then values ++ [i.name] else values) := by
  by_cases hf : WwanFound firewall (nameLines firewall) i
  · rw [setFirewall_of_found hf, if_neg fun h => h.2 hf, h]
  · rw [setFirewall_of_not_found hf, networkOf_add, h]
    by_cases hn : nameLines firewall = wanNo firewall
    · rw [if_pos hn, if_pos ⟨hn, hf⟩]
      rfl
    · rw [if_neg hn, if_neg fun h => hn h.1]

theorem listedIn_setFirewall {values : List Text}
    (h : networkOf firewall (wanNo firewall) = some values) (i j : Interface) :
    listedIn (setFirewall firewall i) j
      = (if nameLines firewall = wanNo firewall
          ∧ ¬ WwanFound firewall (nameLines firewall) i then values ++ [i.name]
        else values).count j.name := by
  unfold listedIn
  rw [wanNo_setFirewall, wan_setFirewall h]
  rfl

theorem listedIn_setFirewall_of_ne {values : List Text}
    (h : networkOf firewall (wanNo firewall) = some values) (hne : j ≠ i) :
    listedIn (setFirewall firewall i) j = listedIn firewall j := by
  rw [listedIn_setFirewall h, listedIn_eq h]
  split_ifs
  · have hname : i.name ≠ j.name := fun heq => hne (Interface.name_inj.1 heq).symm
    rw [List.count_append, List.count_singleton, if_neg (by simpa using hname), Nat.add_zero]
  · rfl

/-- The interface is once in the list of `wan`, and the other zones are left alone, exactly under
the condition. -/
theorem joins_iff {values : List Text} (h : networkOf firewall (wanNo firewall) = some values) :
    Joins firewall i ↔ listedIn (setFirewall firewall i) i = 1
      ∧ ∀ k ≠ wanNo firewall, networkOf (setFirewall firewall i) k = networkOf firewall k := by
  have hlisted' := listedIn_setFirewall h i i
  have hlisted := listedIn_eq h i
  unfold Joins
  by_cases hn : nameLines firewall = wanNo firewall
  · rw [if_pos hn]
    by_cases hf : WwanFound firewall (nameLines firewall) i
    · rw [setFirewall_of_found hf, ← hn]
      constructor
      · exact fun hj => ⟨hj.1.1 hf, fun _ _ => rfl⟩
      · exact fun hj => ⟨iff_of_true hf hj.1, Nat.le_of_eq hj.1⟩
    · rw [if_pos ⟨hn, hf⟩, List.count_append, List.count_singleton_self, ← hlisted] at hlisted'
      rw [hlisted', ← hn]
      constructor
      · intro hj
        have hne : listedIn firewall i ≠ 1 := fun heq => hf (hj.1.2 heq)
        refine ⟨by omega, fun k hk => ?_⟩
        rw [setFirewall_of_not_found hf, networkOf_add, if_neg hk.symm]
      · intro hj
        exact ⟨iff_of_false hf (by omega), by omega⟩
  · rw [if_neg hn]
    by_cases hf : WwanFound firewall (nameLines firewall) i
    · rw [setFirewall_of_found hf]
      exact ⟨fun hj => ⟨hj.1, fun _ _ => rfl⟩, fun hj => ⟨hj.1, fun _ => hf⟩⟩
    · rw [if_neg fun h => hn h.1, ← hlisted] at hlisted'
      rw [hlisted']
      refine and_congr_right fun _ => ?_
      constructor
      · intro hlt k _
        have hnone : networkOf firewall (nameLines firewall) = none :=
          networkOf_eq_none_iff.2 (Nat.not_lt.1 fun h => hf (hlt h))
        rw [setFirewall_of_not_found hf, networkOf_add]
        split_ifs with hk
        · rw [← hk, hnone]
          rfl
        · rfl
      · intro hall hlt
        have hsame := hall (nameLines firewall) hn
        rw [setFirewall_of_not_found hf, networkOf_add, if_pos rfl] at hsame
        refine absurd hsame (append_ne_self fun hnone => ?_)
        exact Nat.not_le.2 hlt (networkOf_eq_none_iff.1 hnone)

end SetUp

/-- The zone `wan` keeps its number and has a list. -/
structure Inv (c : Config) (s : St) : Prop where
  right : Right c s
  wan : wanNo s.firewall = wanNo c.sections
  listed : ∃ values, networkOf s.firewall (wanNo s.firewall) = some values

section Run

variable {c : Config} {s s' : St}

theorem Inv.start (c : Config) (device : Interface → Text) :
    Inv c (.start c.sections device) where
  right := ⟨fun _ hi => absurd hi List.not_mem_nil, fun _ _ => rfl⟩
  wan := rfl
  listed := by
    obtain ⟨z, hz, hwan⟩ := List.countP_pos_iff.1 (c.one_wan ▸ Nat.one_pos)
    have hlt : wanNo c.sections < (zones c.sections).length :=
      List.findIdx_lt_length_of_exists ⟨z, hz, hwan⟩
    refine ⟨(zones c.sections)[wanNo c.sections].network, ?_⟩
    change networkOf c.sections (wanNo c.sections) = _
    unfold networkOf
    rw [List.getElem?_eq_getElem hlt]
    rfl

/-- A call of `set_firewall`. -/
theorem Inv.setFirewall (h : Inv c s) (i : Interface) (device : Interface → Text) :
    (Joins s.firewall i → Inv c ⟨setFirewall s.firewall i, device, i :: s.setUp⟩)
      ∧ (Right c ⟨setFirewall s.firewall i, device, i :: s.setUp⟩ → Joins s.firewall i) := by
  obtain ⟨values, hvalues⟩ := h.listed
  rw [joins_iff hvalues]
  constructor
  · rintro ⟨hlisted, hothers⟩
    refine ⟨⟨fun j hj => ?_, fun k hk => ?_⟩, ?_, ?_⟩
    · by_cases hji : j = i
      · rw [hji]
        exact hlisted
      · rw [listedIn_setFirewall_of_ne hvalues hji]
        exact h.right.listed j ((List.mem_cons.1 hj).resolve_left hji)
    · rw [← h.right.others k hk]
      exact hothers k (h.wan ▸ hk)
    · rw [wanNo_setFirewall]
      exact h.wan
    · rw [wanNo_setFirewall]
      exact ⟨_, wan_setFirewall hvalues⟩
  · intro hright
    refine ⟨hright.listed i List.mem_cons_self, fun k hk => ?_⟩
    rw [h.wan] at hk
    exact (hright.others k hk).trans (h.right.others k hk).symm

theorem step_joins (h : Inv c s) {u : SetUp} (hs : step s u = some s') :
    (JoinsWan s u → Inv c s' ∧ Right c s') ∧ (Right c s' → JoinsWan s u) := by
  have hcall := fun device => h.setFirewall u.interface device
  cases u with
  | setInterface i networkInterface =>
    cases hs
    exact ⟨fun hj => ⟨(hcall _).1 hj, ((hcall _).1 hj).right⟩, (hcall _).2⟩
  | modemmanager i path =>
    simp only [step, Option.some.injEq] at hs
    by_cases hpath : s.device i ≠ path
    · have hok : JoinsWan s (.modemmanager i path) = Joins s.firewall i := if_pos hpath
      rw [if_pos hpath] at hs
      subst hs
      rw [hok]
      exact ⟨fun hj => ⟨(hcall _).1 hj, ((hcall _).1 hj).right⟩, (hcall _).2⟩
    · have hok : JoinsWan s (.modemmanager i path) = (listedIn s.firewall i = 1) := if_neg hpath
      rw [if_neg hpath] at hs
      subst hs
      rw [hok]
      constructor
      · intro hlisted
        have hright : Right c { s with setUp := i :: s.setUp } := by
          refine ⟨fun j hj => ?_, h.right.others⟩
          rcases List.mem_cons.1 hj with rfl | hj
          · exact hlisted
          · exact h.right.listed j hj
        exact ⟨⟨hright, h.wan, h.listed⟩, hright⟩
      · exact fun hright => hright.listed i List.mem_cons_self

theorem exec_total : ∀ (us : List SetUp) (s : St), ∃ s', Runs.exec step s us = some s'
  | [], s => ⟨s, rfl⟩
  | u :: us, s => by
    obtain ⟨s₁, hs₁⟩ : ∃ s₁, step s u = some s₁ := by cases u <;> exact ⟨_, rfl⟩
    obtain ⟨s', hs'⟩ := exec_total us s₁
    refine ⟨s', ?_⟩
    rw [Runs.exec, hs₁, Option.bind_some, hs']

end Run

/-- Every interface that was set up is once in the list of `wan`, and no other list has changed, in
every state of a run exactly if every interface joins. -/
theorem firewall_right_iff (c : Config) (device : Interface → Text) (calls : List Call) :
    (∀ us s', us <+: calls.flatMap Call.setUps →
        Runs.exec step (.start c.sections device) us = some s' → Right c s')
      ↔ Runs.Meets step JoinsWan (.start c.sections device) (calls.flatMap Call.setUps) := by
  obtain ⟨s', hr⟩ := exec_total (calls.flatMap Call.setUps) (.start c.sections device)
  have hmeets : Runs.Meets step (fun s u => ∀ s' ∈ step s u, Right c s') (.start c.sections device)
      (calls.flatMap Call.setUps) ↔ _ :=
    Runs.meets_right_iff (fun s u s' hI hs => step_joins hI hs) (Inv.start c device) hr
  rw [Runs.forall_prefix_iff, hmeets]
  exact and_iff_right (Inv.start c device).right

theorem no_name_plain : ∀ n ∈ (none : Option Text), ∀ c ∈ n, c.isAlphanum ∨ c = '_' :=
  fun _ h => absurd h (Option.not_mem_none _)

/-- A zone with one interface. -/
def zoneOf (name interfaceName : Text) : Section where
  type := zoneType
  name := none
  options := [(nameOption, [name]), (networkOption, [interfaceName])]
  name_plain := no_name_plain

def lan : Text := ['l', 'a', 'n']

theorem wanFirst_one_wan :
    (zones [zoneOf wan wan, zoneOf lan lan]).countP (fun z => z.IsWan) = 1 := by decide

/-- The zone `wan` comes before the zone `lan`. -/
def wanFirst : Config where
  sections := [zoneOf wan wan, zoneOf lan lan]
  one_wan := wanFirst_one_wan

/-- The interface of the modem joins the zone `lan`. -/
theorem firewall_wrong :
    networkOf (setFirewall wanFirst.sections (.ipv4 0)) 1 = some [lan, (Interface.ipv4 0).name]
      ∧ ¬ ∀ us s',
        us <+: [Call.setInterface 0 ['u', 's', 'b', '0'] "ipv4" "0"].flatMap Call.setUps →
        Runs.exec step (.start wanFirst.sections fun _ => []) us = some s' → Right wanFirst s' := by
  have hlan : networkOf (setFirewall wanFirst.sections (.ipv4 0)) 1
      = some [lan, (Interface.ipv4 0).name] := by decide
  refine ⟨hlan, fun h => ?_⟩
  have hright := h _ _ List.prefix_rfl rfl
  have hsame := hright.others 1 (by decide)
  exact absurd (hlan.symm.trans hsame) (by decide)

end Firewall

end BananaWrt
