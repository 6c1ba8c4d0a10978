import Mathlib.Data.Set.Basic
import BananaWrt.Lib.Keyed
import BananaWrt.ModemRegistry

/-!
# Numbering of the registered modems

As long as the sections are `modem0` up to the number below `modem_number` and every registered path
is in the cache (`Inv`), an event that registers a device takes the next number and leaves the
others alone. A removal keeps that only for the last number, and an addition registers a device
whose path is in the cache only if it already was; with these two conditions met, and only then, the
registry is right throughout (`right_iff_keepsNumbers`).
-/

namespace BananaWrt

namespace Registry

open Regex (found)

theorem agree_self (c : Char) : agree c c := by simp [agree]

theorem finds_line (p : Path) : p.Finds p.line :=
  Regex.found_lit_of_infix agree_self ⟨[], processedField, rfl⟩

section Cache

variable {D : Set Path} (hD : Apart D) {s : Reg} (hs : ∀ q ∈ s.cache, q ∈ D)

include hD in
theorem finds_line_iff {p q : Path} (hp : p ∈ D) (hq : q ∈ D) : p.Finds q.line ↔ q = p := by
  constructor
  · intro h
    by_contra hne
    exact hD p hp q hq (Ne.symm hne) h
  · rintro rfl
    exact finds_line q

include hD hs in
theorem mem_cache_del {p q : Path} (hp : p ∈ D) :
    q ∈ (s.mDelPhysicalPathStatus p).cache ↔ q ∈ s.cache ∧ q ≠ p := by
  simp only [Reg.mDelPhysicalPathStatus, List.mem_filter, decide_eq_true_eq]
  exact and_congr_right fun hq => (finds_line_iff hD hp (hs q hq)).not

include hD hs in
theorem mem_cache_set {p q : Path} (hp : p ∈ D) :
    q ∈ (s.mSetPhysicalPathStatus p).cache ↔ q ∈ s.cache ∨ q = p := by
  unfold Reg.mSetPhysicalPathStatus
  rw [List.mem_append, mem_cache_del hD hs hp, List.mem_singleton]
  by_cases h : q = p <;> simp [h]

include hD hs in
theorem nodup_cache_set {p : Path} (hp : p ∈ D) (hn : s.cache.Nodup) :
    (s.mSetPhysicalPathStatus p).cache.Nodup := by
  unfold Reg.mSetPhysicalPathStatus
  refine List.nodup_append.2 ⟨hn.filter _, List.nodup_singleton p, fun q hq r hr => ?_⟩
  rw [List.mem_singleton.1 hr]
  exact ((mem_cache_del hD hs hp).1 hq).2

include hD hs in
/-- A path that has been processed is found once. -/
theorem processed_iff {p : Path} (hp : p ∈ D) (hn : s.cache.Nodup) :
    s.mGetPhysicalPathStatus p = ["processed"] ↔ p ∈ s.cache := by
  have hfilter : s.cache.filter (fun q => p.Finds q.line) = s.cache.filter (fun q => q = p) := by
    refine List.filter_congr fun q hq => ?_
    simp only [finds_line_iff hD hp (hs q hq)]
  unfold Reg.mGetPhysicalPathStatus
  rw [hfilter]
  constructor
  · intro h
    by_contra hnot
    have hnil : s.cache.filter (fun q => q = p) = [] := by
      refine List.filter_eq_nil_iff.2 fun q hq => ?_
      simp only [decide_eq_true_eq]
      rintro rfl
      exact hnot hq
    rw [hnil] at h
    simp at h
  · intro h
    have hone : s.cache.filter (fun q => q = p) = [p] := by
      have hkey := List.filter_key (f := id) (by simpa using hn) h
      simpa using hkey
    rw [hone]
    rfl

end Cache

/-- The sections are numbered, and each path that is registered has a line in the cache. -/
structure Inv (D : Set Path) (s : Reg) : Prop where
  numbers : ∀ no, no ∈ s.sections ↔ no < s.modemNumber
  distinct : ∀ no no' p, s.Registered no p → s.Registered no' p → no = no'
  cached : ∀ no p, s.Registered no p → p ∈ s.cache
  on : ∀ q ∈ s.cache, q ∈ D
  nodup : s.cache.Nodup

theorem Inv.start (D : Set Path) : Inv D .start where
  numbers no := by simp [Reg.start]
  distinct no no' p h := by simp [Reg.Registered, Reg.start] at h
  cached no p h := by simp [Reg.Registered, Reg.start] at h
  on q hq := by simp [Reg.start] at hq
  nodup := by simp [Reg.start]

theorem start_right : Reg.start.Right where
  numbers := (Inv.start ∅).numbers
  distinct := (Inv.start ∅).distinct
  expected p := by simp [Reg.Registered, Reg.start]

variable {D : Set Path} {s : Reg}

theorem registered_of_mem {no : ℕ} (h : no ∈ s.sections) : ∃ p, s.Registered no p := by
  obtain ⟨sec, hsec⟩ := Option.isSome_iff_exists.1 (AList.lookup_isSome.2 h)
  exact ⟨sec.path, sec, hsec, rfl⟩

theorem Reg.Registered.mem {no : ℕ} {p : Path} (h : s.Registered no p) : no ∈ s.sections := by
  obtain ⟨sec, hsec, -⟩ := h
  exact AList.lookup_isSome.1 (Option.isSome_iff_exists.2 ⟨sec, hsec⟩)

theorem Inv.lt (h : Inv D s) {no : ℕ} {p : Path} (hp : s.Registered no p) : no < s.modemNumber :=
  (h.numbers no).1 hp.mem

theorem lookup_foldl_erase (k : ℕ) : ∀ (is : List ℕ) (l : AList fun _ : ℕ => Section),
    (is.foldl (fun l i => l.erase i) l).lookup k = if k ∈ is then none else l.lookup k
  | [], l => rfl
  | i :: is, l => by
    rw [List.foldl_cons, lookup_foldl_erase k is]
    rcases eq_or_ne k i with rfl | hne
    · simp
    · simp [hne, AList.lookup_erase_ne hne]

theorem lookup_modemInit (k : ℕ) : s.modemInit.sections.lookup k
    = if k < s.modemNumber then none else s.sections.lookup k := by
  unfold Reg.modemInit
  rw [lookup_foldl_erase]
  simp only [List.mem_range]

theorem modemInit_of_zero (h : s.modemNumber = 0) : s.modemInit = s := by
  unfold Reg.modemInit
  rw [h, List.range_zero, List.foldl_nil, ← h]

/-- After `modem_init` nothing is registered; the cache is as before. -/
theorem Inv.modemInit (h : Inv D s) :
    Inv D s.modemInit ∧ ∀ no p, ¬ s.modemInit.Registered no p := by
  have hnone : ∀ no, s.modemInit.sections.lookup no = none := by
    intro no
    rw [lookup_modemInit]
    split_ifs with hlt
    · rfl
    · exact AList.lookup_eq_none.2 fun hmem => hlt ((h.numbers no).1 hmem)
  have hreg : ∀ no p, ¬ s.modemInit.Registered no p := by
    rintro no p ⟨sec, hsec, -⟩
    simp [hnone no] at hsec
  refine ⟨⟨fun no => ?_, fun no no' p hp => absurd hp (hreg no p),
    fun no p hp => absurd hp (hreg no p), h.on, h.nodup⟩, hreg⟩
  exact iff_of_false (AList.lookup_eq_none.1 (hnone no)) (Nat.not_lt_zero no)

/-- The section of the next number is set, the others are as they were. -/
theorem mSetModemConfig_spec (s : Reg) (d : Device) (manufacturer : String)
    (hinit : s.cache = [] → s.modemNumber = 0) :
    (s.mSetModemConfig d manufacturer).modemNumber = s.modemNumber + 1
    ∧ (s.mSetModemConfig d manufacturer).cache = (s.mSetPhysicalPathStatus d.path).cache
    ∧ ∃ sec, sec.path = d.path ∧ ∀ no, (s.mSetModemConfig d manufacturer).sections.lookup no
        = if no = s.modemNumber then some sec else s.sections.lookup no := by
  have hs : (if s.cache = [] then s.modemInit else s) = s := by
    split_ifs with hc
    · exact modemInit_of_zero (hinit hc)
    · rfl
  unfold Reg.mSetModemConfig Reg.mSetModemHardwareConfig
  rw [hs]
  simp only [Reg.setSection, Reg.mSetPhysicalPathStatus, Reg.mDelPhysicalPathStatus,
    AList.lookup_insert, true_and]
  refine ⟨⟨if d.driver = "usb" then "usb" else "pcie", d.path, d.driver,
    some (manufacturer ++ " modem"), some manufacturer⟩, rfl, fun no => ?_⟩
  by_cases hno : no = s.modemNumber
  · rw [if_pos hno, hno, AList.lookup_insert]
  · rw [if_neg hno, AList.lookup_insert_ne hno, AList.lookup_insert_ne hno]

theorem Inv.number_eq_zero (h : Inv D s) (hc : s.cache = []) : s.modemNumber = 0 := by
  by_contra hne
  obtain ⟨p, hp⟩ := registered_of_mem ((h.numbers 0).2 (Nat.pos_of_ne_zero hne))
  have := h.cached 0 p hp
  simp [hc] at this

/-- A supported device that is not registered takes the next number. -/
theorem Inv.mHandleDevice (hD : Apart D) (h : Inv D s) {d : Device} (hd : d.path ∈ D)
    (hsup : d.manufacturer.isSome) (hnew : ∀ no, ¬ s.Registered no d.path) :
    Inv D (s.mHandleDevice d)
    ∧ (∀ no p, (s.mHandleDevice d).Registered no p
        ↔ s.Registered no p ∨ no = s.modemNumber ∧ p = d.path)
    ∧ ∀ no sec, s.sections.lookup no = some sec →
        (s.mHandleDevice d).sections.lookup no = some sec := by
  obtain ⟨manufacturer, hm⟩ := Option.isSome_iff_exists.1 hsup
  obtain ⟨hnum, hcache, sec, hpath, hlookup⟩ :=
    mSetModemConfig_spec s d manufacturer h.number_eq_zero
  have hdev : s.mHandleDevice d = s.mSetModemConfig d manufacturer := by
    unfold Reg.mHandleDevice
    rw [hm]
  rw [hdev]
  have hreg : ∀ no p, (s.mSetModemConfig d manufacturer).Registered no p
      ↔ s.Registered no p ∨ no = s.modemNumber ∧ p = d.path := by
    intro no p
    unfold Reg.Registered
    rw [hlookup]
    split_ifs with hno
    · constructor
      · rintro ⟨_, ⟨⟩, rfl⟩
        exact .inr ⟨hno, hpath⟩
      · rintro (hold | ⟨-, rfl⟩)
        · exact absurd (h.lt hold) (by omega)
        · exact ⟨sec, rfl, hpath⟩
    · simp [hno]
  refine ⟨⟨fun no => ?_, fun no no' p hp hp' => ?_, fun no p hp => ?_, fun q hq => ?_, ?_⟩, hreg,
    fun no sec' hsec => ?_⟩
  · rw [← AList.lookup_isSome, hlookup, hnum]
    split_ifs with hno
    · simp [hno]
    · rw [AList.lookup_isSome, h.numbers]
      omega
  · rcases (hreg no p).1 hp with hold | ⟨rfl, rfl⟩ <;>
      rcases (hreg no' _).1 hp' with hold' | ⟨rfl, hq⟩
    · exact h.distinct no no' p hold hold'
    · exact absurd (hq ▸ hold) (hnew no)
    · exact absurd hold' (hnew no')
    · rfl
  · rw [hcache, mem_cache_set hD h.on hd]
    rcases (hreg no p).1 hp with hold | ⟨-, rfl⟩
    · exact .inl (h.cached no p hold)
    · exact .inr rfl
  · rw [hcache, mem_cache_set hD h.on hd] at hq
    rcases hq with hq | rfl
    · exact h.on q hq
    · exact hd
  · rw [hcache]
    exact nodup_cache_set hD h.on hd h.nodup
  · have hlt := h.lt ⟨sec', hsec, rfl⟩
    rw [hlookup, if_neg (Nat.ne_of_lt hlt), hsec]

theorem mHandleDevice_unsupported {d : Device} (h : ¬ d.manufacturer.isSome) :
    s.mHandleDevice d = s := by
  unfold Reg.mHandleDevice
  rw [Option.not_isSome_iff_eq_none.1 h]

/-- A scan registers the devices that it finds, in their order. -/
theorem Inv.foldl_mHandleDevice (hD : Apart D) : ∀ {ds : List Device} {s : Reg}, Inv D s →
    (∀ d ∈ ds, d.path ∈ D) → (ds.map Device.path).Nodup →
    (∀ d ∈ ds, ∀ no, ¬ s.Registered no d.path) →
    Inv D (ds.foldl Reg.mHandleDevice s)
    ∧ ∀ p, (∃ no, (ds.foldl Reg.mHandleDevice s).Registered no p)
        ↔ (∃ no, s.Registered no p) ∨ p ∈ supported ds
  | [], s, h, _, _, _ => ⟨h, fun p => by simp [supported]⟩
  | d :: ds, s, h, hds, hnodup, hnew => by
    obtain ⟨hd, hds⟩ := List.forall_mem_cons.1 hds
    obtain ⟨hdnew, hdsnew⟩ := List.forall_mem_cons.1 hnew
    obtain ⟨hne, hnodup⟩ := List.nodup_cons.1 hnodup
    rw [List.foldl_cons]
    by_cases hsup : d.manufacturer.isSome
    · obtain ⟨h', hreg, -⟩ := h.mHandleDevice hD hd hsup hdnew
      have hnew' : ∀ e ∈ ds, ∀ no, ¬ (s.mHandleDevice d).Registered no e.path := by
        intro e he no hp
        rcases (hreg no e.path).1 hp with hold | ⟨-, heq⟩
        · exact hdsnew e he no hold
        · exact hne (heq ▸ List.mem_map_of_mem he)
      obtain ⟨h'', hreg'⟩ := h'.foldl_mHandleDevice hD hds hnodup hnew'
      refine ⟨h'', fun p => ?_⟩
      have hsupp : supported (d :: ds) = d.path :: supported ds := by simp [supported, hsup]
      rw [hreg', hsupp, List.mem_cons]
      simp only [hreg]
      constructor
      · rintro (⟨no, hold | ⟨-, rfl⟩⟩ | hp)
        · exact .inl ⟨no, hold⟩
        · exact .inr (.inl rfl)
        · exact .inr (.inr hp)
      · rintro (⟨no, hold⟩ | rfl | hp)
        · exact .inl ⟨no, .inl hold⟩
        · exact .inl ⟨s.modemNumber, .inr ⟨rfl, rfl⟩⟩
        · exact .inr hp
    · rw [mHandleDevice_unsupported hsup]
      have hsupp : supported (d :: ds) = supported ds := by simp [supported, hsup]
      rw [hsupp]
      exact h.foldl_mHandleDevice hD hds hnodup hdsnew

theorem modemNo_eq_some (h : Inv D s) {no : ℕ} {p : Path} :
    s.modemNo p = some no ↔ s.Registered no p := by
  have hiff : ∀ i, (s.sections.lookup i).map Section.path = some p ↔ s.Registered i p := by
    intro i
    simp [Reg.Registered]
  unfold Reg.modemNo
  constructor
  · intro hfind
    have := List.find?_some hfind
    exact (hiff no).1 (by simpa using this)
  · intro hp
    refine List.find?_of_unique (List.mem_range.2 (h.lt hp)) (by simpa using (hiff no).2 hp) ?_
    intro i _ hi
    exact h.distinct i no p ((hiff i).1 (by simpa using hi)) hp

theorem mDelModemConfig_of_none (h : Inv D s) {p : Path} (hp : ∀ no, ¬ s.Registered no p) :
    s.mDelModemConfig p = s := by
  have hno : s.modemNo p = none := by
    rw [Option.eq_none_iff_forall_ne_some]
    exact fun no hno => hp no ((modemNo_eq_some h).1 hno)
  unfold Reg.mDelModemConfig
  rw [hno]

theorem mDelModemConfig_of_registered (h : Inv D s) {no : ℕ} {p : Path}
    (hp : s.Registered no p) :
    s.mDelModemConfig p = { s with
      sections := s.sections.erase no
      modemNumber := s.modemNumber - 1
      cache := (s.mDelPhysicalPathStatus p).cache } := by
  unfold Reg.mDelModemConfig
  rw [(modemNo_eq_some h).2 hp]
  rfl

/-- The last number is given back. -/
theorem Inv.mDelModemConfig (hD : Apart D) (h : Inv D s) {no : ℕ} {p : Path}
    (hp : s.Registered no p)
    (hlast : no + 1 = s.modemNumber) : Inv D (s.mDelModemConfig p)
    ∧ ∀ no' q, (s.mDelModemConfig p).Registered no' q ↔ s.Registered no' q ∧ q ≠ p := by
  have hpD : p ∈ D := h.on p (h.cached no p hp)
  rw [mDelModemConfig_of_registered h hp]
  have hreg : ∀ no' q, Reg.Registered { s with
      sections := s.sections.erase no
      modemNumber := s.modemNumber - 1
      cache := (s.mDelPhysicalPathStatus p).cache } no' q ↔ s.Registered no' q ∧ q ≠ p := by
    intro no' q
    unfold Reg.Registered
    rcases eq_or_ne no' no with rfl | hne
    · simp only [AList.lookup_erase]
      refine iff_of_false (by simp) ?_
      rintro ⟨⟨sec, hsec, rfl⟩, hq⟩
      obtain ⟨sec', hsec', rfl⟩ := hp
      cases hsec.symm.trans hsec'
      exact hq rfl
    · simp only [AList.lookup_erase_ne hne]
      refine (and_iff_left_of_imp ?_).symm
      rintro hq rfl
      exact hne (h.distinct no' no q hq hp)
  refine ⟨⟨fun no' => ?_, fun no' no'' q hq hq' => ?_, fun no' q hq => ?_, fun q hq => ?_, ?_⟩,
    hreg⟩
  · rw [AList.mem_erase, h.numbers]
    show _ ↔ no' < s.modemNumber - 1
    omega
  · exact h.distinct no' no'' q ((hreg no' q).1 hq).1 ((hreg no'' q).1 hq').1
  · obtain ⟨hold, hne⟩ := (hreg no' q).1 hq
    exact (mem_cache_del hD h.on hpD).2 ⟨h.cached no' q hold, hne⟩
  · exact h.on q ((mem_cache_del hD h.on hpD).1 hq).1
  · exact h.nodup.filter _

theorem Inv.length_keys (h : Inv D s) : s.sections.keys.length = s.modemNumber := by
  have hperm : s.sections.keys.Perm (List.range s.modemNumber) := by
    refine (List.perm_ext_iff_of_nodup s.sections.keys_nodup List.nodup_range).2 fun no => ?_
    rw [← AList.mem_keys, h.numbers, List.mem_range]
  rw [hperm.length_eq, List.length_range]

theorem Inv.startService (h : Inv D s) : startService s = s := by
  unfold Registry.startService
  rw [h.length_keys]

/-! ## Events -/

theorem Inv.withExpected (h : Inv D s) (expected : List Path) :
    Inv D { s with expected := expected } :=
  ⟨h.numbers, h.distinct, h.cached, h.on, h.nodup⟩

theorem mem_supported_singleton {d : Device} {p : Path} :
    p ∈ supported [d] ↔ d.manufacturer.isSome ∧ p = d.path := by
  unfold supported
  by_cases h : d.manufacturer.isSome <;> simp [h]

/-- A device is registered, or it is already, or it is not supported. -/
theorem Inv.addDevice (hD : Apart D) (h : Inv D s) {d : Device} (hd : d.path ∈ D)
    (hok : KeepsNumbers s (.add d)) :
    Inv D (addDevice s d)
    ∧ (∀ p, (∃ no, (addDevice s d).Registered no p)
        ↔ (∃ no, s.Registered no p) ∨ p ∈ supported [d])
    ∧ ∀ no sec, s.sections.lookup no = some sec → (addDevice s d).sections.lookup no = some sec := by
  have hproc := processed_iff hD h.on hd h.nodup
  unfold Registry.addDevice
  split_ifs with hst
  · refine ⟨h, fun p => (or_iff_left_of_imp fun hp => ?_).symm, fun _ _ hsec => hsec⟩
    obtain ⟨hsup, rfl⟩ := mem_supported_singleton.1 hp
    exact hok hsup (hproc.1 hst)
  · have hnew : ∀ no, ¬ s.Registered no d.path := fun no hp => hst (hproc.2 (h.cached no _ hp))
    by_cases hsup : d.manufacturer.isSome
    · obtain ⟨h', hreg, hkeep⟩ := h.mHandleDevice hD hd hsup hnew
      refine ⟨h', fun p => ?_, hkeep⟩
      simp only [hreg, mem_supported_singleton]
      constructor
      · rintro ⟨no, hold | ⟨-, hp⟩⟩
        · exact .inl ⟨no, hold⟩
        · exact .inr ⟨hsup, hp⟩
      · rintro (⟨no, hold⟩ | ⟨-, hp⟩)
        · exact ⟨no, .inl hold⟩
        · exact ⟨s.modemNumber, .inr ⟨rfl, hp⟩⟩
    · rw [mHandleDevice_unsupported hsup]
      refine ⟨h, fun p => (or_iff_left_of_imp fun hp => ?_).symm, fun _ _ hsec => hsec⟩
      exact absurd (mem_supported_singleton.1 hp).1 hsup

theorem rightAfter_of_same (h : Inv D s) (hr : s.Right) {i : Input} (hs : step s i = some s) :
    RightAfter s i ∧ ∀ s' ∈ step s i, Inv D s' := by
  unfold RightAfter
  rw [hs]
  constructor
  · rintro s' ⟨⟩
    exact ⟨hr, fun _ _ _ _ hsec => hsec⟩
  · rintro s' ⟨⟩
    exact h

/-- An event that meets the condition. -/
theorem rightAfter_of_keepsNumbers (hD : Apart D) (h : Inv D s) (hr : s.Right) {i : Input}
    (hi : i.On D) (hok : KeepsNumbers s i) : RightAfter s i ∧ ∀ s' ∈ step s i, Inv D s' := by
  cases i with
  | add d =>
    obtain ⟨h', hreg, hkeep⟩ := h.addDevice hD hi hok
    have hR : Reg.Right { addDevice s d with
        expected := s.expected.filter (· ∉ supported [d]) ++ supported [d] } := by
      refine ⟨h'.numbers, h'.distinct, fun p => (hreg p).trans ?_⟩
      rw [hr.expected]
      by_cases hp : p ∈ supported [d] <;> simp [hp]
    refine ⟨?_, ?_⟩
    · rintro s' ⟨⟩
      refine ⟨hR, ?_⟩
      rintro _ -
      exact hkeep
    · rintro s' ⟨⟩
      exact h'.withExpected _
  | remove p =>
    by_cases hp : ∃ no, s.Registered no p
    · obtain ⟨no, hp⟩ := hp
      obtain ⟨h', hreg⟩ := h.mDelModemConfig hD hp (hok no hp)
      have hR : Reg.Right { s.mDelModemConfig p with expected := s.expected.filter (· ≠ p) } := by
        refine ⟨h'.numbers, h'.distinct, fun q => ?_⟩
        rw [List.mem_filter, ← hr.expected]
        show (∃ no, (s.mDelModemConfig p).Registered no q) ↔ _
        simp only [hreg, decide_eq_true_eq, exists_and_right]
      refine ⟨?_, ?_⟩
      · rintro s' ⟨⟩
        exact ⟨hR, fun d hd => by simp at hd⟩
      · rintro s' ⟨⟩
        exact h'.withExpected _
    · push Not at hp
      have hsame : s.expected.filter (· ≠ p) = s.expected := by
        refine List.filter_eq_self.2 fun q hq => ?_
        obtain ⟨no, hreg⟩ := (hr.expected q).2 hq
        simp only [decide_eq_true_eq]
        rintro rfl
        exact hp no hreg
      have hstep : step s (.remove p) = some s := by
        simp only [step, mDelModemConfig_of_none h hp, hsame]
      exact rightAfter_of_same h hr hstep
  | scan ds =>
    obtain ⟨h0, hnone⟩ := h.modemInit
    obtain ⟨h', hreg⟩ := h0.foldl_mHandleDevice hD hi.1 hi.2 (fun d _ no => hnone no d.path)
    refine ⟨?_, ?_⟩
    · rintro s' ⟨⟩
      refine ⟨⟨h'.numbers, h'.distinct, fun p => (hreg p).trans ?_⟩, fun d hd => by simp at hd⟩
      exact or_iff_right fun ⟨no, hp⟩ => hnone no p hp
    · rintro s' ⟨⟩
      exact h'.withExpected _
  | start =>
    exact rightAfter_of_same h hr (congrArg some h.startService)

/-- An event that does not meet it leaves a device out, or a gap in the numbers. -/
theorem keepsNumbers_of_rightAfter (hD : Apart D) (h : Inv D s) {i : Input} (hi : i.On D)
    (hr : RightAfter s i) : KeepsNumbers s i := by
  cases i with
  | add d =>
    intro hsup hc
    have hproc := (processed_iff hD h.on hi h.nodup).2 hc
    obtain ⟨hR, -⟩ := hr _ rfl
    have hin := (hR.expected d.path).2
      (List.mem_append_right _ (mem_supported_singleton.2 ⟨hsup, rfl⟩))
    unfold addDevice at hin
    rw [if_pos hproc] at hin
    exact hin
  | remove p =>
    intro no hp
    obtain ⟨hR, -⟩ := hr _ rfl
    have hlt := h.lt hp
    have hnum := hR.numbers no
    rw [mDelModemConfig_of_registered h hp, AList.mem_erase] at hnum
    by_contra hne
    have hlt' : no < s.modemNumber - 1 := by omega
    exact (hnum.2 hlt').1 rfl
  | scan ds => trivial
  | start => trivial

/-- The registry is right after every event of a run, and no addition changes the section of another
modem, if and only if only the last number is removed, and no device is added whose path is still in
the cache though it is not registered. -/
theorem right_iff_keepsNumbers (hD : Apart D) {is : List Input} (his : ∀ i ∈ is, i.On D) :
    Runs.Meets step RightAfter .start is ↔ Runs.Meets step KeepsNumbers .start is := by
  refine (Runs.meets_iff_of_inv_on (I := fun s => Inv D s ∧ s.Right) (P := Input.On D) ?_ ?_ his
    ⟨Inv.start D, start_right⟩).symm
  · exact fun s i hI hi => ⟨fun hok => (rightAfter_of_keepsNumbers hD hI.1 hI.2 hi hok).1,
      keepsNumbers_of_rightAfter hD hI.1 hi⟩
  · intro s i s' hI hi hsafe hs
    have hok := keepsNumbers_of_rightAfter hD hI.1 hi hsafe
    exact ⟨(rightAfter_of_keepsNumbers hD hI.1 hI.2 hi hok).2 s' hs, (hsafe s' hs).1⟩

/-- A device of a supported vendor on a USB port. -/
def port (c : Char) (h : c.isAlphanum) : Device where
  path := ⟨['/', c], by simp [h]⟩
  driver := "usb"
  vendor := some "2c7c"

def portA : Device := port 'a' rfl
def portB : Device := port 'b' rfl
def portC : Device := port 'c' rfl
def portD : Device := port 'd' rfl

def ports : List Path := [portA.path, portB.path, portC.path, portD.path]

theorem ports_apart : Apart {p | p ∈ ports} := by
  have h : ∀ p ∈ ports, ∀ q ∈ ports, p ≠ q → ¬ p.Finds q.line := by decide
  exact h

/-- Modems come and go, the last one first, and a scan finds other ones. -/
def lastOutRun : List Input :=
  [.add portA, .add portB, .remove portB.path, .add portC, .start, .scan [portD, portC, portA]]

theorem right_lastOutRun :
    Runs.Meets step RightAfter .start lastOutRun ↔ Runs.Meets step KeepsNumbers .start lastOutRun :=
  right_iff_keepsNumbers ports_apart (by
    simp [lastOutRun, Input.On, ports, portA, portB, portC, portD, port])

/-- Removing the second of three modems leaves a gap, and the next modem that is added takes the
section of the third one. A modem that a scan has not found is not registered when it is added. -/
theorem registry_wrong :
    (∃ s, Runs.exec step .start [.add portA, .add portB, .add portC, .remove portB.path] = some s
      ∧ ¬ s.Right
      ∧ (s.sections.lookup 2).map Section.path = some portC.path
      ∧ ((addDevice s portD).sections.lookup 2).map Section.path = some portD.path)
    ∧ ∃ s, Runs.exec step .start [.add portA, .scan [], .add portA] = some s ∧ ¬ s.Right := by
  refine ⟨⟨_, rfl, fun h => ?_, ?_, ?_⟩, ⟨_, rfl, fun h => ?_⟩⟩
  · exact absurd ((h.numbers 2).1 (by decide)) (by decide)
  · decide
  · decide
  · obtain ⟨no, hreg⟩ := (h.expected portA.path).2 (by decide)
    exact Nat.not_lt_zero no ((h.numbers no).1 hreg.mem)

end Registry

end BananaWrt
