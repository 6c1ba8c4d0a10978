import BananaWrt.Proofs.QmiMsg
import BananaWrt.QmiRequests
import Mathlib.Data.List.Nodup

/-!
# When registration depends on the order of the TLVs

Each TLV of a GET_SYS_INFO response updates the same few variables. `onField_eq` gives the update
field by field, the lemmas on `onFields` what a sequence of TLVs leaves in each field, and
`flags_invariant_iff` when that is the same in every order: a service status assigns the data
classes, only that of 5G standalone adds to them, and the HDR system info looks at an attach state
that a later TLV may still set. `orderFree_iff` is the same for `requestRegistrationState2`, where
the result and error codes are read at a fixed place as well.
-/

namespace BananaWrt

namespace QmiRequests

open Bytes Tlv Qmi

/-- `SysInfo.onTlv` with the bytes that it reads: the type, and those of the value at 0, 1, 10 and
11. -/
def SysInfo.onBytes (a : SysInfo) (t v0 v1 v10 v11 : ℕ) : SysInfo :=
  let served := v0 = 0x02
  let psDomain := v0 = 0x01 ∧ v1 &&& 0x02 ≠ 0
  match t with
  | 0x10 => if served then a.service 0x2F0000 .cdma else a
  | 0x11 => if served then a.service 0x500000 .cdma else a
  | 0x12 => if served then a.service 0x3 .gsm else a
  | 0x13 => if served then a.service 0x4 .gsm else a
  | 0x14 => if served then (a.service WWAN_DATA_CLASS_LTE .gsm).lte else a
  | 0x4A => if served then (a.service (a.dataCapList ||| WWAN_DATA_CLASS_5G_SA) .gsm).lte else a
  | 0x4B => if psDomain then { a with psAttachedState := 1 } else a
  | 0x4E => { a with endcAvailable := some v0 }
  | 0x4F => { a with restrictDcnr := some v0 }
  | 0x15 => if psDomain then { a with psAttachedState := 1, isCdma := !a.isLte } else a
  | 0x16 =>
    let a := if psDomain then { a with psAttachedState := 1, isCdma := !a.isLte } else a
    if a.psAttachedState ≠ 0 ∧ v10 = 0x01 ∧ v11 = 0x03 then
      { a with hdrPersonality := 0x02 }
    else a
  | 0x17 => if psDomain then { a with psAttachedState := 1 } else a
  | 0x18 => if psDomain then { a with psAttachedState := 1 } else a
  | 0x19 => if psDomain then { a with psAttachedState := 1 }.lte else a
  | 0x25 => if psDomain then { a with psAttachedState := 1 } else a
  | _ => a

theorem onTlv_eq_onBytes (b : Bytes) (off : ℕ) (a : SysInfo) :
    a.onTlv b off = a.onBytes (u8 b off) (u8 b (off + 3)) (u8 b (off + 4)) (u8 b (off + 13))
      (u8 b (off + 14)) := by
  unfold SysInfo.onTlv SysInfo.onBytes PsDomain
  rfl

/-- How much of the value of a TLV is read. -/
def readSize (t : UInt8) : ℕ :=
  if t ∈ [0x10, 0x11, 0x12, 0x13, 0x14, 0x4A, 0x4E, 0x4F] then 1
  else if t ∈ [0x4B, 0x15, 0x17, 0x18, 0x19, 0x25] then 2
  else if t = 0x16 then 12
  else 0

def SysInfo.onField (a : SysInfo) (f : UInt8 × Bytes) : SysInfo :=
  a.onBytes f.1.toNat (u8 f.2 0) (u8 f.2 1) (u8 f.2 10) (u8 f.2 11)

def Served (f : UInt8 × Bytes) : Prop := u8 f.2 0 = 0x02

def InPsDomain (f : UInt8 × Bytes) : Prop := u8 f.2 0 = 0x01 ∧ u8 f.2 1 &&& 0x02 ≠ 0

/-- The TLV shows the packet-switched domain. -/
def Attaches (f : UInt8 × Bytes) : Prop :=
  f.1 ∈ [0x4B, 0x15, 0x16, 0x17, 0x18, 0x19, 0x25] ∧ InPsDomain f

def SetsLte (f : UInt8 × Bytes) : Prop :=
  f.1 ∈ [0x14, 0x4A] ∧ Served f ∨ f.1 = 0x19 ∧ InPsDomain f

def SetsCdma (f : UInt8 × Bytes) : Prop :=
  f.1 ∈ [0x10, 0x11] ∧ Served f ∨ f.1 ∈ [0x15, 0x16] ∧ InPsDomain f

/-- The HDR system info says eHRPD. -/
def SaysEhrpd (f : UInt8 × Bytes) : Prop := f.1 = 0x16 ∧ u8 f.2 10 = 0x01 ∧ u8 f.2 11 = 0x03

/-- The service status of 5G standalone, which adds to the data classes. -/
def Adds5g (f : UInt8 × Bytes) : Prop := f.1 = 0x4A ∧ Served f

/-- The service status of another radio, which overwrites the data classes. -/
def Overwrites (f : UInt8 × Bytes) : Prop := f.1 ∈ [0x10, 0x11, 0x12, 0x13, 0x14] ∧ Served f

instance : DecidablePred Served := fun _ => inferInstanceAs (Decidable (_ = _))
instance : DecidablePred InPsDomain := fun _ => inferInstanceAs (Decidable (_ ∧ _))
instance : DecidablePred Attaches := fun _ => inferInstanceAs (Decidable (_ ∧ _))
instance : DecidablePred SetsLte := fun _ => inferInstanceAs (Decidable (_ ∨ _))
instance : DecidablePred SetsCdma := fun _ => inferInstanceAs (Decidable (_ ∨ _))
instance : DecidablePred SaysEhrpd := fun _ => inferInstanceAs (Decidable (_ ∧ _))
instance : DecidablePred Adds5g := fun _ => inferInstanceAs (Decidable (_ ∧ _))
instance : DecidablePred Overwrites := fun _ => inferInstanceAs (Decidable (_ ∧ _))

/-- The data classes and the device class of a service status. -/
def statusOf (t : UInt8) : ℕ × DeviceClass :=
  if t = 0x10 then (0x2F0000, .cdma)
  else if t = 0x11 then (0x500000, .cdma)
  else if t = 0x12 then (0x3, .gsm)
  else if t = 0x13 then (0x4, .gsm)
  else (WWAN_DATA_CLASS_LTE, .gsm)

/-- The step for one TLV, field by field. -/
theorem onField_eq (a : SysInfo) (f : UInt8 × Bytes) : a.onField f =
    { psAttachedState := if Attaches f then 1 else a.psAttachedState
      isCdma := if SetsLte f then false else if SetsCdma f then !a.isLte else a.isCdma
      hdrPersonality := if SaysEhrpd f ∧ (Attaches f ∨ a.psAttachedState ≠ 0) then 0x02
        else a.hdrPersonality
      isLte := if SetsLte f then true else a.isLte
      dataCapList := if Overwrites f then (statusOf f.1).1
        else if Adds5g f then a.dataCapList ||| WWAN_DATA_CLASS_5G_SA else a.dataCapList
      deviceClass := if Overwrites f then (statusOf f.1).2
        else if Adds5g f then .gsm else a.deviceClass
      endcAvailable := if f.1 = 0x4E then some (u8 f.2 0) else a.endcAvailable
      restrictDcnr := if f.1 = 0x4F then some (u8 f.2 0) else a.restrictDcnr } := by
  rcases f with ⟨t, v⟩
  rcases a with ⟨ps, cdma, personality, lte, dataCap, device, endc, dcnr⟩
  unfold SysInfo.onField SysInfo.onBytes Attaches SetsLte SetsCdma SaysEhrpd Adds5g Overwrites
    statusOf
  have hnat : ∀ {n : ℕ}, t.toNat = n → t = UInt8.ofNat n := fun h => by
    rw [← h]
    exact UInt8.ofNat_toNat.symm
  have hdomain : InPsDomain (t, v) ↔ u8 v 0 = 0x01 ∧ u8 v 1 &&& 0x02 ≠ 0 := Iff.rfl
  have hserved : Served (t, v) ↔ u8 v 0 = 0x02 := Iff.rfl
  simp only [← hdomain, ← hserved]
  split
  case h_16 =>
    clear hdomain hserved hnat
    simp only [imp_false] at *
    simp [← UInt8.toNat_inj, *]
  all_goals
    rename_i h
    obtain rfl := hnat h
    clear hdomain hserved hnat h
  -- service status
  case h_1 => by_cases hs : Served (0x10, v) <;> simp [hs, SysInfo.service]
  case h_2 => by_cases hs : Served (0x11, v) <;> simp [hs, SysInfo.service]
  case h_3 => by_cases hs : Served (0x12, v) <;> simp [hs, SysInfo.service]
  case h_4 => by_cases hs : Served (0x13, v) <;> simp [hs, SysInfo.service]
  case h_5 => by_cases hs : Served (0x14, v) <;> simp [hs, SysInfo.service, SysInfo.lte]
  case h_6 => by_cases hs : Served (0x4A, v) <;> simp [hs, SysInfo.service, SysInfo.lte]
  -- additional LTE information
  case h_8 => simp
  case h_9 => simp
  -- the HDR system info looks at the attach state that it may just have set
  case h_11 =>
    by_cases hd : InPsDomain (0x16, v) <;> by_cases hp : u8 v 10 = 1 ∧ u8 v 11 = 3 <;>
      by_cases ha : ps = 0 <;> simp [hd, hp, ha]
  -- system info
  case h_7 => by_cases hd : InPsDomain (0x4B, v) <;> simp [hd]
  case h_10 => by_cases hd : InPsDomain (0x15, v) <;> simp [hd]
  case h_12 => by_cases hd : InPsDomain (0x17, v) <;> simp [hd]
  case h_13 => by_cases hd : InPsDomain (0x18, v) <;> simp [hd]
  case h_14 => by_cases hd : InPsDomain (0x19, v) <;> simp [hd, SysInfo.lte]
  case h_15 => by_cases hd : InPsDomain (0x25, v) <;> simp [hd]

/-- A TLV of the sequence does something. -/
def Any (P : UInt8 × Bytes → Prop) (fs : Fields) : Prop := ∃ f ∈ fs, P f

instance (P : UInt8 × Bytes → Prop) [DecidablePred P] (fs : Fields) : Decidable (Any P fs) :=
  inferInstanceAs (Decidable (∃ f ∈ fs, P f))

theorem any_nil (P : UInt8 × Bytes → Prop) : ¬ Any P [] := fun ⟨_, h, _⟩ => List.not_mem_nil h

theorem any_cons {P : UInt8 × Bytes → Prop} {f : UInt8 × Bytes} {fs : Fields} :
    Any P (f :: fs) ↔ P f ∨ Any P fs := by
  simp [Any]

theorem any_perm {P : UInt8 × Bytes → Prop} {fs fs' : Fields} (h : fs.Perm fs') :
    Any P fs ↔ Any P fs' := by
  unfold Any
  simp only [h.mem_iff]

section Fold

/-- The TLVs one after another. -/
def SysInfo.onFields (a : SysInfo) (fs : Fields) : SysInfo := fs.foldl SysInfo.onField a

theorem onFields_cons (a : SysInfo) (f : UInt8 × Bytes) (fs : Fields) :
    a.onFields (f :: fs) = (a.onField f).onFields fs := rfl

theorem onFields_append (a : SysInfo) (fs fs' : Fields) :
    a.onFields (fs ++ fs') = (a.onFields fs).onFields fs' :=
  List.foldl_append

theorem psAttached_onFields : ∀ (fs : Fields) (a : SysInfo), (a.onFields fs).psAttachedState
    = if Any Attaches fs then 1 else a.psAttachedState
  | [], a => (if_neg (any_nil _)).symm
  | f :: fs, a => by
    rw [onFields_cons, psAttached_onFields fs, onField_eq]
    by_cases hf : Attaches f <;> simp [any_cons, hf]

/-- Once LTE has been seen, nothing sets the CDMA flag again. -/
theorem isCdma_onFields : ∀ (fs : Fields) (a : SysInfo), (a.onFields fs).isCdma
    = if Any SetsLte fs then false else if Any SetsCdma fs then !a.isLte else a.isCdma
  | [], a => by simp [SysInfo.onFields, any_nil]
  | f :: fs, a => by
    rw [onFields_cons, isCdma_onFields fs, onField_eq]
    by_cases hl : SetsLte f <;> by_cases hc : SetsCdma f <;> simp [any_cons, hl, hc]

theorem hdr_onFields_of_not : ∀ {fs : Fields} {a : SysInfo},
    ¬ Any SaysEhrpd fs ∨ a.psAttachedState = 0 ∧ ¬ Any Attaches fs →
      (a.onFields fs).hdrPersonality = a.hdrPersonality
  | [], _, _ => rfl
  | f :: fs, a, h => by
    simp only [any_cons, not_or] at h
    have hsays : ¬ (SaysEhrpd f ∧ (Attaches f ∨ a.psAttachedState ≠ 0)) := fun ⟨hs, ha⟩ => by
      rcases h with h | ⟨hzero, h⟩
      · exact h.1 hs
      · exact ha.elim h.1 (· hzero)
    have hrest : ¬ Any SaysEhrpd fs ∨ (a.onField f).psAttachedState = 0 ∧ ¬ Any Attaches fs := by
      rw [onField_eq]
      rcases h with h | ⟨hzero, h⟩
      · exact .inl h.2
      · exact .inr ⟨(if_neg h.1).trans hzero, h.2⟩
    rw [onFields_cons, hdr_onFields_of_not hrest, onField_eq]
    exact if_neg hsays

theorem hdr_onFields_keeps : ∀ (fs : Fields) {a : SysInfo}, a.hdrPersonality = 0x02 →
    (a.onFields fs).hdrPersonality = 0x02
  | [], _, h => h
  | f :: fs, a, h => by
    rw [onFields_cons]
    refine hdr_onFields_keeps fs ?_
    rw [onField_eq]
    dsimp only
    split_ifs
    · rfl
    · exact h

theorem hdr_onFields_of_attached : ∀ {fs : Fields} {a : SysInfo},
    Any (fun f => SaysEhrpd f ∧ (Attaches f ∨ a.psAttachedState ≠ 0)) fs →
      (a.onFields fs).hdrPersonality = 0x02
  | [], _, h => absurd h (any_nil _)
  | f :: fs, a, h => by
    rw [onFields_cons]
    rcases any_cons.1 h with hf | ⟨g, hg, hsays, hatt⟩
    · refine hdr_onFields_keeps fs ?_
      rw [onField_eq]
      exact if_pos hf
    · refine hdr_onFields_of_attached ⟨g, hg, hsays, hatt.imp_right fun hne => ?_⟩
      rw [onField_eq]
      dsimp only
      split_ifs
      · exact Nat.one_ne_zero
      · exact hne

/-- While no status overwrites them, a status of 5G adds to the data classes. -/
theorem data_onFields_of_not : ∀ {fs : Fields} {a : SysInfo}, ¬ Any Overwrites fs →
    (a.onFields fs).dataCapList
        = (if Any Adds5g fs then a.dataCapList ||| WWAN_DATA_CLASS_5G_SA else a.dataCapList)
      ∧ (a.onFields fs).deviceClass = if Any Adds5g fs then .gsm else a.deviceClass
  | [], a, _ => by simp [SysInfo.onFields, any_nil]
  | f :: fs, a, h => by
    simp only [any_cons, not_or] at h
    rw [onFields_cons]
    obtain ⟨hd, hc⟩ := data_onFields_of_not (a := a.onField f) h.2
    rw [hd, hc, onField_eq]
    by_cases hf : Adds5g f
    · have htwice : a.dataCapList ||| WWAN_DATA_CLASS_5G_SA ||| WWAN_DATA_CLASS_5G_SA
          = a.dataCapList ||| WWAN_DATA_CLASS_5G_SA := by
        rw [Nat.or_assoc, Nat.or_self]
      simp [any_cons, h.1, hf, htwice]
    · simp [any_cons, h.1, hf]

/-- Without a status of 5G the data classes are those of one of the overwriting statuses. -/
theorem data_onFields_of_overwrites : ∀ {fs : Fields} {a : SysInfo}, ¬ Any Adds5g fs →
    Any Overwrites fs → Any (fun f => Overwrites f
      ∧ ((a.onFields fs).dataCapList, (a.onFields fs).deviceClass) = statusOf f.1) fs
  | [], _, _, h => absurd h (any_nil _)
  | f :: fs, a, hno, h => by
    simp only [any_cons, not_or] at hno
    rw [onFields_cons]
    by_cases hrest : Any Overwrites fs
    · exact any_cons.2 (.inr (data_onFields_of_overwrites hno.2 hrest))
    · have hf : Overwrites f := (any_cons.1 h).resolve_right hrest
      obtain ⟨hd, hc⟩ := data_onFields_of_not (a := a.onField f) hrest
      refine any_cons.2 (.inl ⟨hf, ?_⟩)
      rw [hd, hc, if_neg hno.2, if_neg hno.2, onField_eq]
      simp [hf]

section Reported

/-! A number that one type of TLV reports. -/

variable {get : SysInfo → Option ℕ} {t : UInt8}
  (hget : ∀ a f, get (a.onField f) = if f.1 = t then some (u8 f.2 0) else get a)

include hget

theorem get_onFields_of_not : ∀ {fs : Fields} {a : SysInfo}, ¬ Any (fun f => f.1 = t) fs →
    get (a.onFields fs) = get a
  | [], _, _ => rfl
  | f :: fs, a, h => by
    rw [any_cons, not_or] at h
    rw [onFields_cons, get_onFields_of_not h.2, hget]
    exact if_neg h.1

theorem get_onFields : ∀ {fs : Fields} {a : SysInfo} {f : UInt8 × Bytes},
    (fs.map Prod.fst).Nodup → f ∈ fs → f.1 = t → get (a.onFields fs) = some (u8 f.2 0)
  | [], _, _, _, h, _ => absurd h List.not_mem_nil
  | g :: fs, a, f, hnodup, h, ht => by
    rw [List.map_cons, List.nodup_cons] at hnodup
    rw [onFields_cons]
    rcases List.mem_cons.1 h with rfl | h
    · have hno : ¬ Any (fun g => g.1 = t) fs := fun ⟨g, hg, he⟩ =>
        hnodup.1 (ht.trans he.symm ▸ List.mem_map_of_mem hg)
      rw [get_onFields_of_not hget hno, hget]
      exact if_pos ht
    · exact get_onFields hnodup.2 h ht

theorem get_onFields_iff {fs : Fields} {a : SysInfo} {P : ℕ → Prop}
    (hnodup : (fs.map Prod.fst).Nodup) (ha : get a = none) :
    (∃ e ∈ get (a.onFields fs), P e) ↔ Any (fun f => f.1 = t ∧ P (u8 f.2 0)) fs := by
  by_cases hany : Any (fun f => f.1 = t) fs
  · obtain ⟨f, hf, ht⟩ := hany
    rw [get_onFields hget hnodup hf ht]
    refine ⟨fun ⟨e, he, hP⟩ => ⟨f, hf, ht, ?_⟩, fun ⟨g, hg, hgt, hP⟩ => ⟨_, rfl, ?_⟩⟩
    · obtain rfl : u8 f.2 0 = e := by simpa using he
      exact hP
    · have hfg : g = f := List.inj_on_of_nodup_map hnodup hg hf (hgt.trans ht.symm)
      exact hfg ▸ hP
  · rw [get_onFields_of_not hget hany, ha]
    refine iff_of_false (fun ⟨e, he, _⟩ => ?_) fun ⟨f, hf, ht, _⟩ => hany ⟨f, hf, ht⟩
    simp at he

end Reported

end Fold

/-! ## The result -/

/-- The TLVs say that 5G is available besides LTE and not restricted. -/
def Dcnr (fs : Fields) : Prop :=
  Any (fun f => f.1 = 0x4E ∧ u8 f.2 0 ≠ 0) fs ∧ Any (fun f => f.1 = 0x4F ∧ u8 f.2 0 = 0) fs

instance (fs : Fields) : Decidable (Dcnr fs) := inferInstanceAs (Decidable (_ ∧ _))

theorem dcnr_perm {fs fs' : Fields} (h : fs.Perm fs') : Dcnr fs ↔ Dcnr fs' :=
  and_congr (any_perm h) (any_perm h)

/-- The service status of LTE. -/
def ServesLte (f : UInt8 × Bytes) : Prop := f.1 = 0x14 ∧ Served f

instance : DecidablePred ServesLte := fun _ => inferInstanceAs (Decidable (_ ∧ _))

theorem ServesLte.overwrites {f : UInt8 × Bytes} (h : ServesLte f) : Overwrites f :=
  ⟨by simp [h.1], h.2⟩

theorem Adds5g.not_overwrites {f : UInt8 × Bytes} (h : Adds5g f) : ¬ Overwrites f := fun ho => by
  have := ho.1
  rw [h.1] at this
  simp at this

/-- The 5G type for given data classes and device class. -/
def type5gOf (dataCapList : ℕ) (deviceClass : DeviceClass) (dcnr : Bool) : ℕ :=
  let dataClass := if dataCapList &&& WWAN_DATA_CLASS_LTE ≠ 0 ∧ dcnr then
    dataCapList ||| WWAN_DATA_CLASS_5G_NSA else dataCapList
  if deviceClass = .cdma then 0
  else if dataClass &&& WWAN_DATA_CLASS_5G_SA ≠ 0 then WWAN_DATA_CLASS_5G_SA
  else if dataClass &&& WWAN_DATA_CLASS_5G_NSA ≠ 0 then WWAN_DATA_CLASS_5G_NSA
  else 0

theorem type5gOf_adds (data : ℕ) (dcnr : Bool) :
    type5gOf (data ||| WWAN_DATA_CLASS_5G_SA) .gsm dcnr = WWAN_DATA_CLASS_5G_SA := by
  have hsa : ∀ n : ℕ, (n ||| WWAN_DATA_CLASS_5G_SA) &&& WWAN_DATA_CLASS_5G_SA ≠ 0 := fun n => by
    rw [Nat.and_or_distrib_right, Nat.and_self]
    exact fun h => absurd (Nat.or_eq_zero_iff.1 h).2 (by decide)
  unfold type5gOf
  rw [if_neg (by simp)]
  refine if_pos ?_
  split_ifs
  · rw [Nat.or_assoc, Nat.or_comm WWAN_DATA_CLASS_5G_SA, ← Nat.or_assoc]
    exact hsa _
  · exact hsa _

theorem type5gOf_status {f : UInt8 × Bytes} (h : Overwrites f) (dcnr : Bool) :
    type5gOf (statusOf f.1).1 (statusOf f.1).2 dcnr
      = if f.1 = 0x14 ∧ dcnr then WWAN_DATA_CLASS_5G_NSA else 0 := by
  have ht := h.1
  simp only [List.mem_cons, List.not_mem_nil, or_false] at ht
  rcases ht with ht | ht | ht | ht | ht <;> rw [ht] <;> cases dcnr <;> rfl

/-- What the loop makes of the TLVs. -/
def sysInfo (fs : Fields) : SysInfo := SysInfo.init.onFields fs

theorem type5g_sysInfo {fs : Fields} (hnodup : (fs.map Prod.fst).Nodup) : (sysInfo fs).type5g
    = type5gOf (sysInfo fs).dataCapList (sysInfo fs).deviceClass (decide (Dcnr fs)) := by
  have hendc : (∃ e ∈ (sysInfo fs).endcAvailable, e ≠ 0)
      ↔ Any (fun f => f.1 = 0x4E ∧ u8 f.2 0 ≠ 0) fs :=
    get_onFields_iff (fun a f => by rw [onField_eq]) hnodup rfl
  have hdcnr : (∃ r ∈ (sysInfo fs).restrictDcnr, r = 0)
      ↔ Any (fun f => f.1 = 0x4F ∧ u8 f.2 0 = 0) fs :=
    get_onFields_iff (fun a f => by rw [onField_eq]) hnodup rfl
  have hclass : (sysInfo fs).dataClass = if (sysInfo fs).dataCapList &&& WWAN_DATA_CLASS_LTE ≠ 0
      ∧ decide (Dcnr fs) then (sysInfo fs).dataCapList ||| WWAN_DATA_CLASS_5G_NSA
      else (sysInfo fs).dataCapList := by
    refine if_congr (and_congr_right fun _ => ?_) rfl rfl
    rw [decide_eq_true_iff]
    exact and_congr hendc hdcnr
  unfold SysInfo.type5g
  rw [hclass]
  rfl

/-- A status that overwrites the data classes, at the end of the TLVs, decides. -/
theorem type5g_concat {fs : Fields} {f : UInt8 × Bytes}
    (hnodup : ((fs ++ [f]).map Prod.fst).Nodup) (h : Overwrites f) : (sysInfo (fs ++ [f])).type5g
    = if f.1 = 0x14 ∧ decide (Dcnr (fs ++ [f])) then WWAN_DATA_CLASS_5G_NSA else 0 := by
  rw [type5g_sysInfo hnodup, ← type5gOf_status h]
  unfold sysInfo
  rw [onFields_append]
  change type5gOf ((_ : SysInfo).onField f).dataCapList (SysInfo.onField _ f).deviceClass _ = _
  rw [onField_eq]
  simp [h]

theorem type5g_concat_adds {fs : Fields} {f : UInt8 × Bytes}
    (hnodup : ((fs ++ [f]).map Prod.fst).Nodup) (h : Adds5g f) :
    (sysInfo (fs ++ [f])).type5g = WWAN_DATA_CLASS_5G_SA := by
  rw [type5g_sysInfo hnodup, ← type5gOf_adds (sysInfo fs).dataCapList (decide (Dcnr (fs ++ [f])))]
  unfold sysInfo
  rw [onFields_append]
  change type5gOf ((_ : SysInfo).onField f).dataCapList (SysInfo.onField _ f).deviceClass _ = _
  rw [onField_eq]
  simp [h, h.not_overwrites]

/-- The flags that the caller and the connection go by: PS-attached, `s_is_cdma`, `s_5g_type` and
`s_hdr_personality`. -/
structure Flags where
  psAttached : ℕ
  isCdma : Bool
  type5g : ℕ
  hdrPersonality : ℕ
  deriving DecidableEq, Repr

def SysInfo.flags (a : SysInfo) : Flags :=
  ⟨a.psAttachedState, a.isCdma, a.type5g, a.hdrPersonality⟩

/-- What the flags should be, whatever the order. -/
def expectedFlags (fs : Fields) : Flags where
  psAttached := if Any Attaches fs then 1 else 0
  isCdma := decide (Any SetsCdma fs ∧ ¬ Any SetsLte fs)
  type5g := if Any Adds5g fs then WWAN_DATA_CLASS_5G_SA
    else if Any ServesLte fs ∧ Dcnr fs then WWAN_DATA_CLASS_5G_NSA else 0
  hdrPersonality := if Any (fun f => SaysEhrpd f ∧ Attaches f) fs then 0x02 else 0

theorem expectedFlags_perm {fs fs' : Fields} (h : fs.Perm fs') :
    expectedFlags fs = expectedFlags fs' := by
  have hcdma : (Any SetsCdma fs ∧ ¬ Any SetsLte fs) ↔ (Any SetsCdma fs' ∧ ¬ Any SetsLte fs') :=
    and_congr (any_perm h) (not_congr (any_perm h))
  have hnsa : (Any ServesLte fs ∧ Dcnr fs) ↔ (Any ServesLte fs' ∧ Dcnr fs') :=
    and_congr (any_perm h) (dcnr_perm h)
  refine Flags.mk.injEq .. ▸ ⟨if_congr (any_perm h) rfl rfl, decide_eq_decide.2 hcdma,
    if_congr (any_perm h) rfl (if_congr hnsa rfl rfl), if_congr (any_perm h) rfl rfl⟩

/-- No TLV's part in the result depends on what stands before or behind it. -/
structure Unambiguous (fs : Fields) : Prop where
  /-- If the HDR system info says eHRPD but does not show the packet-switched domain, no other
  TLV shows it. -/
  ehrpd : ∀ f ∈ fs, SaysEhrpd f → ¬ Attaches f → ¬ Any Attaches fs
  /-- Where 5G standalone is served, no other radio is. -/
  sa : Any Adds5g fs → ¬ Any Overwrites fs
  /-- Where LTE with 5G is served, no other radio is. -/
  nsa : Any ServesLte fs → Dcnr fs → ∀ g ∈ fs, Overwrites g → g.1 = 0x14

theorem Unambiguous.perm {fs fs' : Fields} (hu : Unambiguous fs) (h : fs.Perm fs') :
    Unambiguous fs' where
  ehrpd := fun f hf hs ha hany => hu.ehrpd f (h.mem_iff.2 hf) hs ha ((any_perm h).2 hany)
  sa := fun hadd hov => hu.sa ((any_perm h).2 hadd) ((any_perm h).2 hov)
  nsa := fun hlte hdcnr g hg => hu.nsa ((any_perm h).2 hlte) ((dcnr_perm h).2 hdcnr) g
    (h.mem_iff.2 hg)

theorem hdr_sysInfo {fs : Fields} (hu : Unambiguous fs) : (sysInfo fs).hdrPersonality
    = if Any (fun f => SaysEhrpd f ∧ Attaches f) fs then 0x02 else 0 := by
  split_ifs with h
  · obtain ⟨f, hf, hs, ha⟩ := h
    exact hdr_onFields_of_attached ⟨f, hf, hs, .inl ha⟩
  · refine hdr_onFields_of_not ?_
    by_cases hsays : Any SaysEhrpd fs
    · obtain ⟨f, hf, hs⟩ := hsays
      exact .inr ⟨rfl, hu.ehrpd f hf hs fun ha => h ⟨f, hf, hs, ha⟩⟩
    · exact .inl hsays

theorem type5g_of_unambiguous {fs : Fields} (hnodup : (fs.map Prod.fst).Nodup)
    (hu : Unambiguous fs) : (sysInfo fs).type5g = (expectedFlags fs).type5g := by
  rw [type5g_sysInfo hnodup]
  unfold expectedFlags
  dsimp only
  by_cases hov : Any Overwrites fs
  · have hadd : ¬ Any Adds5g fs := fun h => hu.sa h hov
    obtain ⟨f, hf, hfo, hdata⟩ := data_onFields_of_overwrites (a := SysInfo.init) hadd hov
    have hd : (SysInfo.init.onFields fs).dataCapList = (statusOf f.1).1 := congrArg Prod.fst hdata
    have hc : (SysInfo.init.onFields fs).deviceClass = (statusOf f.1).2 := congrArg Prod.snd hdata
    unfold sysInfo
    rw [hd, hc, if_neg hadd, type5gOf_status hfo]
    refine if_congr ?_ rfl rfl
    rw [decide_eq_true_iff]
    -- the status that is left is that of LTE just when LTE is served
    refine and_congr_left fun hdcnr => ⟨fun ht => ⟨f, hf, ht, hfo.2⟩, fun hlte => ?_⟩
    exact hu.nsa hlte hdcnr f hf hfo
  · obtain ⟨hd, hc⟩ := data_onFields_of_not (a := SysInfo.init) hov
    unfold sysInfo
    rw [hd, hc]
    split_ifs with hadd hlte
    · exact type5gOf_adds 0 _
    · obtain ⟨⟨f, hf, h⟩, _⟩ := hlte
      exact absurd ⟨f, hf, h.overwrites⟩ hov
    · cases decide (Dcnr fs) <;> rfl

theorem flags_sysInfo {fs : Fields} (hnodup : (fs.map Prod.fst).Nodup) (hu : Unambiguous fs) :
    (sysInfo fs).flags = expectedFlags fs := by
  have hcdma : (sysInfo fs).isCdma = decide (Any SetsCdma fs ∧ ¬ Any SetsLte fs) := by
    unfold sysInfo
    rw [isCdma_onFields]
    by_cases hl : Any SetsLte fs <;> by_cases hc : Any SetsCdma fs <;> simp [hl, hc, SysInfo.init]
  unfold SysInfo.flags
  rw [hcdma, type5g_of_unambiguous hnodup hu, hdr_sysInfo hu]
  unfold sysInfo
  rw [psAttached_onFields]
  rfl

theorem exists_perm_concat {fs : Fields} {f : UInt8 × Bytes} (hf : f ∈ fs) :
    ∃ rest, (rest ++ [f]).Perm fs :=
  ⟨fs.erase f, (List.perm_append_singleton f _).trans (List.perm_cons_erase hf).symm⟩

theorem nodup_types_of_perm {fs fs' : Fields} (h : fs'.Perm fs) (hnodup : (fs.map Prod.fst).Nodup) :
    (fs'.map Prod.fst).Nodup :=
  (h.map Prod.fst).nodup_iff.2 hnodup

section Invariant

variable {fs : Fields} (hnodup : (fs.map Prod.fst).Nodup)
  (h : ∀ fs' fs'', fs'.Perm fs → fs''.Perm fs → (sysInfo fs').flags = (sysInfo fs'').flags)

include hnodup h

theorem unambiguous_sa (hadd : Any Adds5g fs) : ¬ Any Overwrites fs := fun hov => by
  obtain ⟨x, hx, hxa⟩ := hadd
  obtain ⟨n, hn, hno⟩ := hov
  obtain ⟨l, hl⟩ := exists_perm_concat hx
  obtain ⟨l', hl'⟩ := exists_perm_concat hn
  have heq := congrArg Flags.type5g (h _ _ hl hl')
  change (sysInfo _).type5g = (sysInfo _).type5g at heq
  rw [type5g_concat_adds (nodup_types_of_perm hl hnodup) hxa,
    type5g_concat (nodup_types_of_perm hl' hnodup) hno] at heq
  split_ifs at heq <;> simp [WWAN_DATA_CLASS_5G_SA, WWAN_DATA_CLASS_5G_NSA] at heq

theorem unambiguous_nsa (hlte : Any ServesLte fs) (hdcnr : Dcnr fs) :
    ∀ g ∈ fs, Overwrites g → g.1 = 0x14 := by
  intro g hg hgo
  by_contra hne
  obtain ⟨x, hx, hxl⟩ := hlte
  obtain ⟨l, hl⟩ := exists_perm_concat hx
  obtain ⟨l', hl'⟩ := exists_perm_concat hg
  have heq := congrArg Flags.type5g (h _ _ hl hl')
  change (sysInfo _).type5g = (sysInfo _).type5g at heq
  have hx : x.1 = 0x14 ∧ decide (Dcnr (l ++ [x])) = true :=
    ⟨hxl.1, decide_eq_true ((dcnr_perm hl).2 hdcnr)⟩
  rw [type5g_concat (nodup_types_of_perm hl hnodup) hxl.overwrites,
    type5g_concat (nodup_types_of_perm hl' hnodup) hgo, if_pos hx,
    if_neg fun hc => hne hc.1] at heq
  simp [WWAN_DATA_CLASS_5G_NSA] at heq

theorem unambiguous_ehrpd {f : UInt8 × Bytes} (hf : f ∈ fs) (hs : SaysEhrpd f)
    (ha : ¬ Attaches f) : ¬ Any Attaches fs := fun ⟨g, hg, hga⟩ => by
  -- with the HDR system info first, nothing has shown the domain when it is read
  have hfirst := List.perm_cons_erase hf
  have honly : ¬ Any SaysEhrpd (fs.erase f) := fun ⟨f', hf', hs'⟩ => by
    have hn := nodup_types_of_perm hfirst.symm hnodup
    rw [List.map_cons, List.nodup_cons] at hn
    exact hn.1 (hs.1.trans hs'.1.symm ▸ List.mem_map_of_mem hf')
  have hzero : (sysInfo (f :: fs.erase f)).hdrPersonality = 0 := by
    unfold sysInfo
    rw [onFields_cons, hdr_onFields_of_not (.inl honly), onField_eq]
    simp [ha, SysInfo.init]
  -- with the other TLV first, something has
  have hfg : f ≠ g := fun he => ha (he ▸ hga)
  have hmem : f ∈ fs.erase g := (List.mem_erase_of_ne hfg).2 hf
  have htwo : (sysInfo (g :: fs.erase g)).hdrPersonality = 0x02 := by
    unfold sysInfo
    rw [onFields_cons]
    refine hdr_onFields_of_attached ⟨f, hmem, hs, .inr ?_⟩
    rw [onField_eq]
    simp [hga]
  have heq := congrArg Flags.hdrPersonality (h _ _ hfirst.symm (List.perm_cons_erase hg).symm)
  change (sysInfo _).hdrPersonality = (sysInfo _).hdrPersonality at heq
  rw [hzero, htwo] at heq
  simp at heq

theorem unambiguous_of_invariant : Unambiguous fs where
  ehrpd := fun _ hf => unambiguous_ehrpd hnodup h hf
  sa := unambiguous_sa hnodup h
  nsa := unambiguous_nsa hnodup h

end Invariant

/-- The flags that the TLVs give are the same in every order just when the TLVs are unambiguous. -/
theorem flags_invariant_iff {fs : Fields} (hnodup : (fs.map Prod.fst).Nodup) :
    (∀ fs' fs'', fs'.Perm fs → fs''.Perm fs → (sysInfo fs').flags = (sysInfo fs'').flags)
      ↔ Unambiguous fs := by
  refine ⟨unambiguous_of_invariant hnodup, fun hu fs' fs'' h' h'' => ?_⟩
  calc (sysInfo fs').flags = expectedFlags fs' :=
        flags_sysInfo (nodup_types_of_perm h' hnodup) (hu.perm h'.symm)
    _ = expectedFlags fs'' := expectedFlags_perm (h'.trans h''.symm)
    _ = (sysInfo fs'').flags :=
        (flags_sysInfo (nodup_types_of_perm h'' hnodup) (hu.perm h''.symm)).symm

/-! ## The response -/

/-- A GET_SYS_INFO response: its TLVs have different types and fit the length field of a message,
the result is among them, and each is as long as what is read of it. -/
structure WellFormed (fs : Fields) : Prop where
  nodup : (fs.map Prod.fst).Nodup
  short : (encode fs).length < 2 ^ 16
  result : ∃ v, (0x02, v) ∈ fs ∧ 4 ≤ v.length
  sized : ∀ f ∈ fs, readSize f.1 ≤ f.2.length

theorem WellFormed.perm {fs fs' : Fields} (h : WellFormed fs) (hp : fs'.Perm fs) :
    WellFormed fs' where
  nodup := nodup_types_of_perm hp h.nodup
  short := by
    rw [length_encode_perm hp]
    exact h.short
  result := h.result.imp fun _ hv => ⟨hp.mem_iff.2 hv.1, hv.2⟩
  sized := fun f hf => h.sized f (hp.mem_iff.1 hf)

/-- The answer to the request, and `home` to every request for the home network. -/
def answers (b : Bytes) (home : Reply) : ℕ → Reply
  | 0 => ⟨0, some b⟩
  | _ + 1 => home

def flagsOf (r : ℤ × ℕ × State) : Flags :=
  ⟨r.2.1, r.2.2.isCdma, r.2.2.type5g, r.2.2.hdrPersonality⟩

/-- The flags after `requestRegistrationState2`. -/
def register (s : State) (b : Bytes) (home : Reply) : Flags :=
  flagsOf ((requestRegistrationState2 s).feed (answers b home))

/-- The result and error codes are read at a fixed place: as if the first TLV were the result. -/
def Accepted (fs : Fields) : Prop := le16 (encode fs) 3 = 0 ∧ le16 (encode fs) 5 = 0

instance (fs : Fields) : Decidable (Accepted fs) := inferInstanceAs (Decidable (_ ∧ _))

/-- What the result TLV itself says. -/
def Succeeded (fs : Fields) : Prop := ∃ v, (0x02, v) ∈ fs ∧ le16 v 0 = 0 ∧ le16 v 2 = 0

/-- Of a TLV that is long enough, only the value is read. -/
theorem onTlv_eq_onField {b : Bytes} {off : ℕ} {f : UInt8 × Bytes} {fs : Fields} (a : SysInfo)
    (h : At b off (f :: fs)) (hsize : readSize f.1 ≤ f.2.length) :
    a.onTlv b off = a.onField f := by
  obtain ⟨t, v⟩ := f
  have hread : ∀ i < readSize t, u8 b (off + 3 + i) = u8 v i := fun i hi =>
    u8_value h.value (Nat.lt_of_lt_of_le hi hsize)
  have hnat : ∀ {n : ℕ}, t.toNat = n → t = UInt8.ofNat n := fun h => by
    rw [← h]
    exact UInt8.ofNat_toNat.symm
  rw [onTlv_eq_onBytes, h.type]
  unfold SysInfo.onField SysInfo.onBytes
  dsimp only
  split
  case h_16 => rfl
  all_goals
    rename_i ht
    obtain rfl := hnat ht
  case h_11 =>
    have h0 : u8 b (off + 3) = u8 v 0 := hread 0 (by decide)
    have h1 : u8 b (off + 4) = u8 v 1 := hread 1 (by decide)
    have h10 : u8 b (off + 13) = u8 v 10 := hread 10 (by decide)
    have h11 : u8 b (off + 14) = u8 v 11 := hread 11 (by decide)
    simp only [h0, h1, h10, h11]
  case h_1 | h_2 | h_3 | h_4 | h_5 | h_6 | h_8 | h_9 =>
    have h0 : u8 b (off + 3) = u8 v 0 := hread 0 (by decide)
    simp only [h0]
  all_goals
    have h0 : u8 b (off + 3) = u8 v 0 := hread 0 (by decide)
    have h1 : u8 b (off + 4) = u8 v 1 := hread 1 (by decide)
    simp only [h0, h1]

theorem sysInfoLoop_always {b : Bytes} : ∀ {fs : Fields} {fuel off : ℕ} {a : SysInfo},
    At b off fs → Fits fs → (∀ f ∈ fs, readSize f.1 ≤ f.2.length) → fs.length ≤ fuel →
      (sysInfoLoop b fuel (encode fs).length off a).Always (· = a.onFields fs)
  | [], 0, _, _, _, _, _, _ => rfl
  | [], _ + 1, _, _, _, _, _, _ => rfl
  | _ :: _, 0, _, _, _, _, _, hfuel => absurd hfuel (Nat.not_succ_le_zero _)
  | (t, v) :: fs, fuel + 1, off, a, hat, hfits, hsize, hfuel => by
    have hv := hat.length (hfits _ List.mem_cons_self)
    have hlen := length_encode_cons t v fs
    have hne : (encode ((t, v) :: fs)).length ≠ 0 := by omega
    have hrest : (encode ((t, v) :: fs)).length - (v.length + 3) = (encode fs).length := by omega
    have hoff : off + v.length + 3 = off + (v.length + 3) := Nat.add_assoc ..
    have ih : (sysInfoLoop b fuel (encode fs).length (off + (v.length + 3))
        (a.onField (t, v))).Always (· = a.onFields ((t, v) :: fs)) :=
      sysInfoLoop_always hat.tail (fun f hf => hfits f (List.mem_cons_of_mem _ hf))
        (fun f hf => hsize f (List.mem_cons_of_mem _ hf)) (Nat.le_of_succ_le_succ hfuel)
    unfold sysInfoLoop
    rw [if_neg hne]
    simp only [hv, hrest, hoff, onTlv_eq_onField a hat (hsize _ List.mem_cons_self)]
    split_ifs
    · exact Calls.always_bind.2 (Calls.Always.of_forall fun _ => ih)
    · exact ih

/-- What the two codes are read as: those of the result TLV if it comes first. -/
theorem Accepted.of_carries {b : Bytes} {fs : Fields} (h : Carries b fs)
    (hlen : 7 ≤ (encode fs).length) : Accepted fs ↔ muxResult b = 0 ∧ muxError b = 0 := by
  obtain ⟨rest, hrest⟩ := h.here
  have hread : ∀ i < 7, u8 (encode fs) i = u8 b (tlvOffset + i) := fun i hi => by
    rw [← u8_drop, hrest, u8_append_left (Nat.lt_of_lt_of_le hi hlen)]
  unfold Accepted muxResult muxError le16
  rw [hread 3 (by decide), hread 4 (by decide), hread 5 (by decide), hread 6 (by decide)]
  rfl

theorem WellFormed.length {fs : Fields} (h : WellFormed fs) : 7 ≤ (encode fs).length := by
  obtain ⟨v, hv, hlen⟩ := h.result
  have := length_le_encode_of_mem hv
  omega

/-- The flags after a response with the TLVs: those of the TLVs, or those of before if the codes
that are read are not zero. -/
theorem register_eq {s : State} {b : Bytes} {fs : Fields} {home : Reply} (h : Carries b fs)
    (hw : WellFormed fs) : register s b home
      = if Accepted fs then (sysInfo fs).flags else ⟨0, s.isCdma, s.type5g, s.hdrPersonality⟩ := by
  have hacc := Accepted.of_carries h hw.length
  unfold register requestRegistrationState2
  split_ifs with ha
  · obtain ⟨hr, he⟩ := hacc.1 ha
    have hok : qmiRspCheckAndReturn (answers b home 0) = .ok b := by
      simp [answers, qmiRspCheckAndReturn, qmiRspCheck, hr, he]
    have hloop : (sysInfoLoop b (muxLength b) (encode fs).length tlvOffset SysInfo.init).Always
        (· = sysInfo fs) :=
      sysInfoLoop_always h.here h.fits hw.sized (h.length ▸ length_le_encode fs)
    rw [← h.length] at hloop
    rw [feed_request_ok _ hok]
    refine Calls.Always.feed (P := fun r => flagsOf r = (sysInfo fs).flags)
      (Calls.always_bind.2 (hloop.mono fun a heq => ?_)) _
    rw [heq]
    rfl
  · have hbad : qmiRspCheckAndReturn (answers b home 0) = .error (muxError b) := by
      have : muxResult b ≠ 0 ∨ muxError b ≠ 0 := by
        by_contra hc
        rw [not_or, not_not, not_not] at hc
        exact ha (hacc.2 hc)
      simp [answers, qmiRspCheckAndReturn, qmiRspCheck, this]
    rw [feed_request_error _ hbad]
    rfl

/-- The flags are the same for any two orders of the TLVs that `P` admits. -/
def OrderFree (P : Fields → Prop) (fs : Fields) : Prop :=
  ∀ fs' fs'' b' b'' s home, fs'.Perm fs → fs''.Perm fs → P fs' → P fs'' → Carries b' fs' →
    Carries b'' fs'' → register s b' home = register s b'' home

/-- The result TLV comes first. -/
def ResultFirst (fs : Fields) : Prop := ∃ v rest, fs = (0x02, v) :: rest

def message (fs : Fields) : Bytes :=
  List.replicate 11 0 ++ (ofLe16 (encode fs).length ++ encode fs)

theorem carries_message {fs : Fields} (h : (encode fs).length < 2 ^ 16) :
    Carries (message fs) fs where
  here := ⟨[], by simp [message, tlvOffset, ofLe16]⟩
  length := toNat_ofLe16 h

theorem onField_result (a : SysInfo) (v : Bytes) : a.onField (0x02, v) = a := rfl

theorem onFields_erase (v : Bytes) : ∀ (fs : Fields) (a : SysInfo),
    a.onFields (fs.erase (0x02, v)) = a.onFields fs
  | [], _ => rfl
  | f :: fs, a => by
    by_cases hf : f = (0x02, v)
    · subst hf
      rw [List.erase_cons_head, onFields_cons, onField_result]
    · rw [List.erase_cons_tail (by simpa using hf), onFields_cons, onFields_cons,
        onFields_erase v fs]

/-- The same TLVs with the result in front. -/
theorem exists_resultFirst {fs : Fields} (hw : WellFormed fs) :
    ∃ fs', fs'.Perm fs ∧ ResultFirst fs' ∧ sysInfo fs' = sysInfo fs := by
  obtain ⟨v, hv, -⟩ := hw.result
  refine ⟨(0x02, v) :: fs.erase (0x02, v), (List.perm_cons_erase hv).symm, ⟨v, _, rfl⟩, ?_⟩
  unfold sysInfo
  rw [onFields_cons, onField_result, onFields_erase]

theorem ResultFirst.accepted {fs fs' : Fields} (hw : WellFormed fs) (hp : fs'.Perm fs)
    (h : ResultFirst fs') : Accepted fs' ↔ Succeeded fs := by
  obtain ⟨v, rest, rfl⟩ := h
  have hw' := hw.perm hp
  have honly : ∀ v', (0x02, v') ∈ fs → v' = v := fun v' hv' => by
    have := List.inj_on_of_nodup_map hw'.nodup (hp.mem_iff.2 hv') List.mem_cons_self rfl
    exact (Prod.mk.inj this).2
  obtain ⟨w, hw2, hlen⟩ := hw.result
  obtain rfl : w = v := honly w hw2
  have hread : ∀ i < 4, u8 (encode ((0x02, w) :: rest)) (3 + i) = u8 w i := fun i hi => by
    have := u8_append_left (b := encode rest) (Nat.lt_of_lt_of_le hi hlen)
    rw [← this, Nat.add_comm]
    rfl
  unfold Accepted le16
  rw [hread 0 (by decide), hread 1 (by decide), hread 2 (by decide), hread 3 (by decide)]
  refine ⟨fun h => ⟨w, hp.mem_iff.1 List.mem_cons_self, h⟩, fun ⟨v', hv', h⟩ => ?_⟩
  obtain rfl := honly v' hv'
  exact h

theorem orderFree_of_unambiguous {P : Fields → Prop} {fs : Fields} (hw : WellFormed fs)
    (hacc : ∀ fs', fs'.Perm fs → P fs' → (Accepted fs' ↔ Succeeded fs))
    (hu : Succeeded fs → Unambiguous fs) : OrderFree P fs := by
  intro fs' fs'' b' b'' s home hp' hp'' h' h'' hb' hb''
  rw [register_eq hb' (hw.perm hp'), register_eq hb'' (hw.perm hp'')]
  by_cases hs : Succeeded fs
  · rw [if_pos ((hacc fs' hp' h').2 hs), if_pos ((hacc fs'' hp'' h'').2 hs)]
    exact (flags_invariant_iff hw.nodup).2 (hu hs) fs' fs'' hp' hp''
  · rw [if_neg fun h => hs ((hacc fs' hp' h').1 h), if_neg fun h => hs ((hacc fs'' hp'' h'').1 h)]

section Necessary

variable {P : Fields → Prop} {fs : Fields} (hw : WellFormed fs) (h : OrderFree P fs)

include hw h

theorem register_message_eq {fs' fs'' : Fields} (s : State) (hp' : fs'.Perm fs)
    (hp'' : fs''.Perm fs) (h' : P fs') (h'' : P fs'') :
    register s (message fs') ⟨0, none⟩ = register s (message fs'') ⟨0, none⟩ :=
  h fs' fs'' _ _ s _ hp' hp'' h' h'' (carries_message (hw.perm hp').short)
    (carries_message (hw.perm hp'').short)

theorem unambiguous_of_orderFree (hP : ∀ fs', ResultFirst fs' → P fs') (hs : Succeeded fs) :
    Unambiguous fs := by
  refine (flags_invariant_iff hw.nodup).1 fun fs' fs'' hp' hp'' => ?_
  obtain ⟨l', hl', hfirst', heq'⟩ := exists_resultFirst (hw.perm hp')
  obtain ⟨l'', hl'', hfirst'', heq''⟩ := exists_resultFirst (hw.perm hp'')
  have hq' := hl'.trans hp'
  have hq'' := hl''.trans hp''
  have hreg := register_message_eq hw h blankState hq' hq'' (hP _ hfirst') (hP _ hfirst'')
  rw [register_eq (carries_message (hw.perm hq').short) (hw.perm hq'),
    register_eq (carries_message (hw.perm hq'').short) (hw.perm hq''),
    if_pos ((hfirst'.accepted hw hq').2 hs), if_pos ((hfirst''.accepted hw hq'').2 hs),
    heq', heq''] at hreg
  exact hreg

/-- A response that is taken for a success changes what an earlier one left. -/
theorem accepted_of_orderFree {fs' fs'' : Fields} (hp' : fs'.Perm fs) (hp'' : fs''.Perm fs)
    (h' : P fs') (h'' : P fs'') (ha : Accepted fs') : Accepted fs'' := by
  by_contra hna
  let earlier := if (sysInfo fs').type5g = 0 then WWAN_DATA_CLASS_5G_NSA else 0
  have hreg := register_message_eq hw h { blankState with type5g := earlier } hp' hp'' h' h''
  rw [register_eq (carries_message (hw.perm hp').short) (hw.perm hp'),
    register_eq (carries_message (hw.perm hp'').short) (hw.perm hp''), if_pos ha,
    if_neg hna] at hreg
  have htype : (sysInfo fs').type5g = earlier := congrArg Flags.type5g hreg
  simp only [earlier] at htype
  split_ifs at htype with hz
  · rw [hz] at htype
    simp [WWAN_DATA_CLASS_5G_NSA] at htype
  · exact hz htype

end Necessary

/-- Registration does not depend on the order of the TLVs just when the codes that are read are
those of the result TLV in every order and the TLVs of a success are unambiguous. With the result
TLV in front, the second is all that it takes. -/
theorem orderFree_iff {fs : Fields} (hw : WellFormed fs) :
    (OrderFree (fun _ => True) fs ↔ (∀ fs', fs'.Perm fs → (Accepted fs' ↔ Succeeded fs))
      ∧ (Succeeded fs → Unambiguous fs))
    ∧ (OrderFree ResultFirst fs ↔ (Succeeded fs → Unambiguous fs)) := by
  refine ⟨⟨fun h => ⟨fun fs' hp' => ?_, ?_⟩, fun ⟨hacc, hu⟩ => ?_⟩, ⟨?_, fun hu => ?_⟩⟩
  · obtain ⟨l, hl, hfirst, -⟩ := exists_resultFirst hw
    rw [← hfirst.accepted hw hl]
    exact ⟨accepted_of_orderFree hw h hp' hl trivial trivial,
      accepted_of_orderFree hw h hl hp' trivial trivial⟩
  · exact unambiguous_of_orderFree hw h fun _ _ => trivial
  · exact orderFree_of_unambiguous hw (fun fs' hp' _ => hacc fs' hp') hu
  · exact fun h => unambiguous_of_orderFree hw h fun _ hfirst => hfirst
  · exact orderFree_of_unambiguous hw (fun fs' hp' hfirst => hfirst.accepted hw hp') hu

/-- The result, a success, and the service status of LTE. -/
def lteTlvs : Fields := [(0x02, [0, 0, 0, 0]), (0x14, [2])]

theorem wellFormed_lte : WellFormed lteTlvs where
  nodup := by decide
  short := by decide
  result := ⟨_, List.mem_cons_self, by decide⟩
  sized := by decide

theorem unambiguous_lte : Unambiguous lteTlvs where
  ehrpd := by decide
  sa := by decide
  nsa := by decide

theorem orderFree_lte : OrderFree ResultFirst lteTlvs :=
  (orderFree_iff wellFormed_lte).2.2 fun _ => unambiguous_lte

/-- Both LTE and 5G standalone are served. -/
def bothTlvs : Fields := [(0x02, [0, 0, 0, 0]), (0x14, [2]), (0x4A, [2])]

def swappedTlvs : Fields := [(0x02, [0, 0, 0, 0]), (0x4A, [2]), (0x14, [2])]

/-- Where both radios are served, 5G standalone is lost if LTE stands behind it. -/
theorem lteBehind5g_lost : WellFormed bothTlvs ∧ ¬ OrderFree ResultFirst bothTlvs
    ∧ swappedTlvs.Perm bothTlvs
    ∧ register blankState (message bothTlvs) ⟨0, none⟩ = ⟨0, false, WWAN_DATA_CLASS_5G_SA, 0⟩
    ∧ register blankState (message swappedTlvs) ⟨0, none⟩ = ⟨0, false, 0, 0⟩ := by
  have hwf : WellFormed bothTlvs :=
    ⟨by decide, by decide, ⟨_, List.mem_cons_self, by decide⟩, by decide⟩
  have hperm : swappedTlvs.Perm bothTlvs := by decide
  have hsa : register blankState (message bothTlvs) ⟨0, none⟩
      = ⟨0, false, WWAN_DATA_CLASS_5G_SA, 0⟩ := by decide +kernel
  have hnone : register blankState (message swappedTlvs) ⟨0, none⟩ = ⟨0, false, 0, 0⟩ := by
    decide +kernel
  refine ⟨hwf, fun h => ?_, hperm, hsa, hnone⟩
  have heq := h bothTlvs swappedTlvs _ _ blankState ⟨0, none⟩ (.refl _) hperm ⟨_, _, rfl⟩
    ⟨_, _, rfl⟩ (carries_message hwf.short) (carries_message (hwf.perm hperm).short)
  rw [hsa, hnone] at heq
  simp [WWAN_DATA_CLASS_5G_SA] at heq

end QmiRequests

end BananaWrt
