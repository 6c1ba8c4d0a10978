import BananaWrt.Proofs.QmiMsg
import BananaWrt.QmiProfile
import Mathlib.Data.List.TakeWhile

/-!
# Writing the profile converges

Once the profile has been written, reading it again should show that nothing needs to be written.
A field that the user leaves out is compared as the empty string but is not written, and the
authentication is compared always but written only with a user name and a password. So the
profile converges exactly if what is not written is as wanted before (`converges_iff`).
-/

namespace BananaWrt

namespace QmiProfile

open Bytes Tlv Qmi QmiThread QmiRequests

/-- A stored string as it is read back. -/
def text (v : Bytes) : Bytes := (v.take (sizeofOld - 1)).takeWhile (· ≠ 0)

theorem uchar2char_eq {b v : Bytes} {i : ℕ} (hv : (b.drop i).take v.length = v) :
    uchar2char b i v.length = text v := by
  have hget : ∀ j, j < v.length → b[i + j]? = v[j]? := by
    intro j hj
    calc b[i + j]? = ((b.drop i).take v.length)[j]? := by
          rw [List.getElem?_take, if_pos hj, List.getElem?_drop]
      _ = v[j]? := by rw [hv]
  unfold uchar2char text
  congr 1
  refine List.ext_getElem (by simp) fun j h1 h2 => ?_
  have hj : j < v.length := by
    simp only [List.length_take] at h2
    omega
  rw [List.getElem_map, List.getElem_range, List.getElem_take, List.getD_eq_getElem?_getD,
    hget j hj, List.getElem?_eq_getElem hj]
  rfl

theorem text_eq_self {v : Bytes} (hlen : v.length < sizeofOld) (hnul : (0 : UInt8) ∉ v) :
    text v = v := by
  unfold text
  rw [List.take_of_length_le (by omega)]
  refine List.takeWhile_eq_self_iff.2 fun c hc => ?_
  simp only [decide_eq_true_eq]
  rintro rfl
  exact hnul hc

theorem text_eq_nil (v : Bytes) : text v = [] ↔ v.headD 0 = 0 := by
  cases v with
  | nil => simp [text]
  | cons c v =>
    have htake : (c :: v).take (sizeofOld - 1) = c :: v.take 62 := rfl
    rw [text, htake, List.takeWhile_cons]
    by_cases hc : c = 0 <;> simp [hc]

section Read

variable {b : Bytes} {fs : Fields}

theorem onTlv_cases (h : Carries b fs) (t : UInt8) (set : ℕ → Profile → Profile) (p : Profile) :
    (fs.lookup t = none ∧ onTlv b t.toNat set p = p)
      ∨ ∃ off v, fs.lookup t = some v ∧ onTlv b t.toNat set p = set off p
        ∧ readString b off = text v ∧ (v.length = 1 → u8 b (off + 3) = (v.headD 0).toNat) := by
  unfold onTlv
  rw [getTLV_eq h]
  cases hq : locate t fs with
  | none => exact .inl ⟨locate_eq_none.1 hq, rfl⟩
  | some q =>
    obtain ⟨v, hlook, hlen, hval⟩ := value_of_locate h.here hq h.fits
    refine .inr ⟨tlvOffset + q, v, hlook, rfl, ?_, fun hone => ?_⟩
    · unfold readString
      rw [hlen]
      exact uchar2char_eq hval
    · rw [← u8_drop b (tlvOffset + q + 3) 0]
      rw [hone] at hval
      rw [← hval]
      cases b.drop (tlvOffset + q + 3) <;> rfl

/-- A string field, where the profile has the empty string so far. -/
theorem onTlv_string (h : Carries b fs) {t : UInt8} {n : ℕ} (hn : t.toNat = n)
    (put : Bytes → Profile → Profile) {p : Profile} (hself : put [] p = p) :
    onTlv b n (fun o p => put (readString b o) p) p = put (text ((fs.lookup t).getD [])) p := by
  subst hn
  rcases onTlv_cases h t (fun o p => put (readString b o) p) p with
    ⟨hlook, heq⟩ | ⟨off, v, hlook, heq, htext, -⟩
  · rw [heq, hlook]
    exact hself.symm
  · rw [heq, hlook, htext]
    rfl

/-- A field of one byte, where the profile has zero so far. -/
theorem onTlv_byte (h : Carries b fs) {t : UInt8} {n : ℕ} (hn : t.toNat = n)
    (put : ℤ → Profile → Profile) {p : Profile} (hself : put 0 p = p) {c : Option UInt8}
    (hc : fs.lookup t = c.map ([·])) :
    onTlv b n (fun o p => put (u8 b (o + 3)) p) p = put (c.getD 0).toNat p := by
  subst hn
  rcases onTlv_cases h t (fun o p => put (u8 b (o + 3)) p) p with
    ⟨hlook, heq⟩ | ⟨off, v, hlook, heq, -, hbyte⟩
  · rw [heq]
    obtain rfl : c = none := by simpa using hc.symm.trans hlook
    exact hself.symm
  · obtain ⟨d, rfl, rfl⟩ := Option.map_eq_some_iff.1 (hc.symm.trans hlook)
    rw [heq, hbyte rfl]
    rfl

end Read

/-- The profile as `requestGetProfile` starts with it. -/
def fresh (p : Profile) : Profile :=
  { p with
    oldApn := [], oldUser := [], oldPassword := [], oldAuth := 0, oldIptype := 0
    iptype := familiesIptype p }

/-- The profile with what the modem has stored. -/
def withOld (st : Store) (p : Profile) : Profile :=
  { fresh p with
    oldApn := text (st.apn.getD [])
    oldUser := text (st.user.getD [])
    oldPassword := text (st.password.getD [])
    oldAuth := (st.auth.getD 0).toNat
    oldIptype := (st.pdpType.getD 0).toNat }

theorem readProfile_eq {st : Store} {b : Bytes} {fs : Fields} (h : Reports st b fs)
    (p : Profile) : readProfile b (fresh p) = withOld st p := by
  have hlook : ∀ t : UInt8, t ≠ 0x02 → (success :: fs).lookup t = fs.lookup t := by
    intro t ht
    rw [success, List.lookup_cons, beq_false_of_ne ht]
  have happly {q q' : Profile} {n : ℕ} {set : ℕ → Profile → Profile} (hq : q = q') :
      onTlv b n set q = onTlv b n set q' := by rw [hq]
  have h1 := onTlv_string h.carries (t := 0x14) (n := 0x14) rfl
    (fun v p => { p with oldApn := v }) (p := fresh p) rfl
  rw [hlook _ (by decide), h.apn] at h1
  have h2 := (happly h1).trans (onTlv_string h.carries (t := 0x1B) (n := 0x1B) rfl
    (fun v p => { p with oldUser := v }) rfl)
  rw [hlook _ (by decide), h.user] at h2
  have h3 := (happly h2).trans (onTlv_string h.carries (t := 0x1C) (n := 0x1C) rfl
    (fun v p => { p with oldPassword := v }) rfl)
  rw [hlook _ (by decide), h.password] at h3
  have h4 := (happly h3).trans (onTlv_byte h.carries (t := 0x1D) (n := 0x1D) rfl
    (fun v p => { p with oldAuth := v }) rfl ((hlook _ (by decide)).trans h.auth))
  exact (happly h4).trans (onTlv_byte h.carries (t := 0x11) (n := 0x11) rfl
    (fun v p => { p with oldIptype := v }) rfl ((hlook _ (by decide)).trans h.pdpType))

theorem Reports.result {st : Store} {b : Bytes} {fs : Fields} (h : Reports st b fs) :
    muxResult b = 0 ∧ muxError b = 0 := by
  have hval : (b.drop 16).take 4 = [0, 0, 0, 0] := h.carries.here.value
  have hzero : ∀ i, i < 4 → u8 b (16 + i) = 0 := by
    intro i hi
    have htake := u8_take (b.drop 16) 4 i
    rw [if_pos hi, u8_drop, hval] at htake
    rw [← htake]
    exact (by decide : ∀ i < 4, u8 [0, 0, 0, 0] i = 0) i hi
  have h0 := hzero 0 (by decide)
  have h1 := hzero 1 (by decide)
  have h2 := hzero 2 (by decide)
  have h3 := hzero 3 (by decide)
  simp only [Nat.add_zero, Nat.reduceAdd] at h0 h1 h2 h3
  unfold muxResult muxError le16
  rw [h0, h1, h2, h3]
  exact ⟨rfl, rfl⟩

theorem served_getProfileLoop {s : State} {fuel : ℕ} {st st' : Store} {x : Option (ℤ × State)}
    (h : Calls.Served Serves (getProfileLoop s (fuel + 1)) st x st') :
    ∃ b fs, Reports st b fs ∧ x = some (0, { s with profile := readProfile b s.profile })
      ∧ st' = st := by
  rw [getProfileLoop] at h
  rcases h with _ | ⟨hs, h⟩
  obtain ⟨⟨b, fs, rfl, hrep⟩, rfl⟩ := hs
  obtain ⟨hres, herr⟩ := hrep.result
  have hok : qmiRspCheckAndReturn ⟨0, some b⟩ = .ok b := by
    simp [qmiRspCheckAndReturn, qmiRspCheck, hres, herr]
  dsimp only at h
  rw [if_neg (by simp [hres]), hok] at h
  rcases h with _ | _
  exact ⟨b, fs, hrep, rfl, rfl⟩

theorem served_getProfile {s : State} {fuel : ℕ} {st st' : Store} {x : Option (ℤ × State)}
    (hpdp : s.profile.pdp ≠ 0)
    (h : Calls.Served Serves (requestGetProfile s (fuel + 1)) st x st') :
    x = some (0, { s with profile := withOld st s.profile }) ∧ st' = st := by
  have hloop : requestGetProfile s (fuel + 1)
      = getProfileLoop { s with profile := fresh s.profile } (fuel + 1) := if_neg hpdp
  rw [hloop] at h
  obtain ⟨b, fs, hrep, hx, hst⟩ := served_getProfileLoop h
  rw [readProfile_eq hrep] at hx
  exact ⟨hx, hst⟩

def optField (t : UInt8) : Option Bytes → Fields
  | some v => [(t, v)]
  | none => []

/-- The TLVs of a request to modify the profile. -/
def modifyFields (p : Profile) : Fields :=
  [(0x01, [0, UInt8.ofInt p.pdp]), (0x11, [UInt8.ofInt p.iptype])] ++ optField 0x14 p.apn
    ++ optField 0x1B p.user ++ optField 0x1C p.password
    ++ if p.user.isSome ∧ p.password.isSome then [(0x1D, [UInt8.ofInt p.auth])] else []

theorem optTlv_eq (t : UInt8) (v : Option Bytes) : optTlv t v = encode (optField t v) := by
  cases v with
  | none => rfl
  | some v => exact tlv_eq t v

theorem wdsModifyProfileSettingsReq_eq (p : Profile) :
    wdsModifyProfileSettingsReq p = encode (modifyFields p) := by
  have hauth : authTlv 0x1D p.user p.password p.auth
      = encode (if p.user.isSome ∧ p.password.isSome then [(0x1D, [UInt8.ofInt p.auth])]
        else []) := by
    unfold authTlv
    split_ifs
    · exact tlv_eq _ _
    · rfl
  have htwo : ∀ x y : UInt8 × Bytes, [x, y] = [x] ++ [y] := fun _ _ => rfl
  unfold wdsModifyProfileSettingsReq modifyFields
  rw [htwo, encode_append, encode_append, encode_append, encode_append, encode_append, hauth,
    optTlv_eq, optTlv_eq, optTlv_eq, tlv_eq, tlv_eq]

theorem fits_modifyFields {p : Profile} (h : Strings p) : Fits (modifyFields p) := by
  have hopt : ∀ (t : UInt8) (v : Option Bytes), v ∈ [p.apn, p.user, p.password] →
      ∀ f ∈ optField t v, f.2.length < 2 ^ 16 := by
    intro t v hv f hf
    cases v with
    | none => exact absurd hf List.not_mem_nil
    | some c =>
      have hlen := (h _ hv c rfl).1
      rw [List.mem_singleton.1 hf]
      unfold sizeofOld at hlen
      dsimp only
      omega
  intro f hf
  simp only [modifyFields, List.mem_append, List.mem_cons, List.not_mem_nil, or_false] at hf
  rcases hf with (((hf | hf) | hf) | hf) | hf
  · rcases hf with rfl | rfl <;> simp
  · exact hopt _ _ (by simp) f hf
  · exact hopt _ _ (by simp) f hf
  · exact hopt _ _ (by simp) f hf
  · split_ifs at hf
    · rw [List.mem_singleton.1 hf]
      simp
    · exact absurd hf List.not_mem_nil

/-- The modem's profile once it has been written. -/
theorem modify_modifyFields (st : Store) (p : Profile) :
    st.modify (modifyFields p) =
      { apn := p.apn.or st.apn
        user := p.user.or st.user
        password := p.password.or st.password
        auth := if p.user.isSome ∧ p.password.isSome then some (UInt8.ofInt p.auth) else st.auth
        pdpType := some (UInt8.ofInt p.iptype) } := by
  unfold Store.modify modifyFields
  cases p.apn <;> cases p.user <;> cases p.password <;> rfl

theorem served_setProfile {s : State} {st st' : Store} {x : ℤ × State}
    (hpdp : s.profile.pdp ≠ 0) (hstr : Strings s.profile)
    (h : Calls.Served Serves (requestSetProfile s) st x st') :
    x.2 = s ∧ if s.profile.IsSet then x.1 = 0 ∧ st' = st
      else st' = st.modify (modifyFields s.profile) := by
  unfold requestSetProfile at h
  rw [if_neg hpdp] at h
  by_cases hset : s.profile.IsSet
  · rw [if_pos hset] at h ⊢
    rcases h with _ | _
    exact ⟨rfl, rfl, rfl⟩
  · rw [if_neg hset] at h ⊢
    rcases h with _ | ⟨hs, h⟩
    have hst : _ = st.modify (decode (wdsModifyProfileSettingsReq s.profile)) := hs
    rw [wdsModifyProfileSettingsReq_eq, decode_encode (fits_modifyFields hstr)] at hst
    dsimp only at h
    split at h
    · rcases h with _ | _
      exact ⟨rfl, hst⟩
    · rcases h with _ | _
      exact ⟨rfl, hst⟩

/-- The old fields of `p'` are what `p` asks for. -/
structure HasOld (p' p : Profile) : Prop where
  apn : p'.oldApn = p.apn.getD []
  user : p'.oldUser = p.user.getD []
  password : p'.oldPassword = p.password.getD []
  auth : p'.oldAuth = p.auth
  iptype : p'.oldIptype = familiesIptype p

/-- What the request to modify the profile leaves out is as wanted before: a string that the user
leaves out is stored as the empty string, and so is the authentication unless it is written, with a
user name and a password and from one byte. -/
structure LeftAsWanted (p : Profile) (st : Store) : Prop where
  apn : p.apn = none → (st.apn.getD []).headD 0 = 0
  user : p.user = none → (st.user.getD []).headD 0 = 0
  password : p.password = none → (st.password.getD []).headD 0 = 0
  auth : if p.user.isSome ∧ p.password.isSome then 0 ≤ p.auth ∧ p.auth < 256
    else ((st.auth.getD 0).toNat : ℤ) = p.auth

theorem text_or {v w : Option Bytes} (h : ∀ c ∈ v, c.length < sizeofOld ∧ (0 : UInt8) ∉ c) :
    text ((v.or w).getD []) = v.getD [] ↔ (v = none → (w.getD []).headD 0 = 0) := by
  cases v with
  | some c =>
    refine iff_of_true ?_ fun hnone => absurd hnone (Option.some_ne_none c)
    exact text_eq_self (h c rfl).1 (h c rfl).2
  | none =>
    rw [Option.none_or]
    exact (text_eq_nil _).trans ⟨fun hw _ => hw, fun hw => hw rfl⟩

theorem toNat_ofInt (n : ℤ) : ((UInt8.ofInt n).toNat : ℤ) = n ↔ 0 ≤ n ∧ n < 256 := by
  have hval : ((UInt8.ofInt n).toNat : ℤ) = n % 256 := by
    unfold UInt8.ofInt
    rw [UInt8.toNat_ofNat']
    omega
  rw [hval]
  omega

theorem hasOld_withOld {p : Profile} {st : Store} (hstr : Strings p) :
    HasOld (withOld (st.modify (modifyFields (withOld st p))) p) p ↔ LeftAsWanted p st := by
  have h14 := text_or (w := st.apn) (hstr p.apn (by simp))
  have h1B := text_or (w := st.user) (hstr p.user (by simp))
  have h1C := text_or (w := st.password) (hstr p.password (by simp))
  have hiptype : ((UInt8.ofInt (familiesIptype p)).toNat : ℤ) = familiesIptype p := by
    rw [toNat_ofInt]
    unfold familiesIptype
    split_ifs <;> decide
  have hauth : (((if p.user.isSome ∧ p.password.isSome then some (UInt8.ofInt p.auth)
      else st.auth).getD 0).toNat : ℤ) = p.auth
      ↔ if p.user.isSome ∧ p.password.isSome then 0 ≤ p.auth ∧ p.auth < 256
        else ((st.auth.getD 0).toNat : ℤ) = p.auth := by
    split_ifs
    · exact toNat_ofInt p.auth
    · exact Iff.rfl
  rw [modify_modifyFields]
  constructor
  · rintro ⟨h1, h2, h3, h4, -⟩
    exact ⟨h14.1 h1, h1B.1 h2, h1C.1 h3, hauth.1 h4⟩
  · rintro ⟨h1, h2, h3, h4⟩
    exact ⟨h14.2 h1, h1B.2 h2, h1C.2 h3, hauth.2 h4, hiptype⟩

theorem isSet_withOld (st : Store) (p : Profile) :
    (withOld st p).IsSet ↔ HasOld (withOld st p) p := by
  constructor
  · rintro ⟨h1, h2, h3, h4, h5⟩
    exact ⟨h1, h2, h3, h5, h4⟩
  · rintro ⟨h1, h2, h3, h4, h5⟩
    exact ⟨h1, h2, h3, h5, h4⟩

theorem served_configure {s : State} {fuel : ℕ} {st st' : Store} {x : Option (ℤ × State)}
    (hpdp : s.profile.pdp ≠ 0) (hstr : Strings s.profile)
    (h : Calls.Served Serves (configure s (fuel + 1)) st x st') :
    ∃ ret, x = some (ret, { s with profile := withOld st s.profile })
      ∧ if (withOld st s.profile).IsSet then ret = 0 ∧ st' = st
        else st' = st.modify (modifyFields (withOld st s.profile)) := by
  obtain ⟨g, st₁, hget, hset⟩ := h.bind
  obtain ⟨rfl, rfl⟩ := served_getProfile hpdp hget
  obtain ⟨z, st₂, hset, hret⟩ := Calls.Served.bind hset
  rcases hret with _ | _
  obtain ⟨hz, hspec⟩ :=
    served_setProfile (s := { s with profile := withOld st₁ s.profile }) hpdp hstr hset
  exact ⟨z.1, by rw [← hz], hspec⟩

/-- The profile is read and written, and then read and written again. If the first write returned
1, the second finds nothing to write and the old fields are as wanted, exactly if the fields that
are not written were. -/
theorem converges_iff (s : State) (fuel : ℕ) (st st' : Store) (x : Option (ℤ × ℤ × State))
    (hfuel : 0 < fuel) (hpdp : s.profile.pdp ≠ 0) (hstr : Strings s.profile)
    (h : Calls.Served Serves (configureTwice s fuel) st x st') :
    ∃ first second s', x = some (first, second, s') ∧ (first = 1 →
      (second = 0 ∧ HasOld s'.profile s.profile ↔ LeftAsWanted s.profile st)) := by
  obtain ⟨fuel, rfl⟩ := Nat.exists_eq_add_one_of_ne_zero (Nat.pos_iff_ne_zero.1 hfuel)
  obtain ⟨y, st₁, hfirst, h⟩ := h.bind
  obtain ⟨first, rfl, hspec⟩ := served_configure hpdp hstr hfirst
  obtain ⟨z, st₂, hsecond, h⟩ := Calls.Served.bind h
  rcases h with _ | _
  obtain ⟨second, rfl, hspec'⟩ :=
    served_configure (s := { s with profile := withOld st s.profile }) hpdp hstr hsecond
  refine ⟨first, second, _, rfl, fun hone => ?_⟩
  have hnot : ¬ (withOld st s.profile).IsSet := by
    intro hset
    rw [if_pos hset] at hspec
    omega
  rw [if_neg hnot] at hspec
  subst hspec
  -- the fields that the second reading compares with are those of the first
  change second = 0 ∧ HasOld (withOld _ s.profile) s.profile ↔ _
  rw [← hasOld_withOld hstr]
  refine and_iff_right_of_imp fun hold => ?_
  exact ((if_pos ((isSet_withOld _ _).2 hold)).mp hspec').1

/-- A successful response with the given fields. -/
def settings (fs : Fields) : Bytes :=
  [1, UInt8.ofNat (12 + (encode (success :: fs)).length), 0, 0x80, 1, 2, 2, 1, 0, 0x2B, 0]
    ++ ofLe16 (encode (success :: fs)).length ++ encode (success :: fs)

/-- A profile with the strings, for IPv4 only. -/
def userState (apn user password : Option Bytes) (auth : ℤ) : State :=
  ⟨⟨apn, user, password, auth, 0, 1, true, false, 0, Ipv4.zero, Ipv6.zero, 0, 0, zero16, zero16, 0,
    0, [], [], [], 0, 0⟩, 0, 0, false, 0, 0, true⟩

/-- The profile is read as `b` reports it, and written with success if it is not as wanted. -/
theorem served_configure_of_reports {s : State} (fuel : ℕ) {st : Store} {b : Bytes} {fs : Fields}
    (hrep : Reports st b fs) (hpdp : s.profile.pdp ≠ 0) (hstr : Strings s.profile) :
    Calls.Served Serves (configure s (fuel + 1)) st
      (some (if (withOld st s.profile).IsSet then 0 else 1,
        { s with profile := withOld st s.profile }))
      (if (withOld st s.profile).IsSet then st
        else st.modify (modifyFields (withOld st s.profile))) := by
  have hget : Calls.Served Serves (requestGetProfile s (fuel + 1)) st
      (some (0, { s with profile := withOld st s.profile })) st := by
    obtain ⟨hres, herr⟩ := hrep.result
    have hok : qmiRspCheckAndReturn ⟨0, some b⟩ = .ok b := by
      simp [qmiRspCheckAndReturn, qmiRspCheck, hres, herr]
    have hloop : requestGetProfile s (fuel + 1)
        = getProfileLoop { s with profile := fresh s.profile } (fuel + 1) := if_neg hpdp
    rw [hloop, getProfileLoop]
    refine .call (r := ⟨0, some b⟩) ⟨⟨b, fs, rfl, hrep⟩, rfl⟩ ?_
    dsimp only
    rw [if_neg (by simp [hres]), hok]
    dsimp only
    rw [readProfile_eq hrep]
    exact .ret _ _
  refine hget.andThen ?_
  have hset : requestSetProfile { s with profile := withOld st s.profile }
      = if (withOld st s.profile).IsSet then .ret (0, { s with profile := withOld st s.profile })
        else request (.mux (UInt8.ofNat QMUX_TYPE_WDS) QMIWDS_MODIFY_PROFILE_SETTINGS_REQ
            (wdsModifyProfileSettingsReq (withOld st s.profile)))
          (fun e => (e, { s with profile := withOld st s.profile }))
          fun _ => .ret (1, { s with profile := withOld st s.profile }) := if_neg hpdp
  dsimp only
  rw [hset]
  split_ifs
  · exact .ret _ _
  · refine .call (r := ⟨0, some (settings [])⟩) ?_ (.ret _ _)
    change _ = st.modify (decode (wdsModifyProfileSettingsReq (withOld st s.profile)))
    rw [wdsModifyProfileSettingsReq_eq,
      decode_encode (fits_modifyFields (p := withOld st s.profile) hstr)]

/-- Both readings are answered, and what needs to be written is written with success. -/
theorem served_configureTwice (s : State) (st st₁ : Store) (fs fs' : Fields)
    (hpdp : s.profile.pdp ≠ 0) (hstr : Strings s.profile) (hrep : Reports st (settings fs) fs)
    (hst : st₁ = if (withOld st s.profile).IsSet then st
      else st.modify (modifyFields (withOld st s.profile)))
    (hrep' : Reports st₁ (settings fs') fs') :
    ∃ st', Calls.Served Serves (configureTwice s 1) st
      (some (if (withOld st s.profile).IsSet then 0 else 1,
        if (withOld st₁ s.profile).IsSet then 0 else 1,
        { s with profile := withOld st₁ s.profile })) st' := by
  have h := served_configure_of_reports 0 hrep hpdp hstr
  rw [← hst] at h
  have h' := served_configure_of_reports (s := { s with profile := withOld st s.profile }) 0 hrep'
    hpdp hstr
  exact ⟨_, h.andThen (h'.andThen (.ret _ _))⟩

/-- A new access point name is written, and the second reading finds it. -/
theorem converges_newApn : ∃ s' st', Calls.Served Serves
      (configureTwice (userState (some [0x61]) none none 0) 1)
      ⟨none, none, none, some 0, some 0⟩ (some (1, 0, s')) st'
    ∧ HasOld s'.profile (userState (some [0x61]) none none 0).profile := by
  obtain ⟨st', h⟩ := served_configureTwice (userState (some [0x61]) none none 0)
    ⟨none, none, none, some 0, some 0⟩ ⟨some [0x61], none, none, some 0, some 0⟩
    [(0x1D, [0]), (0x11, [0])] [(0x14, [0x61]), (0x1D, [0]), (0x11, [0])]
    (by decide) (by decide) ⟨⟨⟨[], rfl⟩, rfl⟩, rfl, rfl, rfl, rfl, rfl⟩ (by decide)
    ⟨⟨⟨[], rfl⟩, rfl⟩, rfl, rfl, rfl, rfl, rfl⟩
  rw [if_neg (by decide), if_pos (by decide)] at h
  obtain ⟨first, second, s', hx, hiff⟩ :=
    converges_iff _ 1 _ _ _ (by decide) (by decide) (by decide) h
  obtain ⟨rfl, rfl, rfl⟩ : 1 = first ∧ 0 = second ∧ _ = s' := by simpa using hx
  exact ⟨_, _, h, (hiff rfl).2 ⟨by decide, by decide, by decide, by decide⟩ |>.2⟩

/-- The modem has an access point name and the user leaves it out: it is never removed, and every
run writes the profile again. -/
theorem not_converges_oldApn : ∃ s' st', Calls.Served Serves
      (configureTwice (userState none (some [0x75]) (some [0x70]) 1) 1)
      ⟨some [0x61], none, none, some 0, some 0⟩ (some (1, 1, s')) st'
    ∧ ¬ HasOld s'.profile (userState none (some [0x75]) (some [0x70]) 1).profile := by
  obtain ⟨st', h⟩ := served_configureTwice (userState none (some [0x75]) (some [0x70]) 1)
    ⟨some [0x61], none, none, some 0, some 0⟩
    ⟨some [0x61], some [0x75], some [0x70], some 1, some 0⟩
    [(0x14, [0x61]), (0x1D, [0]), (0x11, [0])]
    [(0x14, [0x61]), (0x1B, [0x75]), (0x1C, [0x70]), (0x1D, [1]), (0x11, [0])]
    (by decide) (by decide) ⟨⟨⟨[], rfl⟩, rfl⟩, rfl, rfl, rfl, rfl, rfl⟩ (by decide)
    ⟨⟨⟨[], rfl⟩, rfl⟩, rfl, rfl, rfl, rfl, rfl⟩
  rw [if_neg (by decide), if_neg (by decide)] at h
  exact ⟨_, _, h, fun hold => absurd hold.apn (by decide)⟩

end QmiProfile

end BananaWrt
