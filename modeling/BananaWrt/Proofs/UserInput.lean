import BananaWrt.Proofs.QmiCompose
import BananaWrt.UserInput

/-!
# When a command line fits the compose buffer

Nothing checks the length of what the user gives. A block's last byte lies where the next block
starts, or is the NUL there (`within_setTLVs`), so a request stays in `QMIBuf` exactly if a sum of
lengths does. `-s` sets all three strings (`credentials_of_parse`); for them and the PIN the sums
are those of `Input.Short` (`inputInBounds_iff`).
-/

namespace BananaWrt

namespace QmiCompose

open Bytes Tlv Qmi QmiRequests Writes

/-- Every block set from `off` on ends within `N`, the NUL behind its value included. -/
def Reach (N : ℕ) : (off : ℕ) → List Item → Prop
  | _, [] => True
  | off, item :: items =>
    off + 3 + (item.field.2.length + item.nul.length) ≤ N
      ∧ Reach N (off + (item.field.2.length + 3)) items

theorem Reach.encode_le {N : ℕ} : ∀ {items : List Item} {off : ℕ}, off ≤ N → Reach N off items →
    off + (encode (fields items)).length ≤ N
  | [], _, hoff, _ => hoff
  | item :: items, off, _, h => by
    have hcons := length_encode_fields item items
    have := Reach.encode_le (by have := h.1; omega) h.2
    omega

theorem within_item {N off : ℕ} (item : Item) :
    Within N (item.writes off) ↔ off + 3 + (item.field.2.length + item.nul.length) ≤ N := by
  have hne : item.field.2 ++ item.nul ≠ [] := by
    cases item <;> simp [Item.field, Item.nul]
  have hpos := List.length_pos_iff.2 hne
  have hlen : ofLe16 item.field.2.length ≠ [] := List.cons_ne_nil _ _
  rw [item_writes, within_cons (List.cons_ne_nil _ _), within_cons hlen, within_cons hne]
  simp only [ofLe16, List.length_cons, List.length_nil, List.length_append, within_nil, and_true]
    at hpos ⊢
  omega

/-- While the blocks stay within `N`, `TLVLength` does not wrap; the first that does not stay is
set where it should be. -/
theorem within_setTLVs {N pTLV : ℕ} (hN : N < 2 ^ 16) : ∀ (items : List Item) {n : ℕ},
    pTLV + n ≤ N → (Within N (setTLVs pTLV n items).1 ↔ Reach N (pTLV + n) items)
  | [], _, _ => iff_of_true (within_nil N) trivial
  | item :: items, n, hn => by
    rw [setTLVs]
    dsimp only
    rw [within_append, within_item]
    refine and_congr_right fun hitem => ?_
    have hmod : (n + (item.tlvLength + 3)) % 2 ^ 16 = n + (item.field.2.length + 3) := by
      have := tlvLength_mod item
      omega
    rw [hmod, within_setTLVs hN items (by omega), Nat.add_assoc]

theorem inBounds_compose {QMIType : UInt8} {msgType tid : ℕ} {custom : Writes × ℕ} :
    (composeQMUXMsg QMIType msgType tid (some custom)).InBounds
      ↔ Within WDM_DEFAULT_BUFSIZE custom.1
        ∧ ((custom.2 + 2 ^ 16 - 4) % 2 ^ 16 + 4 + 3 + 6 - 1) % 2 ^ 16 + 1
          ≤ WDM_DEFAULT_BUFSIZE := by
  have hbuf : tlvOffset ≤ WDM_DEFAULT_BUFSIZE := by decide
  have hbefore : Within WDM_DEFAULT_BUFSIZE (before QMIType msgType tid) :=
    (within_of_le (before_le QMIType msgType tid)).mono hbuf
  have hafter : ∀ mux hdr, Within WDM_DEFAULT_BUFSIZE (after mux hdr) := fun mux hdr =>
    (within_of_le (after_le mux hdr)).mono hbuf
  refine and_congr_left' ?_
  show Within _ (before QMIType msgType tid ++ custom.1 ++ after _ _) ↔ _
  rw [within_append, within_append]
  exact ⟨fun h => h.1.2, fun h => ⟨⟨hbefore, h⟩, hafter _ _⟩⟩

/-- A request is composed in bounds exactly if its blocks stay within the buffer. -/
theorem Lays.inBounds {QMIType : UInt8} {msgType tid base : ℕ} {custom : Writes × ℕ}
    {hdw : Writes} {items : List Item} (h : Lays custom base hdw items) :
    (composeQMUXMsg QMIType msgType tid (some custom)).InBounds
      ↔ Reach WDM_DEFAULT_BUFSIZE base items := by
  have hbuf : WDM_DEFAULT_BUFSIZE = 256 := rfl
  have hoff : tlvOffset = 13 ∧ offReq = 9 := ⟨rfl, rfl⟩
  have hsnd := setTLVs_snd base items (Nat.two_pow_pos 16)
  have hbase := h.le_base
  have hle := h.base_le
  have hret := h.ret
  have hreach := within_setTLVs (N := WDM_DEFAULT_BUFSIZE) (by omega) items (n := 0) hle
  rw [Nat.add_zero] at hreach
  rw [inBounds_compose, h.writes, within_append, hreach]
  refine ⟨fun hin => hin.1.2, fun hblocks =>
    ⟨⟨(within_of_le h.hdw_le).mono hle, hblocks⟩, ?_⟩⟩
  have hend := hblocks.encode_le hle
  omega

/-- If the last block sets a byte, no NUL lies behind the TLVs. -/
theorem reach_append_byte {N : ℕ} (t v : UInt8) : ∀ (items : List Item) (off : ℕ),
    Reach N off (items ++ [.byte t v])
      ↔ off + (encode (fields (items ++ [.byte t v]))).length ≤ N
  | [], off => by
    have hlen : (encode (fields ([] ++ [Item.byte t v]))).length = 4 := rfl
    have hreach : Reach N off ([] ++ [.byte t v]) ↔ off + 3 < N ∧ True := Iff.rfl
    rw [hlen, hreach, and_true]
    exact Nat.lt_iff_add_one_le
  | item :: items, off => by
    have hcons := length_encode_fields item (items ++ [.byte t v])
    have hpos : 0 < (encode (fields (items ++ [.byte t v]))).length := by
      rw [fields_append, encode_append, List.length_append]
      exact Nat.add_pos_right _ (Nat.succ_pos _)
    have hnul : item.nul.length ≤ 1 := by cases item <;> simp [Item.nul]
    rw [List.cons_append, Reach, reach_append_byte t v items]
    omega

theorem inBounds_startNw (s : State) (f : IpFamily) (tid : ℕ) :
    (composeStartNw s f tid).InBounds
      ↔ tlvOffset + (QmiRequests.wdsStartNwInterfaceReq s).length ≤ WDM_DEFAULT_BUFSIZE := by
  unfold composeStartNw
  rw [(lays_startNw s).inBounds, ← encode_startNw]
  unfold startNwItems
  split_ifs with hcdma hpdp
  all_goals first
    | rw [List.append_nil, reach_append_byte]
    | rw [reach_append_byte]

theorem inBounds_modify {p : Profile} {user password : Bytes} (huser : p.user = some user)
    (hpassword : p.password = some password) (tid : ℕ) :
    (composeModify p tid).InBounds
      ↔ tlvOffset + (QmiRequests.wdsModifyProfileSettingsReq p).length ≤ WDM_DEFAULT_BUFSIZE := by
  have hlen : (encode (modifyFields p)).length
      = 2 + 3 + (encode (fields (modifyItems p))).length := length_encode_cons _ _ _
  have hoff : tlvOffset + 5 = offReq + 9 := rfl
  have hauth : authItem 0x1D p.user p.password p.auth = [.byte 0x1D (UInt8.ofInt p.auth)] := by
    rw [huser, hpassword]
    rfl
  unfold composeModify
  rw [(lays_modify p).inBounds, ← encode_modify, hlen]
  unfold modifyItems
  rw [hauth, reach_append_byte]
  omega

theorem inBounds_verifyPin (pin : Bytes) (tid : ℕ) :
    (composeVerifyPin pin tid).InBounds ↔ 24 + pin.length ≤ WDM_DEFAULT_BUFSIZE := by
  have hbuf : WDM_DEFAULT_BUFSIZE = 256 := rfl
  have hpin : Within WDM_DEFAULT_BUFSIZE (uimVerifyPinReqSend pin).1
      ↔ 24 + pin.length ≤ WDM_DEFAULT_BUFSIZE := by
    unfold uimVerifyPinReqSend
    dsimp only
    rw [within_append]
    refine ⟨fun h => ?_, fun h => ⟨?_, ?_⟩⟩
    · have := ((within_cons (by simp)).1 h.2).1
      simp only [offReq, offMUXMsg, sizeofHdr, List.length_append, List.length_singleton] at this
      omega
    · refine (within_of_le (n := 23) ?_).mono (by omega)
      simp [ofLe16, offReq, offMUXMsg, sizeofHdr]
    · refine (within_cons (by simp)).2 ⟨?_, within_nil _⟩
      simp only [offReq, offMUXMsg, sizeofHdr, List.length_append, List.length_singleton]
      omega
  have hret : (uimVerifyPinReqSend pin).2 = (15 + pin.length - 1) % 2 ^ 16 := rfl
  unfold composeVerifyPin
  rw [inBounds_compose, hpin, hret]
  omega

end QmiCompose

namespace UserInput

open Bytes Qmi QmiRequests QmiCompose

/-- All three strings are set. -/
def Input.Given (p : Input) : Prop :=
  ∃ apn user password, p.apn = some apn ∧ p.user = some user ∧ p.password = some password

/-- `-s` sets all three strings, and nothing else sets one. -/
def Input.Credentials (p : Input) : Prop :=
  (p.apn = none ∧ p.user = none ∧ p.password = none) ∨ p.Given

/-- What is left of an option's body has the strings set all or none. -/
def Keeps (o : Option (Input × List Bytes)) : Prop := ∀ r, o = some r → r.1.Credentials

theorem keeps_none : Keeps none := fun _ h => by simp at h

theorem keeps_some {r : Input × List Bytes} (h : r.1.Credentials) : Keeps (some r) := by
  rintro _ ⟨⟩
  exact h

theorem keeps_ite {c : Prop} [Decidable c] {o o' : Option (Input × List Bytes)} (h : Keeps o)
    (h' : Keeps o') : Keeps (if c then o else o') := by
  split_ifs
  · exact h
  · exact h'

theorem withArg_of {P : Input → Prop} (set : Bytes → Input → Input) {r : Input × List Bytes}
    (hset : ∀ arg, P (set arg r.1)) (hr : P r.1) : P (withArg set r).1 := by
  unfold withArg
  rcases takeArg r.2 with _ | ⟨arg, args⟩
  · exact hr
  · exact hset arg

theorem keeps_optionS (r : Input × List Bytes) : Keeps (optionS r) := by
  have hgiven : Input.Given { r.1 with apn := some [], user := some [], password := some [] } :=
    ⟨[], [], [], rfl, rfl, rfl⟩
  have hapn := withArg_of (fun arg p => { p with apn := some arg }) (r := (_, r.2))
    (P := Input.Given) (fun arg => ⟨arg, [], [], rfl, rfl, rfl⟩) hgiven
  have huser := withArg_of (fun arg p => { p with user := some arg }) (P := Input.Given)
    (r := withArg _ (_, r.2)) (fun arg => by
      obtain ⟨apn, _, password, ha, _, hp⟩ := hapn
      exact ⟨apn, arg, password, ha, rfl, hp⟩) hapn
  have hpassword := withArg_of
    (fun arg p => { p with password := some arg, auth := if arg = [] then p.auth else 2 })
    (P := Input.Given) (r := withArg _ (withArg _ (_, r.2))) (fun arg => by
      obtain ⟨apn, user, _, ha, hu, _⟩ := huser
      exact ⟨apn, user, arg, ha, hu, rfl⟩) huser
  unfold optionS
  dsimp only
  rcases takeArg _ with _ | ⟨auth, args⟩
  · exact keeps_some (.inr hpassword)
  · rcases hauth : parseAuth auth with _ | auth
    · simp only [hauth, Option.map_none]
      exact keeps_none
    · simp only [hauth, Option.map_some]
      exact keeps_some (.inr hpassword)

theorem keeps_optionP {r : Input × List Bytes} (hr : r.1.Credentials) : Keeps (optionP r) := by
  unfold optionP
  rcases takeArg r.2 with _ | ⟨arg, args⟩
  · exact keeps_some hr
  · exact keeps_ite (keeps_some hr) (keeps_ite (keeps_some hr) keeps_none)

theorem keeps_option {letter : UInt8} {r : Input × List Bytes} (hr : r.1.Credentials) :
    Keeps (option letter r) := by
  have harg : ∀ {set : Bytes → Input → Input}, (∀ arg, (set arg r.1).Credentials) →
      Keeps (some (withArg set r)) := fun hset => keeps_some (withArg_of _ hset hr)
  unfold option
  refine keeps_ite (keeps_optionS r) (keeps_ite (keeps_optionP hr) ?_)
  refine keeps_ite (harg fun _ => hr) (keeps_ite (harg fun _ => hr) ?_)
  refine keeps_ite (harg fun _ => hr) (keeps_ite (harg fun _ => hr) ?_)
  refine keeps_ite (keeps_some hr) (keeps_ite (harg fun _ => hr) ?_)
  refine keeps_ite (keeps_some hr) (keeps_ite (keeps_some hr) ?_)
  exact keeps_ite (harg fun _ => hr) (keeps_ite (keeps_some hr) (keeps_ite (harg fun _ => hr) keeps_none))

theorem credentials_of_parseLoop : ∀ (fuel : ℕ) {r : Input × List Bytes} {p : Input},
    r.1.Credentials → parseLoop fuel r = some p → p.Credentials
  | fuel, (q, []), p, hq, h => by
    have hp : parseLoop fuel (q, []) = some q := by cases fuel <;> rfl
    rw [hp] at h
    rcases h with ⟨⟩
    exact hq
  | 0, (_, _ :: _), _, _, h => by simp [parseLoop] at h
  | fuel + 1, (q, arg :: args), p, hq, h => by
    rw [parseLoop] at h
    split_ifs at h
    obtain ⟨r', hr', h⟩ := Option.bind_eq_some_iff.1 h
    exact credentials_of_parseLoop fuel (keeps_option (r := (q, args)) hq r' hr') h

theorem credentials_of_parse {argv : List Bytes} {p : Input} (h : parseUserInput argv = some p) :
    p.Credentials := by
  unfold parseUserInput at h
  obtain ⟨q, hq, rfl⟩ := Option.map_eq_some_iff.1 h
  have := credentials_of_parseLoop _ (.inl ⟨rfl, rfl, rfl⟩) hq
  split_ifs
  · exact this
  · exact this

/-- The strings of the command line are short enough for every request that has them. -/
def Input.Short (p : Input) : Prop :=
  p.killPdp = 0 →
    34 + (p.apn.getD []).length + (p.user.getD []).length + (p.password.getD []).length
        + (if p.pdp = 0 then 0 else 4) ≤ WDM_DEFAULT_BUFSIZE
      ∧ ∀ pin ∈ p.pincode, 24 + pin.length ≤ WDM_DEFAULT_BUFSIZE

instance (p : Input) : Decidable p.Short := inferInstanceAs (Decidable (_ → _))

theorem length_tlv (t : UInt8) (v : Bytes) : (tlv t v).length = v.length + 3 := by
  simp only [tlv, ofLe16, List.length_append, List.length_cons, List.length_nil]
  omega

theorem length_startNw {s : State} {apn user password : Bytes} (hapn : s.profile.apn = some apn)
    (huser : s.profile.user = some user) (hpassword : s.profile.password = some password)
    (hcdma : s.isCdma = false) :
    tlvOffset + (QmiRequests.wdsStartNwInterfaceReq s).length
      = 34 + apn.length + user.length + password.length
        + (if s.profile.pdp = 0 then 0 else 4) := by
  have hoff : tlvOffset = 13 := rfl
  have hcred : credentials s = (some user, some password, s.profile.auth) := by
    simp [credentials, hcdma, huser, hpassword]
  unfold QmiRequests.wdsStartNwInterfaceReq
  by_cases hpdp : s.profile.pdp = 0 <;>
    simp [hcred, hapn, hcdma, hpdp, optTlv, authTlv, length_tlv] <;> omega

/-- Without strings there are at most those of the CDMA network. -/
theorem length_startNw_none {s : State} (hapn : s.profile.apn = none)
    (huser : s.profile.user = none) (hpassword : s.profile.password = none) :
    tlvOffset + (QmiRequests.wdsStartNwInterfaceReq s).length ≤ WDM_DEFAULT_BUFSIZE := by
  have hctnet : (ascii "ctnet@mycdma.cn").length = 15 ∧ (ascii "vnet.mobi").length = 9 := by
    decide +kernel
  have hbuf : tlvOffset = 13 ∧ WDM_DEFAULT_BUFSIZE = 256 := ⟨rfl, rfl⟩
  unfold QmiRequests.wdsStartNwInterfaceReq
  by_cases hcdma : s.isCdma = true <;> by_cases hpdp : s.profile.pdp = 0 <;>
    simp [credentials, IsBlank, hapn, huser, hpassword, hcdma, hpdp, optTlv, authTlv, length_tlv,
      hctnet, hbuf]

theorem length_startNw_cdma {s : State} {user password : Bytes}
    (huser : s.profile.user = some user) (hpassword : s.profile.password = some password)
    (hcdma : s.isCdma = true) :
    tlvOffset + (QmiRequests.wdsStartNwInterfaceReq s).length
      ≤ max 55 (31 + user.length + password.length) := by
  have hctnet : (ascii "ctnet@mycdma.cn").length = 15 ∧ (ascii "vnet.mobi").length = 9 := by
    decide +kernel
  have hoff : tlvOffset = 13 := rfl
  unfold QmiRequests.wdsStartNwInterfaceReq
  by_cases hblank : IsBlank s.profile.user ∧ IsBlank s.profile.password
  · have hcred : credentials s = (some (ascii "ctnet@mycdma.cn"), some (ascii "vnet.mobi"), 2) :=
      if_pos ⟨hcdma, hblank⟩
    refine Nat.le_trans (Nat.le_of_eq ?_) (Nat.le_max_left 55 _)
    simp [hcdma, hcred, optTlv, authTlv, length_tlv, hctnet, hoff]
  · have hcred : credentials s = (some user, some password, s.profile.auth) := by
      unfold credentials
      rw [if_neg fun h => hblank h.2, huser, hpassword]
    simp [hcdma, hcred, optTlv, authTlv, length_tlv, hoff]
    omega

theorem length_modify {p : Profile} {apn user password : Bytes} (hapn : p.apn = some apn)
    (huser : p.user = some user) (hpassword : p.password = some password) :
    tlvOffset + (QmiRequests.wdsModifyProfileSettingsReq p).length
      = 35 + apn.length + user.length + password.length := by
  have hoff : tlvOffset = 13 := rfl
  unfold QmiRequests.wdsModifyProfileSettingsReq
  simp [hapn, huser, hpassword, optTlv, authTlv, length_tlv]
  omega

/-- A device that has what the user set. -/
def Input.state (p : Input) : State :=
  { sampleState with
    profile := { sampleProfile with
      apn := p.apn, user := p.user, password := p.password, pdp := p.pdp } }

theorem sets_state (p : Input) : p.Sets p.state := ⟨rfl, rfl, rfl, rfl⟩

theorem mem_requests {p : Input} {s : State} {f : IpFamily} {tid : ℕ} {c : Composed} :
    c ∈ requests p s f tid ↔ p.killPdp = 0 ∧
      ((s.is9x07 = true ∧ ∃ pin ∈ p.pincode, composeVerifyPin pin tid = c)
        ∨ ((p.apn.isSome ∨ p.user.isSome ∨ p.password.isSome) ∧ p.pdp ≠ 0)
          ∧ c = composeModify s.profile tid
        ∨ c = composeStartNw s f tid) := by
  unfold requests
  by_cases hkill : p.killPdp = 0
  · rw [if_neg (not_not.2 hkill), List.mem_append, List.mem_append, List.mem_singleton, or_assoc]
    refine Iff.trans (or_congr ?_ (or_congr ?_ Iff.rfl)) (and_iff_right hkill).symm
    · split_ifs with h9x07 <;> simp [h9x07]
    · split_ifs with hset <;> simp [hset]
  · simp [hkill]

theorem inBounds_of_short {p : Input} (hcred : p.Credentials) (hshort : p.Short) {s : State}
    (hs : p.Sets s) {f : IpFamily} {tid : ℕ} {c : Composed} (hc : c ∈ requests p s f tid) :
    c.InBounds := by
  have hbuf : WDM_DEFAULT_BUFSIZE = 256 := rfl
  obtain ⟨hkill, hc⟩ := mem_requests.1 hc
  obtain ⟨hlen, hpins⟩ := hshort hkill
  obtain ⟨hapn, huser, hpassword, hpdp⟩ := hs
  rcases hc with ⟨_, pin, hpin, rfl⟩ | ⟨⟨hset, hne⟩, rfl⟩ | rfl
  · exact (inBounds_verifyPin pin tid).2 (hpins pin hpin)
  · rcases hcred with ⟨ha, hu, hw⟩ | ⟨apn, user, password, ha, hu, hw⟩
    · simp [ha, hu, hw] at hset
    · rw [ha] at hapn
      rw [hu] at huser
      rw [hw] at hpassword
      rw [inBounds_modify huser hpassword, length_modify hapn huser hpassword]
      simp only [ha, hu, hw, Option.getD_some, hne, ↓reduceIte] at hlen
      omega
  · rw [inBounds_startNw]
    rcases hcred with ⟨ha, hu, hw⟩ | ⟨apn, user, password, ha, hu, hw⟩
    · exact length_startNw_none (hapn.trans ha) (huser.trans hu) (hpassword.trans hw)
    · rw [ha] at hapn
      rw [hu] at huser
      rw [hw] at hpassword
      simp only [ha, hu, hw, Option.getD_some] at hlen
      by_cases hcdma : s.isCdma = true
      · have := length_startNw_cdma huser hpassword hcdma
        omega
      · rw [length_startNw hapn huser hpassword (by simpa using hcdma), hpdp]
        exact hlen

theorem short_of_inBounds {p : Input} (hcred : p.Credentials)
    (h : ∀ c ∈ requests p p.state .v4 0, c.InBounds) : p.Short := by
  intro hkill
  have hstart := h _ (mem_requests.2 ⟨hkill, .inr (.inr rfl)⟩)
  refine ⟨?_, fun pin hpin => ?_⟩
  · rw [inBounds_startNw] at hstart
    rcases hcred with ⟨ha, hu, hw⟩ | ⟨apn, user, password, ha, hu, hw⟩
    · rw [ha, hu, hw]
      split_ifs <;> decide
    · rw [length_startNw (s := p.state) ha hu hw rfl] at hstart
      rw [ha, hu, hw]
      exact hstart
  · exact (inBounds_verifyPin pin 0).1
      (h _ (mem_requests.2 ⟨hkill, .inl ⟨rfl, pin, hpin, rfl⟩⟩))

/-- `quectel-CM -s 3gnet carl 1234 1 -p 1234` -/
def sampleArgv : List Bytes :=
  [ascii "quectel-CM", ascii "-s", ascii "3gnet", ascii "carl", ascii "1234", ascii "1",
    ascii "-p", ascii "1234"]

def sampleInput : Input :=
  { Input.init with
    apn := some (ascii "3gnet"), user := some (ascii "carl"), password := some (ascii "1234")
    auth := 1, pincode := some (ascii "1234"), enableIpv4 := true }

/-- `quectel-CM -s` with an APN of 250 characters. -/
def longArgv : List Bytes := [ascii "quectel-CM", ascii "-s", List.replicate 250 (ch 'a')]

def longInput : Input :=
  { Input.init with
    apn := some (List.replicate 250 (ch 'a')), user := some [], password := some []
    enableIpv4 := true }

end UserInput

end BananaWrt
