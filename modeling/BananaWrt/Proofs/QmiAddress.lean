import BananaWrt.QmiRequests

/-!
# What asking for one family's address does to both records

`requestGetIPAddress` zeroes the record of its family first and then copies what the response
offers, whichever family it belongs to. `perFamily_iff` says when the other family's record stays
as it was and a failure leaves both.
-/

namespace BananaWrt

namespace QmiRequests

open Bytes Qmi

/-- What the TLV holds, or `d` if there is none. -/
def offered {α : Type} (b : Bytes) (type : ℕ) (v : ℕ → α) (d : α) : α := (getTLV b type).elim d v

theorem offered_eq_iff {α : Type} {b : Bytes} {type : ℕ} {v : ℕ → α} {d : α} :
    offered b type v d = d ↔ ∀ off ∈ getTLV b type, v off = d := by
  unfold offered
  cases getTLV b type <;> simp

theorem offered_pair {α β : Type} (b : Bytes) (type : ℕ) (v : ℕ → α) (w : ℕ → β) (d : α) (e : β) :
    offered b type (fun o => (v o, w o)) (d, e) = (offered b type v d, offered b type w e) := by
  unfold offered
  cases getTLV b type <;> rfl

theorem onTlv_elim (b : Bytes) (type : ℕ) (set : ℕ → Profile → Profile) (p : Profile) :
    onTlv b type set p = (getTLV b type).elim p (set · p) := by
  rw [onTlv]
  cases getTLV b type <;> rfl

theorem onTlv_eq {α : Type} {b : Bytes} {type : ℕ} {set : ℕ → Profile → Profile}
    (put : Profile → α → Profile) (get : Profile → α) (v : ℕ → α)
    (hset : ∀ off p, set off p = put p (v off)) (hput : ∀ p, put p (get p) = p) (p : Profile) :
    onTlv b type set p = put p (offered b type v (get p)) := by
  rw [onTlv_elim]
  unfold offered
  cases getTLV b type with
  | none => exact (hput p).symm
  | some off => exact hset off p

def readIpv4 (b : Bytes) (f : IpFamily) (r : Ipv4) : Ipv4 where
  address := offered b 0x1E (fun o => le32 b (o + 3)) r.address
  gateway := offered b 0x20 (fun o => le32 b (o + 3)) r.gateway
  subnetMask := offered b 0x21 (fun o => le32 b (o + 3)) r.subnetMask
  dnsPrimary := offered b 0x15 (fun o => le32 b (o + 3)) r.dnsPrimary
  dnsSecondary := offered b 0x16 (fun o => le32 b (o + 3)) r.dnsSecondary
  mtu := match f with
    | .v4 => offered b 0x29 (fun o => le32 b (o + 3)) r.mtu
    | .v6 => r.mtu

def readIpv6 (b : Bytes) (f : IpFamily) (r : Ipv6) : Ipv6 where
  address := offered b 0x25 (fun o => bytes16 b (o + 3)) r.address
  gateway := offered b 0x26 (fun o => bytes16 b (o + 3)) r.gateway
  subnetMask := r.subnetMask
  dnsPrimary := offered b 0x27 (fun o => bytes16 b (o + 3)) r.dnsPrimary
  dnsSecondary := offered b 0x28 (fun o => bytes16 b (o + 3)) r.dnsSecondary
  prefixLengthIPAddr := offered b 0x25 (fun o => u8 b (o + 19)) r.prefixLengthIPAddr
  prefixLengthGateway := offered b 0x26 (fun o => u8 b (o + 19)) r.prefixLengthGateway
  mtu := match f with
    | .v4 => r.mtu
    | .v6 => offered b 0x29 (fun o => le32 b (o + 3)) r.mtu

theorem records_pcscf (b : Bytes) (p : Profile) :
    (onTlv b 0x23 (setPcscfIpv4 b) (onTlv b 0x2E (setPcscfIpv6 b) p)).ipv4 = p.ipv4
      ∧ (onTlv b 0x23 (setPcscfIpv4 b) (onTlv b 0x2E (setPcscfIpv6 b) p)).ipv6 = p.ipv6 := by
  have h4 : ∀ o q, (setPcscfIpv4 b o q).ipv4 = q.ipv4 ∧ (setPcscfIpv4 b o q).ipv6 = q.ipv6 :=
    fun o q => by
      unfold setPcscfIpv4
      split_ifs <;> exact ⟨rfl, rfl⟩
  have h6 : ∀ o q, (setPcscfIpv6 b o q).ipv4 = q.ipv4 ∧ (setPcscfIpv6 b o q).ipv6 = q.ipv6 :=
    fun o q => by
      unfold setPcscfIpv6
      split_ifs <;> exact ⟨rfl, rfl⟩
  rw [onTlv_elim, onTlv_elim]
  cases getTLV b 0x23 <;> cases getTLV b 0x2E <;> simp [h4, h6]

/-- The records that `readAddress` leaves. -/
theorem records_readAddress (b : Bytes) (f : IpFamily) (p : Profile) :
    (readAddress b f p).ipv4 = readIpv4 b f p.ipv4
      ∧ (readAddress b f p).ipv6 = readIpv6 b f p.ipv6 := by
  obtain ⟨h4, h6⟩ := records_pcscf b p
  rw [readAddress]
  generalize onTlv b 0x23 (setPcscfIpv4 b) (onTlv b 0x2E (setPcscfIpv6 b) p) = q at h4 h6 ⊢
  rw [onTlv_eq (fun p x => { p with ipv4 := { p.ipv4 with dnsPrimary := x } })
      (fun p => p.ipv4.dnsPrimary) _ (fun _ _ => rfl) fun _ => rfl,
    onTlv_eq (fun p x => { p with ipv4 := { p.ipv4 with dnsSecondary := x } })
      (fun p => p.ipv4.dnsSecondary) _ (fun _ _ => rfl) fun _ => rfl,
    onTlv_eq (fun p x => { p with ipv4 := { p.ipv4 with gateway := x } })
      (fun p => p.ipv4.gateway) _ (fun _ _ => rfl) fun _ => rfl,
    onTlv_eq (fun p x => { p with ipv4 := { p.ipv4 with subnetMask := x } })
      (fun p => p.ipv4.subnetMask) _ (fun _ _ => rfl) fun _ => rfl,
    onTlv_eq (fun p x => { p with ipv4 := { p.ipv4 with address := x } })
      (fun p => p.ipv4.address) _ (fun _ _ => rfl) fun _ => rfl,
    onTlv_eq (fun p x => { p with ipv6 := { p.ipv6 with dnsPrimary := x } })
      (fun p => p.ipv6.dnsPrimary) _ (fun _ _ => rfl) fun _ => rfl,
    onTlv_eq (fun p x => { p with ipv6 := { p.ipv6 with dnsSecondary := x } })
      (fun p => p.ipv6.dnsSecondary) _ (fun _ _ => rfl) fun _ => rfl,
    onTlv_eq (fun p x => { p with ipv6 := { p.ipv6 with
        gateway := x.1, prefixLengthGateway := x.2 } })
      (fun p => (p.ipv6.gateway, p.ipv6.prefixLengthGateway))
      (fun o => (bytes16 b (o + 3), u8 b (o + 19))) (fun _ _ => rfl) fun _ => rfl,
    onTlv_eq (fun p x => { p with ipv6 := { p.ipv6 with
        address := x.1, prefixLengthIPAddr := x.2 } })
      (fun p => (p.ipv6.address, p.ipv6.prefixLengthIPAddr))
      (fun o => (bytes16 b (o + 3), u8 b (o + 19))) (fun _ _ => rfl) fun _ => rfl]
  simp only [offered_pair]
  cases f with
  | v4 =>
    rw [onTlv_eq (fun p x => { p with ipv4 := { p.ipv4 with mtu := x } }) (fun p => p.ipv4.mtu) _
      (fun _ _ => rfl) fun _ => rfl, ← h4, ← h6]
    exact ⟨rfl, rfl⟩
  | v6 =>
    rw [onTlv_eq (fun p x => { p with ipv6 := { p.ipv6 with mtu := x } }) (fun p => p.ipv6.mtu) _
      (fun _ _ => rfl) fun _ => rfl, ← h4, ← h6]
    exact ⟨rfl, rfl⟩

def IpFamily.other : IpFamily → IpFamily
  | .v4 => .v6
  | .v6 => .v4

/-- The family's address record is the same in both profiles. -/
def SameRecord (f : IpFamily) (p p' : Profile) : Prop :=
  match f with
  | .v4 => p'.ipv4 = p.ipv4
  | .v6 => p'.ipv6 = p.ipv6

/-- The family's address record is empty. -/
def NoRecord (f : IpFamily) (p : Profile) : Prop :=
  match f with
  | .v4 => p.ipv4 = Ipv4.zero
  | .v6 => p.ipv6 = Ipv6.zero

/-- Whatever the response holds for the family, the MTU aside, is in the record already. -/
def OffersNothing (b : Bytes) (f : IpFamily) (p : Profile) : Prop :=
  match f with
  | .v4 => (∀ o ∈ getTLV b 0x1E, le32 b (o + 3) = p.ipv4.address)
      ∧ (∀ o ∈ getTLV b 0x20, le32 b (o + 3) = p.ipv4.gateway)
      ∧ (∀ o ∈ getTLV b 0x21, le32 b (o + 3) = p.ipv4.subnetMask)
      ∧ (∀ o ∈ getTLV b 0x15, le32 b (o + 3) = p.ipv4.dnsPrimary)
      ∧ (∀ o ∈ getTLV b 0x16, le32 b (o + 3) = p.ipv4.dnsSecondary)
  | .v6 => (∀ o ∈ getTLV b 0x25, bytes16 b (o + 3) = p.ipv6.address)
      ∧ (∀ o ∈ getTLV b 0x26, bytes16 b (o + 3) = p.ipv6.gateway)
      ∧ (∀ o ∈ getTLV b 0x27, bytes16 b (o + 3) = p.ipv6.dnsPrimary)
      ∧ (∀ o ∈ getTLV b 0x28, bytes16 b (o + 3) = p.ipv6.dnsSecondary)
      ∧ (∀ o ∈ getTLV b 0x25, u8 b (o + 19) = p.ipv6.prefixLengthIPAddr)
      ∧ (∀ o ∈ getTLV b 0x26, u8 b (o + 19) = p.ipv6.prefixLengthGateway)

theorem sameRecord_both {f : IpFamily} {p p' : Profile} (h : SameRecord f p p')
    (ho : SameRecord f.other p p') : ∀ g, SameRecord g p p' := by
  intro g
  cases f <;> cases g <;> assumption

theorem clearAddress_other (f : IpFamily) (p : Profile) :
    SameRecord f.other p (clearAddress f p) := by
  cases f <;> rfl

theorem clearAddress_same (f : IpFamily) (p : Profile) :
    SameRecord f p (clearAddress f p) ↔ NoRecord f p := by
  cases f <;> exact eq_comm

/-- The response changes nothing in the other family's record just when it offers nothing new
for it. -/
theorem readAddress_other (b : Bytes) (f : IpFamily) (p : Profile) :
    SameRecord f.other p (readAddress b f (clearAddress f p)) ↔ OffersNothing b f.other p := by
  have hread := records_readAddress b f (clearAddress f p)
  cases f with
  | v4 =>
    change _ = _ ↔ _
    rw [hread.2]
    change readIpv6 b .v4 p.ipv6 = p.ipv6 ↔ _
    unfold readIpv6 OffersNothing IpFamily.other
    dsimp only
    rcases p.ipv6 with ⟨address, gateway, subnetMask, dns1, dns2, len, lenGateway, mtu⟩
    simp only [Ipv6.mk.injEq, offered_eq_iff, true_and, and_true]
  | v6 =>
    change _ = _ ↔ _
    rw [hread.1]
    change readIpv4 b .v6 p.ipv4 = p.ipv4 ↔ _
    unfold readIpv4 OffersNothing IpFamily.other
    dsimp only
    rcases p.ipv4 with ⟨address, gateway, subnetMask, dns1, dns2, mtu⟩
    simp only [Ipv4.mk.injEq, offered_eq_iff, and_true]

/-- A query for the family leaves the other family's record, and both if it returns non-zero. -/
def PerFamily (s : State) (f : IpFamily) (r : Reply) : Prop :=
  let x := (requestGetIPAddress s f).feed fun _ => r
  SameRecord f.other s.profile x.2.profile
    ∧ (x.1 ≠ 0 → ∀ g, SameRecord g s.profile x.2.profile)

/-- No data call of the family is up; or a response that is turned down finds the family's record
empty; or one that is read offers nothing new for the other family. -/
def Harmless (s : State) (f : IpFamily) (r : Reply) : Prop :=
  s.handle f = 0 ∨ match qmiRspCheckAndReturn r with
    | .error e => e ≠ 0 → NoRecord f s.profile
    | .ok b => OffersNothing b f.other s.profile

theorem perFamily_iff (s : State) (f : IpFamily) (r : Reply) :
    PerFamily s f r ↔ Harmless s f r := by
  have hother := clearAddress_other f s.profile
  unfold PerFamily Harmless requestGetIPAddress
  by_cases hh : s.handle f = 0
  · have hh' : ({ s with profile := clearAddress f s.profile } : State).handle f = 0 := hh
    simp only [hh, hh', ↓reduceIte, true_or, iff_true]
    exact ⟨hother, fun h => absurd rfl h⟩
  · have hh' : ({ s with profile := clearAddress f s.profile } : State).handle f ≠ 0 := hh
    simp only [hh, hh', ↓reduceIte, false_or]
    rcases hr : qmiRspCheckAndReturn r with e | b
    · rw [feed_request_error _ hr]
      refine ⟨fun h he => ?_, fun h => ⟨hother, fun he => ?_⟩⟩
      · exact (clearAddress_same f s.profile).1 (h.2 he f)
      · exact sameRecord_both ((clearAddress_same f s.profile).2 (h he)) hother
    · rw [feed_request_ok _ hr]
      have hread := readAddress_other b f s.profile
      exact ⟨fun h => hread.1 h.1, fun h => ⟨hread.2 h, fun he => absurd rfl he⟩⟩

def callState : State :=
  { blankState with
    wdsConnectionIPv4Handle := 1
    profile := { blankState.profile with ipv4 := { Ipv4.zero with address := 0x0A000001 } } }

/-- A response with an IPv6 address. -/
def ipv6Response : Bytes :=
  List.replicate 11 0 ++ [27, 0] ++ tlv 0x02 [0, 0, 0, 0] ++ tlv 0x25 (List.replicate 17 1)

/-- A request that times out loses the address; an IPv6 address is stored for IPv4 as well. -/
theorem callAddress_lost : ¬ PerFamily callState .v4 ⟨-1, none⟩
    ∧ ¬ PerFamily callState .v4 ⟨0, some ipv6Response⟩ := by
  refine ⟨fun h => ?_, fun h => ?_⟩
  · have hlost : Ipv4.zero = callState.profile.ipv4 := h.2 (by decide) .v4
    exact absurd hlost (by decide)
  · have hsame : ((requestGetIPAddress callState .v4).feed
        fun _ => ⟨0, some ipv6Response⟩).2.profile.ipv6 = callState.profile.ipv6 := h.1
    exact absurd hsame (by decide +kernel)

end QmiRequests

end BananaWrt
