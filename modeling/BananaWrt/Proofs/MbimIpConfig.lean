import BananaWrt.MbimIpConfig
import BananaWrt.Proofs.QmiAddress
import BananaWrt.Proofs.QmiMsg

/-!
# Where the MBIM client and the QMI client store the same address

`networkOf` is what a `MBIM_IP_CONFIGURATION_INFO` offers, `recordOf` the record that the QMI
client makes of it (`qmi_record`). The MBIM client turns the bytes of the addresses, which it
should, but those of the mask and the MTU as well, and leaves what is not offered:
`sameRecord_iff` says on which answers, and after which earlier record, this makes no difference.
-/

namespace BananaWrt

namespace MbimIpConfig

open Bytes Tlv Qmi QmiRequests

theorem and_byte (x s : ℕ) : x &&& 255 <<< s = (x >>> s % 256) <<< s := by
  refine Nat.eq_of_testBit_eq fun i => ?_
  have h : ∀ j, Nat.testBit 255 j = decide (j < 8) := Nat.testBit_two_pow_sub_one (n := 8)
  rw [Nat.testBit_and, Nat.testBit_shiftLeft, Nat.testBit_shiftLeft, h,
    Nat.testBit_mod_two_pow (j := 8), Nat.testBit_shiftRight]
  by_cases hi : s ≤ i
  · simp [hi, Bool.and_comm]
  · simp [hi]

theorem or_shiftLeft_of_lt {t s : ℕ} (h : t < 2 ^ s) (x : ℕ) : t ||| x <<< s = 2 ^ s * x + t := by
  rw [Nat.or_shiftLeft_eq, Nat.shiftRight_eq_zero t s h, Nat.zero_or, Nat.mod_eq_of_lt h]

/-- The four bytes the other way round. -/
theorem mbim2qmi_le32 (b : Bytes) (i : ℕ) : mbim2qmi_ipv4addr (le32 b i) = be32 b i := by
  have h0 := u8_lt b i
  have h1 := u8_lt b (i + 1)
  have h2 := u8_lt b (i + 2)
  have h3 := u8_lt b (i + 2 + 1)
  have hn : le32 b i = u8 b i + 256 * u8 b (i + 1) + 65536 * (u8 b (i + 2)
    + 256 * u8 b (i + 2 + 1)) := rfl
  have e0 : le32 b i >>> 24 = u8 b (i + 2 + 1) := by
    rw [Nat.shiftRight_eq_div_pow]
    omega
  have e1 : le32 b i >>> 8 &&& 0xff00 = u8 b (i + 2) <<< 8 := by
    refine (and_byte _ 8).trans (congrArg (· <<< 8) ?_)
    rw [Nat.shiftRight_eq_div_pow, Nat.shiftRight_eq_div_pow]
    omega
  have e2 : le32 b i <<< 8 &&& 0xff0000 = u8 b (i + 1) <<< 16 := by
    refine (and_byte _ 16).trans (congrArg (· <<< 16) ?_)
    rw [Nat.shiftRight_eq_div_pow, Nat.shiftLeft_eq]
    omega
  have e3 : le32 b i <<< 24 % 2 ^ 32 = u8 b i <<< 24 := by
    rw [Nat.shiftLeft_eq, Nat.shiftLeft_eq]
    omega
  have f1 : u8 b (i + 2 + 1) ||| u8 b (i + 2) <<< 8 = 2 ^ 8 * u8 b (i + 2) + u8 b (i + 2 + 1) :=
    or_shiftLeft_of_lt (by omega) _
  unfold mbim2qmi_ipv4addr be32 be16
  rw [e0, e1, e2, e3, f1, or_shiftLeft_of_lt (s := 16) (by omega), or_shiftLeft_of_lt (by omega)]
  omega

/-- What the modem offers: the address with its prefix length, the gateway, the DNS servers and
the MTU. An address is a number whose most significant byte is the first octet. -/
structure Network where
  address : Option (ℕ × ℕ)
  gateway : Option ℕ
  dns : List ℕ
  mtu : Option ℕ

/-- As many leading ones as the prefix is long. -/
def maskOf (len : ℕ) : ℕ := 2 ^ 32 - 2 ^ (32 - len)

theorem testBit_maskOf {len : ℕ} (h : len ≤ 32) (i : ℕ) :
    (maskOf len).testBit i = decide (32 - len ≤ i ∧ i < 32) := by
  have heq : maskOf len = (2 ^ len - 1) <<< (32 - len) := by
    unfold maskOf
    rw [Nat.shiftLeft_eq, Nat.sub_mul, ← Nat.pow_add, Nat.add_sub_cancel' h, Nat.one_mul]
  rw [heq, Nat.testBit_shiftLeft, Nat.testBit_two_pow_sub_one, ← Bool.decide_and]
  refine decide_eq_decide.2 ?_
  omega

/-- What is not offered is zero. -/
def recordOf (net : Network) : Ipv4 where
  address := (net.address.map Prod.fst).getD 0
  gateway := net.gateway.getD 0
  subnetMask := (net.address.map fun a => maskOf a.2).getD 0
  dnsPrimary := net.dns[0]?.getD 0
  dnsSecondary := net.dns[1]?.getD 0
  mtu := net.mtu.getD 0

/-- The TLVs of a response of GET_RUNTIME_SETTINGS that offer the network. -/
structure Offers (fs : Fields) (net : Network) : Prop where
  address : fs.lookup 0x1E = net.address.map fun a => ofLe32 a.1
  subnetMask : fs.lookup 0x21 = net.address.map fun a => ofLe32 (maskOf a.2)
  gateway : fs.lookup 0x20 = net.gateway.map ofLe32
  dnsPrimary : fs.lookup 0x15 = net.dns[0]?.map ofLe32
  dnsSecondary : fs.lookup 0x16 = net.dns[1]?.map ofLe32
  mtu : fs.lookup 0x29 = net.mtu.map ofLe32

/-- The numbers fit 32 bits. -/
structure Network.Small (net : Network) : Prop where
  address : ∀ a ∈ net.address, a.1 < 2 ^ 32
  gateway : ∀ g ∈ net.gateway, g < 2 ^ 32
  dns : ∀ d ∈ net.dns, d < 2 ^ 32
  mtu : ∀ m ∈ net.mtu, m < 2 ^ 32

theorem offered_le32 {b : Bytes} {fs : Fields} (h : Carries b fs) {t : UInt8} {x : Option ℕ}
    (hx : ∀ n ∈ x, n < 2 ^ 32) (hlook : fs.lookup t = x.map ofLe32) :
    offered b t.toNat (fun o => le32 b (o + 3)) 0 = x.getD 0 := by
  unfold offered
  rw [getTLV_eq h]
  rcases hp : locate t fs with _ | q
  · rw [locate_eq_none.1 hp] at hlook
    rw [Option.map_eq_none_iff.1 hlook.symm]
    rfl
  · obtain ⟨v, hv, -, hval⟩ := value_of_locate h.here hp h.fits
    obtain ⟨n, rfl, rfl⟩ := Option.map_eq_some_iff.1 (hlook.symm.trans hv)
    have hread : le32 b (tlvOffset + q + 3) = le32 (ofLe32 n) 0 := le32_value hval (Nat.le_refl 4)
    change le32 b (tlvOffset + q + 3) = n
    rw [hread, le32_ofLe32, Nat.mod_eq_of_lt (hx n rfl)]

theorem maskOf_lt (len : ℕ) : maskOf len < 2 ^ 32 :=
  Nat.sub_lt (Nat.two_pow_pos 32) (Nat.two_pow_pos _)

theorem readIpv4_eq {b : Bytes} {fs : Fields} {net : Network} (h : Carries b fs)
    (ho : Offers fs net) (hs : net.Small) : readIpv4 b .v4 Ipv4.zero = recordOf net := by
  have hdns : ∀ i, ∀ d ∈ net.dns[i]?, d < 2 ^ 32 := fun i d hd =>
    hs.dns d (List.mem_of_getElem? hd)
  have haddress : ∀ n ∈ net.address.map Prod.fst, n < 2 ^ 32 := fun n hn => by
    obtain ⟨a, ha, rfl⟩ := Option.map_eq_some_iff.1 hn
    exact hs.address a ha
  have hmask : ∀ n ∈ net.address.map fun a => maskOf a.2, n < 2 ^ 32 := fun n hn => by
    obtain ⟨a, -, rfl⟩ := Option.map_eq_some_iff.1 hn
    exact maskOf_lt a.2
  have h1 : fs.lookup 0x1E = (net.address.map Prod.fst).map ofLe32 := by
    rw [Option.map_map]
    exact ho.address
  have h3 : fs.lookup 0x21 = (net.address.map fun a => maskOf a.2).map ofLe32 := by
    rw [Option.map_map]
    exact ho.subnetMask
  have e1 := offered_le32 h haddress h1
  have e2 := offered_le32 h hs.gateway ho.gateway
  have e3 := offered_le32 h hmask h3
  have e4 := offered_le32 h (hdns 0) ho.dnsPrimary
  have e5 := offered_le32 h (hdns 1) ho.dnsSecondary
  have e6 := offered_le32 h hs.mtu ho.mtu
  exact Ipv4.mk.injEq .. ▸ ⟨e1, e2, e3, e4, e5, e6⟩

/-- What `requestGetIPAddress` of the QMI client stores. -/
theorem qmi_record {s : State} {b : Bytes} {fs : Fields} {net : Network}
    (hhandle : s.handle .v4 ≠ 0) (hok : qmiRspCheckAndReturn ⟨0, some b⟩ = .ok b)
    (h : Carries b fs) (ho : Offers fs net) (hs : net.Small) :
    ((requestGetIPAddress s .v4).feed fun _ => ⟨0, some b⟩).2.profile.ipv4 = recordOf net := by
  have hhandle' : ({ s with profile := clearAddress .v4 s.profile } : State).handle .v4 ≠ 0 :=
    hhandle
  unfold requestGetIPAddress
  simp only [hhandle', ↓reduceIte]
  rw [feed_request_ok _ hok]
  exact (records_readAddress b .v4 _).1.trans (readIpv4_eq h ho hs)

section Info

variable (info : Bytes)

/-- Bit 0 for the address, 1 for the gateway, 2 for the DNS servers and 3 for the MTU. -/
def Available (bit : ℕ) : Prop := IPv4ConfigurationAvailable info &&& bit ≠ 0

instance (bit : ℕ) : Decidable (Available info bit) := inferInstanceAs (Decidable (_ ≠ _))

/-- What the structure offers. -/
def networkOf : Network where
  address := if Available info 0x1 then
      some (be32 info (IPv4AddressOffset info + 4), le32 info (IPv4AddressOffset info))
    else none
  gateway := if Available info 0x2 then some (be32 info (IPv4GatewayOffset info)) else none
  dns := if Available info 0x4 then
      (List.range (IPv4DnsServerCount info)).map fun i =>
        be32 info (IPv4DnsServerOffset info + 4 * i)
    else []
  mtu := if Available info 0x8 then some (IPv4Mtu info) else none

theorem networkOf_small : (networkOf info).Small where
  address := fun a ha => by
    simp only [networkOf] at ha
    split_ifs at ha
    · obtain rfl := Option.some.inj ha
      exact be32_lt _ _
    · simp at ha
  gateway := fun g hg => by
    simp only [networkOf] at hg
    split_ifs at hg
    · obtain rfl := Option.some.inj hg
      exact be32_lt _ _
    · simp at hg
  dns := fun d hd => by
    simp only [networkOf] at hd
    split_ifs at hd
    · obtain ⟨i, -, rfl⟩ := List.mem_map.1 hd
      exact be32_lt _ _
    · simp at hd
  mtu := fun m hm => by
    simp only [networkOf] at hm
    split_ifs at hm
    · obtain rfl := Option.some.inj hm
      exact le32_lt _ _
    · simp at hm

/-- What is announced lies in the buffer, and the prefix length is one. The servers' offset is a
place in the buffer even where no server is counted. -/
structure WellFormed : Prop where
  header : 60 ≤ info.length
  address : Available info 0x1 → IPv4AddressOffset info + 8 ≤ info.length
    ∧ le32 info (IPv4AddressOffset info) ≤ 32
  gateway : Available info 0x2 → IPv4GatewayOffset info + 4 ≤ info.length
  dns : Available info 0x4 →
    IPv4DnsServerOffset info + 4 * max 1 (IPv4DnsServerCount info) ≤ info.length
  address6 : IPv6ConfigurationAvailable info &&& 0x1 ≠ 0 →
    IPv6AddressOffset info + 20 ≤ info.length
  gateway6 : IPv6ConfigurationAvailable info &&& 0x2 ≠ 0 →
    IPv6GatewayOffset info + 16 ≤ info.length
  dns6 : IPv6ConfigurationAvailable info &&& 0x4 ≠ 0 →
    IPv6DnsServerOffset info + 16 * max 1 (IPv6DnsServerCount info) ≤ info.length

/-- The record that `mbim_ip_config` finds is such that it leaves the right one. -/
def Right (r : Ipv4) : Prop :=
  if Available info 0x1 then
    (Available info 0x2 ∨ r.gateway = 0)
      ∧ le32 info (IPv4AddressOffset info) = 32
      ∧ (if Available info 0x4 then
          IPv4DnsServerCount info ≠ 0 ∨ be32 info (IPv4DnsServerOffset info) = 0
        else r.dnsPrimary = 0)
      ∧ (Available info 0x4 ∧ IPv4DnsServerCount info = 2
        ∨ r.dnsSecondary = (networkOf info).dns[1]?.getD 0)
      ∧ Available info 0x8 ∧ IPv4Mtu info = be32 info 52
  else r = recordOf (networkOf info)

end Info

theorem uint32At_eq {info : Bytes} {off : ℕ} (h : off + 4 ≤ info.length) :
    uint32At info off = some (le32 info off) := if_pos h

theorem ipv6At_eq {info : Bytes} {off : ℕ} (h : off + 16 ≤ info.length) :
    ipv6At info off = some (bytes16 info off) := if_pos h

theorem ifSet_eq {available bit : ℕ} {new : Option ℕ} {n : ℕ}
    (h : available &&& bit ≠ 0 → new = some n) (old : ℕ) :
    ifSet available bit new old = some (if available &&& bit ≠ 0 then n else old) := by
  unfold ifSet
  split_ifs with hb
  · exact h hb
  · rfl

theorem ifSet6_eq {available bit : ℕ} {new : Option Bytes} {n : Bytes}
    (h : available &&& bit ≠ 0 → new = some n) (old : Bytes) :
    ifSet6 available bit new old = some (if available &&& bit ≠ 0 then n else old) := by
  unfold ifSet6
  split_ifs with hb
  · exact h hb
  · rfl

/-- A mask of 32 ones is the only one that reads the same in both byte orders. -/
theorem mask_eq_iff : ∀ len ≤ 32, 0 < len →
    (mbim2qmi_ipv4addr (0xFFFFFFFF >>> (32 - len) <<< (32 - len) % 2 ^ 32) = maskOf len ↔ len = 32)
    := by
  decide

theorem ipv6Config_isSome {info : Bytes} (h : WellFormed info) (r : Ipv6) :
    (ipv6Config info r).isSome := by
  unfold ipv6Config
  by_cases h1 : IPv6ConfigurationAvailable info &&& 0x1 = 0
  · rw [if_pos h1]
    rfl
  · have haddr := h.address6 h1
    have hlen : uint32At info (IPv6AddressOffset info) = some _ := uint32At_eq (by omega)
    have hipv6 : ipv6At info (IPv6AddressOffset info + 4) = some _ := ipv6At_eq (by omega)
    have hgw := ifSet6_eq (fun hb => ipv6At_eq (h.gateway6 hb)) r.gateway
    have hdns1 : ifSet6 (IPv6ConfigurationAvailable info) 0x4
        (ipv6At info (IPv6DnsServerOffset info)) r.dnsPrimary = some _ :=
      ifSet6_eq (fun hb => ipv6At_eq (by
        have := h.dns6 hb
        omega)) _
    have hdns2 : ifSet6
        (if IPv6DnsServerCount info = 2 then IPv6ConfigurationAvailable info else 0) 0x4
        (ipv6At info (IPv6DnsServerOffset info + 16)) r.dnsSecondary = some _ :=
      ifSet6_eq (fun hb => ipv6At_eq (by
        split_ifs at hb with hcount
        · have := h.dns6 hb
          omega
        · simp at hb)) _
    simp only [h1, ↓reduceIte, hlen, hipv6, hgw, hdns1, hdns2, Option.bind_eq_bind,
      Option.bind_some]
    rfl

/-- The IPv4 part of `mbim_ip_config` on a well-formed structure, for a prefix length that is not
zero. -/
theorem ipv4Config_eq {info : Bytes} (h : WellFormed info) (ha : Available info 0x1)
    (hlen : 0 < le32 info (IPv4AddressOffset info)) (r : Ipv4) :
    ipv4Config info r = some {
      address := be32 info (IPv4AddressOffset info + 4)
      gateway := if Available info 0x2 then be32 info (IPv4GatewayOffset info) else r.gateway
      subnetMask := mbim2qmi_ipv4addr (0xFFFFFFFF >>> (32 - le32 info (IPv4AddressOffset info))
        <<< (32 - le32 info (IPv4AddressOffset info)) % 2 ^ 32)
      dnsPrimary := if Available info 0x4 then be32 info (IPv4DnsServerOffset info)
        else r.dnsPrimary
      dnsSecondary := if Available info 0x4 ∧ IPv4DnsServerCount info = 2 then
          be32 info (IPv4DnsServerOffset info + 4)
        else r.dnsSecondary
      mtu := if Available info 0x8 then be32 info 52 else 0xDC050000 } := by
  obtain ⟨haddr, hle⟩ := h.address ha
  have hswap : ∀ {off : ℕ}, off + 4 ≤ info.length →
      (uint32At info off).map mbim2qmi_ipv4addr = some (be32 info off) := fun hoff => by
    rw [uint32At_eq hoff, Option.map_some, mbim2qmi_le32]
  have hread : uint32At info (IPv4AddressOffset info) = some _ := uint32At_eq (by omega)
  have hipv4 : uint32At info (IPv4AddressOffset info + 4) = some _ := uint32At_eq (by omega)
  have hgw := ifSet_eq (fun hb => hswap (h.gateway hb)) r.gateway
  have hdns1 : ifSet (IPv4ConfigurationAvailable info) 0x4
      ((uint32At info (IPv4DnsServerOffset info)).map mbim2qmi_ipv4addr) r.dnsPrimary = some _ :=
    ifSet_eq (fun hb => hswap (by
      have := h.dns hb
      omega)) _
  have hdns2 : ifSet (if IPv4DnsServerCount info = 2 then IPv4ConfigurationAvailable info else 0)
      0x4 ((uint32At info (IPv4DnsServerOffset info + 4)).map mbim2qmi_ipv4addr) r.dnsSecondary
      = some (if Available info 0x4 ∧ IPv4DnsServerCount info = 2 then
          be32 info (IPv4DnsServerOffset info + 4) else r.dnsSecondary) := by
    by_cases hcount : IPv4DnsServerCount info = 2
    · rw [if_pos hcount, ifSet_eq fun hb => hswap (by
        have := h.dns hb
        omega)]
      simp only [hcount, and_true]
      rfl
    · rw [if_neg hcount, if_neg fun hc => hcount hc.2]
      rfl
  have hmask : subnetMask (le32 info (IPv4AddressOffset info) % 256)
      = some (0xFFFFFFFF >>> (32 - le32 info (IPv4AddressOffset info))
        <<< (32 - le32 info (IPv4AddressOffset info)) % 2 ^ 32) := by
    rw [Nat.mod_eq_of_lt (by omega)]
    exact if_pos ⟨hlen, hle⟩
  have hmtu : mbim2qmi_ipv4addr (mtuOf info)
      = if Available info 0x8 then be32 info 52 else 0xDC050000 := by
    unfold mtuOf
    by_cases hb : Available info 0x8
    · rw [if_pos ⟨ha, hb⟩, if_pos hb]
      exact mbim2qmi_le32 info 52
    · rw [if_neg fun hc => hb hc.2, if_neg hb]
      rfl
  unfold ipv4Config
  have ha' : ¬ IPv4ConfigurationAvailable info &&& 0x1 = 0 := ha
  simp only [ha', ↓reduceIte, hread, hipv4, hgw, hdns1, hdns2, hmask, hmtu, mbim2qmi_le32,
    Option.bind_eq_bind, Option.bind_some]
  rfl

/-- Without an answer for the subnet mask there is no result. -/
theorem ipv4Config_zero {info : Bytes} (h : WellFormed info) (ha : Available info 0x1)
    (hlen : le32 info (IPv4AddressOffset info) = 0) (r : Ipv4) : ipv4Config info r = none := by
  have haddr := (h.address ha).1
  have hread : uint32At info (IPv4AddressOffset info) = some _ := uint32At_eq (by omega)
  have hipv4 : uint32At info (IPv4AddressOffset info + 4) = some _ := uint32At_eq (by omega)
  have hgw : ifSet (IPv4ConfigurationAvailable info) 0x2
      ((uint32At info (IPv4GatewayOffset info)).map mbim2qmi_ipv4addr) r.gateway = some _ :=
    ifSet_eq (fun hb => by rw [uint32At_eq (h.gateway hb), Option.map_some]) _
  have ha' : ¬ IPv4ConfigurationAvailable info &&& 0x1 = 0 := ha
  have hmask : subnetMask (0 % 256) = none := rfl
  unfold ipv4Config
  simp only [ha', ↓reduceIte, hread, hipv4, hgw, hlen, hmask, Option.bind_eq_bind,
    Option.bind_some, Option.bind_none]

section FieldByField

variable (info : Bytes) (r : Ipv4)

theorem gateway_iff : (if Available info 0x2 then be32 info (IPv4GatewayOffset info)
      else r.gateway)
    = (if Available info 0x2 then some (be32 info (IPv4GatewayOffset info)) else none).getD 0
      ↔ Available info 0x2 ∨ r.gateway = 0 := by
  by_cases hb : Available info 0x2 <;> simp [hb]

theorem dnsPrimary_iff : (if Available info 0x4 then be32 info (IPv4DnsServerOffset info)
      else r.dnsPrimary)
    = (if Available info 0x4 then (List.range (IPv4DnsServerCount info)).map fun i =>
        be32 info (IPv4DnsServerOffset info + 4 * i) else [])[0]?.getD 0
      ↔ if Available info 0x4 then
          IPv4DnsServerCount info ≠ 0 ∨ be32 info (IPv4DnsServerOffset info) = 0
        else r.dnsPrimary = 0 := by
  by_cases hb : Available info 0x4
  · rcases hc : IPv4DnsServerCount info with _ | n <;> simp [hb]
  · simp [hb]

theorem dnsSecondary_iff : (if Available info 0x4 ∧ IPv4DnsServerCount info = 2 then
        be32 info (IPv4DnsServerOffset info + 4)
      else r.dnsSecondary)
    = (if Available info 0x4 then (List.range (IPv4DnsServerCount info)).map fun i =>
        be32 info (IPv4DnsServerOffset info + 4 * i) else [])[1]?.getD 0
      ↔ Available info 0x4 ∧ IPv4DnsServerCount info = 2
        ∨ r.dnsSecondary = (if Available info 0x4 then
            (List.range (IPv4DnsServerCount info)).map fun i =>
              be32 info (IPv4DnsServerOffset info + 4 * i) else [])[1]?.getD 0 := by
  by_cases hb : Available info 0x4 ∧ IPv4DnsServerCount info = 2
  · simp [hb.1, hb.2]
  · simp only [hb, ↓reduceIte, false_or]

theorem mtu_iff : (if Available info 0x8 then be32 info 52 else 0xDC050000)
    = (if Available info 0x8 then some (IPv4Mtu info) else none).getD 0
      ↔ Available info 0x8 ∧ IPv4Mtu info = be32 info 52 := by
  by_cases hb : Available info 0x8
  · simp [hb, eq_comm]
  · simp [hb]

end FieldByField

/-- The IPv4 part leaves the record that the QMI client would leave. -/
theorem ipv4Config_iff {info : Bytes} (h : WellFormed info) (r : Ipv4) :
    ipv4Config info r = some (recordOf (networkOf info)) ↔ Right info r := by
  by_cases ha : Available info 0x1
  · unfold Right
    rw [if_pos ha]
    rcases Nat.eq_zero_or_pos (le32 info (IPv4AddressOffset info)) with hz | hpos
    · rw [ipv4Config_zero h ha hz, hz]
      simp
    · rw [ipv4Config_eq h ha hpos]
      simp only [recordOf, networkOf, ha, ↓reduceIte, Option.map_some, Option.getD_some,
        Option.some.injEq, Ipv4.mk.injEq, true_and]
      refine and_congr (gateway_iff ..) (and_congr ?_ (and_congr (dnsPrimary_iff ..)
        (and_congr (dnsSecondary_iff ..) (mtu_iff ..))))
      exact mask_eq_iff _ (h.address ha).2 hpos
  · have ha' : IPv4ConfigurationAvailable info &&& 0x1 = 0 := not_not.1 ha
    have hkeep : ipv4Config info r = some r := if_pos ha'
    unfold Right
    rw [if_neg ha, hkeep, Option.some.injEq]

/-- The MBIM client leaves the record of the network that the answer describes just when the
record it finds is right for that, and so does the QMI client, whatever it finds. -/
theorem sameRecord_iff {info : Bytes} (h : WellFormed info) (p : Profile) :
    ((∃ p', mbimIpConfig (.ok info) p = some (0, p') ∧ p'.ipv4 = recordOf (networkOf info))
        ↔ Right info p.ipv4)
      ∧ ∀ (s : State) (b : Bytes) (fs : Fields), s.handle .v4 ≠ 0 →
        qmiRspCheckAndReturn ⟨0, some b⟩ = .ok b → Carries b fs → Offers fs (networkOf info) →
          ((requestGetIPAddress s .v4).feed fun _ => ⟨0, some b⟩).2.profile.ipv4
            = recordOf (networkOf info) := by
  refine ⟨?_, fun s b fs hhandle hok hb ho => qmi_record hhandle hok hb ho (networkOf_small info)⟩
  rw [← ipv4Config_iff h]
  have hne : info ≠ [] := fun he => by
    have := h.header
    rw [he] at this
    exact absurd this (by decide)
  obtain ⟨r6, h6⟩ := Option.isSome_iff_exists.1 (ipv6Config_isSome h p.ipv6)
  unfold mbimIpConfig
  simp only [hne, ↓reduceIte, h6, Option.bind_eq_bind, Option.bind_some]
  rcases ipv4Config info p.ipv4 with _ | r
  · simp
  · simp

/-- 10.0.0.2 behind 10.0.0.1, with 8.8.8.8 and 8.8.4.4. -/
def sampleInfo (len mtu : ℕ) : Bytes :=
  [0, 0xF, 0, 1, 60, 0, 0, 68, 0, 2, 72, 0, 0, mtu, 0].flatMap ofLe32
    ++ ofLe32 len ++ [10, 0, 0, 2, 10, 0, 0, 1, 8, 8, 8, 8, 8, 8, 4, 4]

theorem wellFormed_host : WellFormed (sampleInfo 32 0) where
  header := by decide
  address := by decide
  gateway := by decide
  dns := by decide
  address6 := by decide
  gateway6 := by decide
  dns6 := by decide

theorem sameRecord_host : ∃ p', mbimIpConfig (.ok (sampleInfo 32 0)) blankState.profile
    = some (0, p') ∧ p'.ipv4 = recordOf (networkOf (sampleInfo 32 0)) :=
  (sameRecord_iff wellFormed_host blankState.profile).1.2 (by unfold Right; decide +kernel)

theorem wellFormed_subnet : WellFormed (sampleInfo 24 1500) where
  header := by decide
  address := by decide
  gateway := by decide
  dns := by decide
  address6 := by decide
  gateway6 := by decide
  dns6 := by decide

/-- The mask of a /24 and an MTU of 1500 come out the wrong way round. -/
theorem subnet_swapped : WellFormed (sampleInfo 24 1500)
    ∧ (mbimIpConfig (.ok (sampleInfo 24 1500)) blankState.profile).map (·.2.ipv4)
      = some ⟨0x0A000002, 0x0A000001, 0x00FFFFFF, 0x08080808, 0x08080404, 0xDC050000⟩
    ∧ recordOf (networkOf (sampleInfo 24 1500))
      = ⟨0x0A000002, 0x0A000001, 0xFFFFFF00, 0x08080808, 0x08080404, 1500⟩ :=
  ⟨wellFormed_subnet, by decide +kernel, by decide +kernel⟩

end MbimIpConfig

end BananaWrt
