import BananaWrt.QmiRequests

/-!
# The IP configuration of the MBIM client

`mbim_ip_config` asks for `MBIM_CID_IP_CONFIGURATION` and copies what the answer offers into the
profile. The addresses stand behind the structure, at offsets from its start; the model reads them
there and has no result where the source reads past the information buffer, or shifts a 32-bit
number by 32 places or more.
-/

namespace BananaWrt

namespace MbimIpConfig

open Bytes QmiRequests

section Info

variable (info : Bytes)

def IPv4ConfigurationAvailable : ℕ := le32 info 4
def IPv6ConfigurationAvailable : ℕ := le32 info 8
def IPv4AddressOffset : ℕ := le32 info 16
def IPv6AddressOffset : ℕ := le32 info 24
def IPv4GatewayOffset : ℕ := le32 info 28
def IPv6GatewayOffset : ℕ := le32 info 32
def IPv4DnsServerCount : ℕ := le32 info 36
def IPv4DnsServerOffset : ℕ := le32 info 40
def IPv6DnsServerCount : ℕ := le32 info 44
def IPv6DnsServerOffset : ℕ := le32 info 48
def IPv4Mtu : ℕ := le32 info 52
def IPv6Mtu : ℕ := le32 info 56

/-- `*(uint32_t *)` of a place in the buffer. -/
def uint32At (off : ℕ) : Option ℕ := if off + 4 ≤ info.length then some (le32 info off) else none

def ipv6At (off : ℕ) : Option Bytes :=
  if off + 16 ≤ info.length then some (bytes16 info off) else none

end Info

def mbim2qmi_ipv4addr (addr : ℕ) : ℕ :=
  addr >>> 24 ||| addr >>> 8 &&& 0xff00 ||| addr <<< 8 &&& 0xff0000 ||| addr <<< 24 % 2 ^ 32

/-- `0xFFFFFFFF>>(32-prefix)<<(32-prefix)`. -/
def subnetMask (len : ℕ) : Option ℕ :=
  if 0 < len ∧ len ≤ 32 then some (0xFFFFFFFF >>> (32 - len) <<< (32 - len) % 2 ^ 32) else none

/-- The value for a bit that is set; a pointer that stays `NULL` leaves the field. -/
def ifSet (available bit : ℕ) (new : Option ℕ) (old : ℕ) : Option ℕ :=
  if available &&& bit ≠ 0 then new else some old

def ifSet6 (available bit : ℕ) (new : Option Bytes) (old : Bytes) : Option Bytes :=
  if available &&& bit ≠ 0 then new else some old

/-- The MTU in use after the IPv4 part. -/
def mtuOf (info : Bytes) : ℕ :=
  if IPv4ConfigurationAvailable info &&& 0x1 ≠ 0 ∧ IPv4ConfigurationAvailable info &&& 0x8 ≠ 0 then
    IPv4Mtu info
  else 1500

def ipv4Config (info : Bytes) (r : Ipv4) : Option Ipv4 := do
  let available := IPv4ConfigurationAvailable info
  if available &&& 0x1 = 0 then
    return r
  let len ← uint32At info (IPv4AddressOffset info)
  let ipv4 ← uint32At info (IPv4AddressOffset info + 4)
  let gw ← ifSet available 0x2
    ((uint32At info (IPv4GatewayOffset info)).map mbim2qmi_ipv4addr) r.gateway
  let mask ← subnetMask (len % 256)
  let dns1 ← ifSet available 0x4
    ((uint32At info (IPv4DnsServerOffset info)).map mbim2qmi_ipv4addr) r.dnsPrimary
  let dns2 ← ifSet (if IPv4DnsServerCount info = 2 then available else 0) 0x4
    ((uint32At info (IPv4DnsServerOffset info + 4)).map mbim2qmi_ipv4addr) r.dnsSecondary
  return {
    address := mbim2qmi_ipv4addr ipv4
    gateway := gw
    subnetMask := mbim2qmi_ipv4addr mask
    dnsPrimary := dns1
    dnsSecondary := dns2
    mtu := mbim2qmi_ipv4addr (mtuOf info) }

def ipv6Config (info : Bytes) (r : Ipv6) : Option Ipv6 := do
  let available := IPv6ConfigurationAvailable info
  if available &&& 0x1 = 0 then
    return r
  let len ← uint32At info (IPv6AddressOffset info)
  let ipv6 ← ipv6At info (IPv6AddressOffset info + 4)
  let gw ← ifSet6 available 0x2 (ipv6At info (IPv6GatewayOffset info)) r.gateway
  let dns1 ← ifSet6 available 0x4 (ipv6At info (IPv6DnsServerOffset info)) r.dnsPrimary
  let dns2 ← ifSet6 (if IPv6DnsServerCount info = 2 then available else 0) 0x4
    (ipv6At info (IPv6DnsServerOffset info + 16)) r.dnsSecondary
  let mtu := if available &&& 0x8 ≠ 0 then IPv6Mtu info else mtuOf info
  return { r with
    address := ipv6
    gateway := gw
    dnsPrimary := dns1
    dnsSecondary := dns2
    prefixLengthIPAddr := len % 256
    prefixLengthGateway := len % 256
    mtu := mbim2qmi_ipv4addr mtu }

/-- The answer is an error that `mbim_check_err` returns, or the information buffer. -/
def mbimIpConfig (answer : Except ℤ Bytes) (p : Profile) : Option (ℤ × Profile) :=
  match answer with
  | .error e => some (e, p)
  | .ok info =>
    if info = [] then some (0, p)
    else do
      let ipv4 ← ipv4Config info p.ipv4
      let ipv6 ← ipv6Config info p.ipv6
      return (0, { p with ipv4, ipv6 })

end MbimIpConfig

end BananaWrt
