import BananaWrt.QmapDecode

/-!
# QMAP packets to the modem

`add_qhdr` and `add_qhdr_v5` of `qmi_wwan_q.c` put the QMAP header before an IP packet and pad it to
a multiple of four, if the buffer has room for that behind the packet. The Fibocom driver has the
same two functions.
-/

namespace BananaWrt

namespace Qmap

open Bytes

def QUECTEL_WWAN_QMAP : ℕ := 4

def RMNET_MAP_HEADER_TYPE_CSUM_OFFLOAD : ℕ := 2

/-- What a socket buffer holds, and what is in the room behind it. -/
structure Skb where
  data : Bytes
  tail : Bytes
  deriving DecidableEq, Repr

/-- The padding, left out if there is no room for it. -/
def Skb.pad (skb : Skb) : ℕ :=
  let pad := skb.data.length % 4
  if pad = 0 then 0
  else if skb.tail.length < 4 - pad then 0
  else 4 - pad

/-- `__skb_put`, which does not clear what it adds. -/
def Skb.padded (skb : Skb) : Bytes := skb.data ++ skb.tail.take skb.pad

theorem pad_le (skb : Skb) : skb.pad ≤ 3 ∧ skb.pad ≤ skb.tail.length := by
  unfold Skb.pad
  dsimp only
  split_ifs <;> omega

theorem length_padded (skb : Skb) : skb.padded.length = skb.data.length + skb.pad := by
  have := pad_le skb
  unfold Skb.padded
  rw [List.length_append, List.length_take]
  omega

def addQhdr (skb : Skb) (muxId : ℕ) : Bytes :=
  [UInt8.ofNat skb.pad, UInt8.ofNat muxId] ++ ofBe16 skb.padded.length ++ skb.padded

/-- With `next_hdr` set, and the `rmnet_map_v5_csum_header`. -/
def addQhdrV5 (skb : Skb) (muxId : ℕ) : Bytes :=
  [UInt8.ofNat (64 + skb.pad), UInt8.ofNat muxId]
    ++ ofBe16 (skb.data.length + skb.pad)
    ++ [UInt8.ofNat (2 * RMNET_MAP_HEADER_TYPE_CSUM_OFFLOAD), 0, 0, 0] ++ skb.padded

/-- `qmap_version`: 5 is version 1 of the header and 9 is version 5. -/
inductive Version where
  | v1
  | v5
  deriving DecidableEq, Repr

def Version.qmapVersion : Version → ℕ
  | v1 => 5
  | v5 => 9

/-- A packet that is sent on the interface `offset_id`. -/
structure Sent where
  offsetId : ℕ
  skb : Skb
  deriving DecidableEq, Repr

/-- The frame that `rmnet_vnd_start_xmit` makes of it; `mux_id` is one of `qmap_register_device`. -/
def Sent.frame (v : Version) (p : Sent) : Bytes :=
  match v with
  | .v1 => addQhdr p.skb (QUECTEL_QMAP_MUX_ID + p.offsetId)
  | .v5 => addQhdrV5 p.skb (QUECTEL_QMAP_MUX_ID + p.offsetId)

end Qmap

end BananaWrt
