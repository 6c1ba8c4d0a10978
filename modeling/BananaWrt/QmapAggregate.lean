import BananaWrt.QmapEncode

/-!
# Aggregates of QMAP packets

What the modem sends in one transfer is a concatenation of QMAP packets: a header with flags, the
padding, the mux id and the length, the `rmnet_map_v5_csum_header` if `next_hdr` is set, and as many
bytes as the length says, the last of which are the padding.
-/

namespace BananaWrt

namespace Qmap

open Bytes

/-- A QMAP packet that is framed: `body` is the payload with its padding. -/
structure Framed where
  command : Bool
  extension : Option { b : Bytes // b.length = 4 }
  pad : ℕ
  mux : UInt8
  body : Bytes
  pad_lt : pad < 64
  small : body.length < 2 ^ 16

namespace Framed

variable (q : Framed)

def flags : ℕ := (if q.command then 128 else 0) + (if q.extension.isSome then 64 else 0) + q.pad

def bytes : Bytes :=
  UInt8.ofNat q.flags :: q.mux
    :: (ofBe16 q.body.length ++ ((q.extension.map Subtype.val).getD [] ++ q.body))

def hdrSize : ℕ := if q.extension.isSome then 8 else 4

def muxId : ℕ := (q.mux.toNat + 2 ^ 32 - QUECTEL_QMAP_MUX_ID) % 2 ^ 32

/-- `skb` begins with the packet, and `rest` is what comes after it. -/
structure At (rest skb : Bytes) : Prop where
  padLen : padLen skb = q.pad
  hdrSize : Qmap.hdrSize skb = q.hdrSize
  cdBit : CdBit skb ↔ q.command = true
  pktLen : pktLen skb = q.body.length
  mux : u8 skb 1 = q.mux.toNat
  body : skb.drop q.hdrSize = q.body ++ rest
  length : skb.length = q.hdrSize + q.body.length + rest.length

end Framed

def aggregate (qs : List Framed) : Bytes := qs.flatMap (·.bytes)

end Qmap

end BananaWrt
