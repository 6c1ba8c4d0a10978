import BananaWrt.QmapEncode

/-!
# Uplink aggregation

`rmnet_usb_tx_agg` of `qmi_wwan_q.c` collects the packets of an interface in `agg_skb` and releases
it when it is full, old, or when the last packet should not wait. The work item of a timer releases
it as well. Both hold `agg_lock` for what they do to `agg_skb`, and a call goes back to `new_packet`
while it has its packet still in hand: a step here is one such section, so the work item may run
between any two sections of a call. The calls for an interface come one after another.
-/

namespace BananaWrt

namespace UlAgg

open Bytes

structure Timespec where
  sec : ℤ
  nsec : ℤ
  deriving DecidableEq, Repr

def NSEC_PER_SEC : ℤ := 1000000000

/-- `timespec64_sub`, with the nanoseconds brought back into one second. -/
def Timespec.sub (a b : Timespec) : Timespec where
  sec := a.sec - b.sec + (a.nsec - b.nsec) / NSEC_PER_SEC
  nsec := (a.nsec - b.nsec) % NSEC_PER_SEC

/-- The comparison with `agg_time_limit` and with `agg_bypass_time`. -/
def Timespec.exceeds (diff : Timespec) (limit : ℤ) : Bool :=
  decide (0 < diff.sec) || decide (limit < diff.nsec)

def IPPROTO_ICMP : ℕ := 1
def IPPROTO_TCP : ℕ := 6
def IPPROTO_ICMPV6 : ℕ := 58
def NEXTHDR_TCP : ℕ := 6
def NEXTHDR_FRAGMENT : ℕ := 44
def NEXTHDR_ICMP : ℕ := 58

def sizeofIphdr : ℕ := 20
def sizeofIpv6hdr : ℕ := 40

/-- `psh` of the TCP header at `off`. -/
def psh (mem : Bytes) (off : ℕ) : Bool := decide (u8 mem (off + 13) / 8 % 2 = 1)

/-- The headers are read where they are expected, also past the end of a short packet. -/
def rmnetUsbTxAggSkip (mem : Bytes) (protocol offset : ℕ) : Bool :=
  if protocol = Qmap.ETH_P_IP then
    if u8 mem (offset + 9) = IPPROTO_TCP then psh mem (offset + sizeofIphdr)
    else decide (u8 mem (offset + 9) = IPPROTO_ICMP)
  else if protocol = Qmap.ETH_P_IPV6 then
    if u8 mem (offset + 6) = NEXTHDR_TCP then psh mem (offset + sizeofIpv6hdr)
    else if u8 mem (offset + 6) = NEXTHDR_ICMP then true
    else if u8 mem (offset + 6) = NEXTHDR_FRAGMENT then
      decide (u8 mem (offset + sizeofIpv6hdr) = IPPROTO_ICMPV6)
    else false
  else false

/-- A packet with its QMAP header, what is in memory behind it, and `skb->protocol`. -/
structure Packet where
  skb : Qmap.Skb
  protocol : ℕ
  deriving DecidableEq, Repr

def Packet.data (p : Packet) : Bytes := p.skb.data

/-- What `rmnet_usb_tx_agg_skip` says; the IP header comes after that of QMAP. -/
def Packet.skip (p : Packet) : Bool :=
  rmnetUsbTxAggSkip (p.skb.data ++ p.skb.tail) p.protocol (Qmap.hdrSize p.data)

/-- An aggregation buffer: what `skb_put` has put into it, in order, and how much it can hold. -/
structure AggSkb where
  puts : List Bytes
  room : ℕ
  deriving DecidableEq, Repr

def AggSkb.data (agg : AggSkb) : Bytes := agg.puts.flatten

/-- `alloc_skb`, with `extra` bytes more than were asked for if it succeeds. There is no buffer of
2 GiB. -/
def allocSkb (size : UInt32) (extra : Option ℕ) : Option AggSkb :=
  if size.toNat < 2 ^ 31 then extra.map fun n => ⟨[], size.toNat + n⟩ else none

/-- `skb_put` and `memcpy`; `none` where `skb_put` finds no room and panics. -/
def AggSkb.skbPut (agg : AggSkb) (b : Bytes) : Option AggSkb :=
  if agg.data.length + b.length ≤ agg.room then some { agg with puts := agg.puts ++ [b] } else none

/-- `struct tx_agg_ctx`: `ul_data_aggregation_max_datagrams` and `ul_data_aggregation_max_size`. -/
structure TxAggCtx where
  maxDatagrams : UInt32
  maxSize : UInt32
  deriving DecidableEq, Repr

/-- The fields of `struct qmap_priv` that `agg_lock` is for. -/
structure Priv where
  aggSkb : Option AggSkb
  aggCount : UInt32
  aggTime : Timespec
  deriving DecidableEq, Repr

/-- What a section finds: the time, the two parameters of the module, which may be written at any
time, and what `alloc_skb` gives. -/
structure Env where
  now : Timespec
  aggTimeLimit : ℤ
  aggBypassTime : ℤ
  alloc : Option ℕ
  deriving DecidableEq, Repr

/-- What a section comes to: the buffer that is released, as what has been put into it, and whether
the call has its packet still in hand. -/
structure Outcome where
  priv : Priv
  aggSkb : Option (List Bytes)
  retry : Bool
  deriving DecidableEq, Repr

section
variable (ctx : TxAggCtx) (env : Env) (p : Packet) (xmitMore : Bool) (priv : Priv)

/-- The section if there is an `agg_skb`. -/
def appendSection (agg : AggSkb) : Option Outcome :=
  let diff := env.now.sub priv.aggTime
  if UInt32.ofNat agg.data.length + UInt32.ofNat p.data.length < ctx.maxSize then do
    let agg' ← agg.skbPut p.data
    let count := priv.aggCount + 1
    if diff.exceeds env.aggTimeLimit || count == ctx.maxDatagrams || (!xmitMore && p.skip) then
      some ⟨⟨none, 0, env.now⟩, some agg'.puts, false⟩
    else some ⟨⟨some agg', count, priv.aggTime⟩, none, false⟩
  else some ⟨⟨none, 0, env.now⟩, some agg.puts, true⟩

/-- The section if there is none. -/
def startSection : Option Outcome :=
  let diff := env.now.sub priv.aggTime
  if diff.exceeds env.aggBypassTime || (!xmitMore && p.skip) then
    some ⟨{ priv with aggTime := env.now }, some [p.data], false⟩
  else match allocSkb ctx.maxSize env.alloc with
  | some agg => do
    let agg' ← agg.skbPut p.data
    some ⟨{ priv with aggSkb := some agg', aggCount := priv.aggCount + 1 }, none, false⟩
  | none => some ⟨{ priv with aggTime := env.now }, some [p.data], false⟩

/-- `none` if the kernel panics. -/
def newPacket : Option Outcome :=
  match priv.aggSkb with
  | some agg => appendSection ctx env p xmitMore priv agg
  | none => startSection ctx env p xmitMore priv

end

/-- The section of the work item, and the buffer that it releases. -/
def rmnetUsbTxAggWork (now : Timespec) (priv : Priv) : Priv × Option (List Bytes) :=
  match priv.aggSkb with
  | some agg => (⟨none, 0, now⟩, some agg.puts)
  | none => (priv, none)

/-- Aggregation is turned on, once. -/
def qmaSettingStore (ctx : TxAggCtx) (maxDatagrams maxSize : UInt32) : TxAggCtx :=
  if ctx.maxDatagrams = 1 ∧ 1 < maxDatagrams then ⟨maxDatagrams, maxSize⟩ else ctx

/-- A call that has had so many sections. -/
structure Call where
  packet : Packet
  xmitMore : Bool
  sections : ℕ
  deriving DecidableEq, Repr

/-- `submitted` are the packets of the calls so far, and `released` the buffers. -/
structure St where
  ctx : TxAggCtx
  priv : Priv
  call : Option Call
  submitted : List Bytes
  released : List (List Bytes)
  panicked : Bool
  deriving DecidableEq, Repr

inductive Input where
  | txAgg (p : Packet) (xmitMore : Bool)
  | newPacket (env : Env)
  | aggWork (now : Timespec)
  | settingStore (maxDatagrams maxSize : UInt32)
  deriving DecidableEq, Repr

/-- A call begins: without aggregation the packet is sent at once. -/
def St.txAgg (s : St) (p : Packet) (xmitMore : Bool) : St :=
  if s.ctx.maxDatagrams = 1 then
    { s with submitted := s.submitted ++ [p.data], released := s.released ++ [[p.data]] }
  else { s with submitted := s.submitted ++ [p.data], call := some ⟨p, xmitMore, 0⟩ }

/-- The next section of the call. -/
def St.newPacket (s : St) (c : Call) (env : Env) : St :=
  match UlAgg.newPacket s.ctx env c.packet c.xmitMore s.priv with
  | none => { s with panicked := true }
  | some o =>
    { s with
      priv := o.priv
      released := s.released ++ o.aggSkb.toList
      call := if o.retry then some { c with sections := c.sections + 1 } else none }

def St.aggWork (s : St) (now : Timespec) : St :=
  let (priv, aggSkb) := rmnetUsbTxAggWork now s.priv
  { s with priv := priv, released := s.released ++ aggSkb.toList }

/-- `none` where the input cannot happen: there is no section without a call, and no second call
before the first has returned. -/
def step (s : St) : Input → Option St
  | .txAgg p xmitMore =>
    if s.panicked ∨ s.call.isSome then none else some (s.txAgg p xmitMore)
  | .newPacket env =>
    if s.panicked then none else s.call.map fun c => s.newPacket c env
  | .aggWork now => if s.panicked then none else some (s.aggWork now)
  | .settingStore maxDatagrams maxSize =>
    if s.panicked then none else some { s with ctx := qmaSettingStore s.ctx maxDatagrams maxSize }

/-- After `qmi_wwan_bind` and `qmap_register_device`. -/
def initial (now : Timespec) : St where
  ctx := ⟨1, 1500⟩
  priv := ⟨none, 0, now⟩
  call := none
  submitted := []
  released := []
  panicked := false

end UlAgg

end BananaWrt
