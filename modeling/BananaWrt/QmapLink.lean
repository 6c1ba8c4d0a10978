import Mathlib.Logic.Function.Basic
import BananaWrt.QmapEncode

/-!
# The link states of the QMAP interfaces

With `qmap_mode` above 1 the driver `qmi_wwan_q.c` has an interface for each call, next to that of
the USB device. The link state is kept twice: `pQmapDev->link_state` has a bit for each interface,
and each interface has a flag of its own in its `struct qmap_priv`, which `qmap_open` reads.
`link_state_store` changes the bit, and the flag where the bit has changed.
-/

namespace BananaWrt

namespace QmapLink

def USB_SPEED_SUPER : ℕ := 5

/-- What the driver knows of the USB device, and the parameter `qmap_mode` of the module.
`registers` says for which interfaces `qmap_register_device` succeeds. -/
structure Config where
  noArp : Bool
  driverData : ℕ
  idProduct : ℕ
  speed : ℕ
  qmapMode : ℕ
  registers : ℕ → Bool

def Config.lteA (c : Config) : Bool :=
  decide (c.idProduct ∈ [0x0306, 0x030B, 0x0512, 0x0620, 0x0800, 0x0801])
    || decide (4096 < c.driverData % 256) || decide (USB_SPEED_SUPER ≤ c.speed)

/-- `pQmapDev->qmap_mode`. -/
def Config.mode (c : Config) : ℕ :=
  if c.noArp then
    if c.lteA ∧ c.qmapMode = 0 then 1 else min c.qmapMode Qmap.QUECTEL_WWAN_QMAP
  else 0

def Config.useRmnetUsb (c : Config) : Bool :=
  decide (1 < c.mode) || (decide (c.mode = 1) && decide (c.idProduct = 0x0800 ∨ c.idProduct = 0x0801))

/-- An entry of `mpQmapNetDev`: the interface of the USB device, or one that
`qmap_register_device` has made. -/
inductive QmapNet where
  | null
  | real
  | qmap
  deriving DecidableEq, Repr

def Config.mpQmapNetDev (c : Config) (i : ℕ) : QmapNet :=
  if c.mode = 1 then
    if i = 0 then
      if c.useRmnetUsb then if c.registers 0 then .qmap else .null else .real
    else .null
  else if i < c.mode ∧ c.registers i then .qmap else .null

/-- `priv->link_state`, `IFF_UP` and the carrier of an interface. -/
structure Iface where
  linkState : Bool
  up : Bool
  carrier : Bool
  deriving DecidableEq, Repr

structure St where
  qmapMode : ℕ
  mpQmapNetDev : ℕ → QmapNet
  linkState : BitVec 32
  baseUp : Bool
  baseCarrier : Bool
  priv : ℕ → Iface

/-- After the probe, with the interface of the USB device down. -/
def Config.probe (c : Config) : St where
  qmapMode := c.mode
  mpQmapNetDev := c.mpQmapNetDev
  linkState := if c.mode ≠ 0 then if c.lteA then 0 else 1 else 1
  baseUp := false
  baseCarrier := decide ¬ (c.mode ≠ 0 ∧ c.lteA)
  priv := fun _ => ⟨false, false, false⟩

/-- `!!(link_state & (1 << offset_id))`. -/
def bitOf (w : BitVec 32) (i : ℕ) : Bool := w &&& 1#32 <<< i != 0#32

/-- `offset_id`, unsigned. -/
def offsetId (v : ℕ) : ℕ := (v % 128 + 2 ^ 32 - 1) % 2 ^ 32

/-- The interface, and the word after a write of `v`; `none` if nothing is changed. -/
def newLink (s : St) (v : ℕ) : Option (ℕ × BitVec 32) :=
  if s.qmapMode = 1 then some (0, if v % 2 ^ 32 ≠ 0 then 1 else 0)
  else if 1 < s.qmapMode then
    if s.qmapMode ≤ offsetId v then none
    else if v / 128 % 2 = 1 then some (offsetId v, s.linkState &&& ~~~(1#32 <<< offsetId v))
    else some (offsetId v, s.linkState ||| 1#32 <<< offsetId v)
  else some (0, s.linkState)

/-- The flag and the carrier of an interface get the new state. -/
def Iface.setLink (f : Iface) (link : Bool) : Iface where
  linkState := link
  up := f.up
  carrier := if f.up then link else f.carrier

def linkStateStore (s : St) (v : ℕ) : St :=
  match newLink s v with
  | none => s
  | some (i, link) =>
    if s.linkState = link then s
    else { s with
      linkState := link
      baseCarrier := if s.baseUp then decide (link ≠ 0) else s.baseCarrier
      priv := if s.mpQmapNetDev i = .qmap then
          Function.update s.priv i ((s.priv i).setLink (bitOf link i)) else s.priv }

/-- The interface of the USB device is opened and closed by `usbnet`, which leaves its carrier as
it says. -/
inductive Input where
  | linkStateStore (v : ℕ)
  | open (carrier : Bool)
  | stop (carrier : Bool)
  | qmapOpen (i : ℕ)
  | qmapStop (i : ℕ)
  deriving DecidableEq, Repr

/-- `qmi_wwan_open`. -/
def qmiWwanOpen (s : St) (carrier : Bool) : St :=
  { s with
    baseUp := true
    baseCarrier := carrier || (decide (s.qmapMode = 1) && decide (s.linkState ≠ 0)) }

/-- It fails if the interface of the USB device is down. -/
def qmapOpen (s : St) (i : ℕ) : St :=
  if s.baseUp then
    if (s.priv i).linkState then
      { s with
        baseCarrier := true
        priv := Function.update s.priv i { s.priv i with up := true, carrier := true } }
    else { s with priv := Function.update s.priv i { s.priv i with up := true } }
  else s

def qmapStop (s : St) (i : ℕ) : St :=
  { s with priv := Function.update s.priv i { s.priv i with up := false, carrier := false } }

/-- `none` where the input cannot happen: an interface is opened when it is down and stopped when it
is up. -/
def step (s : St) : Input → Option St
  | .linkStateStore v => some (linkStateStore s v)
  | .open carrier => if s.baseUp then none else some (qmiWwanOpen s carrier)
  | .stop carrier =>
    if s.baseUp then some { s with baseUp := false, baseCarrier := carrier } else none
  | .qmapOpen i =>
    if s.mpQmapNetDev i = .qmap ∧ ¬ (s.priv i).up then some (qmapOpen s i) else none
  | .qmapStop i =>
    if s.mpQmapNetDev i = .qmap ∧ (s.priv i).up then some (qmapStop s i) else none

end QmapLink

end BananaWrt
