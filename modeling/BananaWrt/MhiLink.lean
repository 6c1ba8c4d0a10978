import BananaWrt.QmapLink

/-!
# The link states of the PCIe driver

`mhi_netdev_quectel.c` has one copy of the link states, the bits of `mhi_netdev->link_state`, and
the carriers of the interface `rmnet_mhi` and of the virtual interfaces next to it. A write changes
a bit, the carrier of `rmnet_mhi` and that of the interface of the bit. A virtual interface that is
opened looks at the carrier of `rmnet_mhi` alone.
-/

namespace BananaWrt

namespace MhiLink

/-- The parameter `qmap_mode` of the module, and for which interfaces
`rmnet_vnd_register_device` has succeeded. -/
structure Config where
  qmapMode : ℕ
  registers : ℕ → Bool
  one_le : 1 ≤ qmapMode
  le_eight : qmapMode ≤ 8

/-- `IFF_UP` and the carrier of an interface. -/
structure Iface where
  up : Bool
  carrier : Bool
  deriving DecidableEq, Repr

structure St where
  qmapMode : ℕ
  mpQmapNetDev : ℕ → Bool
  linkState : BitVec 32
  ndev : Iface
  vnd : ℕ → Iface

/-- After the probe all interfaces are down and their carriers off. -/
def Config.probe (c : Config) : St where
  qmapMode := c.qmapMode
  mpQmapNetDev := fun i => decide (i < c.qmapMode) && c.registers i
  linkState := 0
  ndev := ⟨false, false⟩
  vnd := fun _ => ⟨false, false⟩

/-- `offset_id`, unsigned. -/
def offsetId (s : St) (v : ℕ) : ℕ :=
  if 1 < s.qmapMode then (v % 16 + 2 ^ 32 - 1) % 2 ^ 32 else 0

def newLink (s : St) (v : ℕ) : BitVec 32 :=
  if 1 < s.qmapMode then
    if 0 < v ∧ v ≤ s.qmapMode then s.linkState ||| 1#32 <<< offsetId s v
    else if 0x80 < v ∧ v ≤ 0x80 + s.qmapMode then s.linkState &&& ~~~(1#32 <<< offsetId s v)
    else s.linkState
  else if v ≠ 0 then 1 else 0

/-- `value` is what `simple_strtoul` returns, of which `link_state` has the low 32 bits. -/
def linkStateStore (s : St) (value : ℕ) : St :=
  let v := value % 2 ^ 32
  let link := newLink s v
  if s.linkState = link then s
  else { s with
    linkState := link
    ndev := { s.ndev with carrier := decide (link ≠ 0) }
    vnd := if s.mpQmapNetDev (offsetId s v) then
        Function.update s.vnd (offsetId s v)
          { s.vnd (offsetId s v) with carrier := QmapLink.bitOf link (offsetId s v) }
      else s.vnd }

/-- It fails if `rmnet_mhi` is down. -/
def rmnetVndOpen (s : St) (i : ℕ) : St :=
  if s.ndev.up then
    { s with vnd := Function.update s.vnd i ⟨true, (s.vnd i).carrier || s.ndev.carrier⟩ }
  else s

def rmnetVndStop (s : St) (i : ℕ) : St :=
  { s with vnd := Function.update s.vnd i ⟨false, false⟩ }

/-- `mhiNetdevUp` opens or closes `rmnet_mhi`, which leaves the carriers as they are. -/
inductive Input where
  | linkStateStore (value : ℕ)
  | mhiNetdevUp (up : Bool)
  | rmnetVndOpen (i : ℕ)
  | rmnetVndStop (i : ℕ)
  deriving DecidableEq, Repr

/-- `none` where the input cannot happen: an interface is opened when it is down and stopped when it
is up. -/
def step (s : St) : Input → Option St
  | .linkStateStore value => some (linkStateStore s value)
  | .mhiNetdevUp up => some { s with ndev := { s.ndev with up := up } }
  | .rmnetVndOpen i =>
    if s.mpQmapNetDev i ∧ ¬ (s.vnd i).up then some (rmnetVndOpen s i) else none
  | .rmnetVndStop i =>
    if s.mpQmapNetDev i ∧ (s.vnd i).up then some (rmnetVndStop s i) else none

/-- There are no bits beyond the interfaces, the carrier of `rmnet_mhi` is on if there is a bit at
all, and that of a virtual interface only if its own is set. -/
structure Agrees (s : St) : Prop where
  bits : ∀ i, s.qmapMode ≤ i → s.linkState.getLsbD i = false
  base : s.ndev.carrier = true ↔ s.linkState ≠ 0
  carrier : ∀ i, s.mpQmapNetDev i = true → (s.vnd i).carrier = true →
    s.linkState.getLsbD i = true

/-- A virtual interface that is opened while `rmnet_mhi` is up and has its carrier on has its own
bit set. -/
def OpensLinked (s : St) : Input → Prop
  | .rmnetVndOpen i => s.ndev.up = true → s.ndev.carrier = true → s.linkState.getLsbD i = true
  | _ => True

instance (s : St) : ∀ i, Decidable (OpensLinked s i)
  | .rmnetVndOpen _ => inferInstanceAs (Decidable (_ → _ → _))
  | .linkStateStore _ | .mhiNetdevUp _ | .rmnetVndStop _ => .isTrue trivial

end MhiLink

end BananaWrt
