import Mathlib.Algebra.Group.Nat.Defs
import Mathlib.Data.Int.Notation
import BananaWrt.Lib.Ledger
import BananaWrt.Lib.Run

/-!
# What the PCIe driver of MHI takes from the kernel

`mhi_pci_probe` enables the device, maps its registers, takes its interrupts and powers MHI up;
`mhi_pci_device_removed` gives all of it back, and so do their error paths for what has been taken
by then. A controller stays registered when a probe fails, and the next probe finds it again.

The PCI core calls `remove` only for a device that is bound, and it takes a probe that returns what
is not negative for a success. What a call of the kernel returns is part of an input. The state
changes of MHI during power down, and the attribute `power_up` of debug mode, are left out.
-/

namespace BananaWrt

namespace MhiPci

def EIO : ℤ := 5
def ENOMEM : ℤ := 12
def EINVAL : ℤ := 22

/-- The vector of an interrupt, and whether it is for the controller or for an event ring. -/
inductive Res where
  | region
  | device
  | regs
  | vectors
  | irqTable
  | irq (vector : ℕ) (event : Option ℕ)
  | ctxt
  | ctrlSeg
  deriving DecidableEq, Repr

/-- `debug_mode`, and `NUM_MHI_EVT_RINGS`. -/
structure Cfg where
  debugMode : Bool
  evRings : ℕ

def msiIrqBase : ℕ := 0

structure MhiEvent where
  offloadEv : Bool
  msi : ℕ
  deriving DecidableEq, Repr

/-- `msi_allocated` and `pre_init` are those of `mhi_controller`, `powered_on` that of `mhi_dev`. -/
structure Ctl where
  mhiEvent : List MhiEvent
  msiRequired : ℕ
  msiAllocated : ℕ
  preInit : Bool
  poweredOn : Bool
  deriving DecidableEq, Repr

/-- `of_parse_ev_cfg`, as far as interrupts go. -/
def ofParseEvCfg (num : ℕ) : Ctl where
  mhiEvent := (List.range num).map fun i => ⟨false, 1 + i + msiIrqBase⟩
  msiRequired := num + 1 + msiIrqBase
  msiAllocated := 0
  preInit := false
  poweredOn := false

/-- What the calls of `mhi_power_up` return: error numbers, 0 for none. `sysErr` says that the
device stays in `MHI_STATE_SYS_ERR`, and `request k` is for the call `k` of `request_irq`. -/
structure PowerUp where
  sysErr : Bool
  kzallocFails : Bool
  ctrlSegFails : Bool
  misaligned : Bool
  request : ℕ → ℕ
  bhiOff : ℕ
  bhieOff : ℕ

/-- What the calls of a probe return. `vectors` is the value of `pci_alloc_irq_vectors`, and
`irqVector i` that of `pci_irq_vector`; `dmaMask` is what `ret` is after the calls for it. -/
structure Probe where
  alive : Bool
  registerFails : Bool
  assign : ℕ
  enable : ℕ
  region : ℕ
  dmaMask : ℕ
  ioremapFails : Bool
  vectors : ℤ
  irqTableFails : Bool
  irqVector : ℕ → ℤ
  powerUp : PowerUp

namespace Ctl

variable (c : Ctl)

/-- The interrupts of the event rings, in the order of the loops over them. -/
def eventIrqs : List Res :=
  (c.mhiEvent.zipIdx.filter fun e => ¬ e.1.offloadEv).map fun e => .irq e.1.msi (some e.2)

/-- What `mhi_init_irq_setup` does to the event rings if there is only one vector, and what
`mhi_init_dev_ctxt` does to them. -/
def oneMsi : Ctl := { c with mhiEvent := c.mhiEvent.map fun e => { e with msi := 0 } }

def ctxtMsi : Ctl :=
  if c.msiAllocated = 1 then
    { c with mhiEvent := c.mhiEvent.map fun e => if e.offloadEv then e else { e with msi := 0 } }
  else c

def mhiDeinitFreeIrq (l : Ledger Res) : Ledger Res :=
  let l := l.use .irqTable
  if c.msiAllocated = 1 then l.drop (.irq msiIrqBase none)
  else (l.dropAll c.eventIrqs).drop (.irq msiIrqBase none)

end Ctl

/-- The loop of `mhi_init_irq_setup`. `before` are the interrupts that it has come past, the last
one first; those and the controller's are freed if a request fails. -/
def requestIrqs (request : ℕ → ℕ) : ℕ → List Res → List Res → Ledger Res → Ledger Res × ℤ
  | _, _, [], l => (l, 0)
  | k, before, r :: rs, l =>
    if request k ≠ 0 then ((l.dropAll before).drop (.irq 0 none), -(request k : ℤ))
    else requestIrqs request (k + 1) (r :: before) rs (l.take r)

def mhiInitIrqSetup (c : Ctl) (request : ℕ → ℕ) (l : Ledger Res) : Ctl × Ledger Res × ℤ :=
  let l := l.use .irqTable
  if c.msiAllocated = 1 then
    if request 0 ≠ 0 then (c.oneMsi, l, -(request 0 : ℤ))
    else (c.oneMsi, l.take (.irq 0 none), 0)
  else if request 0 ≠ 0 then (c, l, -(request 0 : ℤ))
  else (c, requestIrqs request 1 [] c.eventIrqs (l.take (.irq msiIrqBase none)))

def mhiInitDevCtxt (c : Ctl) (o : PowerUp) (l : Ledger Res) : Ctl × Ledger Res × ℤ :=
  if o.kzallocFails then (c, l, - ENOMEM)
  else
    let l := l.take .ctxt
    if o.ctrlSegFails then (c, l.drop .ctxt, - ENOMEM)
    else
      let l := l.take .ctrlSeg
      if o.misaligned then (c, (l.drop .ctrlSeg).drop .ctxt, - ENOMEM)
      else (c.ctxtMsi, l, 0)

def mhiDeinitDevCtxt (l : Ledger Res) : Ledger Res := (l.drop .ctrlSeg).drop .ctxt

/-- The labels of `mhi_async_power_up`. -/
def errorSetupIrq (c : Ctl) (l : Ledger Res) : Ledger Res :=
  if c.preInit then l else mhiDeinitDevCtxt l

def errorBhiOffset (c : Ctl) (l : Ledger Res) : Ledger Res :=
  errorSetupIrq c (if c.preInit then l else c.mhiDeinitFreeIrq l)

/-- `mhi_async_power_up` from where the offsets are read. -/
def readOffsets (c : Ctl) (o : PowerUp) (l : Ledger Res) : Ctl × Ledger Res × ℤ :=
  let l := l.use .regs
  if o.bhiOff ≠ 0 then (c, errorBhiOffset c l, -(o.bhiOff : ℤ))
  else if o.bhieOff ≠ 0 then (c, errorBhiOffset c l, -(o.bhieOff : ℤ))
  else (c, l, 0)

def mhiAsyncPowerUp (c : Ctl) (o : PowerUp) (l : Ledger Res) : Ctl × Ledger Res × ℤ :=
  if c.preInit then readOffsets c o l
  else
    let (c, l, ret) := mhiInitDevCtxt c o l
    if ret ≠ 0 then (c, l, ret)
    else
      let (c, l, ret) := mhiInitIrqSetup c o.request l
      if ret ≠ 0 then (c, errorSetupIrq c l, ret)
      else readOffsets c o l

/-- The state of the device is read first. -/
def mhiPowerUp (c : Ctl) (o : PowerUp) (l : Ledger Res) : Ctl × Ledger Res × ℤ :=
  let l := l.use .regs
  if o.sysErr then (c, l, - EIO) else mhiAsyncPowerUp c o l

def mhiPowerDown (c : Ctl) (l : Ledger Res) : Ledger Res :=
  if c.preInit then l else mhiDeinitDevCtxt (c.mhiDeinitFreeIrq l)

/-- `pci_free_irq_vectors` and `kfree` do nothing if there is nothing to free. -/
def mhiDeinitPciDev (l : Ledger Res) : Ledger Res :=
  ((((l.release .vectors).release .irqTable).drop .regs).drop .region).drop .device

/-- The labels of `mhi_init_pci_dev`, from the last one on. -/
def errorEnableDevice (l : Ledger Res) : Ledger Res := l.drop .region

def errorRequestRegion (l : Ledger Res) : Ledger Res := errorEnableDevice (l.drop .device)

def errorIoremap (l : Ledger Res) : Ledger Res := errorRequestRegion l

def errorReqMsi (l : Ledger Res) : Ledger Res := errorIoremap (l.drop .regs)

def errorAllocMsiVec (l : Ledger Res) : Ledger Res := errorReqMsi (l.release .vectors)

def errorGetIrqVec (l : Ledger Res) : Ledger Res := errorAllocMsiVec (l.release .irqTable)

/-- `mhi_init_pci_dev` from where it looks at the number of vectors. -/
def initIrqs (c : Ctl) (o : Probe) (l : Ledger Res) : Ctl × Ledger Res × ℤ :=
  if o.vectors < c.msiRequired ∧ o.vectors ≠ 1 then (c, errorReqMsi l, o.vectors)
  else
    let c := { c with msiAllocated := o.vectors.toNat }
    if o.irqTableFails then (c, errorAllocMsiVec l, - ENOMEM)
    else
      let l := l.take .irqTable
      match (List.range c.msiAllocated).find? fun i => o.irqVector i < 0 with
      | some i => (c, errorGetIrqVec l, o.irqVector i)
      | none => (c, l, 0)

def mhiInitPciDev (c : Ctl) (o : Probe) (l : Ledger Res) : Ctl × Ledger Res × ℤ :=
  if o.assign ≠ 0 then (c, l, -(o.assign : ℤ))
  else if o.enable ≠ 0 then (c, errorEnableDevice l, -(o.enable : ℤ))
  else
    let l := l.take .device
    if o.region ≠ 0 then (c, errorRequestRegion l, -(o.region : ℤ))
    else
      let l := l.take .region
      let ret : ℤ := -(o.dmaMask : ℤ)
      if o.ioremapFails then (c, errorIoremap l, ret)
      else
        let l := l.take .regs
        initIrqs c o (if 0 < o.vectors then l.take .vectors else l)

inductive Status where
  | unbound
  | bound (powered : Bool)
  deriving DecidableEq, Repr

/-- `ctl` is the controller that `mhi_bdf_to_controller` finds. `bound` says whether MHI has been
powered up. -/
structure St where
  ctl : Option Ctl
  status : Status
  ledger : Ledger Res

/-- What the PCI core makes of what a probe returns. -/
def statusOf (ret : ℤ) (powered : Bool) : Status := if 0 ≤ ret then .bound powered else .unbound

/-- `mhi_pci_probe` with a controller. -/
def probeCtl (cfg : Cfg) (c : Ctl) (o : Probe) (l : Ledger Res) : St :=
  let (c, l, ret) := mhiInitPciDev { c with poweredOn := true } o l
  if ret ≠ 0 then ⟨some c, statusOf ret false, l⟩
  else if cfg.debugMode then ⟨some c, statusOf 0 false, l⟩
  else
    let (c, l, ret) := mhiPowerUp c o.powerUp l
    if ret ≠ 0 then ⟨some c, statusOf ret false, mhiDeinitPciDev l⟩
    else ⟨some c, statusOf 0 true, l⟩

def mhiPciProbe (cfg : Cfg) (s : St) (o : Probe) : St :=
  if ¬ o.alive then { s with status := statusOf (- EIO) false }
  else
    match s.ctl with
    | some c => probeCtl cfg c o s.ledger
    | none =>
      if o.registerFails then { s with status := statusOf (- EINVAL) false }
      else probeCtl cfg (ofParseEvCfg cfg.evRings) o s.ledger

def mhiPciDeviceRemoved (s : St) : St :=
  match s.ctl with
  | none => { s with status := .unbound }
  | some c =>
    if ¬ c.poweredOn then { s with status := .unbound }
    else ⟨none, .unbound, mhiDeinitPciDev (mhiPowerDown c s.ledger)⟩

inductive Input where
  | probe (o : Probe)
  | remove

/-- `pci_alloc_irq_vectors` returns an error, or from 1 to as many as it was asked for. -/
def Probe.Possible (o : Probe) (required : ℕ) : Prop := o.vectors ≠ 0 ∧ o.vectors ≤ required

instance (o : Probe) (required : ℕ) : Decidable (o.Possible required) :=
  inferInstanceAs (Decidable (_ ∧ _))

def step (cfg : Cfg) (s : St) : Input → Option St
  | .probe o =>
    if s.status = .unbound ∧ o.Possible (ofParseEvCfg cfg.evRings).msiRequired then
      some (mhiPciProbe cfg s o)
    else none
  | .remove => if s.status = .unbound then none else some (mhiPciDeviceRemoved s)

def initial : St := ⟨none, .unbound, .clean 0⟩

end MhiPci

end BananaWrt
