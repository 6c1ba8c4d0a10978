import Mathlib.Algebra.Group.Nat.Defs
import Mathlib.Data.Finset.Insert
import Mathlib.Data.Finset.Erase
import Mathlib.Data.Int.Notation
import BananaWrt.Lib.Ledger

/-!
# The LED trigger for network devices

`ledtrig-netdev.c` keeps an LED in step with a network device, which it finds by name: on while the
device has a link of a kind that is asked for, with a blink for each look at the counters that finds
new packets. It is told of what happens to all devices (`netdev_trig_notify`), of writes to its
attributes, and looks at the counters by a delayed work. Where the driver of the LED can do the same
by itself, it is handed the mode instead.

The devices are those of the kernel: a device that is registered is down, one that is up says so
when its carrier changes, and one that is unregistered goes down first. The LED core is taken at its
word: a blink ends with the LED on if it was inverted, else off. How bright on is, and devices of
other network namespaces, are left out.
-/

namespace BananaWrt

namespace LedNetdev

def EINVAL : ℤ := 22
def IFNAMSIZ : ℕ := 16
def NETDEV_LED_DEFAULT_INTERVAL : ℕ := 50
def SPEED_UNKNOWN : ℤ := -1
def SPEED_10 : ℤ := 10
def SPEED_100 : ℤ := 100
def SPEED_1000 : ℤ := 1000
def DUPLEX_HALF : ℕ := 0
def DUPLEX_FULL : ℕ := 1
def DUPLEX_UNKNOWN : ℕ := 255

/-- `enum led_trigger_netdev_modes`. A mode is the set of its bits. -/
inductive NetdevMode where
  | link
  | link10
  | link100
  | link1000
  | halfDuplex
  | fullDuplex
  | tx
  | rx
  deriving DecidableEq, Repr

/-- `settings` are the speed and the duplex mode that `__ethtool_get_link_ksettings` gives, if it
does not fail. -/
structure Dev where
  id : ℕ
  name : List Char
  up : Bool
  carrier : Bool
  settings : Option (ℤ × ℕ)
  deriving DecidableEq, Repr

/-- The driver of the LED: whether it has the functions for hardware control and names this trigger,
the device that it belongs to, the modes it can do, and the one that `hw_control_get` gives. -/
structure Hw where
  supports : Bool
  device : Option ℕ
  isSupported : Finset NetdevMode → Bool
  mode : Option (Finset NetdevMode)
  hz : ℕ

def Hw.msecsToJiffies (hw : Hw) (ms : ℕ) : ℕ := (ms * hw.hz + 999) / 1000

/-- What the LED has been told last. -/
inductive Led where
  | soft (on : Bool)
  | hw (mode : Finset NetdevMode)
  deriving DecidableEq

/-- The devices, `struct led_netdev_data` with `work` for a pending work, what the LED has been told
since the trigger is active, and the references to devices. -/
structure St where
  devs : List Dev
  netDev : Option ℕ
  deviceName : List Char
  interval : ℕ
  lastActivity : ℕ
  mode : Finset NetdevMode
  linkSpeed : ℤ
  duplex : ℕ
  carrierLinkUp : Bool
  hwControl : Bool
  work : Bool
  led : Option Led
  refs : Ledger ℕ

namespace St

variable (s : St)

def setDevs (devs : List Dev) : St := { s with devs := devs }

def dev (d : ℕ) : Option Dev := s.devs.find? fun v => v.id = d

/-- `blink_on` of `set_baseline_state`. -/
def blinkOn : Bool :=
  .link ∈ s.mode
    ∨ .link10 ∈ s.mode ∧ s.linkSpeed = SPEED_10
    ∨ .link100 ∈ s.mode ∧ s.linkSpeed = SPEED_100
    ∨ .link1000 ∈ s.mode ∧ s.linkSpeed = SPEED_1000
    ∨ .halfDuplex ∈ s.mode ∧ s.duplex = DUPLEX_HALF
    ∨ .fullDuplex ∈ s.mode ∧ s.duplex = DUPLEX_FULL

/-- The counters are to be looked at. -/
def counts : Bool := .tx ∈ s.mode ∨ .rx ∈ s.mode

def setBaselineState : St :=
  if s.hwControl then { s with led := some (.hw s.mode) }
  else if ¬ s.carrierLinkUp then { s with led := some (.soft false) }
  else { s with led := some (.soft s.blinkOn), work := s.work || s.counts }

def validateNetDev (hw : Hw) : Bool := hw.device.isSome ∧ s.netDev = hw.device

def canHwControl (hw : Hw) : Bool :=
  hw.supports ∧ s.interval = hw.msecsToJiffies NETDEV_LED_DEFAULT_INTERVAL ∧ s.validateNetDev hw
    ∧ hw.isSupported s.mode

/-- The device is looked at. -/
def useDev (d : ℕ) : St := { s with refs := s.refs.use d }

/-- What `get_device_state` keeps of what it finds. -/
def getLink : Option Dev → St
  | none => { s with carrierLinkUp := false }
  | some v =>
    if ¬ v.carrier then { s with carrierLinkUp := false }
    else
      match v.settings with
      | none => { s with carrierLinkUp := true }
      | some (speed, duplex) =>
        { s with carrierLinkUp := true, linkSpeed := speed, duplex := duplex }

def getDeviceState : St :=
  match s.netDev with
  | none => s
  | some d => (s.useDev d).getLink (s.dev d)

/-- `link_speed`, `duplex` and `carrier_link_up` before the device is looked at. -/
def unknown : St :=
  { s with carrierLinkUp := false, linkSpeed := SPEED_UNKNOWN, duplex := DUPLEX_UNKNOWN }

/-- `cancel_delayed_work_sync`, and a work that runs. -/
def cancelWork : St := { s with work := false }

/-- `dev_put` does nothing if there is no device. -/
def putDev : St :=
  match s.netDev with
  | none => s
  | some d => { s with netDev := none, refs := s.refs.drop d }

def holdDev (d : ℕ) : St := { s with netDev := some d, refs := s.refs.take d }

end St

/-- The C string that `device_name` is after a write: up to the line feed at its end, if there is
one, and up to the first zero. -/
def nameOf (buf : List Char) : List Char :=
  (if buf.getLast? = some '\n' then buf.dropLast else buf).takeWhile fun c => c ≠ '\x00'

section Attributes

variable (hw : Hw) (s : St)

/-- `dev_get_by_name`. -/
def getByName (name : List Char) : Option Dev := s.devs.find? fun v => v.name = name

def setDeviceName (name : List Char) : Except ℤ St :=
  if IFNAMSIZ ≤ name.length then .error (- EINVAL)
  else
    let s := s.cancelWork.putDev
    let s := { s with deviceName := nameOf name }
    let s := if s.deviceName ≠ [] then
        match getByName s s.deviceName with
        | none => s
        | some v => s.holdDev v.id
      else s
    let s := s.unknown.getDeviceState
    .ok { s with lastActivity := 0 }.setBaselineState

/-- A write that fails changes nothing. -/
def written : Except ℤ St → St
  | .ok s => s
  | .error _ => s

def deviceNameStore (buf : List Char) : Except ℤ St := setDeviceName s buf

/-- `value` is the result of `kstrtoul`. -/
def netdevLedAttrStore (attr : NetdevMode) (value : Except ℤ ℕ) : Except ℤ St :=
  match value with
  | .error ret => .error ret
  | .ok state =>
    let mode := if state ≠ 0 then insert attr s.mode else s.mode.erase attr
    if .link ∈ mode ∧ (.link10 ∈ mode ∨ .link100 ∈ mode ∨ .link1000 ∈ mode) then
      .error (- EINVAL)
    else
      let s := { s.cancelWork with mode := mode }
      .ok { s with hwControl := s.canHwControl hw }.setBaselineState

def intervalStore (value : Except ℤ ℕ) : Except ℤ St :=
  if s.hwControl then .error (- EINVAL)
  else
    match value with
    | .error ret => .error ret
    | .ok value =>
      if 5 ≤ value ∧ value ≤ 10000 then
        .ok { s.cancelWork with interval := hw.msecsToJiffies value }.setBaselineState
      else .ok s

end Attributes

/-- The other events are ignored. -/
inductive Event where
  | up
  | down
  | change
  | register
  | unregister
  | changename
  deriving DecidableEq, Repr

section Notify

variable (s : St)

/-- The device of the trigger, or one that has got its name. -/
def Notices (evt : Event) (d : ℕ) (name : List Char) : Prop :=
  s.netDev = some d ∨ (evt = .changename ∧ name = s.deviceName)
    ∨ (evt = .register ∧ name = s.deviceName)

instance (evt : Event) (d : ℕ) (name : List Char) : Decidable (Notices s evt d name) :=
  inferInstanceAs (Decidable (_ ∨ _ ∨ _))

def handle (evt : Event) (d : ℕ) : St :=
  match evt with
  | .changename => (s.putDev.holdDev d).getDeviceState
  | .register => s.putDev.holdDev d
  | .unregister => s.putDev
  | .up | .change => s.getDeviceState
  | .down => s

/-- `d` and `name` are those of `dev`. -/
def netdevTrigNotify (evt : Event) (d : ℕ) (name : List Char) : St :=
  if ¬ Notices s evt d name then s
  else (handle s.cancelWork.unknown evt d).setBaselineState

/-- `new_activity`, from the counters of the device. -/
def newActivity (txPackets rxPackets : ℕ) : ℕ :=
  ((if .tx ∈ s.mode then txPackets else 0) + if .rx ∈ s.mode then rxPackets else 0) % 2 ^ 32

def invert : Bool :=
  .link ∈ s.mode ∨ .link10 ∈ s.mode ∨ .link100 ∈ s.mode ∨ .link1000 ∈ s.mode
    ∨ .halfDuplex ∈ s.mode ∨ .fullDuplex ∈ s.mode

/-- The LED blinks if there has been activity. -/
def noteActivity (activity : ℕ) : St :=
  if s.lastActivity ≠ activity then
    { s with led := some (.soft (invert s)), lastActivity := activity }
  else s

/-- `netdev_trig_work` from where it has a device. -/
def lookAtCounters (d txPackets rxPackets : ℕ) : St :=
  if ¬ s.counts then s
  else { noteActivity (s.useDev d) (newActivity s txPackets rxPackets) with work := true }

def netdevTrigWork (txPackets rxPackets : ℕ) : St :=
  match s.netDev with
  | none => { s.cancelWork with led := some (.soft false) }
  | some d => lookAtCounters s.cancelWork d txPackets rxPackets

end Notify

/-- `register_netdevice_notifier` tells of the devices that there are. -/
def replay (s : St) : List Dev → St
  | [] => s
  | v :: vs =>
    let s := netdevTrigNotify s .register v.id v.name
    replay (if v.up then netdevTrigNotify s .up v.id v.name else s) vs

/-- `unregister_netdevice_notifier` does as if they all went. -/
def unreplay (s : St) : List Dev → St
  | [] => s
  | v :: vs =>
    let s := if v.up then netdevTrigNotify s .down v.id v.name else s
    unreplay (netdevTrigNotify s .unregister v.id v.name) vs

def fresh (hw : Hw) (devs : List Dev) : St where
  devs := devs
  netDev := none
  deviceName := []
  interval := hw.msecsToJiffies NETDEV_LED_DEFAULT_INTERVAL
  lastActivity := 0
  mode := ∅
  linkSpeed := 0
  duplex := 0
  carrierLinkUp := false
  hwControl := false
  work := false
  led := none
  refs := .clean 0

/-- What `hw_control_get_device` gives is a device that is registered. -/
def Hw.dev (hw : Hw) (devs : List Dev) : Option Dev :=
  if hw.supports then hw.device.bind fun d => devs.find? fun v => v.id = d else none

/-- The LED is under the control of its driver already. -/
def takeOver (hw : Hw) (s : St) (v : Dev) : St :=
  { written s (setDeviceName s v.name) with hwControl := true, mode := hw.mode.getD s.mode }

def netdevTrigActivate (hw : Hw) (devs : List Dev) : St :=
  match hw.dev devs with
  | none => replay (fresh hw devs) devs
  | some v => replay (takeOver hw (fresh hw devs) v) devs

def netdevTrigDeactivate (s : St) : St :=
  let s := (unreplay s s.devs).cancelWork
  { s with led := some (.soft false) }.putDev

/-- `dev_valid_name`, as far as it matters here. -/
def ValidName (name : List Char) : Prop :=
  name ≠ [] ∧ name.length < IFNAMSIZ ∧ '\n' ∉ name ∧ '\x00' ∉ name

instance (name : List Char) : Decidable (ValidName name) :=
  inferInstanceAs (Decidable (_ ∧ _ ∧ _ ∧ _))

inductive Input where
  | register (v : Dev)
  | openDev (d : ℕ) (carrier : Bool) (settings : Option (ℤ × ℕ))
  | closeDev (d : ℕ)
  | change (d : ℕ) (carrier : Bool) (settings : Option (ℤ × ℕ))
  | rename (d : ℕ) (name : List Char)
  | unregister (d : ℕ)
  | deviceName (buf : List Char)
  | attr (attr : NetdevMode) (value : Except ℤ ℕ)
  | interval (value : Except ℤ ℕ)
  | work (txPackets rxPackets : ℕ)

namespace St

variable (s : St)

/-- Something happens to a device, before the trigger hears of it. -/
def updateDev (d : ℕ) (f : Dev → Dev) : St :=
  s.setDevs (s.devs.map fun v => if v.id = d then f v else v)

def closeDev (v : Dev) : St :=
  if v.up then
    netdevTrigNotify (s.updateDev v.id fun v => { v with up := false }) .down v.id v.name
  else s

end St

/-- `none` where the input cannot happen. -/
def step (hw : Hw) (s : St) : Input → Option St
  | .register v =>
    if v.up = false ∧ ValidName v.name ∧ ∀ w ∈ s.devs, w.id ≠ v.id ∧ w.name ≠ v.name then
      some (netdevTrigNotify (s.setDevs (s.devs ++ [v])) .register v.id v.name)
    else none
  | .openDev d carrier settings => do
    let v ← s.dev d
    if v.up then none
    else some (netdevTrigNotify
      (s.updateDev d fun v => { v with up := true, carrier := carrier, settings := settings })
      .up d v.name)
  | .closeDev d => do
    let v ← s.dev d
    if v.up then some (s.closeDev v) else none
  | .change d carrier settings => do
    let v ← s.dev d
    let s := s.updateDev d fun v => { v with carrier := carrier, settings := settings }
    some (if v.up then netdevTrigNotify s .change d v.name else s)
  | .rename d name => do
    let _ ← s.dev d
    if ValidName name ∧ ∀ w ∈ s.devs, w.name ≠ name then
      some (netdevTrigNotify (s.updateDev d fun v => { v with name := name }) .changename d name)
    else none
  | .unregister d => do
    let v ← s.dev d
    let s := s.closeDev v
    some (netdevTrigNotify (s.setDevs (s.devs.filter fun w => w.id ≠ d)) .unregister d v.name)
  | .deviceName buf => some (written s (deviceNameStore s buf))
  | .attr attr value => some (written s (netdevLedAttrStore hw s attr value))
  | .interval value => some (written s (intervalStore hw s value))
  | .work tx rx => if s.work then some (netdevTrigWork s tx rx) else none

/-! ## What it is for -/

namespace St

variable (s : St)

def device : Option Dev := s.netDev.bind s.dev

/-- The device of the trigger is up and has its carrier on. -/
def linkUp : Bool := s.device.any fun v => v.up && v.carrier

/-- The speed and the duplex mode of the device. -/
def settings : ℤ × ℕ := (s.device.bind Dev.settings).getD (SPEED_UNKNOWN, DUPLEX_UNKNOWN)

/-- What the LED is to do. -/
def wanted : Led := if s.hwControl then .hw s.mode else .soft (s.carrierLinkUp && s.blinkOn)

end St

/-- The trigger knows the link of its device, and has handed the LED over only for what its driver
can do; the LED is as it is to be, and the counters are looked at if they are to be. -/
structure Follows (hw : Hw) (s : St) : Prop where
  carrier : s.carrierLinkUp = s.linkUp
  settings : s.linkUp = true → (s.linkSpeed, s.duplex) = s.settings
  hwControl : s.hwControl = true → s.canHwControl hw = true
  led : ∀ l ∈ s.led, l = s.wanted
  work : s.work = (!s.hwControl && s.carrierLinkUp && s.counts)

/-- The only reference is the one to the device of the trigger, which is registered. -/
structure Refs (s : St) : Prop where
  refs : s.refs = .clean (s.netDev.toList : Multiset ℕ)
  registered : ∀ d ∈ s.netDev, (s.dev d).isSome = true

end LedNetdev

end BananaWrt
