import Mathlib.Data.List.AList
import BananaWrt.Lib.Regex
import BananaWrt.Lib.Run

/-!
# The registry of modems

Hotplug events, scans and the init script keep the `modem-device` sections `modem0`, `modem1`, …,
the option `modem_number` of the global section and a cache of the device paths that have been
processed (`modem_util.sh`, `modem_init.sh`, `modem_scan.sh`, `init.d/modem`). The cache is a text
file that `sed` and `awk` search for a path, of whose characters the dot is special in a regular
expression. `manual_configuration` is 0.
-/

namespace BananaWrt

namespace Registry

open Regex (Re found)

/-- A path under `/sys`, of letters, digits and a few signs. -/
structure Path where
  chars : List Char
  plain : ∀ c ∈ chars, c.isAlphanum ∨ c ∈ ['/', ':', '.', '-', '_']
  deriving DecidableEq

/-- A dot stands for any character. -/
def agree (c d : Char) : Bool := c == '.' || c == d

/-- `,processed` -/
def processedField : List Char := [',', 'p', 'r', 'o', 'c', 'e', 's', 's', 'e', 'd']

/-- The line of the cache for a path; there is no status but `processed`. -/
def Path.line (p : Path) : List Char := p.chars ++ processedField

/-- The line is found when the path is the pattern. -/
def Path.Finds (p : Path) (line : List Char) : Prop := found (.lit agree p.chars) line

instance (p : Path) (line : List Char) : Decidable (p.Finds line) :=
  inferInstanceAs (Decidable (_ = _))

/-- The options of a section that are set here. -/
structure Section where
  dataInterface : String
  path : Path
  driver : String
  name : Option String
  manufacturer : Option String
  deriving DecidableEq

/-- A device: its path, the driver it is bound to, and what `m_get_vendor_id` prints of it. -/
structure Device where
  path : Path
  driver : String
  vendor : Option String
  deriving DecidableEq

/-- `vendor_support.json`. -/
def vendorSupport : List (String × String) :=
  [("2c7c", "quectel"), ("2cb7", "fibocom"), ("3763", "fibocom"), ("3c93", "fibocom"),
    ("0e8d", "fibocom"), ("2dee", "meig"), ("05c6", "meig"), ("12d1", "huawei"),
    ("17cb", "qualcomm")]

/-- The manufacturer, for a supported device. -/
def Device.manufacturer (d : Device) : Option String :=
  d.vendor.bind fun vendor => vendorSupport.lookup vendor

/-- `cache` are the paths of the lines of the cache. `expected` are the paths that have been added
or found by the last scan, and not removed since. -/
structure Reg where
  sections : AList fun _ : ℕ => Section
  modemNumber : ℕ
  cache : List Path
  expected : List Path

/-- As installed and started. -/
def Reg.start : Reg where
  sections := ∅
  modemNumber := 0
  cache := []
  expected := []

namespace Reg

variable (s : Reg)

def mDelPhysicalPathStatus (p : Path) : Reg :=
  { s with cache := s.cache.filter fun q => ¬ p.Finds q.line }

/-- A word for each line that is found. -/
def mGetPhysicalPathStatus (p : Path) : List String :=
  (s.cache.filter fun q => p.Finds q.line).map fun _ => "processed"

def mSetPhysicalPathStatus (p : Path) : Reg :=
  let s := s.mDelPhysicalPathStatus p
  { s with cache := s.cache ++ [p] }

def modemInit : Reg :=
  { s with
    sections := (List.range s.modemNumber).foldl (fun l i => l.erase i) s.sections
    modemNumber := 0 }

/-- An option that the section has besides stays. -/
def setSection (no : ℕ) (dataInterface : String) (path : Path) (driver : String) :
    AList fun _ : ℕ => Section :=
  s.sections.insert no
    { dataInterface, path, driver
      name := (s.sections.lookup no).bind Section.name
      manufacturer := (s.sections.lookup no).bind Section.manufacturer }

/-- Also the number that it prints. -/
def mSetModemHardwareConfig (d : Device) : Reg × ℕ :=
  let s := if s.cache = [] then s.modemInit else s
  let s := s.mSetPhysicalPathStatus d.path
  let modemNo := s.modemNumber
  ({ s with
      modemNumber := modemNo + 1
      sections := s.setSection modemNo (if d.driver = "usb" then "usb" else "pcie") d.path d.driver },
    modemNo)

def mSetModemConfig (d : Device) (manufacturer : String) : Reg :=
  let (s, modemNo) := s.mSetModemHardwareConfig d
  match s.sections.lookup modemNo with
  | some sec =>
    { s with
      sections := s.sections.insert modemNo
        { sec with name := some (manufacturer ++ " modem"), manufacturer := some manufacturer } }
  | none => s

/-- `m_handle_device`, after `m_get_vendor_id`. -/
def mHandleDevice (d : Device) : Reg :=
  match d.manufacturer with
  | some manufacturer => s.mSetModemConfig d manufacturer
  | none => s

/-- The first section of those counted whose path it is. -/
def modemNo (p : Path) : Option ℕ :=
  (List.range s.modemNumber).find? fun i => (s.sections.lookup i).map Section.path = some p

def mDelModemConfig (p : Path) : Reg :=
  match s.modemNo p with
  | none => s
  | some no =>
    { s with
      sections := s.sections.erase no
      modemNumber := s.modemNumber - 1 }.mDelPhysicalPathStatus p

end Reg

/-- `scan` has the devices that are found on the buses. -/
inductive Input where
  | add (d : Device)
  | remove (p : Path)
  | scan (ds : List Device)
  | start

/-- The action `add` of `m_set_physical_device`. -/
def addDevice (s : Reg) (d : Device) : Reg :=
  if s.mGetPhysicalPathStatus d.path = ["processed"] then s else s.mHandleDevice d

/-- `modem_scan`, with the action `scan` for each device. -/
def modemScan (s : Reg) (ds : List Device) : Reg :=
  ds.foldl Reg.mHandleDevice s.modemInit

/-- The part of `start_service` that counts the sections. -/
def startService (s : Reg) : Reg := { s with modemNumber := s.sections.keys.length }

/-- The paths of the supported devices. -/
def supported (ds : List Device) : List Path :=
  (ds.filter fun d => d.manufacturer.isSome).map Device.path

def step (s : Reg) : Input → Option Reg
  | .add d => some { addDevice s d with
      expected := s.expected.filter (· ∉ supported [d]) ++ supported [d] }
  | .remove p => some { s.mDelModemConfig p with expected := s.expected.filter (· ≠ p) }
  | .scan ds => some { modemScan s ds with expected := supported ds }
  | .start => some (startService s)

/-- The modem of that number has that path. -/
def Reg.Registered (s : Reg) (no : ℕ) (p : Path) : Prop :=
  ∃ sec, s.sections.lookup no = some sec ∧ sec.path = p

structure Reg.Right (s : Reg) : Prop where
  numbers : ∀ no, no ∈ s.sections ↔ no < s.modemNumber
  distinct : ∀ no no' p, s.Registered no p → s.Registered no' p → no = no'
  expected : ∀ p, (∃ no, s.Registered no p) ↔ p ∈ s.expected

/-- An input leads to a registry that is right, and if it adds a device, keeps the sections of the
others. -/
def RightAfter (s : Reg) (i : Input) : Prop :=
  ∀ s' ∈ step s i, s'.Right
    ∧ ∀ d, i = .add d → ∀ no sec, s.sections.lookup no = some sec → s'.sections.lookup no = some sec

/-- Only the modem with the last number is removed, and a device that is added and whose path is
still in the cache is registered. -/
def KeepsNumbers (s : Reg) : Input → Prop
  | .add d => d.manufacturer.isSome → d.path ∈ s.cache → ∃ no, s.Registered no d.path
  | .remove p => ∀ no, s.Registered no p → no + 1 = s.modemNumber
  | _ => True

/-- Of two paths neither is found in the line of the other. -/
def Apart (D : Set Path) : Prop := ∀ p ∈ D, ∀ q ∈ D, p ≠ q → ¬ p.Finds q.line

/-- The paths are in `D`, and a scan finds a device once. -/
def Input.On (D : Set Path) : Input → Prop
  | .add d => d.path ∈ D
  | .remove p => p ∈ D
  | .scan ds => (∀ d ∈ ds, d.path ∈ D) ∧ (ds.map Device.path).Nodup
  | .start => True

end Registry

end BananaWrt
