import BananaWrt.ModemRegistry
import Mathlib.Data.List.Infix

/-!
# Dial configurations

The init script dials for each `dial-config` section that is enabled (`dial`) and stops the dial of
each that is not (`stop_dial`). Which section dials on a network is noted in the run file, a record
`network,id` a line, which `grep`, `awk` and `sed` search for the name of a network or for an id. A
reload first removes records (`del_dial_config`) and then handles the sections in their order. The
name of a section is its id.
-/

namespace BananaWrt

namespace Dial

open Regex (found)
open Registry (agree)

/-- The name of a network interface. -/
structure Name where
  chars : List Char
  plain : ∀ c ∈ chars, c.isAlphanum ∨ c ∈ ['_', '.', '-']
  head_ne : ∀ c ∈ chars.head?, c ≠ '-'
  ne_nil : chars ≠ []
  deriving DecidableEq

/-- The id of a section, also its name. -/
structure Id where
  chars : List Char
  plain : ∀ c ∈ chars, c.isAlphanum ∨ c = '_'
  ne_nil : chars ≠ []
  deriving DecidableEq

/-- A record of the run file. -/
structure Rec where
  network : Name
  id : Id
  deriving DecidableEq

def Rec.line (r : Rec) : List Char := r.network.chars ++ ',' :: r.id.chars

/-- The record is found when the name is the pattern. -/
def Name.Finds (n : Name) (r : Rec) : Prop := found (.lit agree n.chars) r.line

def Id.Finds (i : Id) (r : Rec) : Prop := found (.lit agree i.chars) r.line

instance (n : Name) (r : Rec) : Decidable (n.Finds r) := inferInstanceAs (Decidable (_ = _))

instance (i : Id) (r : Rec) : Decidable (i.Finds r) := inferInstanceAs (Decidable (_ = _))

structure DialSection where
  id : Id
  enable : Bool
  network : Name
  deriving DecidableEq

/-- The options `network` and `net_driver` of a `modem-device` section. -/
structure Modem where
  network : Option Name
  netDriver : String

inductive Mode where
  | qmi
  | gobinet
  | ecm
  | mbim
  | rndis
  | ncm
  | unknown
  deriving DecidableEq

/-- The sections `modem0` up to the number below `modem_number`. -/
structure Cfg where
  modems : List Modem

variable (c : Cfg)

/-- `modem_no` after `get_modem_no`: a number that was set before stays if no modem is found. -/
def Cfg.getModemNo (network : Name) (modemNo : Option ℕ) : Option ℕ :=
  (c.modems.findIdx? fun m => m.network = some network).or modemNo

/-- The test for `mhi_wwan_mbim` is not written as a test, and fails. -/
def Cfg.getMode (modemNo : ℕ) : Mode :=
  let driver := ((c.modems[modemNo]?).map Modem.netDriver).getD ""
  if "qmi_wwan".toList <:+: driver.toList ∨ driver = "mhi_wwan_ctrl" ∨ driver = "mhi_net"
    ∨ driver = "mhi_netdev" then .qmi
  else if "GobiNet".toList <:+: driver.toList then .gobinet
  else if driver = "cdc_ether" then .ecm
  else if driver = "cdc_mbim" then .mbim
  else if driver = "rndis_host" then .rndis
  else if driver = "cdc_ncm" then .ncm
  else .unknown

/-- `file` is the run file, without records if it does not exist. `todo` are the sections that a
reload has still to handle. `stops` has the calls of the stop operation of a mode, `dials` those of
its dial operation. -/
structure St where
  sections : List DialSection
  file : List Rec
  modemNo : Option ℕ
  todo : List DialSection
  stops : List (Mode × Name)
  dials : List (Mode × Rec)

def St.start : St where
  sections := []
  file := []
  modemNo := none
  todo := []
  stops := []
  dials := []

/-- A record is removed whose id is not that of the first or the second section. -/
def delDialConfig (s : St) : St :=
  { s with
    file := s.file.foldl
      (fun file r => if r.id ∈ (s.sections.take 2).map DialSection.id then file
        else file.filter fun r' => ¬ r.id.Finds r')
      s.file }

/-- `stop_dial` for the section. -/
def stopDial (s : St) (t : DialSection) : St :=
  if ∃ r ∈ s.file, t.network.Finds r then
    let s := { s with
      file := s.file.filter fun r => ¬ t.id.Finds r
      modemNo := c.getModemNo t.network s.modemNo }
    match s.modemNo with
    | none => s
    | some modemNo =>
      if c.getMode modemNo = .unknown then s
      else { s with stops := s.stops ++ [(c.getMode modemNo, t.network)] }
  else s

/-- `uci set modem.$1.enable=0` -/
def St.disable (s : St) (i : Id) : St :=
  { s with sections := s.sections.map fun t => if t.id = i then { t with enable := false } else t }

/-- `dial` for the section, as the configuration was loaded. -/
def dial (s : St) (t : DialSection) : St :=
  if ¬ t.enable then stopDial c s t
  else
    let s := { s with modemNo := c.getModemNo t.network s.modemNo }
    match s.modemNo with
    | none => s
    | some modemNo =>
      let mode := c.getMode modemNo
      let configId := (s.file.filter fun r => t.network.Finds r).map Rec.id
      if mode = .unknown then s.disable t.id
      else if configId = [] then
        { s with
          file := s.file ++ [⟨t.network, t.id⟩]
          dials := s.dials ++ [(mode, ⟨t.network, t.id⟩)] }
      else if configId ≠ [t.id] then s.disable t.id
      else { s with dials := s.dials ++ [(mode, ⟨t.network, t.id⟩)] }

/-- The sections have distinct ids, and their networks belong to modems with a known driver. -/
def WellFormed (sections : List DialSection) : Prop :=
  (sections.map DialSection.id).Nodup
    ∧ ∀ t ∈ sections, ∃ no ∈ c.getModemNo t.network none, c.getMode no ≠ .unknown

instance (sections : List DialSection) : Decidable (WellFormed c sections) :=
  inferInstanceAs (Decidable (_ ∧ _))

/-- `edit` changes the sections between reloads, `reload` starts one, and `next` handles the next
section. -/
inductive Input where
  | edit (sections : List DialSection)
  | reload
  | next

def step (s : St) : Input → Option St
  | .edit sections =>
    if s.todo = [] ∧ WellFormed c sections then some { s with sections := sections } else none
  | .reload =>
    if s.todo = [] then some { delDialConfig s with todo := s.sections, modemNo := none } else none
  | .next =>
    match s.todo with
    | t :: rest => some { dial c s t with todo := rest }
    | [] => none

/-- At most one record a network, each of a section that is enabled and has that network. -/
structure St.OneDial (s : St) : Prop where
  unique : (s.file.map Rec.network).Nodup
  named : ∀ r ∈ s.file, ∃ t ∈ s.sections, t.id = r.id ∧ t.enable ∧ t.network = r.network

instance (s : St) : Decidable s.OneDial :=
  decidable_of_iff ((s.file.map Rec.network).Nodup
      ∧ ∀ r ∈ s.file, ∃ t ∈ s.sections, t.id = r.id ∧ t.enable ∧ t.network = r.network)
    ⟨fun ⟨hu, hn⟩ => ⟨hu, hn⟩, fun ⟨hu, hn⟩ => ⟨hu, hn⟩⟩

/-- What the section `t` may do: it is refused only if another section is recorded for its network,
and if it is not itself recorded, it neither removes another's record nor stops a dial. -/
structure Fair (s s' : St) (t : DialSection) : Prop where
  refused : t.enable → (∃ u ∈ s'.sections, u.id = t.id ∧ ¬ u.enable) →
    ∃ r ∈ s.file, r.network = t.network ∧ r.id ≠ t.id
  records : ⟨t.network, t.id⟩ ∉ s.file → ∀ r ∈ s.file, r.id ≠ t.id → r ∈ s'.file
  stops : ⟨t.network, t.id⟩ ∉ s.file → s'.stops = s.stops

instance (s s' : St) (t : DialSection) : Decidable (Fair s s' t) :=
  decidable_of_iff ((t.enable → (∃ u ∈ s'.sections, u.id = t.id ∧ ¬ u.enable) →
        ∃ r ∈ s.file, r.network = t.network ∧ r.id ≠ t.id)
      ∧ (⟨t.network, t.id⟩ ∉ s.file → ∀ r ∈ s.file, r.id ≠ t.id → r ∈ s'.file)
      ∧ (⟨t.network, t.id⟩ ∉ s.file → s'.stops = s.stops))
    ⟨fun ⟨hf, hr, hs⟩ => ⟨hf, hr, hs⟩, fun ⟨hf, hr, hs⟩ => ⟨hf, hr, hs⟩⟩

/-- The section that is handled is fair, and a reload that ends leaves one dial a network. -/
def RightAfter (s : St) : Input → Prop
  | .edit _ => True
  | .reload => ∀ s' ∈ step c s .reload, s'.todo = [] → s'.OneDial
  | .next => ∀ s' ∈ step c s .next, (s'.todo = [] → s'.OneDial) ∧ ∀ t ∈ s.todo.head?, Fair s s' t

instance (s : St) : ∀ i, Decidable (RightAfter c s i)
  | .edit _ => .isTrue trivial
  | .reload => inferInstanceAs (Decidable (∀ s' ∈ step c s .reload, s'.todo = [] → s'.OneDial))
  | .next => inferInstanceAs (Decidable (∀ s' ∈ step c s .next,
      (s'.todo = [] → s'.OneDial) ∧ ∀ t ∈ s.todo.head?, Fair s s' t))

/-- At a reload, neither of the first two sections has a record for another network than its own. A
section that is not enabled finds its network only if it is recorded for it. One that is enabled
finds another's record only if there is one for exactly its network. -/
def KeepsDial (s : St) : Input → Prop
  | .edit _ => True
  | .reload => ∀ r ∈ s.file, ∀ t ∈ s.sections.take 2, t.id = r.id → t.network = r.network
  | .next => ∀ t ∈ s.todo.head?,
    if t.enable then (∃ r ∈ s.file, t.network.Finds r ∧ r.id ≠ t.id) →
      ∃ r ∈ s.file, r.network = t.network ∧ r.id ≠ t.id
    else (∃ r ∈ s.file, t.network.Finds r) → ⟨t.network, t.id⟩ ∈ s.file

instance (s : St) : ∀ i, Decidable (KeepsDial s i)
  | .edit _ => .isTrue trivial
  | .reload => inferInstanceAs
    (Decidable (∀ r ∈ s.file, ∀ t ∈ s.sections.take 2, t.id = r.id → t.network = r.network))
  | .next => inferInstanceAs (Decidable (∀ t ∈ s.todo.head?, if t.enable then _ else _))

end Dial

end BananaWrt
