import BananaWrt.Lib.Regex
import BananaWrt.Lib.Run
import BananaWrt.StopQmi
import Mathlib.Data.List.Infix
import Mathlib.Logic.Function.Basic

/-!
# Interfaces and the firewall

The init script sets up the interfaces `wwan_5g_N` and `wwan6_5g_N` of the modem `N` and adds each
to the zone `wan` of the firewall. `set_firewall` takes for the number of this zone the number of
lines that `uci show firewall` prints with `name='wan'`.
-/

namespace BananaWrt

namespace Firewall

open Regex (Re found)
open Dial (digits)

abbrev Text := List Char

/-- A section of a configuration. Each option has a list of values, most of them one. -/
structure Section where
  type : Text
  name : Option Text
  options : List (Text × List Text)
  name_plain : ∀ n ∈ name, ∀ c ∈ n, c.isAlphanum ∨ c = '_'

def zoneType : Text := ['z', 'o', 'n', 'e']
def nameOption : Text := ['n', 'a', 'm', 'e']
def networkOption : Text := ['n', 'e', 't', 'w', 'o', 'r', 'k']
def wan : Text := ['w', 'a', 'n']

namespace Section

variable (s : Section)

def get (option : Text) : List Text := (s.options.lookup option).getD []

/-- `list network` -/
def network : List Text := s.get networkOption

def IsWan : Prop := s.get nameOption = [wan]

instance : Decidable s.IsWan := inferInstanceAs (Decidable (_ = _))

end Section

/-- `uci add_list` for the options of a section; an option that is not there is new. -/
def addList (option value : Text) : List (Text × List Text) → List (Text × List Text)
  | [] => [(option, [value])]
  | o :: options =>
    if o.1 = option then (o.1, o.2 ++ [value]) :: options else o :: addList option value options

/-- The sections that `@zone[0]`, `@zone[1]`, … stand for. -/
def zones (firewall : List Section) : List Section := firewall.filter fun s => s.type = zoneType

/-- A change of `@zone[k]`; nothing happens if there are not so many. -/
def modifyZone (f : Section → Section) : ℕ → List Section → List Section
  | _, [] => []
  | k, s :: rest =>
    if s.type = zoneType then
      match k with
      | 0 => f s :: rest
      | k + 1 => s :: modifyZone f k rest
    else s :: modifyZone f k rest

def Section.addNetwork (interfaceName : Text) (s : Section) : Section :=
  { s with options := addList networkOption interfaceName s.options }

def apostrophe : Char := '\x27'

/-- A value between apostrophes, one in it written `'\''`. -/
def quoted (value : Text) : Text :=
  let escaped := value.flatMap fun c =>
    if c = apostrophe then [apostrophe, '\\', apostrophe, apostrophe] else [c]
  apostrophe :: escaped ++ [apostrophe]

/-- The values, with blanks between them. -/
def quotedAll : List Text → Text
  | [] => []
  | [value] => quoted value
  | value :: values => quoted value ++ ' ' :: quotedAll values

/-- The name of a section, or its type and number; `before` are the types of the sections before
it. -/
def ref (before : List Text) (s : Section) : Text :=
  s.name.getD ('@' :: s.type ++ '[' :: digits (before.count s.type) ++ [']'])

def optionLine (ref : Text) (option : Text × List Text) : Text :=
  "firewall.".toList ++ ref ++ '.' :: option.1 ++ '=' :: quotedAll option.2

def sectionLines (ref : Text) (s : Section) : List Text :=
  ("firewall.".toList ++ ref ++ '=' :: s.type) :: s.options.map (optionLine ref)

/-- `uci show firewall`, after sections of the types `before`. -/
def showFrom : List Text → List Section → List Text
  | _, [] => []
  | before, s :: rest => sectionLines (ref before s) s ++ showFrom (s.type :: before) rest

/-- `name='wan'` -/
def nameWan : Text := nameOption ++ '=' :: apostrophe :: wan ++ [apostrophe]

/-- `uci show firewall | grep "name='wan'" | wc -l` -/
def nameLines (firewall : List Section) : ℕ := (showFrom [] firewall).countP fun l => nameWan <:+: l

def isWordChar (c : Char) : Bool := c.isAlphanum || c == '_'

/-- `grep -w`, for a pattern that has no special characters. -/
def grepWord (pattern text : Text) : Bool :=
  found (.seq (.look fun before _ => !before.head?.any isWordChar)
    (.seq (.lit (fun c d => c = d) pattern) (.look fun _ after => !after.head?.any isWordChar))) text

/-- `wwan_5g_N` and `wwan6_5g_N` -/
inductive Interface where
  | ipv4 (modemNo : ℕ)
  | ipv6 (modemNo : ℕ)
  deriving DecidableEq, Repr

def Interface.name : Interface → Text
  | .ipv4 modemNo => ['w', 'w', 'a', 'n', '_', '5', 'g', '_'] ++ digits modemNo
  | .ipv6 modemNo => ['w', 'w', 'a', 'n', '6', '_', '5', 'g', '_'] ++ digits modemNo

/-- What `uci get` prints of a list. -/
def getText (values : List Text) : Text := [' '].intercalate values

/-- The interface is a word of what is printed for `@zone[num].network`. -/
def WwanFound (firewall : List Section) (num : ℕ) (i : Interface) : Prop :=
  ∃ z ∈ (zones firewall)[num]?, grepWord i.name (getText z.network)

instance (firewall : List Section) (num : ℕ) (i : Interface) :
    Decidable (WwanFound firewall num i) :=
  inferInstanceAs (Decidable (∃ z ∈ _, _))

def setFirewall (firewall : List Section) (i : Interface) : List Section :=
  let num := nameLines firewall
  if WwanFound firewall num i then firewall else modifyZone (Section.addNetwork i.name) num firewall

/-- `device` is the option `device` of the interfaces in the configuration `network`. `setUp` are
the interfaces that have been set up. -/
structure St where
  firewall : List Section
  device : Interface → Text
  setUp : List Interface

/-- What a call does for one interface. `set_ipv4_interface` and `set_ipv6_interface` differ in the
protocol. -/
inductive SetUp where
  | setInterface (i : Interface) (networkInterface : Text)
  | modemmanager (i : Interface) (path : Text)
  deriving DecidableEq

def SetUp.interface : SetUp → Interface
  | .setInterface i _ => i
  | .modemmanager i _ => i

def step (s : St) : SetUp → Option St
  | .setInterface i networkInterface => some
    { firewall := setFirewall s.firewall i
      device := Function.update s.device i networkInterface
      setUp := i :: s.setUp }
  | .modemmanager i path => some
    (if s.device i ≠ path then
      { firewall := setFirewall s.firewall i
        device := Function.update s.device i path
        setUp := i :: s.setUp }
    else { s with setUp := i :: s.setUp })

/-- `interfaceAlias` is the option `network_interface_alias`; `set_interface_modemmanager` is called
by `modemmanager` for the modem. -/
inductive Call where
  | setInterface (modemNo : ℕ) (networkInterface : Text) (pdpType interfaceAlias : String)
  | setInterfaceModemmanager (modemNo : ℕ) (path : Text)

/-- `set_ipv4v6_interface` for the modem. -/
def setIpv4v6Interface (modemNo : ℕ) (networkInterface : Text)
    (interfaceAlias : String) : List SetUp :=
  .setInterface (.ipv4 modemNo) networkInterface
    :: if interfaceAlias = "0" then [.setInterface (.ipv6 modemNo) networkInterface]
      else if interfaceAlias = "1" then
        [.setInterface (.ipv6 modemNo) ('@' :: (Interface.ipv4 modemNo).name)]
      else []

def Call.setUps : Call → List SetUp
  | .setInterface modemNo networkInterface pdpType interfaceAlias =>
    if pdpType = "ipv4" then [.setInterface (.ipv4 modemNo) networkInterface]
    else if pdpType = "ipv6" then [.setInterface (.ipv6 modemNo) networkInterface]
    else setIpv4v6Interface modemNo networkInterface interfaceAlias
  | .setInterfaceModemmanager modemNo path => [.modemmanager (.ipv4 modemNo) path]

/-- Before the calls. -/
def St.start (firewall : List Section) (device : Interface → Text) : St where
  firewall := firewall
  device := device
  setUp := []

/-- A firewall with one zone that is named `wan`. -/
structure Config where
  sections : List Section
  one_wan : (zones sections).countP (fun z => z.IsWan) = 1

/-- The number of the zone `wan`. -/
def wanNo (firewall : List Section) : ℕ := (zones firewall).findIdx fun z => z.IsWan

/-- The list of a zone. -/
def networkOf (firewall : List Section) (k : ℕ) : Option (List Text) :=
  ((zones firewall)[k]?).map Section.network

/-- How often the interface is in the list of `wan`. -/
def listedIn (firewall : List Section) (i : Interface) : ℕ :=
  ((networkOf firewall (wanNo firewall)).map fun network => network.count i.name).getD 0

/-- Each interface that was set up is once in the list of `wan`, and the other zones have the lists
that they had. -/
structure Right (c : Config) (s : St) : Prop where
  listed : ∀ i ∈ s.setUp, listedIn s.firewall i = 1
  others : ∀ k ≠ wanNo c.sections, networkOf s.firewall k = networkOf c.sections k

/-- `set_firewall` leaves the interface once in the list of `wan`. If the number of lines is that of
the zone, this is so if the interface is found exactly if it is there, and at most once. Otherwise
it has to be there, and to be found in the zone that has the number, if there is one. -/
def Joins (firewall : List Section) (i : Interface) : Prop :=
  if nameLines firewall = wanNo firewall then
    (WwanFound firewall (wanNo firewall) i ↔ listedIn firewall i = 1) ∧ listedIn firewall i ≤ 1
  else
    listedIn firewall i = 1
      ∧ (nameLines firewall < (zones firewall).length → WwanFound firewall (nameLines firewall) i)

/-- An interface of the Modem Manager that has its path already is left as it is. -/
def JoinsWan (s : St) : SetUp → Prop
  | .setInterface i _ => Joins s.firewall i
  | .modemmanager i path =>
    if s.device i ≠ path then Joins s.firewall i else listedIn s.firewall i = 1

end Firewall

end BananaWrt
