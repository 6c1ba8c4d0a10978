import BananaWrt.DialConfig
import BananaWrt.Lib.Run
import BananaWrt.StopQmi

/-!
# What a section does to a modem

`config_foreach dial` handles the sections one after the other in one shell. For each,
`get_modem_no` looks for the modem with the network of the section, and what it finds is in the
variable `modem_no` of the shell, with which the operations that dial and stop work: they set an
interface, send AT commands and open an instance. Where no modem is found the variable keeps the
number that an earlier section left.

The values of options have no blanks and no characters that the shell expands.
-/

namespace BananaWrt

namespace DialRun

open Dial

/-- The options of a `modem-device` section that the script reads; those that are not set are empty.
-/
structure Device extends Modem where
  manufacturer : String
  atPort : String
  platform : String
  defineConnect : String
  path : String
  networkInterface : String

/-- The options of a `dial-config` section. -/
structure DialOptions extends DialSection where
  dialTool : String
  pdpType : String
  networkBridge : String
  apn : String
  username : String
  password : String
  auth : String
  deriving DecidableEq

/-- What the script finds: the sections of the modems, the instances that are running, and for each
network whether its interface has no address. -/
structure Env where
  devices : List Device
  instances : List Instance
  nullMac : Name → Bool

inductive Effect where
  | setInterface (networkInterface pdpType : String)
  | setInterfaceModemmanager (interfaceName path : String)
  | setMac (network : Name)
  | at (atPort command : String)
  | openInstance (command : List String)
  | stop (e : StopEffect)
  | disable (id : Id)
  deriving DecidableEq

def scriptDir : String := "/usr/share/modem"

def modemRundir : String := "/var/run/modem"

namespace Env

variable (env : Env)

def cfg : Cfg := ⟨env.devices.map Device.toModem⟩

/-- An option of `modem${modem_no}`. -/
def option (modemNo : ℕ) (f : Device → String) : String := ((env.devices[modemNo]?).map f).getD ""

def stopQmi (network : Name) (modemNo : ℕ) : List Effect :=
  (Dial.stopQmi network.chars modemNo (env.option modemNo Device.path) env.instances).map .stop

/-- The shell expands `$QCRMCALL` and `${define_connect}` in the command for Meig, which are not
set. -/
def stopGobinet (network : Name) (modemNo : ℕ) : List Effect :=
  let atPort := env.option modemNo Device.atPort
  let manufacturer := env.option modemNo Device.manufacturer
  if manufacturer = "quectel" then env.stopQmi network modemNo ++ [.at atPort ""]
  else if manufacturer = "fibocom" then [.at atPort "AT$QCRMCALL=0,1"]
  else if manufacturer = "meig" then [.at atPort "AT=0,1,,2,1"]
  else [.at atPort "ATI"]

def stopEcm (modemNo : ℕ) : List Effect :=
  let atPort := env.option modemNo Device.atPort
  let manufacturer := env.option modemNo Device.manufacturer
  let defineConnect := env.option modemNo Device.defineConnect
  if manufacturer = "quectel" then [.at atPort ("AT+QNETDEVCTL=" ++ defineConnect ++ ",0,1")]
  else if manufacturer = "fibocom" then
    if env.option modemNo Device.platform = "mediatek" then
      [.at atPort ("AT+CGACT=0," ++ defineConnect)]
    else [.at atPort ("AT+GTRNDIS=0," ++ defineConnect)]
  else if manufacturer = "meig" ∨ manufacturer = "huawei" ∨ manufacturer = "tdtech" then
    [.at atPort ("AT^NDISDUP=" ++ defineConnect ++ ",0")]
  else [.at atPort "ATI"]

def stopMode (network : Name) (modemNo : ℕ) : Mode → List Effect
  | .qmi | .mbim => env.stopQmi network modemNo
  | .gobinet => env.stopGobinet network modemNo
  | .ecm | .rndis | .ncm => env.stopEcm modemNo
  | .unknown => []

/-- `tr 'a-z' 'A-Z'` -/
def upper (s : String) : String := s.map Char.toUpper

def connectPresets (t : DialOptions) (modemNo : ℕ) : List Effect :=
  let atPort := env.option modemNo Device.atPort
  let pdpType := if t.pdpType = "" then "IPV4V6" else upper t.pdpType
  [.at atPort "AT+COPS=0,0",
    .at atPort ("AT+CGDCONT=" ++ env.option modemNo Device.defineConnect ++ ",\"" ++ pdpType
      ++ "\",\"" ++ upper t.apn ++ "\"")]

def quectelCm (t : DialOptions) (modemNo : ℕ) : List Effect :=
  let mac := if env.option modemNo Device.manufacturer = "quectel" ∧ env.nullMac t.network then
    [Effect.setMac t.network] else []
  let family := if t.pdpType = "ipv4" then ["-4"] else if t.pdpType = "ipv6" then ["-6"]
    else ["-4", "-6"]
  let command := ["quectel-CM"] ++ family
    ++ (if t.networkBridge = "1" then ["-b"] else [])
    ++ (if t.apn ≠ "" then ["-s", t.apn] else [])
    ++ (if t.username ≠ "" then [t.username] else [])
    ++ (if t.password ≠ "" then [t.password] else [])
    ++ (if t.auth ≠ "none" then [t.auth] else [])
    ++ ["-i", String.ofList t.network.chars]
    ++ ["-f", modemRundir ++ "/modem" ++ toString modemNo ++ "_dial.cache"]
  mac ++ [.openInstance command]

/-- The instances of the task script. -/
def networkTask (t : DialOptions) (modemNo : ℕ) (mode : String) : Effect :=
  .openInstance ["sh", scriptDir ++ "/modem_network_task.sh", String.ofList t.id.chars,
    toString modemNo, mode]

def modemmanager (t : DialOptions) (modemNo : ℕ) : List Effect :=
  [.setInterfaceModemmanager ("wwan_5g_" ++ toString modemNo) (env.option modemNo Device.path),
    networkTask t modemNo "modemmanager"]

def qmi (t : DialOptions) (modemNo : ℕ) : List Effect :=
  if t.dialTool = "mmcli" then env.modemmanager t modemNo else env.quectelCm t modemNo

def gobinet (t : DialOptions) (modemNo : ℕ) : List Effect :=
  if env.option modemNo Device.manufacturer = "quectel" then env.qmi t modemNo
  else [networkTask t modemNo "gobinet"]

def dialMode (t : DialOptions) (modemNo : ℕ) : Mode → List Effect
  | .qmi | .mbim => env.qmi t modemNo
  | .gobinet => env.gobinet t modemNo
  | .ecm | .ncm => [networkTask t modemNo "ecm"]
  | .rndis => [networkTask t modemNo "rndis"]
  | .unknown => []

end Env

/-- The run file and the variable `modem_no`. -/
structure St where
  file : List Rec
  modemNo : Option ℕ
  deriving DecidableEq

/-- The record of a section. -/
def DialOptions.record (t : DialOptions) : Rec := ⟨t.network, t.id⟩

/-- The effects on a modem, each with the number that the operations worked with. -/
abbrev Effects := List (ℕ × Effect)

section Handle

variable (env : Env) (s : St) (t : DialOptions)

/-- `stop_dial` -/
def stopDial : St × Effects :=
  if ∃ r ∈ s.file, t.network.Finds r then
    let s := St.mk (s.file.filter fun r => ¬ t.id.Finds r)
      (env.cfg.getModemNo t.network s.modemNo)
    match s.modemNo with
    | none => (s, [])
    | some modemNo =>
      (s, (env.stopMode t.network modemNo (env.cfg.getMode modemNo)).map fun e => (modemNo, e))
  else (s, [])

def dial : St × Effects :=
  if ¬ t.enable then stopDial env s t
  else
    let s := St.mk s.file (env.cfg.getModemNo t.network s.modemNo)
    match s.modemNo with
    | none => (s, [])
    | some modemNo =>
      let mode := env.cfg.getMode modemNo
      let configId := (s.file.filter fun r => t.network.Finds r).map Rec.id
      let start := env.connectPresets t modemNo ++ env.dialMode t modemNo mode
      if mode = .unknown then (s, [(modemNo, .disable t.id)])
      else if configId = [] then
        ({ s with file := s.file ++ [t.record] },
          (.setInterface (env.option modemNo Device.networkInterface) t.pdpType :: start).map
            fun e => (modemNo, e))
      else if configId ≠ [t.id] then (s, [(modemNo, .disable t.id)])
      else (s, start.map fun e => (modemNo, e))

def step : Option St := some (dial env s t).1

end Handle

/-- The shell after the sections. -/
def after (env : Env) : St → List DialOptions → St
  | s, [] => s
  | s, t :: ts => after env (dial env s t).1 ts

/-- Before the first section. -/
def St.start (file : List Rec) : St where
  file := file
  modemNo := none

/-- The section works on the modem that has its network, and on none if there is no such modem. -/
def OwnModem (env : Env) (s : St) (t : DialOptions) : Prop :=
  ∀ e ∈ (dial env s t).2, env.cfg.getModemNo t.network none = some e.1

/-- What a section does is what it does without the sections with other networks before it. -/
def Independent (env : Env) (s : St) (ts : List DialOptions) : Prop :=
  ∀ ps t, ps ++ [t] <+: ts → (dial env (after env s ps) t).2
    = (dial env (after env s (ps.filter fun u => u.network = t.network)) t).2

/-- The stop operation of the modem does nothing: its driver is not known, or `stop_qmi` finds the
interface of the modem in no command. -/
def StopsNothing (env : Env) (modemNo : ℕ) : Prop :=
  env.cfg.getMode modemNo = .unknown
    ∨ (env.cfg.getMode modemNo = .qmi ∨ env.cfg.getMode modemNo = .mbim)
      ∧ ∀ n ∈ List.range' 1 env.instances.length, ¬ "wwan_5g_".toList ++ digits modemNo
          <:+: jq (response env.instances) ("instance".toList ++ digits n) .command

/-- A modem has the network of the section, or no section has left a number, or the section is not
enabled and has nothing to stop. -/
def OwnWhen (env : Env) (s : St) (t : DialOptions) : Prop :=
  ∀ modemNo ∈ s.modemNo, env.cfg.getModemNo t.network none = none →
    ¬ t.enable ∧ ((∃ r ∈ s.file, t.network.Finds r) → StopsNothing env modemNo)

/-- Among the records that there are and those that there were at first, the network of the section
finds only records of this network, and so does the id of one that is not enabled. -/
def Apart (file : List Rec) (s : St) (t : DialOptions) : Prop :=
  ∀ r ∈ file ++ s.file, (t.network.Finds r → r.network = t.network)
    ∧ (¬ t.enable → t.id.Finds r → r.network = t.network)

instance (file : List Rec) (s : St) (t : DialOptions) : Decidable (Apart file s t) :=
  inferInstanceAs (Decidable (∀ r ∈ file ++ s.file, _))

end DialRun

end BananaWrt
