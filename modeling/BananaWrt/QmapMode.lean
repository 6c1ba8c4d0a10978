import BananaWrt.ResolvConf
import BananaWrt.UserInput

/-!
# The network interface of a QMAP data call

`qmap_bridge_mode.c` finds out how many interfaces the driver multiplexes, and chooses one of them
by the digits that `-n` and `-m` had: from what the driver says of them, from the number of them
alone, or from the list in `add_mux`.
-/

namespace BananaWrt

namespace QmapMode

open AtChannel (Line)
open ResolvConf (decimal)

/-- A file in `/sys`. One that is denied fails for another reason than `ENOENT`. -/
inductive File
  | present (content : Line)
  | missing
  | denied
  deriving DecidableEq, Repr

/-- What the driver says of its interfaces, `IFNAMSIZ` being 16. -/
structure RmnetInfo where
  size : ℕ
  rxUrbSize : ℕ
  qmapMode : ℕ
  qmapVersion : ℕ
  ifname : Fin 8 → Line
  muxId : Fin 8 → UInt8
  ifname_short : ∀ i, (ifname i).length < 16

structure Sys where
  /-- What the link to the driver ends in. -/
  driver : Line
  /-- What the `ioctl` copies, none if it fails. -/
  rmnetInfo : Option RmnetInfo
  files : Line → File

def atoi (s : Line) : ℤ := UserInput.atoi (s.map UserInput.ch)

/-- What is put into a buffer. -/
def qlFread (sys : Sys) (filename : Line) (size : ℕ) : Line :=
  match sys.files filename with
  | .present content => content.take size
  | _ => []

structure Profile where
  qmichannel : Line
  usbnetAdapter : Line
  driverName : Line
  pdp : ℤ
  muxid : ℤ
  qmapMode : ℤ
  qmapnetAdapter : Line
  qmapSize : ℤ
  qmapVersion : ℤ
  deriving DecidableEq, Repr

def qmidevIsQmiwwan (qmichannel : Line) : Bool := "/dev/cdc-wdm".toList.isPrefixOf qmichannel

/-- What was read of an array: an entry of the driver's, or a byte of `add_mux`. -/
inductive Read
  | entry (i : ℤ)
  | byte (i : ℤ)
  deriving DecidableEq, Repr

/-- The profile at the end, and what was read on the way. There is none if an array was left. -/
structure Detected where
  profile : Profile
  reads : List Read
  deriving DecidableEq, Repr

def RmnetInfo.entry (info : RmnetInfo) (i : ℤ) : Option (Line × UInt8) :=
  if h : 0 ≤ i ∧ i < 8 then
    let k : Fin 8 := ⟨i.toNat, by omega⟩
    some (info.ifname k, info.muxId k)
  else none

/-- The part of `ql_qmi_qmap_mode_detect` with a driver that says what it has. -/
def fromRmnetInfo (profile : Profile) (info : RmnetInfo) : Option Detected :=
  let profile := { profile with qmapMode := info.qmapMode }
  if info.qmapMode = 0 then some ⟨profile, []⟩
  else
    let offsetId :=
      if info.qmapMode = 1 then 0
      else if profile.muxid = 0 then profile.pdp - 1
      else profile.muxid - 0x81
    (info.entry offsetId).map fun (ifname, muxId) =>
      ⟨{ profile with
          muxid := muxId.toNat
          qmapnetAdapter := ifname
          qmapSize := info.rxUrbSize
          qmapVersion := info.qmapVersion }, [.entry offsetId]⟩

/-- The part with a `qmap_mode` that can be read. -/
def fromQmapMode (profile : Profile) (buf : Line) : Profile :=
  if buf = [] then profile
  else
    let profile := { profile with qmapMode := atoi buf }
    if 1 < profile.qmapMode then
      let muxid := if profile.muxid = 0 then profile.pdp + 0x80 else profile.muxid
      { profile with
        muxid
        qmapnetAdapter := profile.usbnetAdapter.take 16 ++ '.' :: decimal (muxid - 0x80) }
    else if profile.qmapMode = 1 then
      { profile with muxid := 0x81, qmapnetAdapter := profile.usbnetAdapter }
    else profile

/-- A byte of the buffer, which has 128 bytes and is filled up with zeros. -/
def byteAt (buf : Line) (i : ℤ) : Option ℤ :=
  if 0 ≤ i ∧ i < 128 then some (buf.getD i.toNat '\x00').toNat else none

/-- The multiplexer id that is read from the line with the given index. -/
def muxidAt (buf : Line) (line : ℤ) : Option ℤ :=
  (byteAt buf (5 * line + 2)).bind fun high =>
    (byteAt buf (5 * line + 3)).map fun low =>
      (high - '0'.toNat) * 16 + (low - '0'.toNat)

def readsAt (line : ℤ) : List Read := [.byte (5 * line + 2), .byte (5 * line + 3)]

def qmimux (i : ℤ) : Line := "qmimux".toList ++ decimal i

/-- The part with the driver of the kernel. With `-m` it is the id just read that names the
interface. -/
def fromAddMux (profile : Profile) (buf : Line) : Option Detected :=
  if buf.length < 5 then some ⟨profile, []⟩
  else
    let profile := { profile with qmapMode := (buf.length / 5 : ℕ) }
    if 1 < profile.qmapMode then
      if profile.muxid = 0 then
        (muxidAt buf (profile.pdp - 1)).map fun muxid =>
          ⟨{ profile with muxid, qmapnetAdapter := qmimux (profile.pdp - 1) },
            readsAt (profile.pdp - 1)⟩
      else
        (muxidAt buf (profile.muxid - 0x81)).map fun muxid =>
          ⟨{ profile with muxid, qmapnetAdapter := qmimux (muxid - 0x81) },
            readsAt (profile.muxid - 0x81)⟩
    else
      (muxidAt buf 0).map fun muxid =>
        ⟨{ profile with muxid, qmapnetAdapter := qmimux 0 }, readsAt 0⟩

def sysNet (name leaf : Line) : Line := "/sys/class/net/".toList ++ name ++ leaf

/-- Where `qmap_mode` may be. -/
def qmapModePaths (profile : Profile) : List Line :=
  [sysNet profile.usbnetAdapter "/qmap_mode".toList,
    "/sys/module/".toList ++ profile.driverName ++ "/parameters/qmap_mode".toList,
    sysNet profile.usbnetAdapter "/device/driver/module/parameters/qmap_mode".toList]

/-- The first of some files that is not missing. -/
def probe (sys : Sys) (paths : List Line) : File :=
  ((paths.map sys.files).find? (· ≠ .missing)).getD .missing

/-- What is done at `_out`. -/
def out (sys : Sys) (profile : Profile) : Profile :=
  if profile.qmapMode = 0 then profile
  else
    let buf := qlFread sys (sysNet profile.usbnetAdapter "/qmap_size".toList) 32
    { profile with
      qmapSize :=
        if profile.qmapSize = 0 then if buf = [] then 16 * 1024 else atoi buf
        else profile.qmapSize
      qmapVersion := if profile.qmapVersion = 0 then 5 else profile.qmapVersion }

def Sys.readableMux (sys : Sys) (i : ℤ) : Prop :=
  ∃ content, sys.files (sysNet (qmimux i) []) = .present content

instance (sys : Sys) (i : ℤ) : Decidable (sys.readableMux i) :=
  match h : sys.files (sysNet (qmimux i) []) with
  | .present content => .isTrue ⟨content, h⟩
  | .missing => .isFalse fun ⟨_, hc⟩ => by rw [h] at hc; cases hc
  | .denied => .isFalse fun ⟨_, hc⟩ => by rw [h] at hc; cases hc

/-- What is done before `_out`. -/
def detectQmi (sys : Sys) (profile : Profile) : Option Detected :=
  match sys.rmnetInfo.filter fun info => info.size ≠ 0 with
  | some info => fromRmnetInfo profile info
  | none =>
    match probe sys (qmapModePaths profile) with
    | .denied => some ⟨profile, []⟩
    | .present content => some ⟨fromQmapMode profile (content.take 128), []⟩
    | .missing =>
      if qmidevIsQmiwwan profile.qmichannel ∧ sys.readableMux (profile.pdp - 1) then
        fromAddMux profile
          (qlFread sys (sysNet profile.usbnetAdapter "/qmi/add_mux".toList) 128)
      else some ⟨profile, []⟩

def qlQmiQmapModeDetect (sys : Sys) (profile : Profile) : Option Detected :=
  (detectQmi sys { profile with driverName := sys.driver.take 31 }).map fun d =>
    { d with profile := out sys d.profile }

/-- The data call of MBIM is a session, which has the number of the PDN. -/
def qlMbimMhiQmapModeDetect (sys : Sys) (profile : Profile) : Option Detected :=
  match sys.rmnetInfo.filter fun info => info.size ≠ 0 with
  | none => some ⟨profile, []⟩
  | some info =>
    let profile := { profile with qmapMode := info.qmapMode }
    if info.qmapMode = 0 then some ⟨profile, []⟩
    else
      let offsetId := if info.qmapMode = 1 then 0 else profile.pdp - 1
      (info.entry offsetId).map fun (ifname, _) =>
        ⟨{ profile with
            muxid := profile.pdp
            qmapnetAdapter := ifname
            qmapSize := info.rxUrbSize
            qmapVersion := info.qmapVersion }, [.entry offsetId]⟩

/-- The driver says nothing of its interfaces. -/
def Sys.NoInfo (sys : Sys) : Prop := ∀ info, sys.rmnetInfo = some info → info.size = 0

def Sys.qmapModeFile (sys : Sys) (profile : Profile) : File :=
  probe sys (qmapModePaths { profile with driverName := sys.driver.take 31 })

/-- The last argument that an option has among some words. -/
def argOf (letter : Char) : List Bytes → Option Bytes
  | [] => none
  | word :: words =>
    (argOf letter words).or
      (if word.headD 0 = UserInput.ch '-' ∧ word.getD 1 0 = UserInput.ch letter then
        (UserInput.takeArg words).map Prod.fst
      else none)

open QmiRequests in
/-- The words after the name of the program, without an `&` at their end. -/
def words (argv : List Bytes) : List Bytes :=
  (if argv.getLast? = some (ascii "&") then argv.dropLast else argv).tail

/-- The entry that is selected by `-n`, which is the first one without it. -/
def selectedPdn (argv : List Bytes) : ℤ :=
  ((argOf 'n' (words argv)).map UserInput.digit).getD UserInput.CONFIG_DEFAULT_PDP - 1

/-- The entry that is selected by `-m` if that is given, and by `-n` otherwise. -/
def selected (argv : List Bytes) : ℤ :=
  match argOf 'm' (words argv) with
  | some arg => UserInput.digit arg - 1
  | none => selectedPdn argv

def Read.In (mode : ℤ) : Read → Prop
  | .entry i => 0 ≤ i ∧ i < mode
  | .byte i => 0 ≤ i ∧ i < 5 * mode

/-- Nothing is read but of the entries that exist. -/
def Safe (r : Option Detected) : Prop :=
  ∃ d, r = some d ∧ ∀ read ∈ d.reads, read.In d.profile.qmapMode

/-- The multiplexer and the interface are those of one of the driver's entries, and only entries
were read. -/
def ChoosesEntry (r : Option Detected) (info : RmnetInfo) (k : ℤ) : Prop :=
  Safe r ∧ ∃ d, r = some d ∧ ∃ i : Fin 8, (i : ℤ) = k ∧ d.profile.muxid = (info.muxId i).toNat
    ∧ d.profile.qmapnetAdapter = info.ifname i

/-- If the `k`-th of the `mode` entries is there, only such entries are read, and something is true
of the profile. -/
def Chooses (r : Option Detected) (mode k : ℤ) (P : Profile → Prop) : Prop :=
  0 ≤ k → k < mode → Safe r ∧ ∀ d, r = some d → d.profile.qmapMode = mode ∧ P d.profile

/-- Of a single interface there is no choice. -/
def choice (mode k : ℤ) : ℤ := if mode = 1 then 0 else k

/-- A line of `add_mux`. -/
def muxLine (id : UInt8) : Line :=
  "0x".toList ++ [Nat.digitChar (id.toNat / 16), Nat.digitChar (id.toNat % 16), '\n']

def addMux (ids : List UInt8) : Line := ids.flatMap muxLine

/-- Both digits of an id are decimal. -/
def Decimal (id : UInt8) : Prop := id.toNat / 16 < 10 ∧ id.toNat % 16 < 10

/-- No interface is chosen and nothing is read. -/
def Leaves (r : Option Detected) (profile : Profile) : Prop :=
  ∃ q, r = some ⟨q, []⟩ ∧ q.muxid = profile.muxid ∧ q.qmapnetAdapter = profile.qmapnetAdapter

/-- The interface that the command line stands for is the one that is chosen. -/
structure Selects (argv : List Bytes) (sys : Sys) (profile : Profile) : Prop where
  off : ∀ info, sys.rmnetInfo = some info → info.size ≠ 0 → info.qmapMode = 0 →
    Leaves (qlQmiQmapModeDetect sys profile) profile
      ∧ Leaves (qlMbimMhiQmapModeDetect sys profile) profile
  /-- For QMI the driver's entry is selected by `-m` or `-n`. -/
  qmi : ∀ info, sys.rmnetInfo = some info → info.size ≠ 0 → 1 ≤ info.qmapMode →
    info.qmapMode ≤ 8 → Chooses (qlQmiQmapModeDetect sys profile) info.qmapMode
      (choice info.qmapMode (selected argv)) fun q =>
        ∀ i : Fin 8, (i : ℤ) = choice info.qmapMode (selected argv) →
          q.muxid = (info.muxId i).toNat ∧ q.qmapnetAdapter = info.ifname i
  /-- For MBIM it is selected by `-n`, and is for the session with that number. -/
  mbim : ∀ info, sys.rmnetInfo = some info → info.size ≠ 0 → 1 ≤ info.qmapMode →
    info.qmapMode ≤ 8 → Chooses (qlMbimMhiQmapModeDetect sys profile) info.qmapMode
      (choice info.qmapMode (selectedPdn argv)) fun q =>
        q.muxid = selectedPdn argv + 1
        ∧ ∀ i : Fin 8, (i : ℤ) = choice info.qmapMode (selectedPdn argv) →
          q.qmapnetAdapter = info.ifname i
  /-- With nothing but the number of interfaces there is no entry to read, and both are made up
  from what is selected. -/
  counted : ∀ content, sys.NoInfo → sys.qmapModeFile profile = .present content → content ≠ [] →
    ∃ q, qlQmiQmapModeDetect sys profile = some ⟨q, []⟩ ∧ q.qmapMode = atoi (content.take 128)
      ∧ (1 < q.qmapMode → q.muxid = selected argv + 0x81
        ∧ q.qmapnetAdapter = profile.usbnetAdapter.take 16 ++ '.' :: decimal (selected argv + 1))
      ∧ (q.qmapMode = 1 → q.muxid = 0x81 ∧ q.qmapnetAdapter = profile.usbnetAdapter)
  /-- The line of `add_mux` is selected as an entry of the driver's is. It takes decimal digits to
  read it, and the interface goes by the selection if that was not made by `-m`. -/
  listed : ∀ ids : List UInt8, sys.NoInfo → sys.qmapModeFile profile = .missing →
    qmidevIsQmiwwan profile.qmichannel → sys.readableMux (profile.pdp - 1) →
    sys.files (sysNet profile.usbnetAdapter "/qmi/add_mux".toList) = .present (addMux ids) →
    ids ≠ [] → Chooses (qlQmiQmapModeDetect sys profile) (min ids.length 25 : ℕ)
      (choice (min ids.length 25 : ℕ) (selected argv)) fun q =>
        (∀ (k : ℕ) (hk : k < ids.length), (k : ℤ) = choice (min ids.length 25 : ℕ) (selected argv) →
          Decimal ids[k] → q.muxid = ids[k].toNat)
        ∧ (ids.length = 1 ∨ argOf 'm' (words argv) = none →
          q.qmapnetAdapter = qmimux (choice (min ids.length 25 : ℕ) (selected argv)))
  /-- The interface of the PDN has to be there. -/
  unlisted : sys.NoInfo → sys.qmapModeFile profile = .missing →
    ¬ (qmidevIsQmiwwan profile.qmichannel ∧ sys.readableMux (profile.pdp - 1)) →
    Leaves (qlQmiQmapModeDetect sys profile) profile

end QmapMode

end BananaWrt
