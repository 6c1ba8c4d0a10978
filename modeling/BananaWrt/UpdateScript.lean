import BananaWrt.Lib.Bytes
import BananaWrt.Lib.Script
import BananaWrt.ModemRegistry
import Mathlib.Data.List.Infix

/-!
# The updater

`update-script.sh` fetches the images of a release into `/tmp` (`fota`), or takes those that are
there (`ota`). It checks that there are four, writes three of them to the boot partitions and starts
sysupgrade with the fourth. In the mode `packages` it installs packages instead. A run with
`--dry-run` says at each of these places what it would do. The prompt before the check can be left
with CTRL+C.
-/

namespace BananaWrt

namespace Updater

open Regex (Re found first)
open Registry (agree)
open Script

inductive Mode where
  | fota
  | ota
  | packages
  deriving DecidableEq

structure Options where
  mode : Mode
  dryRun : Bool
  reset : Bool
  deriving DecidableEq

def modeOf (word : String) : Option Mode :=
  if word = "fota" then some .fota
  else if word = "ota" then some .ota
  else if word = "packages" then some .packages
  else none

/-- The words that are left, after those that gave the mode and the flags. `none` is `usage`. -/
def readArgs : Option Mode → Bool → Bool → List String → Option Options
  | mode, dryRun, reset, [] => mode.map fun mode => ⟨mode, dryRun, reset⟩
  | mode, dryRun, reset, word :: words =>
    match modeOf word with
    | some mode' => if mode.isSome then none else readArgs (some mode') dryRun reset words
    | none =>
      if word = "--dry-run" then readArgs mode true reset words
      else if word = "--reset" then readArgs mode dryRun true words
      else none

inductive Partition where
  | boot0
  | p3
  | p4
  deriving DecidableEq

def Partition.name : Partition → String
  | .boot0 => "/dev/mmcblk0boot0"
  | .p3 => "/dev/mmcblk0p3"
  | .p4 => "/dev/mmcblk0p4"

/-- `files` are the images in `/tmp`, each under its path. `opkg` stands for the lists of packages
and the packages that are installed. -/
structure Device (Opkg : Type) where
  partitions : Partition → Bytes
  files : String → Option Bytes
  forceRo : Bool
  compatVersion : Option String
  customfeeds : List String
  opkg : Opkg

/-- A write to a partition, done to flash the image. -/
structure Write where
  partition : Partition
  image : String
  contents : Bytes
  deriving DecidableEq

/-- The device, and what a run has written to the partitions. -/
structure Machine (Opkg : Type) extends Device Opkg where
  writes : List Write

/-- The status, and the last error that was logged. -/
structure Exit where
  status : ℕ
  error : Option String
  deriving DecidableEq

def fail (error : String) : Exit := ⟨1, some error⟩

/-- What the script finds on the system and does not change: the commands it calls, the release the
system is, whether `force_ro` can be written, and what an arithmetic expansion gives. -/
structure System (Opkg : Type) where
  curl : Bool
  jq : Bool
  opkg : Bool
  distribRelease : String
  forceRoWritable : Bool
  arith : String → Option ℤ
  /-- The first of two versions in the order of `sort -V`. -/
  sortV : String → String → String
  listInstalled : Opkg → List String
  opkgUpdate : List String → Opkg → Opkg
  opkgInstall : String → Opkg → Opkg
  /-- The lines that `sysupgrade -T` prints. -/
  sysupgradeTest : String → Device Opkg → List String
  /-- The lines that `sysupgrade -n` (`true`) or `sysupgrade -k` prints. -/
  sysupgrade : Bool → String → Device Opkg → List String

structure ReleaseAsset where
  name : String
  url : Option String

structure Release where
  tagName : Option String
  assets : List ReleaseAsset

structure PackageIndex where
  architecture : Option String
  packages : List (String × String)

/-- What `curl -o` leaves in the file, nothing if it does not touch it, and whether it succeeds. -/
structure Download where
  contents : Option Bytes
  ok : Bool

/-- The arguments, what the network has, and what the user answers. -/
structure Inputs where
  args : List String
  releases : List Release
  packageIndex : Option PackageIndex
  curl : String → Download
  selection : String
  firmwareVersion : String
  proceed : String
  abort : Bool

variable {Opkg : Type}

abbrev Updates (Opkg α : Type) := Script Exit (Machine Opkg) α

/-- In the order in which they are fetched. -/
inductive Asset where
  | emmcPreloader
  | emmcBl31Uboot
  | initramfsRecovery
  | squashfsSysupgrade
  deriving DecidableEq

def Asset.all : List Asset :=
  [.emmcPreloader, .emmcBl31Uboot, .initramfsRecovery, .squashfsSysupgrade]

def Asset.suffix : Asset → String
  | .emmcPreloader => "emmc-preloader.bin"
  | .emmcBl31Uboot => "emmc-bl31-uboot.fip"
  | .initramfsRecovery => "initramfs-recovery.itb"
  | .squashfsSysupgrade => "squashfs-sysupgrade.itb"

def Asset.filename (version : String) (a : Asset) : String :=
  "immortalwrt-" ++ version ++ "-mediatek-filogic-bananapi_bpi-r3-mini-" ++ a.suffix

def Asset.path (version : String) (a : Asset) : String := "/tmp/" ++ a.filename version

/-- `.[index]` of `jq`, which counts from the end if the index is negative. -/
def releaseAt (releases : List Release) (index : ℤ) : Option Release :=
  if 0 ≤ index then releases[index.toNat]?
  else if -index ≤ releases.length then releases[releases.length - (-index).toNat]?
  else none

/-- What stands before the last occurrence of `w`. -/
def beforeLast (w : List Char) : List Char → Option (List Char)
  | [] => none
  | c :: cs =>
    match beforeLast w cs with
    | some v => some (c :: v)
    | none => if w <+: c :: cs then some [] else none

/-- `s/^immortalwrt-\(.*\)-mediatek.*$/\1/p` -/
def firmwareVersion (asset : String) : String :=
  if "immortalwrt-".toList <+: asset.toList then
    String.ofList ((beforeLast "-mediatek".toList
      (asset.toList.drop "immortalwrt-".length)).getD [])
  else ""

structure Selection where
  version : String
  tag : String
  assets : List ReleaseAsset

/-- The release that is selected, by default the first. An expansion that the shell refuses ends the
script. -/
def select (sys : System Opkg) (i : Inputs) : Except Exit Selection :=
  if ¬ sys.curl then .error (fail "curl is not installed. Cannot continue.")
  else if ¬ sys.jq then .error (fail "jq is not installed. Cannot continue.")
  else
    match sys.arith (if i.selection = "" then "1" else i.selection) with
    | none => .error ⟨2, none⟩
    | some n =>
      let release := releaseAt i.releases (n - 1)
      let tag := (release.bind Release.tagName).getD "null"
      if tag = "" ∨ tag = "null" then .error (fail "Invalid release selected.")
      else
        let assets := (release.map Release.assets).getD []
        let asset := assets.find? fun a => "emmc-preloader.bin".toList <:+ a.name.toList
        let version := firmwareVersion ((asset.map ReleaseAsset.name).getD "")
        if version = "" then
          .error (fail "Unable to determine Firmware Version from the release.")
        else .ok ⟨version, tag, assets⟩

/-- The addresses of the assets with the name, a line each. -/
def Selection.url (s : Selection) (filename : String) : String :=
  "\n".intercalate ((s.assets.filter fun a => a.name = filename).map fun a => a.url.getD "null")

def Selection.NoUrl (s : Selection) (a : Asset) : Prop :=
  s.url (a.filename s.version) = "" ∨ s.url (a.filename s.version) = "null"

instance (s : Selection) (a : Asset) : Decidable (s.NoUrl a) := inferInstanceAs (Decidable (_ ∨ _))

def Device.setFile (d : Device Opkg) (path : String) (contents : Bytes) : Device Opkg :=
  { d with files := Function.update d.files path (some contents) }

def touch (path : String) : Updates Opkg Unit :=
  modify fun m => { m with toDevice := m.setFile path ((m.files path).getD []) }

def save (path : String) (contents : Option Bytes) : Updates Opkg Unit :=
  modify fun m => { m with toDevice := contents.elim m.toDevice (m.setFile path) }

/-- The body of the loop over the images. -/
def fetch (o : Options) (i : Inputs) (s : Selection) (a : Asset) : Updates Opkg Unit := do
  let filename := a.filename s.version
  exitIf (s.NoUrl a) (fail ("Asset " ++ filename ++ " not found for release " ++ s.tag ++ "."))
  if o.dryRun then touch (a.path s.version)
  else do
    let download := i.curl (s.url filename)
    save (a.path s.version) download.contents
    exitIf (¬ download.ok) (fail ("Error downloading " ++ filename ++ "."))

/-! ## Flashing -/

/-- What is read of `/dev/zero`. -/
def zeros : Bytes := List.replicate (4 * 1024 * 1024) 0

def Machine.write (m : Machine Opkg) (partition : Partition) (image : String) (contents : Bytes) :
    Machine Opkg :=
  let old := m.partitions partition
  { m with
    partitions := Function.update m.partitions partition
      ((Bytes.overlay contents old).take old.length)
    writes := m.writes ++ [(⟨partition, image, contents.take old.length⟩ : Write)] }

/-- Writing stops at the end of the partition, which is an error. -/
def dd (partition : Partition) (image : String) (contents : Bytes) : Updates Opkg Bool := do
  let m ← get
  if partition = .boot0 ∧ m.forceRo then pure false
  else do
    set (m.write partition image contents)
    pure (contents.length ≤ (m.partitions partition).length)

/-- An image that is not there is an error. -/
def ddImage (partition : Partition) (image : String) : Updates Opkg Bool := do
  let m ← get
  match m.files image with
  | none => pure false
  | some contents => dd partition image contents

def flashPartition (o : Options) (partition : Partition) (image : String) : Updates Opkg Unit :=
  if o.dryRun then pure ()
  else do
    let erased ← dd partition image zeros
    exitIf (¬ erased) (fail ("Error erasing partition " ++ partition.name ++ "."))
    let flashed ← ddImage partition image
    exitIf (¬ flashed) (fail ("Error flashing " ++ image ++ " to " ++ partition.name ++ "."))

def enableWrites (sys : System Opkg) (o : Options) : Updates Opkg Unit :=
  if o.dryRun then pure ()
  else do
    exitIf (¬ sys.forceRoWritable) (fail "Unable to enable write access to /dev/mmcblk0boot0.")
    modify fun m => { m with forceRo := false }

def mentions (w line : String) : Bool := w.toList <:+: line.toList

/-- The first version in the order of `sort -V` matches `^current$`. -/
def versionGreater (sys : System Opkg) (required current : String) : Bool :=
  (first (.seq (.lit agree current.toList) .stop) (sys.sortV required current).toList).isSome

def checkAndUpdateCompatVersion (sys : System Opkg) (required : String) : Updates Opkg Unit :=
  modify fun m =>
    if versionGreater sys required (m.compatVersion.getD "0.0") then
      { m with compatVersion := some required }
    else m

def afterArrow : List Char → List Char
  | '-' :: '>' :: cs => cs
  | _ :: cs => afterArrow cs
  | [] => []

def beforeArrow : List Char → List Char
  | '-' :: '>' :: _ => []
  | c :: cs => c :: beforeArrow cs
  | [] => []

/-- `[:space:]` -/
def isSpace (c : Char) : Bool := c.toNat ∈ [9, 10, 11, 12, 13, 32]

/-- `awk -F'->' '{print $2}' | awk -F')' '{print $1}' | tr -d '[:space:]'` of the lines that have
`incompatible`. -/
def requiredVersion (log : List String) : String :=
  String.ofList ((log.filter (mentions "incompatible")).flatMap fun line =>
    ((beforeArrow (afterArrow line.toList)).takeWhile (· ≠ ')')).filter fun c => ¬ isSpace c)

/-- What is done about the lines of the test. -/
def readLog (sys : System Opkg) (log : List String) : Updates Opkg Unit :=
  if log.any (mentions "The device is supported, but the config is incompatible") then do
    exitIf (requiredVersion log = "") (fail "Unable to detect compat_version. Exiting.")
    checkAndUpdateCompatVersion sys (requiredVersion log)
  else pure ()

def sysupgradeLog (sys : System Opkg) (o : Options) (image : String) (m : Machine Opkg) :
    List String :=
  if o.dryRun then ["Simulated sysupgrade test - closing"] else sys.sysupgradeTest image m.toDevice

def sysupgradeOutput (sys : System Opkg) (o : Options) (image : String) (m : Machine Opkg) :
    List String :=
  if o.dryRun then ["Simulated sysupgrade - closing"] else sys.sysupgrade o.reset image m.toDevice

/-- `grep -iq "closing"` -/
def closing (output : List String) : Bool :=
  output.any fun line => "closing".toList <:+: line.toList.map Char.toLower

def sysupgrade (sys : System Opkg) (o : Options) (image : String) : Updates Opkg Unit := do
  let m ← get
  readLog sys (sysupgradeLog sys o image m)
  let m ← get
  exitIf (¬ closing (sysupgradeOutput sys o image m))
    (fail "Sysupgrade failed or unexpected behavior:")

/-- The part that `fota` and `ota` share. -/
def install (sys : System Opkg) (o : Options) (i : Inputs) (version : String) :
    Updates Opkg Unit := do
  exitIf i.abort ⟨130, none⟩
  let m ← get
  forEach (fun a : Asset => exitIf (m.files (a.path version) = none)
    (fail ("Required file not found: " ++ a.path version))) Asset.all
  enableWrites sys o
  flashPartition o .boot0 (Asset.path version .emmcPreloader)
  flashPartition o .p3 (Asset.path version .emmcBl31Uboot)
  flashPartition o .p4 (Asset.path version .initramfsRecovery)
  sysupgrade sys o (Asset.path version .squashfsSysupgrade)

/-- `opkg list-installed | grep "^$pkg_name - " | cut -d ' ' -f 3` -/
def localVersion (installed : List String) (pkgName : String) : String :=
  "\n".intercalate ((installed.filter fun line =>
      (first (.lit agree (pkgName ++ " - ").toList) line.toList).isSome).map fun line =>
    String.ofList (((line.toList.splitOn ' ')[2]?).getD []))

def outdated (installed : List String) (pkg : String × String) : Bool :=
  ¬ "luci-i18n-".toList <+: pkg.1.toList
    ∧ (localVersion installed pkg.1 = "" ∨ localVersion installed pkg.1 ≠ pkg.2)

def repoLine (version : String) : String :=
  "src/gz additional_pack https://repo.superkali.me/releases/" ++ version
    ++ "/packages/additional_pack"

def addRepository (sys : System Opkg) (o : Options) : Updates Opkg Unit :=
  if o.dryRun then pure ()
  else modify fun m =>
    if m.customfeeds.any fun l => found (.lit agree (repoLine sys.distribRelease).toList) l.toList
    then m
    else { m with customfeeds := m.customfeeds ++ [repoLine sys.distribRelease] }

def opkgUpdate (sys : System Opkg) (o : Options) : Updates Opkg Unit :=
  if o.dryRun then pure ()
  else modify fun m => { m with opkg := sys.opkgUpdate m.customfeeds m.opkg }

def installPackage (sys : System Opkg) (o : Options) (pkg : String × String) :
    Updates Opkg Unit :=
  if o.dryRun then pure ()
  else modify fun m =>
    if outdated (sys.listInstalled m.opkg) pkg then
      { m with opkg := sys.opkgInstall pkg.1 m.opkg }
    else m

def packages (sys : System Opkg) (o : Options) (i : Inputs) : Updates Opkg Unit := do
  exitIf (¬ sys.curl) (fail "curl is not installed. Cannot continue.")
  exitIf (¬ sys.jq) (fail "jq is not installed. Cannot continue.")
  exitIf (¬ sys.opkg) (fail "opkg is not installed. Cannot continue.")
  exitIf (sys.distribRelease = "") (fail "Unable to determine current firmware version.")
  let index ← demand i.packageIndex (fail "Failed to download package index or file is empty.")
  exitIf (index.architecture ∈ [none, some "", some "null"])
    (fail "Architecture not found in package index.")
  let m ← get
  exitIf (¬ index.packages.any (outdated (sys.listInstalled m.opkg))) ⟨0, none⟩
  exitIf (i.proceed ≠ "y" ∧ i.proceed ≠ "Y") ⟨0, none⟩
  addRepository sys o
  opkgUpdate sys o
  forEach (installPackage sys o) index.packages

def run (sys : System Opkg) (i : Inputs) : Updates Opkg Unit :=
  match readArgs none false false i.args with
  | none => throw ⟨1, none⟩
  | some o =>
    match o.mode with
    | .fota => do
      let s ← ofExcept (select sys i)
      forEach (fetch o i s) Asset.all
      install sys o i s.version
    | .ota => do
      exitIf (i.firmwareVersion = "") (fail "Firmware Version not specified. Cannot continue.")
      install sys o i i.firmwareVersion
    | .packages => packages sys o i

/-- How a run ends, what it has written to the partitions, and the device it leaves. -/
structure Outcome (Opkg : Type) where
  exit : Exit
  writes : List Write
  device : Device Opkg

def execute (sys : System Opkg) (i : Inputs) (d : Device Opkg) : Outcome Opkg :=
  let m := after (run sys i) ⟨d, []⟩
  ⟨(exit (run sys i) ⟨d, []⟩).getD ⟨0, none⟩, m.writes, m.toDevice⟩

/-! ## What is expected, and when -/

/-- The paths that the loop over the images writes to: in a dry run each up to the first image
without an address, else each that curl touches up to the first that is not fetched. -/
def fetched (o : Options) (i : Inputs) (s : Selection) : List Asset → List String
  | [] => []
  | a :: as =>
    if s.NoUrl a then []
    else if o.dryRun then a.path s.version :: fetched o i s as
    else
      let download := i.curl (s.url (a.filename s.version))
      (if download.contents.isSome then [a.path s.version] else [])
        ++ if download.ok then fetched o i s as else []

/-- The images that a run with these inputs writes; only `fota` does. -/
def Inputs.images (i : Inputs) (sys : System Opkg) : List String :=
  match readArgs none false false i.args, select sys i with
  | some o, .ok s => if o.mode = .fota then fetched o i s Asset.all else []
  | _, _ => []

/-- A run after the dry run writes the same to the partitions, ends in the same way and leaves the
same device as without it, and flashes no image that is neither its own nor was there before. -/
structure Invisible (sys : System Opkg) (d : Device Opkg) (dry later : Inputs) : Prop where
  outcome : execute sys later (execute sys dry d).device = execute sys later d
  sources : ∀ w ∈ (execute sys later (execute sys dry d).device).writes,
    w.image ∈ later.images sys ∨ d.files w.image ≠ none

end Updater

end BananaWrt
