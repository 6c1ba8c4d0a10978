import Mathlib.Algebra.Group.Int.Defs
import Mathlib.Algebra.Group.Nat.Defs
import Mathlib.Data.Nat.Notation

/-!
# The capabilities of a modem

`MISC_OFFSET` has the offset of the first capability; the register there has an identifier and how
far on the next one is, 0 for the last. `mhi_get_capability_offset` goes along this chain. It tests
that the first offset lies in the first `0x1000` bytes, and no other.
-/

namespace BananaWrt

namespace Mhi

/-- `regs` is what the registers have, and `linkDown n` what `link_status` says if it is asked at
the read number `n` of the call. -/
structure RegSpace where
  regs : BitVec 32 → BitVec 32
  linkDown : ℕ → Bool

def MISC_OFFSET : BitVec 32 := 0x24#32
def MISC_CAP_MASK : BitVec 32 := 0xFFFFFFFF#32
def MISC_CAP_SHIFT : ℕ := 0
def CAP_CAPID_MASK : BitVec 32 := 0xFF000000#32
def CAP_CAPID_SHIFT : ℕ := 24
def CAP_NEXT_CAP_MASK : BitVec 32 := 0x00FFF000#32
def CAP_NEXT_CAP_SHIFT : ℕ := 12

namespace RegSpace

def EIO : ℤ := 5
def ENXIO : ℤ := 6

variable (dev : RegSpace)

/-- `none` is `-EIO`. -/
def mhiReadReg (n : ℕ) (offset : BitVec 32) : Option (BitVec 32) :=
  if dev.regs offset = 0xFFFFFFFF#32 ∧ dev.linkDown n then none else some (dev.regs offset)

def mhiReadRegField (n : ℕ) (offset mask : BitVec 32) (shift : ℕ) : Option (BitVec 32) :=
  (dev.mhiReadReg n offset).map fun tmp => (tmp &&& mask) >>> shift

/-- Which registers are read, and what is returned and left in `*offset`, unless the fuel runs
out. -/
abbrev Walk := List (BitVec 32) × Option (ℤ × BitVec 32)

/-- The loop of `mhi_get_capability_offset`, after `n` reads. -/
def capLoop (capability : BitVec 32) : ℕ → ℕ → BitVec 32 → Walk
  | 0, _, _ => ([], none)
  | fuel + 1, n, offset =>
    match dev.mhiReadRegField n offset CAP_CAPID_MASK CAP_CAPID_SHIFT with
    | none => ([offset], some (- EIO, offset))
    | some curCap =>
      if curCap = capability then ([offset], some (0, offset))
      else
        match dev.mhiReadRegField (n + 1) offset CAP_NEXT_CAP_MASK CAP_NEXT_CAP_SHIFT with
        | none => ([offset, offset], some (- EIO, offset))
        | some nextOffset =>
          if nextOffset = 0 then ([offset, offset], some (- ENXIO, offset + nextOffset))
          else
            let (reads, ret) := capLoop capability fuel (n + 2) (offset + nextOffset)
            (offset :: offset :: reads, ret)

/-- `offset` is what `*offset` has before the call. -/
def mhiGetCapabilityOffset (capability offset : BitVec 32) (fuel : ℕ) : Walk :=
  match dev.mhiReadRegField 0 MISC_OFFSET MISC_CAP_MASK MISC_CAP_SHIFT with
  | none => ([MISC_OFFSET], some (- EIO, offset))
  | some first =>
    if 0x1000#32 ≤ first then ([MISC_OFFSET], some (- ENXIO, first))
    else
      let (reads, ret) := dev.capLoop capability fuel 1 first
      (MISC_OFFSET :: reads, ret)

/-- The chain has its entry number `k` at `o`: it starts in the window, and an entry that can be
read and is not the last leads to another one. -/
inductive Entry : ℕ → ℕ → Prop
  | first {v : BitVec 32} (hv : dev.mhiReadReg 0 MISC_OFFSET = some v) (hlt : v.toNat < 0x1000) :
      Entry 0 v.toNat
  | next {k o : ℕ} {v : BitVec 32} (h : Entry k o)
      (hid : (dev.mhiReadReg (2 * k + 1) (BitVec.ofNat 32 o)).isSome)
      (hv : dev.mhiReadReg (2 * k + 2) (BitVec.ofNat 32 o) = some v)
      (hne : v.toNat / 2 ^ 12 % 2 ^ 12 ≠ 0) :
      Entry (k + 1) (o + v.toNat / 2 ^ 12 % 2 ^ 12)

/-- The entry number `k`, at `o`, has the identifier in its upper eight bits. -/
def HasId (capability : BitVec 32) (k o : ℕ) : Prop :=
  ∃ v, dev.mhiReadReg (2 * k + 1) (BitVec.ofNat 32 o) = some v
    ∧ v.toNat / 2 ^ 24 = capability.toNat

/-- No entry before number `k` has the identifier. -/
def NoneBefore (capability : BitVec 32) (k : ℕ) : Prop :=
  ∀ j < k, ∀ o, dev.Entry j o → ¬ dev.HasId capability j o

end RegSpace

end Mhi

end BananaWrt
