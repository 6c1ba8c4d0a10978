import Mathlib.Algebra.Group.Int.Defs
import Mathlib.Algebra.Group.Nat.Defs
import Mathlib.Data.Int.Init
import BananaWrt.Lib.Ring
import BananaWrt.Lib.Run

/-!
# The pointers of an MHI ring

A ring is `len` bytes from `base` on, for `elements` elements of `el_size` bytes each. `rp` and `wp`
are addresses; `mhi_add_ring_element` moves `wp` to the next element and `mhi_del_ring_element`
moves `rp`. How many elements may still be added, and how many there are from one address to
another, is computed from the addresses, with one branch for each of the two being ahead.
-/

namespace BananaWrt

namespace Mhi

/-- What `mhi_ring` has that does not change. -/
structure RingCfg where
  base : ℕ
  elSize : ℕ
  elements : ℕ
  elSize_pos : 0 < elSize
  two_le : 2 ≤ elements

namespace RingCfg

variable (cfg : RingCfg)

def len : ℕ := cfg.elSize * cfg.elements

/-- The end of the ring wraps to its start. -/
def next (p : ℕ) : ℕ := if cfg.base + cfg.len ≤ p + cfg.elSize then cfg.base else p + cfg.elSize

/-- Aligned, and in the ring. -/
def Inside (p : ℕ) : Prop :=
  cfg.base ≤ p ∧ p < cfg.base + cfg.len ∧ cfg.elSize ∣ p - cfg.base

end RingCfg

structure MhiRing where
  cfg : RingCfg
  rp : ℕ
  wp : ℕ

namespace MhiRing

variable (ring : MhiRing)

def mhiAddRingElement : MhiRing := { ring with wp := ring.cfg.next ring.wp }

def mhiDelRingElement : MhiRing := { ring with rp := ring.cfg.next ring.rp }

def mhiIsRingFull : Prop := ring.cfg.next ring.wp = ring.rp

instance : Decidable ring.mhiIsRingFull := inferInstanceAs (Decidable (_ = _))

/-- What is assigned to an `int` is taken modulo `2 ^ 32`. -/
def getNrAvailRingElements : ℤ :=
  if ring.wp < ring.rp then
    (((ring.rp - ring.wp) / ring.cfg.elSize : ℕ) - 1 : ℤ).bmod (2 ^ 32)
  else
    let nrEl := (((ring.rp - ring.cfg.base) / ring.cfg.elSize : ℕ) : ℤ).bmod (2 ^ 32)
    (nrEl + (((ring.cfg.base + ring.cfg.len - ring.wp) / ring.cfg.elSize : ℕ) - 1)).bmod (2 ^ 32)

/-- `sizeof(struct mhi_tre)`. -/
def sizeofTre : ℕ := 16

end MhiRing

/-- `el_num` and the result are `u32`. -/
def getUsedRingElements (rp wp elNum : ℕ) : ℕ :=
  if rp ≤ wp then (wp - rp) / MhiRing.sizeofTre % 2 ^ 32
  else
    let nrEl := (rp - wp) / MhiRing.sizeofTre % 2 ^ 32
    (elNum % 2 ^ 32 + 2 ^ 32 - nrEl) % 2 ^ 32

inductive RingOp where
  | add
  | del
  deriving DecidableEq, Repr

/-- An element is added if the ring is not full, and deleted if there is one. -/
def stepRing (ring : MhiRing) : RingOp → Option MhiRing
  | .add => if ring.mhiIsRingFull then none else some ring.mhiAddRingElement
  | .del => if ring.rp = ring.wp then none else some ring.mhiDelRingElement

/-- As `mhi_init_chan_ctxt` leaves it. -/
def RingCfg.init (cfg : RingCfg) : MhiRing where
  cfg := cfg
  rp := cfg.base
  wp := cfg.base

/-- The elements that were added and are not deleted. -/
def outstanding (ops : List RingOp) : ℕ := ops.count .add - ops.count .del

end Mhi

end BananaWrt
