import Mathlib.Algebra.Group.Nat.Defs
import Mathlib.Data.Int.Notation
import Mathlib.Data.List.Basic

/-!
# Fields of a byte buffer

A buffer is a list of bytes; a field is read at a byte offset, a byte past the end reading as
zero. `overlay` is what a buffer holds after a shorter string has been read into it. The last
section is about two numbers packed into one, the upper one from bit `s` on.
-/

abbrev Bytes := List UInt8

namespace Bytes

def u8 (b : Bytes) (i : ℕ) : ℕ := (b.getD i 0).toNat

def le16 (b : Bytes) (i : ℕ) : ℕ := u8 b i + 256 * u8 b (i + 1)

def le32 (b : Bytes) (i : ℕ) : ℕ := le16 b i + 65536 * le16 b (i + 2)

def be16 (b : Bytes) (i : ℕ) : ℕ := 256 * u8 b i + u8 b (i + 1)

def be32 (b : Bytes) (i : ℕ) : ℕ := 65536 * be16 b i + be16 b (i + 2)

def ofLe16 (v : ℕ) : Bytes := [UInt8.ofNat v, UInt8.ofNat (v / 256)]

def ofLe32 (v : ℕ) : Bytes := ofLe16 v ++ ofLe16 (v / 65536)

def ofBe16 (v : ℕ) : Bytes := [UInt8.ofNat (v / 256), UInt8.ofNat v]

def putLe32 (b : Bytes) (i v : ℕ) : Bytes := b.take i ++ ofLe32 v ++ b.drop (i + 4)

/-- What the buffer `b` holds once `c` has been read into it. -/
def overlay (c b : Bytes) : Bytes := c ++ b.drop c.length

/-- What the buffer `b` holds once `c` has been written to it at `off`. -/
def write (b : Bytes) (off : ℕ) (c : Bytes) : Bytes := b.take off ++ c ++ b.drop (off + c.length)

theorem u8_take (b : Bytes) (n i : ℕ) : u8 (b.take n) i = if i < n then u8 b i else 0 := by
  unfold u8
  rw [List.getD_eq_getElem?_getD, List.getD_eq_getElem?_getD, List.getElem?_take]
  split_ifs <;> rfl

theorem u8_drop (b : Bytes) (off i : ℕ) : u8 (b.drop off) i = u8 b (off + i) := by
  unfold u8
  rw [List.getD_eq_getElem?_getD, List.getD_eq_getElem?_getD, List.getElem?_drop]

/-- The bytes of a string that stands at `off`. -/
theorem u8_value {b v : Bytes} {off i : ℕ} (hv : (b.drop off).take v.length = v)
    (hi : i < v.length) : u8 b (off + i) = u8 v i := by
  conv_rhs => rw [← hv]
  rw [u8_take, if_pos hi, u8_drop]

theorem le32_value {b v : Bytes} {off : ℕ} (hv : (b.drop off).take v.length = v)
    (hlen : 4 ≤ v.length) : le32 b off = le32 v 0 := by
  have h : ∀ i < 4, u8 b (off + i) = u8 v i := fun i hi => u8_value hv (by omega)
  have h0 := h 0 (by decide)
  have h1 := h 1 (by decide)
  have h2 := h 2 (by decide)
  have h3 := h 3 (by decide)
  simp only [Nat.add_zero] at h0
  unfold le32 le16
  rw [h0, h1, h2, h3]

theorem u8_append_left {b c : Bytes} {i : ℕ} (hi : i < c.length) : u8 (c ++ b) i = u8 c i := by
  unfold u8
  rw [List.getD_eq_getElem?_getD, List.getD_eq_getElem?_getD, List.getElem?_append_left hi]

theorem u8_append_right {b c : Bytes} {i : ℕ} (hi : c.length ≤ i) :
    u8 (c ++ b) i = u8 b (i - c.length) := by
  unfold u8
  rw [List.getD_eq_getElem?_getD, List.getD_eq_getElem?_getD, List.getElem?_append_right hi]

theorem u8_overlay {b c : Bytes} {i : ℕ} (hi : i < c.length) : u8 (overlay c b) i = u8 c i :=
  u8_append_left hi

theorem u8_lt (b : Bytes) (i : ℕ) : u8 b i < 256 := UInt8.toNat_lt _

theorem le32_lt (b : Bytes) (i : ℕ) : le32 b i < 2 ^ 32 := by
  have h0 := u8_lt b i
  have h1 := u8_lt b (i + 1)
  have h2 := u8_lt b (i + 2)
  have h3 := u8_lt b (i + 2 + 1)
  unfold le32 le16
  omega

theorem le16_lt (b : Bytes) (i : ℕ) : le16 b i < 2 ^ 16 := by
  have h0 := u8_lt b i
  have h1 := u8_lt b (i + 1)
  unfold le16
  omega

theorem be16_lt (b : Bytes) (i : ℕ) : be16 b i < 2 ^ 16 := by
  have h0 := u8_lt b i
  have h1 := u8_lt b (i + 1)
  unfold be16
  omega

theorem be32_lt (b : Bytes) (i : ℕ) : be32 b i < 2 ^ 32 := by
  have h0 := be16_lt b i
  have h2 := be16_lt b (i + 2)
  unfold be32
  omega

theorem le32_append_left {b c : Bytes} {i : ℕ} (hi : i + 4 ≤ c.length) :
    le32 (c ++ b) i = le32 c i := by
  unfold le32 le16
  simp (disch := omega) only [u8_append_left]

theorem le32_append_right {b c : Bytes} {i : ℕ} (hi : c.length ≤ i) :
    le32 (c ++ b) i = le32 b (i - c.length) := by
  unfold le32 le16
  simp (disch := omega) only [u8_append_right, Nat.sub_add_comm]

theorem le32_overlay {b c : Bytes} {i : ℕ} (hi : i + 4 ≤ c.length) :
    le32 (overlay c b) i = le32 c i :=
  le32_append_left hi

theorem length_ofLe32 (v : ℕ) : (ofLe32 v).length = 4 := rfl

theorem le32_ofLe32 (v : ℕ) : le32 (ofLe32 v) 0 = v % 2 ^ 32 := by
  simp only [le32, le16, u8, ofLe32, ofLe16, List.cons_append, List.nil_append,
    List.getD_cons_zero, List.getD_cons_succ, UInt8.toNat_ofNat']
  omega

theorem be16_ofBe16 {v : ℕ} (h : v < 2 ^ 16) (b : Bytes) : be16 (ofBe16 v ++ b) 0 = v := by
  simp only [be16, u8, ofBe16, List.cons_append, List.nil_append, List.getD_cons_zero,
    List.getD_cons_succ, UInt8.toNat_ofNat']
  omega

theorem length_write {b c : Bytes} {off : ℕ} (h : off + c.length ≤ b.length) :
    (write b off c).length = b.length := by
  simp only [write, List.length_append, List.length_take, List.length_drop]
  omega

/-- What lies behind a write stays. -/
theorem drop_write {b c : Bytes} {off n : ℕ} (hoff : off ≤ b.length) (h : off + c.length ≤ n) :
    (write b off c).drop n = b.drop n := by
  have htake : (b.take off).length = off := List.length_take_of_le hoff
  have hlen : (b.take off ++ c).length = off + c.length := by rw [List.length_append, htake]
  unfold write
  rw [List.drop_append, List.drop_eq_nil_of_le (by omega), hlen, List.drop_drop,
    List.nil_append]
  congr 1
  omega

/-- What lies before a write stays. -/
theorem take_write {b c : Bytes} {off n : ℕ} (hoff : off ≤ b.length) (h : n ≤ off) :
    (write b off c).take n = b.take n := by
  have htake : (b.take off).length = off := List.length_take_of_le hoff
  unfold write
  rw [List.append_assoc, List.take_append_of_le_length (by omega), List.take_take,
    Nat.min_eq_left h]

/-- From a place before a write on, there is what lies between, what is written and what follows. -/
theorem drop_write_of_le {b c : Bytes} {off n : ℕ} (hoff : off ≤ b.length) (h : n ≤ off) :
    (write b off c).drop n = (b.drop n).take (off - n) ++ (c ++ b.drop (off + c.length)) := by
  have htake : (b.take off).length = off := List.length_take_of_le hoff
  unfold write
  rw [List.append_assoc, List.drop_append_of_le_length (by omega), List.drop_take]

theorem drop_write_self {b c : Bytes} {off : ℕ} (hoff : off ≤ b.length) :
    (write b off c).drop off = c ++ b.drop (off + c.length) := by
  rw [drop_write_of_le hoff (Nat.le_refl off), Nat.sub_self]
  rfl

theorem length_putLe32 {b : Bytes} {i : ℕ} (hi : i + 4 ≤ b.length) (v : ℕ) :
    (putLe32 b i v).length = b.length := by
  simp only [putLe32, List.length_append, List.length_take, List.length_drop, length_ofLe32]
  omega

theorem le32_putLe32 {b : Bytes} {i : ℕ} (hi : i + 4 ≤ b.length) (v : ℕ) :
    le32 (putLe32 b i v) i = v % 2 ^ 32 := by
  have htake : (b.take i).length = i := by
    rw [List.length_take]
    omega
  unfold putLe32
  rw [le32_append_left (by simp only [List.length_append, length_ofLe32]; omega),
    le32_append_right (by omega), htake, Nat.sub_self, le32_ofLe32]

theorem putLe32_append {c : Bytes} {i : ℕ} (hi : i + 4 ≤ c.length) (b : Bytes) (v : ℕ) :
    putLe32 (c ++ b) i v = putLe32 c i v ++ b := by
  unfold putLe32
  rw [List.take_append_of_le_length (by omega), List.drop_append_of_le_length (by omega)]
  simp only [List.append_assoc]

theorem take_putLe32_overlay {c : Bytes} {i : ℕ} (hi : i + 4 ≤ c.length) (b : Bytes) (v : ℕ) :
    (putLe32 (overlay c b) i v).take c.length = putLe32 c i v := by
  unfold overlay
  rw [putLe32_append hi, ← length_putLe32 hi v, List.take_left]

end Bytes

namespace Nat

theorem or_shiftLeft_eq (t x s : ℕ) :
    t ||| x <<< s = 2 ^ s * (t >>> s ||| x) + t % 2 ^ s := by
  have hlt : t % 2 ^ s < 2 ^ s := mod_lt t (Nat.two_pow_pos s)
  have ht : t = (t >>> s) <<< s ||| t % 2 ^ s := by
    rw [shiftLeft_eq, Nat.mul_comm, ← two_pow_add_eq_or_of_lt hlt, shiftRight_eq_div_pow,
      Nat.div_add_mod]
  rw [two_pow_add_eq_or_of_lt hlt, Nat.mul_comm, ← shiftLeft_eq, shiftLeft_or_distrib]
  conv_lhs => rw [ht]
  rw [Nat.or_assoc, Nat.or_comm (t % 2 ^ s), ← Nat.or_assoc]

theorem or_shiftLeft_shiftRight (t x s : ℕ) : (t ||| x <<< s) >>> s = t >>> s ||| x := by
  rw [or_shiftLeft_eq, shiftRight_eq_div_pow, mul_add_div (Nat.two_pow_pos s),
    Nat.div_eq_of_lt (mod_lt t (Nat.two_pow_pos s)), Nat.add_zero]

theorem or_shiftLeft_mod (t x s : ℕ) : (t ||| x <<< s) % 2 ^ s = t % 2 ^ s := by
  rw [or_shiftLeft_eq, mul_add_mod, mod_mod]

end Nat
