import BananaWrt.Lib.Bytes

/-!
# A log in a ring of records

A buffer of `n` records of `size` bytes each. The items of a log are written to it in order, item
`k` to the record `k % n`, so that it takes the place of item `k - n`. Whoever reads an item before
that happens reads what was written (`Holds`).
-/

namespace Records

open Bytes

variable {b c : Bytes} {size n lo : ℕ}

/-- The record `i`. -/
def record (b : Bytes) (size i : ℕ) : Bytes := (b.drop (size * i)).take size

theorem record_write_self {i : ℕ} (hc : c.length = size) (hi : size * i ≤ b.length) :
    record (write b (size * i) c) size i = c := by
  unfold record
  rw [drop_write_self hi, ← hc, List.take_left]

/-- The other records stay. -/
theorem record_write_of_ne {i j : ℕ} (hc : c.length = size) (hi : size * i ≤ b.length)
    (hne : j ≠ i) : record (write b (size * i) c) size j = record b size j := by
  unfold record
  rcases Nat.lt_or_gt_of_ne hne with hlt | hgt
  · have hle : size * (j + 1) ≤ size * i := Nat.mul_le_mul_left size hlt
    rw [Nat.mul_succ] at hle
    have hlen : size ≤ ((b.drop (size * j)).take (size * i - size * j)).length := by
      rw [List.length_take, List.length_drop]
      omega
    rw [drop_write_of_le hi (by omega), List.take_append_of_le_length hlen, List.take_take,
      Nat.min_eq_left (by omega)]
  · have hle : size * (i + 1) ≤ size * j := Nat.mul_le_mul_left size hgt
    rw [Nat.mul_succ] at hle
    rw [drop_write hi (by omega)]

/-- The items from `lo` on are in the buffer. -/
def Holds (b : Bytes) (size n lo : ℕ) (items : List Bytes) : Prop :=
  ∀ k v, lo ≤ k → items[k]? = some v → record b size (k % n) = v

theorem holds_nil : Holds b size n lo [] := by
  intro k v _ hv
  rw [List.getElem?_nil] at hv
  cases hv

theorem Holds.mono {items : List Bytes} {lo' : ℕ} (h : Holds b size n lo items) (hlo : lo ≤ lo') :
    Holds b size n lo' items :=
  fun k v hk hv => h k v (Nat.le_trans hlo hk) hv

/-- Less than `n` apart, items have different places. -/
theorem mod_ne {k m : ℕ} (hkm : k < m) (hm : m < k + n) : k % n ≠ m % n := by
  intro h
  have hmod : (m - k) % n = 0 := Nat.sub_mod_eq_zero_of_mod_eq h.symm
  rw [Nat.mod_eq_of_lt (by omega)] at hmod
  omega

/-- The next item goes to a record that none of them is in. -/
theorem Holds.push {items : List Bytes} (h : Holds b size n lo items) (hn : 0 < n)
    (hb : b.length = size * n) (hc : c.length = size) (hroom : items.length < lo + n) :
    Holds (write b (size * (items.length % n)) c) size n lo (items ++ [c]) := by
  have hlt : items.length % n < n := Nat.mod_lt _ hn
  have hi : size * (items.length % n) ≤ b.length := by
    rw [hb]
    exact Nat.mul_le_mul_left size (Nat.le_of_lt hlt)
  intro k v hk hv
  rcases Nat.lt_or_ge k items.length with hold | hnew
  · rw [List.getElem?_append_left hold] at hv
    rw [record_write_of_ne hc hi (mod_ne hold (by omega))]
    exact h k v hk hv
  · rw [List.getElem?_append_right hnew, List.getElem?_singleton] at hv
    split_ifs at hv with hzero
    cases hv
    have heq : k = items.length := by omega
    rw [heq, record_write_self hc hi]

theorem length_write_record {i : ℕ} (hb : b.length = size * n) (hc : c.length = size)
    (hi : i < n) : (write b (size * i) c).length = size * n := by
  have hle : size * (i + 1) ≤ size * n := Nat.mul_le_mul_left size hi
  rw [Nat.mul_succ] at hle
  rw [length_write (by omega), hb]

end Records
