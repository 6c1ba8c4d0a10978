import Mathlib.Data.Nat.Basic

/-!
# Counters that wrap

A counter that starts at zero and counts from one to `max` over and over. Two values drawn less
than `max` draws apart differ.
-/

namespace Counter

def next (max t : ℕ) : ℕ := if max < t + 1 then 1 else t + 1

/-- The value after `n` draws. -/
def value (max : ℕ) : ℕ → ℕ
  | 0 => 0
  | n + 1 => n % max + 1

variable {max : ℕ}

theorem value_le (hmax : 0 < max) : ∀ n, value max n ≤ max
  | 0 => Nat.zero_le _
  | n + 1 => Nat.mod_lt n hmax

theorem next_value (hmax : 0 < max) : ∀ n, next max (value max n) = value max (n + 1)
  | 0 => by
    rw [next, if_neg (by simp only [value]; omega)]
    simp [value]
  | n + 1 => by
    have hlt := Nat.mod_lt n hmax
    have hdiv := Nat.div_add_mod n max
    by_cases h : max < value max (n + 1) + 1
    · have hn : n + 1 = max * (n / max + 1) := by
        simp only [value] at h
        rw [Nat.mul_add]
        omega
      rw [next, if_pos h]
      simp only [value, hn, Nat.mul_mod_right]
    · have hn : n + 1 = n % max + 1 + max * (n / max) := by omega
      have hmod : (n + 1) % max = n % max + 1 := by
        simp only [value] at h
        rw [hn, Nat.add_mul_mod_self_left, Nat.mod_eq_of_lt (by omega)]
      rw [next, if_neg h]
      simp only [value, hmod]

theorem value_inj {m n : ℕ} (hm : 0 < m) (hmn : m ≤ n) (hn : n < m + max)
    (h : value max m = value max n) : m = n := by
  obtain ⟨m, rfl⟩ : ∃ k, m = k + 1 := ⟨m - 1, by omega⟩
  obtain ⟨n, rfl⟩ : ∃ k, n = k + 1 := ⟨n - 1, by omega⟩
  simp only [value, Nat.add_right_cancel_iff] at h
  have hmod : (n - m) % max = 0 := by
    rw [Nat.sub_mod_eq_zero_of_mod_eq h.symm]
  rw [Nat.mod_eq_of_lt (by omega)] at hmod
  omega

end Counter
