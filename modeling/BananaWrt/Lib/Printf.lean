import Mathlib.Algebra.Group.Nat.Defs
import Mathlib.Data.Int.Notation
import Mathlib.Data.List.Basic
import Mathlib.Data.Nat.Notation

/-!
# Numbers as printf writes them

A number in a base up to 16, with zeros in front of it up to a width, and a signed one with its sign
in front of the zeros. The number can be read back from its digits (`value_number`), so that no two
numbers look the same. `Sink` is a buffer of bounded size that `snprintf` appends to, piece by
piece: it keeps what still fits, and counts all.
-/

namespace Printf

def padded (w : ℕ) (t : List Char) : List Char := List.replicate (w - t.length) '0' ++ t

/-- `%0wu` for base 10, `%0wx` for base 16; the width 0 is that of `%u` and `%x`. -/
def number (b w n : ℕ) : List Char := padded w (Nat.toDigits b n)

/-- `%0wd`. -/
def signed (w : ℕ) (n : ℤ) : List Char :=
  if n < 0 then '-' :: number 10 (w - 1) n.natAbs else number 10 w n.natAbs

def digitVal (c : Char) : ℕ :=
  if c.toNat < 'a'.toNat then c.toNat - '0'.toNat else c.toNat - 'a'.toNat + 10

/-- What the digits are read back as. -/
def value (b : ℕ) (t : List Char) : ℕ := t.foldl (fun n c => b * n + digitVal c) 0

/-- A digit of a base up to 16. -/
def IsDigit (c : Char) : Prop := ∃ d < 16, c = Nat.digitChar d

theorem digitVal_digitChar : ∀ d < 16, digitVal (Nat.digitChar d) = d := by decide

theorem isDigit_zero : IsDigit '0' := ⟨0, by decide, rfl⟩

/-- No sign, blank or line feed is a digit. -/
theorem IsDigit.ne {c c' : Char} (h : IsDigit c) (hc' : ∀ d < 16, Nat.digitChar d ≠ c') :
    c ≠ c' := by
  obtain ⟨d, hd, rfl⟩ := h
  exact hc' d hd

section Number

variable {b n : ℕ} (hb : 1 < b) (hb' : b ≤ 16)

theorem value_append (b : ℕ) (t : List Char) (c : Char) :
    value b (t ++ [c]) = b * value b t + digitVal c := by
  rw [value, List.foldl_append]
  rfl

include hb hb'

theorem isDigit_of_mem_toDigits {c : Char} : ∀ {n : ℕ}, c ∈ Nat.toDigits b n → IsDigit c := by
  intro n
  induction n using Nat.strongRecOn with
  | ind n ih =>
    intro h
    rw [Nat.toDigits_eq_if hb] at h
    split_ifs at h with hn
    · exact ⟨n, by omega, List.mem_singleton.1 h⟩
    · have hlt : n / b < n := Nat.div_lt_self (by omega) hb
      rcases List.mem_append.1 h with h | h
      · exact ih _ hlt h
      · exact ⟨n % b, Nat.lt_of_lt_of_le (Nat.mod_lt n (by omega)) hb', List.mem_singleton.1 h⟩

theorem value_toDigits (n : ℕ) : value b (Nat.toDigits b n) = n := by
  induction n using Nat.strongRecOn with
  | ind n ih =>
    rw [Nat.toDigits_eq_if hb]
    split_ifs with hn
    · change b * 0 + digitVal (Nat.digitChar n) = n
      rw [digitVal_digitChar n (by omega)]
      omega
    · have hlt : n / b < n := Nat.div_lt_self (by omega) hb
      have hmod : n % b < 16 := Nat.lt_of_lt_of_le (Nat.mod_lt n (by omega)) hb'
      rw [value_append, ih _ hlt, digitVal_digitChar _ hmod, Nat.div_add_mod]

omit hb hb' in
/-- Zeros in front do not count. -/
theorem value_padded (b w : ℕ) (t : List Char) : value b (padded w t) = value b t := by
  have hzeros : ∀ k, (List.replicate k '0').foldl (fun n c => b * n + digitVal c) 0 = 0 := by
    intro k
    induction k with
    | zero => rfl
    | succ k ih => rw [List.replicate_succ, List.foldl_cons]; exact ih
  rw [value, padded, List.foldl_append, hzeros]
  rfl

theorem value_number (w n : ℕ) : value b (number b w n) = n := by
  rw [number, value_padded, value_toDigits hb hb']

theorem number_injective (w : ℕ) : Function.Injective (number b w) := fun m n h => by
  rw [← value_number hb hb' w m, h, value_number hb hb']

theorem isDigit_of_mem_number {w : ℕ} {c : Char} (h : c ∈ number b w n) : IsDigit c := by
  rcases List.mem_append.1 h with h | h
  · rw [List.eq_of_mem_replicate h]
    exact isDigit_zero
  · exact isDigit_of_mem_toDigits hb hb' h

omit hb' in
theorem length_number_le {w k : ℕ} (hk : 0 < k) (hw : w ≤ k) (hn : n < b ^ k) :
    (number b w n).length ≤ k := by
  have hlen := (Nat.length_toDigits_le_iff hb hk).2 hn
  rw [number, padded, List.length_append, List.length_replicate]
  omega

omit hb' in
theorem length_number_eq {w : ℕ} (hw : 0 < w) (hn : n < b ^ w) : (number b w n).length = w := by
  have hlen := (Nat.length_toDigits_le_iff hb hw).2 hn
  rw [number, padded, List.length_append, List.length_replicate]
  omega

end Number

theorem minus_notMem_number {w n : ℕ} : '-' ∉ number 10 w n := fun h =>
  (isDigit_of_mem_number (by decide) (by decide) h).ne (by decide) rfl

theorem signed_injective (w : ℕ) : Function.Injective (signed w) := fun m n h => by
  have hinj : ∀ {w a a' : ℕ}, number 10 w a = number 10 w a' → a = a' := fun h =>
    number_injective (by decide) (by decide) _ h
  have hminus : ∀ {w w' a a' : ℕ}, '-' :: number 10 w a ≠ number 10 w' a' := fun h =>
    minus_notMem_number (h ▸ List.mem_cons_self)
  unfold signed at h
  split_ifs at h
  · have := hinj (List.cons.inj h).2
    omega
  · exact absurd h hminus
  · exact absurd h.symm hminus
  · have := hinj h
    omega

theorem mem_signed {w : ℕ} {n : ℤ} {c : Char} (h : c ∈ signed w n) : c = '-' ∨ IsDigit c := by
  unfold signed at h
  split_ifs at h
  · exact (List.mem_cons.1 h).imp_right (isDigit_of_mem_number (by decide) (by decide))
  · exact Or.inr (isDigit_of_mem_number (by decide) (by decide) h)

theorem length_signed_le {w k : ℕ} {n : ℤ} (hk : 0 < k) (hw : w ≤ k + 1)
    (hn : n.natAbs < 10 ^ k) : (signed w n).length ≤ k + 1 := by
  have hlen : ∀ {w}, w ≤ k + 1 → (number 10 w n.natAbs).length ≤ k + 1 := fun hw =>
    length_number_le (by decide) (by omega) hw (Nat.lt_of_lt_of_le hn (Nat.pow_le_pow_right
      (by decide) (by omega)))
  have hminus : (number 10 (w - 1) n.natAbs).length ≤ k :=
    length_number_le (by decide) hk (by omega) hn
  unfold signed
  split_ifs
  · rw [List.length_cons]
    omega
  · exact hlen hw

/-- A separator ends what does not hold it. -/
theorem append_sep_injective {α : Type*} {a : α} : ∀ {l l' t t' : List α}, a ∉ l → a ∉ l' →
    l ++ a :: t = l' ++ a :: t' → l = l' ∧ t = t'
  | [], [], _, _, _, _, h => ⟨rfl, (List.cons.inj h).2⟩
  | [], c :: l', _, _, _, hl', h =>
    absurd (List.cons.inj h).1 fun heq => hl' (heq ▸ List.mem_cons_self)
  | c :: l, [], _, _, hl, _, h =>
    absurd (List.cons.inj h).1 fun heq => hl (heq ▸ List.mem_cons_self)
  | c :: l, c' :: l', _, _, hl, hl', h => by
    obtain ⟨rfl, htail⟩ := List.cons.inj h
    obtain ⟨rfl, rfl⟩ := append_sep_injective (fun hm => hl (List.mem_cons_of_mem c hm))
      (fun hm => hl' (List.mem_cons_of_mem c hm)) htail
    exact ⟨rfl, rfl⟩

/-- A text that is put together of pieces of one length can be taken apart. -/
theorem flatMap_injective {α β : Type*} {f : α → List β} {k : ℕ} (hk : 0 < k)
    (hlen : ∀ a, (f a).length = k) (hf : Function.Injective f) :
    ∀ {l l' : List α}, l.flatMap f = l'.flatMap f → l = l'
  | [], [], _ => rfl
  | [], a :: l', h => by
    have hnil := congrArg List.length h
    rw [List.flatMap_nil, List.flatMap_cons, List.length_append, hlen, List.length_nil] at hnil
    omega
  | a :: l, [], h => by
    have hnil := congrArg List.length h
    rw [List.flatMap_nil, List.flatMap_cons, List.length_append, hlen, List.length_nil] at hnil
    omega
  | a :: l, a' :: l', h => by
    obtain ⟨ha, hl⟩ := List.append_inj h ((hlen a).trans (hlen a').symm)
    rw [hf ha, flatMap_injective hk hlen hf hl]

/-- What is in the buffer, without the zero that ends it, and the sum of what `snprintf` has
returned. -/
structure Sink where
  text : List Char
  cnt : ℕ

namespace Sink

/-- `cnt += snprintf(buf + cnt, limit - cnt, ...)`. -/
def put (limit : ℕ) (s : Sink) (t : List Char) : Sink :=
  ⟨s.text ++ t.take (limit - s.cnt - 1), s.cnt + t.length⟩

/-- It has all been written. -/
def full (t : List Char) : Sink := ⟨t, t.length⟩

/-- A piece that fits. -/
theorem put_full {limit : ℕ} {t t' : List Char} (h : t.length + t'.length < limit) :
    (full t).put limit t' = full (t ++ t') := by
  have htake : t'.take (limit - t.length - 1) = t' := List.take_of_length_le (by omega)
  rw [put, full, htake, ← List.length_append]
  rfl

/-- Pieces that fit. -/
theorem foldl_put_full {limit : ℕ} : ∀ {ts : List (List Char)} {t : List Char},
    t.length + ts.flatten.length < limit →
    ts.foldl (put limit) (full t) = full (t ++ ts.flatten)
  | [], t, _ => by rw [List.flatten_nil, List.append_nil]; rfl
  | t' :: ts, t, h => by
    rw [List.flatten_cons, List.length_append] at h
    rw [List.foldl_cons, put_full (by omega), foldl_put_full, List.flatten_cons, List.append_assoc]
    rw [List.length_append]
    omega

end Sink

end Printf
