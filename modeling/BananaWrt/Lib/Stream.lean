import Mathlib.Data.List.Flatten

/-!
# Cutting a stream

Two ways of cutting one string into pieces. If one of them only leaves out pieces of the other,
none is left out.
-/

namespace List

variable {α : Type*}

/-- Pieces left out of a cut without empty pieces are missed in the length of the string. -/
theorem Sublist.eq_of_length_flatten_eq {l l' : List (List α)} (h : l <+ l')
    (hf : l.flatten.length = l'.flatten.length) (hne : ∀ c ∈ l', c ≠ []) : l = l' := by
  induction h with
  | slnil => rfl
  | @cons l₁ l₂ a h ih =>
    have h1 := h.flatten.length_le
    have h2 := length_pos_iff.2 (hne a mem_cons_self)
    rw [flatten_cons, length_append] at hf
    omega
  | @cons_cons l₁ l₂ a h ih =>
    rw [flatten_cons, flatten_cons, length_append, length_append] at hf
    rw [ih (by omega) fun c hc => hne c (mem_cons_of_mem a hc)]

end List
