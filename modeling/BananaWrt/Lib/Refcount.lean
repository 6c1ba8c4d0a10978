import Mathlib.Data.List.Basic
import Mathlib.Data.Nat.Notation
import Mathlib.Logic.Function.Basic

/-!
# Objects with reference counts

An object is there as long as its count is not 0. The owners of a reference each are a list of
objects, one entry for each reference, in any order: `Owned c os` says that the counts are right
for them. An object whose count is 1 has the owner that found it so, and no other.
-/

namespace Refcount

variable {ι : Type*} [DecidableEq ι]

def alloc (c : ι → ℕ) (i : ι) : ι → ℕ := Function.update c i 1

def get (c : ι → ℕ) (i : ι) : ι → ℕ := Function.update c i (c i + 1)

/-- `none` if there is no such object. -/
def put (c : ι → ℕ) (i : ι) : Option (ι → ℕ) :=
  if c i = 0 then none else some (Function.update c i (c i - 1))

def Owned (c : ι → ℕ) (os : List ι) : Prop := ∀ i, c i = os.count i

variable {c : ι → ℕ} {os os' : List ι} {i j : ι}

/-- An object that is new and given back is as if it had not been. -/
theorem put_alloc (hi : c i = 0) : put (alloc c i) i = some c := by
  have hback : Function.update (alloc c i) i (alloc c i i - 1) = c := by
    rw [alloc, Function.update_self, Function.update_idem]
    exact Function.update_eq_self_iff.2 hi.symm
  have hone : alloc c i i ≠ 0 := by
    rw [alloc, Function.update_self]
    exact Nat.one_ne_zero
  rw [put, if_neg hone, hback]

theorem count_cons_eq (i j : ι) (os : List ι) :
    (i :: os).count j = os.count j + if j = i then 1 else 0 := by
  by_cases h : j = i
  · rw [h, List.count_cons_self, if_pos rfl]
  · rw [List.count_cons_of_ne (Ne.symm h), if_neg h, Nat.add_zero]

theorem Owned.congr (h : Owned c os) (hcount : ∀ i, os'.count i = os.count i) : Owned c os' :=
  fun i => (h i).trans (hcount i).symm

theorem Owned.perm (h : Owned c os) (hperm : os'.Perm os) : Owned c os' :=
  h.congr fun i => hperm.count_eq i

theorem Owned.zero_iff (h : Owned c os) : c i = 0 ↔ i ∉ os := by
  rw [h i, List.count_eq_zero]

theorem Owned.ne_zero (h : Owned c os) (hi : i ∈ os) : c i ≠ 0 := fun hz => h.zero_iff.1 hz hi

theorem Owned.alloc (h : Owned c os) (hi : c i = 0) : Owned (alloc c i) (i :: os) := fun j => by
  rw [count_cons_eq, Refcount.alloc]
  by_cases hj : j = i
  · have hnone := h i
    rw [hj, Function.update_self, if_pos rfl]
    omega
  · rw [Function.update_of_ne hj, if_neg hj, Nat.add_zero, h j]

theorem Owned.get (h : Owned c os) (i : ι) : Owned (get c i) (i :: os) := fun j => by
  rw [count_cons_eq, Refcount.get]
  by_cases hj : j = i
  · rw [hj, Function.update_self, if_pos rfl, h i]
  · rw [Function.update_of_ne hj, if_neg hj, Nat.add_zero, h j]

/-- An owner gives its reference back. -/
theorem Owned.put (h : Owned c (i :: os)) :
    put c i = some (Function.update c i (c i - 1)) ∧ Owned (Function.update c i (c i - 1)) os := by
  refine ⟨if_neg (h.ne_zero List.mem_cons_self), fun j => ?_⟩
  have hcount := h j
  rw [count_cons_eq] at hcount
  by_cases hj : j = i
  · rw [if_pos hj] at hcount
    rw [hj, Function.update_self]
    rw [hj] at hcount
    omega
  · rw [if_neg hj] at hcount
    rw [Function.update_of_ne hj, hcount, Nat.add_zero]

/-- Whoever has the one reference has no one beside him. -/
theorem Owned.notMem_of_eq_one (h : Owned c (i :: os)) (hone : c i = 1) : i ∉ os := by
  have hcount := h i
  rw [count_cons_eq, if_pos rfl] at hcount
  exact List.count_eq_zero.1 (by omega)

end Refcount
