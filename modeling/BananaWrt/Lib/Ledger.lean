import Mathlib.Data.Multiset.AddSub

/-!
# What is held, and what was given back without being held

A ledger of things that are taken and given back, in any order. `drop` gives back one that must be
held, and `use` needs one to be held; where it is not, that is a fault. `release` gives it back if
it is held. Faults are never forgotten, so that a ledger without faults has had none.
-/

structure Ledger (ρ : Type*) where
  held : Multiset ρ
  faults : List ρ

namespace Ledger

section Basic

variable {ρ : Type*} (l : Ledger ρ) (r : ρ)

/-- Without faults. -/
def clean (m : Multiset ρ) : Ledger ρ := ⟨m, []⟩

def fault : Ledger ρ := { l with faults := l.faults ++ [r] }

def take : Ledger ρ := { l with held := r ::ₘ l.held }

/-- A ledger that comes after another has its faults too. -/
def After (l l' : Ledger ρ) : Prop := l.faults ≠ [] → l'.faults ≠ []

variable {l r} {l' l'' : Ledger ρ}

@[simp] theorem take_clean (m : Multiset ρ) (r : ρ) : (clean m).take r = clean (r ::ₘ m) := rfl

theorem fault_ne_nil : (l.fault r).faults ≠ [] :=
  List.append_ne_nil_of_right_ne_nil _ (List.cons_ne_nil r [])

theorem after_refl (l : Ledger ρ) : After l l := id

theorem After.trans (h : After l l') (h' : After l' l'') : After l l'' := fun hf => h' (h hf)

theorem after_fault : After l (l.fault r) := fun _ => fault_ne_nil

theorem after_take : After l (l.take r) := id

end Basic

variable {ρ : Type*} [DecidableEq ρ] (l : Ledger ρ) (r : ρ)

def drop : Ledger ρ := if r ∈ l.held then { l with held := l.held.erase r } else l.fault r

def release : Ledger ρ := if r ∈ l.held then { l with held := l.held.erase r } else l

def use : Ledger ρ := if r ∈ l.held then l else l.fault r

/-- All of them, in order. -/
def dropAll (rs : List ρ) : Ledger ρ := rs.foldl drop l

variable {l r} {m : Multiset ρ} {a : ρ}

@[simp] theorem drop_clean (m : Multiset ρ) (r : ρ) : (clean (r ::ₘ m)).drop r = clean m := by
  change (if r ∈ r ::ₘ m then clean ((r ::ₘ m).erase r) else _) = _
  rw [if_pos (Multiset.mem_cons_self r m), Multiset.erase_cons_head]

@[simp] theorem release_clean (m : Multiset ρ) (r : ρ) :
    (clean (r ::ₘ m)).release r = clean m := by
  change (if r ∈ r ::ₘ m then clean ((r ::ₘ m).erase r) else _) = _
  rw [if_pos (Multiset.mem_cons_self r m), Multiset.erase_cons_head]

theorem drop_of_notMem (h : r ∉ l.held) : l.drop r = l.fault r := if_neg h

theorem use_of_mem (h : r ∈ l.held) : l.use r = l := if_pos h

theorem use_of_notMem (h : r ∉ l.held) : l.use r = l.fault r := if_neg h

/-- What is held may be given back in any order. -/
theorem dropAll_clean : ∀ (rs : List ρ) (m : Multiset ρ),
    (clean ((rs : Multiset ρ) + m)).dropAll rs = clean m
  | [], m => by
    rw [Multiset.coe_nil, Multiset.zero_add]
    rfl
  | r :: rs, m => by
    rw [← Multiset.cons_coe, Multiset.cons_add]
    change ((clean (r ::ₘ (↑rs + m))).drop r).dropAll rs = _
    rw [drop_clean, dropAll_clean rs m]

theorem notMem_drop (h : a ∉ l.held) : a ∉ (l.drop r).held := by
  unfold drop
  split_ifs
  · exact fun ha => h (Multiset.mem_of_mem_erase ha)
  · exact h

theorem notMem_use (h : a ∉ l.held) : a ∉ (l.use r).held := by
  unfold use
  split_ifs <;> exact h

theorem notMem_dropAll : ∀ (rs : List ρ) {l : Ledger ρ}, a ∉ l.held → a ∉ (l.dropAll rs).held
  | [], _, h => h
  | r :: rs, _, h => notMem_dropAll rs (notMem_drop (r := r) h)

theorem after_drop : After l (l.drop r) := by
  unfold drop
  split_ifs
  · exact id
  · exact after_fault

theorem after_release : After l (l.release r) := by
  unfold release
  split_ifs <;> exact id

theorem after_use : After l (l.use r) := by
  unfold use
  split_ifs
  · exact id
  · exact after_fault

theorem after_dropAll : ∀ {rs : List ρ} {l : Ledger ρ}, After l (l.dropAll rs)
  | [], l => after_refl l
  | _ :: _, _ => after_drop.trans after_dropAll

end Ledger
