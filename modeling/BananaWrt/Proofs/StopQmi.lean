import Mathlib.Tactic.Common
import BananaWrt.StopQmi

/-!
# No dial is stopped

A number is no field of a `jq` filter, so that the lookup of the pid prints nothing and `kill` is
called without a process (`kill_notMem_stopQmi`). Which instances are chosen does not matter then.
-/

namespace BananaWrt

namespace Dial

theorem not_isField_of_isDigit {c : Char} (h : c.isDigit) (cs : List Char) :
    isField (c :: cs) = false := by
  have hrange := Char.isDigit_iff_toNat.1 h
  have halpha : c.isAlpha = false := by
    change (decide ('A'.val ≤ c.val ∧ c.val ≤ 'Z'.val)
      || (decide ('a'.val ≤ c.val) && decide (c.val ≤ 'z'.val))) = false
    simp only [Bool.or_eq_false_iff, decide_eq_false_iff_not, Bool.and_eq_false_iff,
      UInt32.le_iff_toNat_le]
    change '0'.toNat ≤ c.val.toNat ∧ c.val.toNat ≤ '9'.toNat at hrange
    simp only [Char.reduceToNat, Char.reduceVal, UInt32.reduceToNat] at hrange ⊢
    omega
  have hunder : (c == '_') = false := by
    refine beq_eq_false_iff_ne.2 fun heq => ?_
    rw [heq] at hrange
    exact absurd hrange (by decide)
  rw [isField, halpha, hunder]
  rfl

theorem not_isField_digits (n : ℕ) : isField (digits n) = false := by
  obtain ⟨c, cs, h⟩ := List.exists_cons_of_ne_nil (Nat.toDigits_ne_nil (n := n) (b := 10))
  have hc : c ∈ Nat.toDigits 10 n := h ▸ List.mem_cons_self
  unfold digits
  rw [h]
  exact not_isField_of_isDigit (Nat.isDigit_of_mem_toDigits (by decide) (by decide) hc) cs

/-- The lookup of a pid by the number of an instance. -/
theorem jq_digits (instances : List (List Char × Instance)) (n : ℕ) (field : Field) :
    jq instances (digits n) field = [] := by
  unfold jq
  rw [not_isField_digits, if_neg Bool.false_ne_true]

/-- `kill` without an argument. -/
theorem kill_nil : kill [] = [] := rfl

theorem kill_notMem_stopQmi (network : List Char) (modemNo : ℕ) (path : String)
    (instances : List Instance) (pid : ℕ) :
    .kill pid ∉ stopQmi network modemNo path instances := by
  intro h
  obtain ⟨i, -, h⟩ := List.mem_flatMap.1 h
  simp only [jq_digits, kill_nil, ite_self, List.nil_append] at h
  split_ifs at h
  · simp at h
  · exact List.not_mem_nil h

theorem length_response (instances : List Instance) :
    (response instances).length = instances.length := by
  unfold response
  rw [List.length_map, List.length_zipIdx]

/-- Nothing is done where no command has the name of the interface. -/
theorem stopQmi_eq_nil_iff (network : List Char) (modemNo : ℕ) (path : String)
    (instances : List Instance) :
    stopQmi network modemNo path instances = []
      ↔ ∀ n ∈ List.range' 1 instances.length, ¬ "wwan_5g_".toList ++ digits modemNo
          <:+: jq (response instances) ("instance".toList ++ digits n) .command := by
  unfold stopQmi
  simp only [jq_digits, kill_nil, ite_self, List.nil_append, length_response,
    List.flatMap_eq_nil_iff]
  refine forall₂_congr fun n _ => ?_
  rw [ite_eq_right_iff]
  exact imp_congr_right fun _ => iff_of_false (List.cons_ne_nil _ _) not_false

/-- The operation is right only where there is nothing to stop. -/
theorem stop_right_iff (network : List Char) (modemNo : ℕ) (path : String)
    (instances : List Instance) :
    StopRight network modemNo path instances
      ↔ ∀ inst ∈ instances, network ∉ inst.command.tail := by
  constructor
  · intro h inst hinst harg
    exact kill_notMem_stopQmi network modemNo path instances inst.pid
      ((h inst.pid).2 ⟨inst, hinst, harg, rfl⟩)
  · intro h pid
    refine iff_of_false (kill_notMem_stopQmi network modemNo path instances pid) ?_
    rintro ⟨inst, hinst, harg, -⟩
    exact h inst hinst harg

/-- One instance, that dials on `wwan0`. -/
def wwan0Instance : Instance where
  command := ["quectel-CM".toList, "-4".toList, "-i".toList, "wwan0".toList]
  pid := 812

/-- It is chosen, and goes on. -/
theorem stop_wrong : ¬ StopRight "wwan0".toList 0 "1-1" [wwan0Instance]
    ∧ "wwan0".toList <:+: jq (response [wwan0Instance]) "instance1".toList .command
    ∧ stopQmi "wwan0".toList 0 "1-1" [wwan0Instance] = [] := by
  refine ⟨fun h => ?_, by decide, by decide⟩
  refine kill_notMem_stopQmi _ _ _ _ 812 ((h 812).2 ⟨wwan0Instance, ?_, ?_, rfl⟩)
  · exact List.mem_singleton_self _
  · decide

end Dial

end BananaWrt
