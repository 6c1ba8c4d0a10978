import Mathlib.Data.List.Nodup
import Mathlib.Logic.Function.Basic

/-!
# A circular buffer

Positions in a buffer of `n` elements go from `0` to `n - 1` and then back to `0`. Elements are put
in at `wp` and taken out at `rp`, and the buffer is full when one more would bring `wp` to `rp`, so
that it is empty when the two are equal. `contents` are the elements from `rp` up to `wp`; `push`
and `pop` act on them as on a queue.
-/

namespace Ring

def succ (n i : ℕ) : ℕ := if n ≤ i + 1 then 0 else i + 1

/-- The position `k` elements after `i`, for `k` up to `n`. -/
def pos (n i k : ℕ) : ℕ := if i + k < n then i + k else i + k - n

/-- How many elements there are from `rp` up to `wp`. -/
def used (n rp wp : ℕ) : ℕ := if rp ≤ wp then wp - rp else n - (rp - wp)

variable {n rp wp : ℕ}

theorem succ_lt {i : ℕ} (hn : 0 < n) : succ n i < n := by
  unfold succ
  split_ifs <;> omega

theorem pos_lt {i k : ℕ} (hi : i < n) (hk : k ≤ n) : pos n i k < n := by
  unfold pos
  split_ifs <;> omega

theorem pos_zero {i : ℕ} (hi : i < n) : pos n i 0 = i := by
  unfold pos
  rw [if_pos (by omega), Nat.add_zero]

theorem pos_succ {i k : ℕ} (hi : i < n) (hk : k < n) : pos n (succ n i) k = pos n i (k + 1) := by
  unfold pos succ
  split_ifs <;> omega

theorem succ_pos {i k : ℕ} (hi : i < n) (hk : k < n) : succ n (pos n i k) = pos n i (k + 1) := by
  unfold pos succ
  split_ifs <;> omega

theorem pos_inj {i j k : ℕ} (hj : j < n) (hk : k < n) (h : pos n i j = pos n i k) :
    j = k := by
  unfold pos at h
  split_ifs at h <;> omega

theorem pos_pos {i j k : ℕ} (hi : i < n) (hjk : j + k ≤ n) :
    pos n (pos n i j) k = pos n i (j + k) := by
  unfold pos
  split_ifs <;> omega

/-- Once around. -/
theorem pos_pos_back {i h k : ℕ} (hi : i < n) (hk : k ≤ h) (hh : h ≤ n) :
    pos n (pos n i h) (n - h + k) = pos n i k := by
  unfold pos
  split_ifs <;> omega

theorem used_lt (hrp : rp < n) (hwp : wp < n) : used n rp wp < n := by
  unfold used
  split_ifs <;> omega

theorem used_eq_zero_iff (hrp : rp < n) : used n rp wp = 0 ↔ rp = wp := by
  unfold used
  split_ifs <;> omega

theorem used_pos_iff (hrp : rp < n) : 0 < used n rp wp ↔ rp ≠ wp := by
  rw [Nat.pos_iff_ne_zero, Ne, used_eq_zero_iff hrp]

@[simp] theorem used_self : used n rp rp = 0 := by
  unfold used
  rw [if_pos (Nat.le_refl rp), Nat.sub_self]

theorem pos_used (hrp : rp < n) (hwp : wp < n) : pos n rp (used n rp wp) = wp := by
  unfold pos used
  split_ifs <;> omega

theorem used_push (hrp : rp < n) (hwp : wp < n) (hfull : succ n wp ≠ rp) :
    used n rp (succ n wp) = used n rp wp + 1 := by
  unfold used succ at *
  split_ifs at * <;> omega

theorem used_pop (hrp : rp < n) (hwp : wp < n) (hne : rp ≠ wp) :
    used n (succ n rp) wp + 1 = used n rp wp := by
  unfold used succ
  split_ifs <;> omega

/-- A position that is counted from the start of a log. -/
theorem pos_mod {h k : ℕ} (hn : 0 < n) (hk : k ≤ n) : pos n (h % n) k = (h + k) % n := by
  have hlt : h % n < n := Nat.mod_lt h hn
  have hadd : (h + k) % n = (h % n + k) % n := (Nat.mod_add_mod h n k).symm
  unfold pos
  rw [hadd]
  split_ifs with hsum
  · exact (Nat.mod_eq_of_lt hsum).symm
  · have hsub : (h % n + k) % n = (h % n + k - n) % n := Nat.mod_eq_sub_mod (by omega)
    rw [hsub]
    exact (Nat.mod_eq_of_lt (by omega)).symm

theorem succ_eq_mod {i : ℕ} (hi : i < n) : succ n i = (i + 1) % n := by
  unfold succ
  split_ifs with h
  · have heq : i + 1 = n := Nat.le_antisymm hi h
    rw [heq, Nat.mod_self]
  · exact (Nat.mod_eq_of_lt (by omega)).symm

/-- A buffer is full if it has all its elements but one. -/
theorem succ_eq_iff_used (hrp : rp < n) (hwp : wp < n) :
    succ n wp = rp ↔ used n rp wp + 1 = n := by
  unfold succ used
  split_ifs <;> omega

/-- As many elements on as are less than all. -/
theorem used_add_mod {i k : ℕ} (hi : i < n) (hk : k < n) : used n i ((i + k) % n) = k := by
  unfold used
  by_cases h : i + k < n
  · rw [Nat.mod_eq_of_lt h, if_pos (by omega)]
    omega
  · rw [Nat.mod_eq_sub_mod (by omega), Nat.mod_eq_of_lt (by omega), if_neg (by omega)]
    omega

/-- An element taken out of an empty buffer leaves all the others to be taken out. -/
theorem used_pop_empty (hrp : rp < n) : used n (succ n rp) rp + 1 = n := by
  unfold used succ
  split_ifs <;> omega

/-- The `k` positions from `i` on. -/
def window (n i k : ℕ) : List ℕ := (List.range k).map (pos n i)

@[simp] theorem length_window {i k : ℕ} : (window n i k).length = k := by
  unfold window
  rw [List.length_map, List.length_range]

/-- A window without its first position, from the next one on. -/
theorem window_succ {i k : ℕ} (hi : i < n) (hk : k < n) :
    window n i (k + 1) = i :: window n (succ n i) k := by
  unfold window
  rw [List.range_succ_eq_map, List.map_cons, List.map_map, pos_zero hi]
  refine congrArg (i :: ·) (List.map_congr_left fun j hj => ?_)
  have hj' := List.mem_range.1 hj
  exact (pos_succ hi (by omega)).symm

theorem window_push {i k : ℕ} : window n i (k + 1) = window n i k ++ [pos n i k] := by
  unfold window
  rw [List.range_succ, List.map_append, List.map_singleton]

theorem nodup_window {i k : ℕ} (hk : k ≤ n) : (window n i k).Nodup := by
  refine List.Nodup.map_on (fun a ha b hb h => ?_) List.nodup_range
  have ha' := List.mem_range.1 ha
  have hb' := List.mem_range.1 hb
  exact pos_inj (by omega) (by omega) h

/-- A window without its first position, by the distances from there. -/
theorem window_after {i k : ℕ} (hi : i < n) (hk : k < n) :
    window n (succ n i) k = (List.range' 1 k).map (pos n i) := by
  unfold window
  rw [List.range'_eq_map_range, List.map_map]
  refine List.map_congr_left fun j hj => ?_
  have hj' := List.mem_range.1 hj
  change _ = pos n i (1 + j)
  rw [pos_succ hi (by omega), Nat.add_comm]

/-- A window by the distances from the position behind it. -/
theorem window_before {i k : ℕ} (hi : i < n) (hk : k ≤ n) :
    window n i k = (List.range' (n - k) k).map (pos n (pos n i k)) := by
  unfold window
  rw [List.range'_eq_map_range, List.map_map]
  refine List.map_congr_left fun j hj => ?_
  have hj' := List.mem_range.1 hj
  exact (pos_pos_back hi (by omega) hk).symm

/-- A window that is cut, by the distances from where its second part starts. -/
theorem window_cut {i k b : ℕ} {xs ys : List ℕ} (hi : i < n) (hk : k < n)
    (h : xs ++ b :: ys = window n i k) :
    xs = (List.range' (n - xs.length) xs.length).map (pos n b)
      ∧ ys = (List.range' 1 ys.length).map (pos n b) := by
  have hlen := congrArg List.length h
  rw [List.length_append, List.length_cons, length_window] at hlen
  have hsplit : window n i k
      = window n i xs.length ++ window n (pos n i xs.length) (ys.length + 1) := by
    unfold window
    rw [← hlen, List.range_add, List.map_append, List.map_map]
    refine congrArg (_ ++ ·) (List.map_congr_left fun j hj => ?_)
    have hj' := List.mem_range.1 hj
    exact (pos_pos hi (by omega)).symm
  rw [hsplit] at h
  obtain ⟨hxs, hys⟩ := List.append_inj h length_window.symm
  rw [window_succ (pos_lt hi (by omega)) (by omega)] at hys
  obtain ⟨rfl, hrest⟩ := List.cons.inj hys
  constructor
  · rw [← window_before hi (by omega)]
    exact hxs
  · rw [← window_after (pos_lt hi (by omega)) (by omega)]
    exact hrest

/-- Where a window is cut, its second part starts. -/
theorem window_eq_append_cons {i k b : ℕ} {xs ys : List ℕ} (h : xs ++ b :: ys = window n i k) :
    b = pos n i xs.length := by
  have hb : (window n i k)[xs.length]? = some b := by
    rw [← h, List.getElem?_append_right (Nat.le_refl _), Nat.sub_self, List.getElem?_cons_zero]
  unfold window at hb
  rw [List.getElem?_map, Option.map_eq_some_iff] at hb
  obtain ⟨j, hj, hb⟩ := hb
  obtain ⟨hlt, hj⟩ := List.getElem?_eq_some_iff.1 hj
  rw [List.getElem_range] at hj
  rw [← hb, ← hj]

section Contents

variable {α : Type*} (slots : ℕ → α)

def contents (n rp wp : ℕ) : List α := (List.range (used n rp wp)).map fun k => slots (pos n rp k)

@[simp] theorem length_contents : (contents slots n rp wp).length = used n rp wp := by
  unfold contents
  rw [List.length_map, List.length_range]

@[simp] theorem contents_self : contents slots n rp rp = [] := by
  unfold contents
  rw [used_self]
  rfl

/-- What is written at `wp` is not yet in the buffer. -/
@[simp] theorem contents_update (hrp : rp < n) (hwp : wp < n) (v : α) :
    contents (Function.update slots wp v) n rp wp = contents slots n rp wp := by
  have hlt := used_lt hrp hwp
  unfold contents
  refine List.map_congr_left fun k hk => ?_
  have hk' : k < used n rp wp := List.mem_range.1 hk
  refine Function.update_of_ne (fun heq => ?_) v slots
  -- the position of an element is not that of the free place
  rw [← pos_used hrp hwp] at heq
  have := pos_inj (by omega) hlt heq
  omega

/-- An element is put in behind the others. -/
theorem contents_push (hrp : rp < n) (hwp : wp < n) (hfull : succ n wp ≠ rp) :
    contents slots n rp (succ n wp) = contents slots n rp wp ++ [slots wp] := by
  unfold contents
  rw [used_push hrp hwp hfull, List.range_succ, List.map_append, List.map_singleton,
    pos_used hrp hwp]

/-- The first element is taken out. -/
theorem contents_pop (hrp : rp < n) (hwp : wp < n) (hne : rp ≠ wp) :
    contents slots n rp wp = slots rp :: contents slots n (succ n rp) wp := by
  have hlt := used_lt hrp hwp
  have hpop := used_pop hrp hwp hne
  unfold contents
  rw [← hpop, List.range_succ_eq_map, List.map_cons, List.map_map, pos_zero hrp]
  refine congrArg (slots rp :: ·) (List.map_congr_left fun k hk => ?_)
  have hk' := List.mem_range.1 hk
  change slots (pos n rp (k + 1)) = _
  rw [pos_succ hrp (by omega)]

end Contents

end Ring
