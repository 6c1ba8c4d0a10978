import BananaWrt.Lib.Bytes

/-!
# Writing to a buffer piece by piece

A function that fills a buffer through pointers is a list of writes, each with its place and its
bytes, in program order. `run` is what the buffer holds after them; what is written past its end
goes elsewhere. `Within` says that nothing is. `slice` reads a stretch of the buffer; what a run
leaves there is what was written to all of it last (`slice_run_self`), or what stood there before if
the writes keep clear of it (`slice_run`).
-/

open Bytes

abbrev Writes := List (ℕ × Bytes)

namespace Writes

/-- What the buffer `b` holds once `v` has been written at `off`. -/
def store (b : Bytes) (off : ℕ) (v : Bytes) : Bytes :=
  b.take off ++ v.take (b.length - off) ++ b.drop (off + v.length)

def run (b : Bytes) : Writes → Bytes
  | [] => b
  | (off, v) :: ws => run (store b off v) ws

/-- Every byte that is written lies among the first `n`. -/
def Within (n : ℕ) (ws : Writes) : Prop := ∀ w ∈ ws, ∀ i < w.2.length, w.1 + i < n

instance (n : ℕ) (ws : Writes) : Decidable (Within n ws) :=
  inferInstanceAs (Decidable (∀ w ∈ ws, ∀ i < w.2.length, w.1 + i < n))

theorem length_store (b : Bytes) (off : ℕ) (v : Bytes) : (store b off v).length = b.length := by
  simp only [store, List.length_append, List.length_take, List.length_drop]
  omega

theorem store_append_left {hd : Bytes} {off : ℕ} {v : Bytes} (h : off + v.length ≤ hd.length)
    (b : Bytes) : store (hd ++ b) off v = store hd off v ++ b := by
  have hl : v.take ((hd ++ b).length - off) = v := by
    refine List.take_of_length_le ?_
    rw [List.length_append]
    omega
  have hr : v.take (hd.length - off) = v := List.take_of_length_le (by omega)
  unfold store
  rw [List.take_append_of_le_length (by omega), List.drop_append_of_le_length h, hl, hr]
  simp only [List.append_assoc]

theorem store_append_right (hd b : Bytes) (k : ℕ) (v : Bytes) :
    store (hd ++ b) (hd.length + k) v = hd ++ store b k v := by
  have hk : hd.length + b.length - (hd.length + k) = b.length - k := by omega
  have htake : (hd ++ b).take (hd.length + k) = hd ++ b.take k := List.take_length_add_append k
  have hdrop : (hd ++ b).drop (hd.length + (k + v.length)) = b.drop (k + v.length) :=
    List.drop_length_add_append _
  unfold store
  rw [htake, Nat.add_assoc, hdrop, List.length_append, hk]
  simp only [List.append_assoc]

theorem take_append_add {b : Bytes} {n : ℕ} (hb : b.length = n) (b' : Bytes) (k : ℕ) :
    (b ++ b').take (n + k) = b ++ b'.take k := by
  subst hb
  exact List.take_length_add_append k

/-- A write at the end of what is there puts its bytes behind it. -/
theorem take_store {b : Bytes} {off k : ℕ} {v : Bytes} (hk : k ≤ v.length)
    (hb : off + k ≤ b.length) : (store b off v).take (off + k) = b.take off ++ v.take k := by
  have hoff : (b.take off).length = off := List.length_take_of_le (by omega)
  have hv : (v.take (b.length - off)).take k = v.take k := by
    rw [List.take_take, Nat.min_eq_left (by omega)]
  have hlen : k ≤ (v.take (b.length - off)).length := by
    rw [List.length_take]
    omega
  unfold store
  rw [List.append_assoc, take_append_add hoff, List.take_append_of_le_length hlen, hv]

theorem getElem?_store (b : Bytes) (off : ℕ) (v : Bytes) (i : ℕ) : (store b off v)[i]?
    = if off ≤ i ∧ i < off + v.length ∧ i < b.length then v[i - off]? else b[i]? := by
  unfold store
  rw [List.getElem?_append, List.getElem?_append]
  simp only [List.length_append, List.length_take, List.getElem?_take, List.getElem?_drop]
  split_ifs
  all_goals try rfl
  all_goals try omega
  · rw [Nat.min_eq_left (by omega)]
  · -- behind what was written, or behind the buffer
    rcases Nat.lt_or_ge i b.length with hi | hi
    · congr 1
      omega
    · rw [List.getElem?_eq_none (by omega), List.getElem?_eq_none hi]

theorem length_run : ∀ (ws : Writes) (b : Bytes), (run b ws).length = b.length
  | [], _ => rfl
  | (off, v) :: ws, b => by
    unfold run
    rw [length_run ws, length_store]

theorem run_append : ∀ (ws ws' : Writes) (b : Bytes), run b (ws ++ ws') = run (run b ws) ws'
  | [], _, _ => rfl
  | (off, v) :: ws, ws', b => run_append ws ws' (store b off v)

/-- Writes into the front leave what is behind it. -/
theorem run_append_left : ∀ {ws : Writes} {hd : Bytes}, (∀ w ∈ ws, w.1 + w.2.length ≤ hd.length) →
    ∀ b, run (hd ++ b) ws = run hd ws ++ b
  | [], _, _, _ => rfl
  | (off, v) :: ws, hd, h, b => by
    unfold run
    have hv : off + v.length ≤ hd.length := h (off, v) List.mem_cons_self
    rw [store_append_left hv]
    refine run_append_left (fun w hw => ?_) b
    rw [length_store]
    exact h w (List.mem_cons_of_mem _ hw)

/-- Writes behind the front leave it. -/
theorem run_append_right (hd : Bytes) : ∀ (ws : Writes) (b : Bytes),
    run (hd ++ b) (ws.map fun w => (hd.length + w.1, w.2)) = hd ++ run b ws
  | [], _ => rfl
  | (off, v) :: ws, b => by
    unfold run
    rw [List.map_cons]
    simp only [store_append_right]
    exact run_append_right hd ws (store b off v)

def slice (b : Bytes) (off n : ℕ) : Bytes := (b.drop off).take n

/-- None of the writes touches the stretch. -/
def Clear (off n : ℕ) (ws : Writes) : Prop :=
  ∀ w ∈ ws, w.1 + w.2.length ≤ off ∨ off + n ≤ w.1

theorem getElem?_slice (b : Bytes) (off n i : ℕ) :
    (slice b off n)[i]? = if i < n then b[off + i]? else none := by
  unfold slice
  rw [List.getElem?_take]
  split_ifs
  · exact List.getElem?_drop
  · rfl

theorem slice_store {b v : Bytes} {o off n : ℕ} (h : o + v.length ≤ off ∨ off + n ≤ o) :
    slice (store b o v) off n = slice b off n := by
  refine List.ext_getElem? fun i => ?_
  rw [getElem?_slice, getElem?_slice, getElem?_store]
  split_ifs
  · omega
  · rfl
  · rfl

theorem slice_store_self {b v : Bytes} {off : ℕ} (h : off + v.length ≤ b.length) :
    slice (store b off v) off v.length = v := by
  refine List.ext_getElem? fun i => ?_
  rw [getElem?_slice, getElem?_store]
  split_ifs with hi hc
  · rw [Nat.add_sub_cancel_left]
  · omega
  · exact (List.getElem?_eq_none (Nat.le_of_not_lt hi)).symm

theorem slice_run {off n : ℕ} : ∀ {ws : Writes} (b : Bytes), Clear off n ws →
    slice (run b ws) off n = slice b off n
  | [], _, _ => rfl
  | (o, v) :: ws, b, h => by
    unfold run
    rw [slice_run _ fun w hw => h w (List.mem_cons_of_mem _ hw)]
    exact slice_store (h (o, v) List.mem_cons_self)

theorem slice_run_self {off : ℕ} {v b : Bytes} {ws : Writes} (ws' : Writes)
    (hv : off + v.length ≤ b.length) (h : Clear off v.length ws) :
    slice (run b (ws' ++ (off, v) :: ws)) off v.length = v := by
  rw [run_append]
  unfold run
  rw [slice_run _ h]
  refine slice_store_self ?_
  rwa [length_run]

theorem clear_append {off n : ℕ} {ws ws' : Writes} :
    Clear off n (ws ++ ws') ↔ Clear off n ws ∧ Clear off n ws' := by
  unfold Clear
  rw [List.forall_mem_append]

theorem within_nil (n : ℕ) : Within n [] := fun _ h => absurd h List.not_mem_nil

theorem within_of_le {n : ℕ} {ws : Writes} (h : ∀ w ∈ ws, w.1 + w.2.length ≤ n) : Within n ws :=
  fun w hw _ hi => Nat.lt_of_lt_of_le (Nat.add_lt_add_left hi w.1) (h w hw)

theorem Within.mono {n m : ℕ} {ws : Writes} (h : Within n ws) (hnm : n ≤ m) : Within m ws :=
  fun w hw i hi => Nat.lt_of_lt_of_le (h w hw i hi) hnm

theorem within_append {n : ℕ} {ws ws' : Writes} :
    Within n (ws ++ ws') ↔ Within n ws ∧ Within n ws' := by
  unfold Within
  rw [List.forall_mem_append]

theorem within_cons {n off : ℕ} {v : Bytes} {ws : Writes} (hv : v ≠ []) :
    Within n ((off, v) :: ws) ↔ off + v.length ≤ n ∧ Within n ws := by
  have hpos : 0 < v.length := List.length_pos_iff.2 hv
  unfold Within
  rw [List.forall_mem_cons]
  refine and_congr_left' ⟨fun h => ?_, fun h i hi => ?_⟩
  · have := h (v.length - 1) (Nat.sub_lt hpos Nat.one_pos)
    dsimp only at this
    omega
  · dsimp only at hi ⊢
    omega

end Writes
