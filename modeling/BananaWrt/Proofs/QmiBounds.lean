import BananaWrt.Proofs.QmiMsg
import BananaWrt.QmiBounds

/-!
# When `GetTLV` stays inside the message

While no TLV is longer than what is left, `Length` is what is left and the pointer stays in the
message. A TLV that is longer makes `Length` wrap, and the next round is behind the message unless
the remainder comes out below three (`checkedLoop_inside`). So the search stays inside exactly if
the walk over the TLVs ends well (`inside_iff`); over a sequence of whole TLVs it does and returns
what it should.
-/

namespace BananaWrt

namespace Qmi

open Bytes Tlv

variable {b : Bytes} {T : ℕ}

/-- A round behind the message that does not end the loop reads or returns what is not in it. -/
theorem checkedLoop_behind {fuel find len off : ℕ} (hlen : 3 ≤ len) (hoff : b.length < off) :
    ∃ r, checkedLoop b T (fuel + 1) find len off = some r ∧ ¬ r.Inside b := by
  rw [checkedLoop, if_neg (by omega)]
  split_ifs with hindex hplain htype
  · exact ⟨_, rfl, fun h => by unfold Outcome.Inside at h; omega⟩
  · exact ⟨_, rfl, id⟩
  · exact ⟨_, rfl, fun h => by unfold Outcome.Inside at h; omega⟩
  · exact ⟨_, rfl, id⟩
  · omega

/-- A round at a TLV header in the message. -/
theorem checkedLoop_step {fuel find len off : ℕ} (hlen : 3 ≤ len) (hoff : off + 3 ≤ b.length) :
    checkedLoop b T (fuel + 1) find len off
      = if Wanted T (find + 1) (u8 b off) then some (.found off)
        else checkedLoop b T fuel (find + 1) ((len + 2 ^ 17 - (le16 b (off + 1) + 3)) % 2 ^ 16)
          (off + le16 b (off + 1) + 3) := by
  rw [checkedLoop, if_neg (by omega), if_neg (by omega : ¬ b.length < off + 3)]
  have hin : ¬ (¬ 0x1000 < T ∧ b.length ≤ off) := by omega
  rw [if_neg hin]
  unfold Wanted
  by_cases hT : 0x1000 < T <;> simp [hT]

theorem EndsWell.of_long {n : ℕ} {r : Bytes} (h : EndsWell T n r) (hr : 3 ≤ r.length)
    (hlong : r.length < 3 + le16 r 1) :
    ¬ Wanted T (n + 1) (u8 r 0) ∧ r.length + 2 ^ 16 - (3 + le16 r 1) < 3 := by
  cases h with
  | short h => omega
  | wanted h _ => omega
  | next h _ _ => omega
  | wraps _ hw hlong => exact ⟨hw, hlong⟩

theorem checkedLoop_inside : ∀ {fuel find len off : ℕ}, off + len = b.length → len < 2 ^ 16 →
    len < fuel → ∃ r, checkedLoop b T fuel find len off = some r
      ∧ (r.Inside b ↔ EndsWell T find (b.drop off))
  | 0, _, _, _, _, _, hfuel => absurd hfuel (Nat.not_lt_zero _)
  | fuel + 1, find, len, off, hoff, hlt, hfuel => by
    have hdrop : (b.drop off).length = len := by
      rw [List.length_drop]
      omega
    have htype : u8 (b.drop off) 0 = u8 b off := u8_drop b off 0
    have hl : le16 (b.drop off) 1 = le16 b (off + 1) := by
      unfold le16
      rw [u8_drop, u8_drop]
    have hl16 := le16_lt b (off + 1)
    by_cases hshort : len < 3
    · refine ⟨.null, ?_, iff_of_true trivial (.short (by omega))⟩
      rw [checkedLoop, if_pos hshort]
    rw [checkedLoop_step (by omega) (by omega)]
    by_cases hw : Wanted T (find + 1) (u8 b off)
    · refine ⟨.found off, if_pos hw, ?_⟩
      have hends : EndsWell T find (b.drop off) ↔ 3 + le16 b (off + 1) ≤ len := by
        refine ⟨fun h => ?_, fun h => .wanted (by omega) (htype ▸ hw)⟩
        by_contra hlong
        exact (h.of_long (by omega) (by omega)).1 (htype ▸ hw)
      rw [hends]
      unfold Outcome.Inside
      omega
    rw [if_neg hw]
    by_cases hlong : len < 3 + le16 b (off + 1)
    · by_cases hrest : len + 2 ^ 16 - (3 + le16 b (off + 1)) < 3
      · obtain ⟨fuel, rfl⟩ : ∃ n, fuel = n + 1 := ⟨fuel - 1, by omega⟩
        refine ⟨.null, ?_, iff_of_true trivial (.wraps (by omega) (htype ▸ hw) (by omega))⟩
        rw [checkedLoop, if_pos (by omega)]
      · obtain ⟨fuel, rfl⟩ : ∃ n, fuel = n + 1 := ⟨fuel - 1, by omega⟩
        have hbehind : ∃ r, checkedLoop b T (fuel + 1) (find + 1)
            ((len + 2 ^ 17 - (le16 b (off + 1) + 3)) % 2 ^ 16) (off + le16 b (off + 1) + 3) = some r
            ∧ ¬ r.Inside b := checkedLoop_behind (by omega) (by omega)
        obtain ⟨r, hr, hin⟩ := hbehind
        refine ⟨r, hr, iff_of_false hin fun h => ?_⟩
        have := (h.of_long (by omega) (by omega)).2
        omega
    · have hnext : (len + 2 ^ 17 - (le16 b (off + 1) + 3)) % 2 ^ 16
          = len - (le16 b (off + 1) + 3) := by omega
      have ih : ∃ r, checkedLoop b T fuel (find + 1) (len - (le16 b (off + 1) + 3))
          (off + le16 b (off + 1) + 3) = some r
          ∧ (r.Inside b ↔ EndsWell T (find + 1) (b.drop (off + le16 b (off + 1) + 3))) :=
        checkedLoop_inside (by omega) (by omega) (by omega)
      obtain ⟨r, hr, hin⟩ := ih
      refine ⟨r, by rw [hnext, hr], hin.trans ?_⟩
      have htail : b.drop (off + le16 b (off + 1) + 3)
          = (b.drop off).drop (3 + le16 (b.drop off) 1) := by
        rw [List.drop_drop, hl]
        congr 1
        omega
      rw [htail]
      refine ⟨fun h => .next (by omega) (htype ▸ hw) h, fun h => ?_⟩
      cases h with
      | short h => omega
      | wanted _ h => exact absurd (htype ▸ h) hw
      | next _ _ h => exact h
      | wraps _ _ h => omega

/-- Which field the search returns from the round after the `find`-th on. -/
def wantedFrom (T find : ℕ) (fs : Fields) : Option ℕ :=
  if 0x1000 < T then
    if find + 0x1000 < T ∧ T - 0x1000 - find ≤ fs.length then some (T - 0x1000 - find - 1) else none
  else fs.findIdx? fun f => f.1.toNat = T

theorem wantedFrom_cons (T find : ℕ) (t : UInt8) (v : Bytes) (fs : Fields) :
    wantedFrom T find ((t, v) :: fs) = if Wanted T (find + 1) t.toNat then some 0
      else (wantedFrom T (find + 1) fs).map (· + 1) := by
  unfold wantedFrom Wanted
  by_cases hT : 0x1000 < T
  · simp only [hT, ↓reduceIte, List.length_cons]
    by_cases hw : find + 1 + 0x1000 = T
    · rw [if_pos hw, if_pos (by omega)]
      exact congrArg some (by omega)
    rw [if_neg hw]
    by_cases hin : find + 1 + 0x1000 < T ∧ T - 0x1000 - (find + 1) ≤ fs.length
    · rw [if_pos hin, if_pos (by omega), Option.map_some]
      exact congrArg some (by omega)
    · rw [if_neg hin, if_neg (by omega), Option.map_none]
  · simp only [hT, ↓reduceIte, List.findIdx?_cons, decide_eq_true_eq]

theorem wantedFrom_zero (T : ℕ) (fs : Fields) : wantedFrom T 0 fs = wantedIndex T fs := by
  unfold wantedFrom wantedIndex
  by_cases hT : 0x1000 < T
  · rw [if_pos hT, if_pos hT, Nat.sub_zero]
    simp only [Nat.zero_add, hT, true_and]
  · rw [if_neg hT, if_neg hT]

/-- What the search returns at `off`, where `fs` starts. -/
def outcomeFrom (T find off : ℕ) (fs : Fields) : Outcome :=
  match wantedFrom T find fs with
  | some k => .found (off + (encode (fs.take k)).length)
  | none => .null

theorem checkedLoop_fields : ∀ {fs : Fields} {fuel find len off : ℕ}, At b off fs →
    off + len ≤ b.length → len = (encode fs).length → len < 2 ^ 16 → fs.length < fuel →
      checkedLoop b T fuel find len off = some (outcomeFrom T find off fs)
  | _, 0, _, _, _, _, _, _, _, hfuel => absurd hfuel (Nat.not_lt_zero _)
  | [], fuel + 1, find, len, off, _, _, hlen, _, _ => by
    have hnone : wantedFrom T find [] = none := by
      unfold wantedFrom
      split_ifs with hT h
      · simp only [List.length_nil] at h
        omega
      · rfl
      · rfl
    subst hlen
    unfold outcomeFrom
    rw [hnone]
    rfl
  | (t, v) :: fs, fuel + 1, find, len, off, hat, hin, hlen, hlt, hfuel => by
    have hcons := length_encode_cons t v fs
    have hv := hat.length (by omega : v.length < 2 ^ 16)
    rw [checkedLoop_step (by omega) (by omega), hat.type, hv]
    unfold outcomeFrom
    rw [wantedFrom_cons]
    split_ifs with hw
    · rfl
    · have hrest : (len + 2 ^ 17 - (v.length + 3)) % 2 ^ 16 = (encode fs).length := by omega
      have ih : checkedLoop b T fuel (find + 1) (encode fs).length (off + (v.length + 3))
          = some (outcomeFrom T (find + 1) (off + (v.length + 3)) fs) :=
        checkedLoop_fields hat.tail (by omega) rfl (by omega) (by simpa using hfuel)
      rw [hrest, Nat.add_assoc off, ih]
      unfold outcomeFrom
      rcases wantedFrom T (find + 1) fs with _ | k
      · rfl
      · simp only [Option.map_some, List.take_succ_cons, length_encode_cons]
        congr 2
        omega

/-- The search is as it should be: it ends, stays in the message, and over a sequence of whole TLVs
returns the one looked for. -/
structure SearchRight (b : Bytes) (T : ℕ) : Prop where
  inside : ∃ r, getTLVChecked b T = some r ∧ r.Inside b
  fields : ∀ fs : Fields, b.drop tlvOffset = encode fs →
    getTLVChecked b T = some (wantedOutcome T fs)

/-- The search for a TLV is as it should be exactly if the walk over the TLVs ends well. -/
theorem searchRight_iff (b : Bytes) (TLVType : ℕ) (hlen : b.length = tlvOffset + muxLength b) :
    SearchRight b TLVType ↔ EndsWell TLVType 0 (b.drop tlvOffset) := by
  have hlt : muxLength b < 2 ^ 16 := le16_lt b 11
  obtain ⟨r, hr, hin⟩ : ∃ r, getTLVChecked b TLVType = some r
      ∧ (r.Inside b ↔ EndsWell TLVType 0 (b.drop tlvOffset)) :=
    checkedLoop_inside hlen.symm hlt (by omega)
  refine ⟨fun ⟨⟨r', hr', hin'⟩, _⟩ => ?_, fun hends => ⟨⟨r, hr, hin.2 hends⟩, fun fs hfs => ?_⟩⟩
  · obtain rfl : r = r' := Option.some.inj (hr.symm.trans hr')
    exact hin.1 hin'
  · have hsize : muxLength b = (encode fs).length := by
      rw [← hfs, List.length_drop]
      omega
    have hat : At b tlvOffset fs := ⟨[], by rw [hfs, List.append_nil]⟩
    have hcount := length_le_encode fs
    have hloop : checkedLoop b TLVType (b.length + 1) 0 (muxLength b) tlvOffset
        = some (outcomeFrom TLVType 0 tlvOffset fs) :=
      checkedLoop_fields hat (Nat.le_of_eq hlen.symm) hsize hlt (by omega)
    unfold getTLVChecked
    rw [hloop]
    unfold outcomeFrom wantedOutcome
    rcases hk : wantedIndex TLVType fs with _ | k
    all_goals simp only [(wantedFrom_zero TLVType fs).trans hk]

/-- What a search that stays inside returns. -/
def Outcome.toOption : Outcome → Option ℕ
  | .found off => some off
  | _ => none

theorem getTLVLoop_of_checked : ∀ {fuel fuel' find len off : ℕ} {r : Outcome}, fuel ≤ fuel' →
    checkedLoop b T fuel find len off = some r → r ≠ .outside →
      getTLVLoop b T fuel' find len off = r.toOption
  | 0, _, _, _, _, _, _, h, _ => by simp [checkedLoop] at h
  | _ + 1, 0, _, _, _, _, hle, _, _ => by omega
  | fuel + 1, fuel' + 1, find, len, off, r, hle, h, hr => by
    rw [checkedLoop] at h
    rw [getTLVLoop]
    by_cases hshort : len < 3
    · rw [if_pos hshort] at h ⊢
      rcases h with ⟨⟩
      rfl
    rw [if_neg hshort] at h ⊢
    by_cases hT : 0x1000 < T
    · simp only [hT, true_and, not_true_eq_false, false_and, ↓reduceIte] at h ⊢
      split_ifs at h ⊢ with hfind hbehind
      · rcases h with ⟨⟩
        rfl
      · rcases h with ⟨⟩
        exact absurd rfl hr
      · exact getTLVLoop_of_checked (by omega) h hr
    · simp only [hT, false_and, not_false_eq_true, true_and, ↓reduceIte] at h ⊢
      split_ifs at h ⊢ with hout htype hbehind
      all_goals first
        | exact getTLVLoop_of_checked (by omega) h hr
        | (rcases h with ⟨⟩; first | rfl | exact absurd rfl hr)

/-- While the search stays inside the message, `GetTLV` is what it was modelled as. -/
theorem getTLV_of_checked {r : Outcome} (h : getTLVChecked b T = some r) (hr : r ≠ .outside) :
    getTLV b T = r.toOption :=
  getTLVLoop_of_checked (by omega) h hr

/-- A response with a result TLV and an address. -/
def wholeMsg : Bytes :=
  [1, 26, 0, 0, 1, 1, 2, 1, 0, 0x2D, 0, 14, 0] ++ encode [(0x02, [0, 0, 0, 0]), (0x1E, [1, 2, 3, 4])]

theorem searchRight_wholeMsg : SearchRight wholeMsg 0x1E :=
  (searchRight_iff wholeMsg 0x1E (by decide)).2
    (.next (by decide) (by decide) (.wanted (by decide) (by decide)))

/-- The address is announced with four bytes, but the message ends after two of them. -/
def cutMsg : Bytes :=
  [1, 24, 0, 0, 1, 1, 2, 1, 0, 0x2D, 0, 12, 0] ++ encode [(0x02, [0, 0, 0, 0])] ++ [0x1E, 4, 0, 1, 2]

/-- The search for the address returns it with two bytes that are not in the message; the search
for another TLV goes on behind the message. -/
theorem cutMsg_outside : cutMsg.length = tlvOffset + muxLength cutMsg
    ∧ (∃ off, getTLVChecked cutMsg 0x1E = some (.found off)
      ∧ cutMsg.length < off + 3 + le16 cutMsg (off + 1))
    ∧ getTLVChecked cutMsg 0x21 = some .outside :=
  ⟨by decide, ⟨20, by decide, by decide⟩, by decide⟩

end Qmi

end BananaWrt
