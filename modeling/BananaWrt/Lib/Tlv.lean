import BananaWrt.Lib.Bytes

/-!
# Sequences of type-length-value fields

A field is a type byte, a little-endian 16-bit length and that many bytes. `decode` reads the
fields off a string and is a left inverse of `encode`. `locate` says where the first field of a
type starts, counted from where the sequence starts; `value_of_locate` that its value is found
there in any buffer that has the sequence at that place.
-/

namespace Tlv

open Bytes

abbrev Fields := List (UInt8 × Bytes)

def encode : Fields → Bytes
  | [] => []
  | (t, v) :: fs => t :: (ofLe16 v.length ++ (v ++ encode fs))

def decodeFrom : (fuel : ℕ) → Bytes → Fields
  | fuel + 1, t :: lo :: hi :: b =>
    (t, b.take (lo.toNat + 256 * hi.toNat))
      :: decodeFrom fuel (b.drop (lo.toNat + 256 * hi.toNat))
  | _, _ => []

def decode (b : Bytes) : Fields := decodeFrom b.length b

/-- Each value is short enough for its length field. -/
def Fits (fs : Fields) : Prop := ∀ f ∈ fs, f.2.length < 2 ^ 16

theorem length_encode_cons (t : UInt8) (v : Bytes) (fs : Fields) :
    (encode ((t, v) :: fs)).length = v.length + 3 + (encode fs).length := by
  simp only [encode, ofLe16, List.length_cons, List.length_append, List.length_nil]
  omega

theorem encode_append : ∀ fs fs' : Fields, encode (fs ++ fs') = encode fs ++ encode fs'
  | [], _ => rfl
  | (t, v) :: fs, fs' => by
    simp only [List.cons_append, encode, encode_append fs fs', List.append_assoc]

theorem length_le_encode : ∀ fs : Fields, fs.length ≤ (encode fs).length
  | [] => Nat.le_refl _
  | (t, v) :: fs => by
    have := length_le_encode fs
    rw [length_encode_cons, List.length_cons]
    omega

theorem length_le_encode_of_mem {t : UInt8} {v : Bytes} : ∀ {fs : Fields}, (t, v) ∈ fs →
    v.length + 3 ≤ (encode fs).length
  | [], h => absurd h List.not_mem_nil
  | (t', v') :: fs, h => by
    rw [length_encode_cons]
    rcases List.mem_cons.1 h with h | h
    · obtain ⟨_, rfl⟩ := Prod.mk.inj h
      omega
    · have := length_le_encode_of_mem h
      omega

theorem length_encode_perm {fs fs' : Fields} (h : fs.Perm fs') :
    (encode fs).length = (encode fs').length := by
  induction h with
  | nil => rfl
  | cons f h ih =>
    rcases f with ⟨t, v⟩
    rw [length_encode_cons, length_encode_cons, ih]
  | swap f g fs =>
    rcases f with ⟨t, v⟩
    rcases g with ⟨t', v'⟩
    simp only [length_encode_cons]
    omega
  | trans h h' ih ih' => exact ih.trans ih'

/-- The two bytes of a length give it back. -/
theorem toNat_ofLe16 {n : ℕ} (h : n < 2 ^ 16) :
    (UInt8.ofNat n).toNat + 256 * (UInt8.ofNat (n / 256)).toNat = n := by
  simp only [UInt8.toNat_ofNat']
  omega

theorem fits_of_length {fs : Fields} (h : (encode fs).length < 2 ^ 16) : Fits fs := by
  induction fs with
  | nil => exact fun _ hf => absurd hf List.not_mem_nil
  | cons f fs ih =>
    obtain ⟨t, v⟩ := f
    rw [length_encode_cons] at h
    intro g hg
    rcases List.mem_cons.1 hg with rfl | hg
    · dsimp only
      omega
    · exact ih (by omega) g hg

theorem decodeFrom_encode : ∀ {fs : Fields} {fuel : ℕ}, Fits fs → fs.length ≤ fuel →
    decodeFrom fuel (encode fs) = fs
  | [], fuel, _, _ => by cases fuel <;> rfl
  | (t, v) :: fs, 0, _, hfuel => by simp at hfuel
  | (t, v) :: fs, fuel + 1, hfits, hfuel => by
    have hv := toNat_ofLe16 (hfits (t, v) List.mem_cons_self)
    have hrest : decodeFrom fuel (encode fs) = fs :=
      decodeFrom_encode (fun f hf => hfits f (List.mem_cons_of_mem _ hf)) (by simpa using hfuel)
    simp only [encode, ofLe16, List.cons_append, List.nil_append, decodeFrom]
    simp only [hv, List.take_left, List.drop_left, hrest]

theorem decode_encode {fs : Fields} (h : Fits fs) : decode (encode fs) = fs :=
  decodeFrom_encode h (length_le_encode fs)

/-- Where the first field of the type starts. -/
def locate (t : UInt8) : Fields → Option ℕ
  | [] => none
  | (t', v) :: fs => if t' = t then some 0 else (locate t fs).map (· + (v.length + 3))

theorem locate_eq_none {t : UInt8} : ∀ {fs : Fields}, locate t fs = none ↔ fs.lookup t = none
  | [] => by simp [locate]
  | (t', v) :: fs => by
    unfold locate
    split_ifs with h
    · subst h
      simp
    · rw [Option.map_eq_none_iff, locate_eq_none, List.lookup_cons, beq_false_of_ne (Ne.symm h)]

/-- A buffer has the fields from `off` on. -/
def At (b : Bytes) (off : ℕ) (fs : Fields) : Prop := ∃ rest, b.drop off = encode fs ++ rest

theorem At.tail {b : Bytes} {off : ℕ} {t : UInt8} {v : Bytes} {fs : Fields}
    (h : At b off ((t, v) :: fs)) : At b (off + (v.length + 3)) fs := by
  obtain ⟨rest, h⟩ := h
  refine ⟨rest, ?_⟩
  rw [← List.drop_drop, h]
  have hsplit : encode ((t, v) :: fs) ++ rest
      = (t :: (ofLe16 v.length ++ v)) ++ (encode fs ++ rest) := by
    simp [encode, List.append_assoc]
  have hlen : (t :: (ofLe16 v.length ++ v)).length = v.length + 3 := by
    simp only [ofLe16, List.length_cons, List.length_append, List.length_nil]
    omega
  rw [hsplit, ← hlen, List.drop_left]

theorem At.type {b : Bytes} {off : ℕ} {t : UInt8} {v : Bytes} {fs : Fields}
    (h : At b off ((t, v) :: fs)) : u8 b off = t.toNat := by
  obtain ⟨rest, h⟩ := h
  have := u8_drop b off 0
  rw [h] at this
  exact this.symm

theorem At.length {b : Bytes} {off : ℕ} {t : UInt8} {v : Bytes} {fs : Fields}
    (h : At b off ((t, v) :: fs)) (hv : v.length < 2 ^ 16) : le16 b (off + 1) = v.length := by
  obtain ⟨rest, h⟩ := h
  have h1 := u8_drop b off 1
  have h2 := u8_drop b off 2
  rw [h] at h1 h2
  unfold le16
  rw [← h1, show off + 1 + 1 = off + 2 from rfl, ← h2]
  exact toNat_ofLe16 hv

theorem At.value {b : Bytes} {off : ℕ} {t : UInt8} {v : Bytes} {fs : Fields}
    (h : At b off ((t, v) :: fs)) : (b.drop (off + 3)).take v.length = v := by
  obtain ⟨rest, h⟩ := h
  have hsplit : encode ((t, v) :: fs) ++ rest
      = (t :: ofLe16 v.length) ++ (v ++ (encode fs ++ rest)) := by
    simp [encode, List.append_assoc]
  have hlen : (t :: ofLe16 v.length).length = 3 := rfl
  rw [← List.drop_drop, h, hsplit, ← hlen, List.drop_left, List.take_left]

/-- The value of the first field of a type is found where `locate` says. -/
theorem value_of_locate {b : Bytes} {t : UInt8} : ∀ {fs : Fields} {off p : ℕ}, At b off fs →
    locate t fs = some p → Fits fs → ∃ v, fs.lookup t = some v
      ∧ le16 b (off + p + 1) = v.length ∧ (b.drop (off + p + 3)).take v.length = v
  | [], _, _, _, hp, _ => by simp [locate] at hp
  | (t', v) :: fs, off, p, hat, hp, hfits => by
    unfold locate at hp
    split_ifs at hp with h
    · obtain rfl : 0 = p := by simpa using hp
      subst h
      exact ⟨v, by simp, hat.length (hfits _ List.mem_cons_self), hat.value⟩
    · obtain ⟨q, hq, rfl⟩ := Option.map_eq_some_iff.1 hp
      obtain ⟨w, hw, hlen, hval⟩ := value_of_locate hat.tail hq
        fun f hf => hfits f (List.mem_cons_of_mem _ hf)
      have hoff : off + (q + (v.length + 3)) = off + (v.length + 3) + q := by omega
      rw [hoff]
      refine ⟨w, ?_, hlen, hval⟩
      rw [List.lookup_cons, beq_false_of_ne (Ne.symm h)]
      exact hw

end Tlv
