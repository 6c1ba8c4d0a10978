import BananaWrt.QmiMsg

/-!
# `GetTLV` on well-formed messages

In a message whose TLVs follow the header and fill the length that it states, `GetTLV` finds the
first TLV of the type (`getTLV_eq`).
-/

namespace BananaWrt

namespace Qmi

open Bytes Tlv

theorem tlv_eq (t : UInt8) (v : Bytes) : tlv t v = encode [(t, v)] := by
  simp [tlv, encode]

theorem Carries.fits {b : Bytes} {fs : Fields} (h : Carries b fs) : Fits fs :=
  fits_of_length (h.length ▸ le16_lt b 11)

theorem getTLVLoop_eq {b : Bytes} {t : UInt8} : ∀ {fs : Fields} {fuel find len off : ℕ},
    At b off fs → Fits fs → len = (encode fs).length → len < 2 ^ 16 → fs.length < fuel →
      getTLVLoop b t.toNat fuel find len off = (locate t fs).map (off + ·)
  | _, 0, _, _, _, _, _, _, _, hfuel => absurd hfuel (Nat.not_lt_zero _)
  | [], fuel + 1, find, len, off, _, _, hlen, _, _ => by
    subst hlen
    rfl
  | (t', v) :: fs, fuel + 1, find, len, off, hat, hfits, hlen, hlt, hfuel => by
    have hv := hat.length (hfits _ List.mem_cons_self)
    have ht := t.toNat_lt
    have hcons := length_encode_cons t' v fs
    have hplain : ¬ 0x1000 < t.toNat := by omega
    rw [getTLVLoop, if_neg (by omega)]
    simp only [hplain, ↓reduceIte, hat.type, hv]
    unfold locate
    by_cases hsame : t' = t
    · rw [if_pos (congrArg UInt8.toNat hsame), if_pos hsame]
      rfl
    · have hrest : (len + 2 ^ 17 - (v.length + 3)) % 2 ^ 16 = (encode fs).length := by
        omega
      rw [if_neg fun h => hsame (UInt8.toNat_inj.1 h), if_neg hsame, Nat.add_assoc off,
        getTLVLoop_eq hat.tail (fun f hf => hfits f (List.mem_cons_of_mem _ hf)) hrest (by omega)
          (by simpa using hfuel), Option.map_map]
      refine congrArg (fun g => Option.map g (locate t fs)) (funext fun p => ?_)
      simp only [Function.comp_apply]
      omega

theorem getTLV_eq {b : Bytes} {fs : Fields} (h : Carries b fs) (t : UInt8) :
    getTLV b t.toNat = (locate t fs).map (tlvOffset + ·) := by
  have hlt := le16_lt b 11
  have hle := length_le_encode fs
  unfold getTLV
  refine getTLVLoop_eq h.here h.fits h.length hlt ?_
  have := h.length
  unfold muxLength at this
  omega

theorem tlvValue_eq {b : Bytes} {fs : Fields} (h : Carries b fs) (t : UInt8) :
    tlvValue b t.toNat = fs.lookup t := by
  unfold tlvValue
  rw [getTLV_eq h]
  rcases hp : locate t fs with _ | p
  · exact (locate_eq_none.1 hp).symm
  · obtain ⟨v, hlook, hlen, hval⟩ := value_of_locate h.here hp h.fits
    rw [hlook, Option.map_some, Option.map_some, hlen, hval]

end Qmi

end BananaWrt
