import BananaWrt.QmiMsg

/-!
# `GetTLV` with every read checked

The loop of `GetTLV` once more, with a result of its own for a read behind the message. What lies
there is not known, so nothing is said of how the loop goes on.
-/

namespace BananaWrt

namespace Qmi

open Bytes

inductive Outcome where
  /-- A byte behind the message is read. -/
  | outside
  | null
  | found (off : ℕ)
  deriving DecidableEq, Repr

/-- The loop of `GetTLV` over the bytes of `b`. An index is compared before anything of the TLV is
read, a type after its byte. -/
def checkedLoop (b : Bytes) (TLVType : ℕ) : (fuel TLVFind Length off : ℕ) → Option Outcome
  | 0, _, _, _ => none
  | fuel + 1, TLVFind, Length, off =>
    if Length < 3 then some .null
    else if 0x1000 < TLVType ∧ TLVFind + 1 + 0x1000 = TLVType then some (.found off)
    else if ¬ 0x1000 < TLVType ∧ b.length ≤ off then some .outside
    else if ¬ 0x1000 < TLVType ∧ u8 b off = TLVType then some (.found off)
    else if b.length < off + 3 then some .outside
    else
      checkedLoop b TLVType fuel (TLVFind + 1) ((Length + 2 ^ 17 - (le16 b (off + 1) + 3)) % 2 ^ 16)
        (off + le16 b (off + 1) + 3)

def getTLVChecked (b : Bytes) (TLVType : ℕ) : Option Outcome :=
  checkedLoop b TLVType (b.length + 1) 0 (muxLength b) tlvOffset

/-- Nothing behind the message is read, and the TLV that is returned lies in it as a whole. -/
def Outcome.Inside (b : Bytes) : Outcome → Prop
  | .outside => False
  | .null => True
  | .found off => off + 3 + le16 b (off + 1) ≤ b.length

instance (b : Bytes) : DecidablePred (Outcome.Inside b)
  | .outside => .isFalse id
  | .null => .isTrue trivial
  | .found off => inferInstanceAs (Decidable (off + 3 + le16 b (off + 1) ≤ b.length))

/-- The TLV is the one looked for, being the `n`-th and of type `t`. -/
def Wanted (TLVType n t : ℕ) : Prop :=
  if 0x1000 < TLVType then n + 0x1000 = TLVType else t = TLVType

instance (TLVType n t : ℕ) : Decidable (Wanted TLVType n t) :=
  inferInstanceAs (Decidable (ite _ _ _))

/-- Which of the fields is looked for: the first of the type, or the one with the number. -/
def wantedIndex (TLVType : ℕ) (fs : Tlv.Fields) : Option ℕ :=
  if 0x1000 < TLVType then
    if TLVType - 0x1000 ≤ fs.length then some (TLVType - 0x1000 - 1) else none
  else fs.findIdx? fun f => f.1.toNat = TLVType

/-- What a search through a sequence of fields should return. -/
def wantedOutcome (TLVType : ℕ) (fs : Tlv.Fields) : Outcome :=
  match wantedIndex TLVType fs with
  | some k => .found (tlvOffset + (Tlv.encode (fs.take k)).length)
  | none => .null

/-- The walk over the bytes `r` that are left, `n` TLVs having been passed, ends well: what is left
is shorter than a TLV header; or the TLV looked for ends within it; or another does, and the walk
goes on behind it; or another is longer than what is left, but by so much that the 16-bit remainder
comes out below three. -/
inductive EndsWell (TLVType : ℕ) : (n : ℕ) → (r : Bytes) → Prop where
  | short {n : ℕ} {r : Bytes} (h : r.length < 3) : EndsWell TLVType n r
  | wanted {n : ℕ} {r : Bytes} (h : 3 + le16 r 1 ≤ r.length) (hw : Wanted TLVType (n + 1) (u8 r 0)) :
    EndsWell TLVType n r
  | next {n : ℕ} {r : Bytes} (h : 3 + le16 r 1 ≤ r.length)
    (hw : ¬ Wanted TLVType (n + 1) (u8 r 0))
    (hnext : EndsWell TLVType (n + 1) (r.drop (3 + le16 r 1))) : EndsWell TLVType n r
  | wraps {n : ℕ} {r : Bytes} (h : 3 ≤ r.length) (hw : ¬ Wanted TLVType (n + 1) (u8 r 0))
    (hlong : r.length + 2 ^ 16 - (3 + le16 r 1) < 3) : EndsWell TLVType n r

end Qmi

end BananaWrt
