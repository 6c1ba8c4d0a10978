import BananaWrt.QmiRequests

/-!
# The profile on the modem

`qmi_main` reads the profile that the modem has (`requestGetProfile`) and writes the one it is to
have if they differ (`requestSetProfile`). The modem is a store of the profile's fields: a request
to modify it overwrites the fields that it has TLVs for, and a request for its settings is answered
with a TLV for every field that is stored, in any order and among any others.
-/

namespace BananaWrt

namespace QmiProfile

open Bytes Tlv Qmi QmiThread QmiRequests

structure Store where
  apn : Option Bytes
  user : Option Bytes
  password : Option Bytes
  auth : Option UInt8
  pdpType : Option UInt8
  deriving DecidableEq, Repr

def Store.modify (st : Store) (fs : Fields) : Store where
  apn := (fs.lookup 0x14).or st.apn
  user := (fs.lookup 0x1B).or st.user
  password := (fs.lookup 0x1C).or st.password
  auth := ((fs.lookup 0x1D).bind List.head?).or st.auth
  pdpType := ((fs.lookup 0x11).bind List.head?).or st.pdpType

/-- The result TLV of a response to a request that has succeeded. -/
def success : UInt8 × Bytes := (0x02, [0, 0, 0, 0])

/-- The response has the stored fields. -/
structure Reports (st : Store) (b : Bytes) (fs : Fields) : Prop where
  carries : Carries b (success :: fs)
  apn : fs.lookup 0x14 = st.apn
  user : fs.lookup 0x1B = st.user
  password : fs.lookup 0x1C = st.password
  auth : fs.lookup 0x1D = st.auth.map ([·])
  pdpType : fs.lookup 0x11 = st.pdpType.map ([·])

/-- What the modem may answer to a request, and its profile then. Any reply may come to a request
to modify it. -/
def Serves (st : Store) : Request → Reply → Store → Prop
  | .mux _ msgType tlvs, r, st' =>
    if msgType = QMIWDS_GET_PROFILE_SETTINGS_REQ then
      (∃ b fs, r = ⟨0, some b⟩ ∧ Reports st b fs) ∧ st' = st
    else if msgType = QMIWDS_MODIFY_PROFILE_SETTINGS_REQ then
      st' = st.modify (decode tlvs)
    else st' = st
  | .ctl _ _, _, st' => st' = st

/-- The profile is read and, if need be, written: the value of `requestSetProfile`. -/
def configure (s : State) (fuel : ℕ) : Calls Request Reply (Option (ℤ × State)) :=
  (requestGetProfile s fuel).bind fun
    | none => .ret none
    | some x => (requestSetProfile x.2).map some

def configureTwice (s : State) (fuel : ℕ) : Calls Request Reply (Option (ℤ × ℤ × State)) :=
  (configure s fuel).bind fun
    | none => .ret none
    | some x => (configure x.2 fuel).map (Option.map fun y => (x.1, y.1, y.2))

/-- The strings are C strings that the old fields have room for. -/
def Strings (p : Profile) : Prop :=
  ∀ v ∈ [p.apn, p.user, p.password], ∀ c ∈ v, c.length < sizeofOld ∧ (0 : UInt8) ∉ c

instance (p : Profile) : Decidable (Strings p) := inferInstanceAs (Decidable (∀ v ∈ _, _))

end QmiProfile

end BananaWrt
