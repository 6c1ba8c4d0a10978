import BananaWrt.Proofs.QmiMsg
import BananaWrt.QmiCompose

/-!
# What `ComposeQMUXMsg` leaves in `QMIBuf`

A block puts its TLV behind what is there (`take_run_item`): the NUL behind a string is the first
byte of the next TLV or of what is not sent. So the buffer starts with the message that the
operations are modelled with, if that fits (`composeStartNw_message`, `composeModify_message`), and
every field is read back as it was given (`requests_roundTrip`).

Nothing checks that it fits. The last write of a block ends where the next block starts, or one
behind, so the bounds are sums of lengths (`within_setTLVs`); for what `parse_user_input` accepts
they are kept exactly if the strings of the command line are short enough (`inputInBounds_iff`).
-/

namespace BananaWrt

namespace QmiCompose

open Bytes Tlv Qmi QmiRequests Writes

def Item.field : Item → UInt8 × Bytes
  | .byte type value => (type, [value])
  | .string type src => (type, src)

/-- What is written behind the value. -/
def Item.nul : Item → Bytes
  | .byte _ _ => []
  | .string _ _ => [0]

def fields (items : List Item) : Fields := items.map Item.field

theorem item_writes (off : ℕ) (item : Item) : item.writes off
    = [(off, [item.field.1]), (off + 1, ofLe16 item.field.2.length),
      (off + 3, item.field.2 ++ item.nul)] := by
  cases item with
  | byte type value => rfl
  | string type src => rfl

theorem length_encode_fields (item : Item) (items : List Item) :
    (encode (fields (item :: items))).length
      = item.field.2.length + 3 + (encode (fields items)).length :=
  length_encode_cons _ _ _

theorem tlvLength_mod (item : Item) : item.tlvLength % 2 ^ 16 = item.field.2.length % 2 ^ 16 := by
  cases item with
  | byte type value => rfl
  | string type src => exact Nat.mod_mod _ _

/-- The number that is returned is the size of the TLVs, as a 16-bit number. -/
theorem setTLVs_snd (pTLV : ℕ) : ∀ (items : List Item) {n : ℕ}, n < 2 ^ 16 →
    (setTLVs pTLV n items).2 = (n + (encode (fields items)).length) % 2 ^ 16
  | [], n, hn => (Nat.mod_eq_of_lt hn).symm
  | item :: items, n, _ => by
    have hmod := tlvLength_mod item
    have hlen := length_encode_fields item items
    rw [setTLVs, hlen]
    dsimp only
    rw [setTLVs_snd pTLV items (Nat.mod_lt _ (Nat.two_pow_pos 16))]
    omega

theorem setTLVs_add (k pTLV : ℕ) : ∀ (items : List Item) (n : ℕ),
    (setTLVs (k + pTLV) n items).1 = (setTLVs pTLV n items).1.map fun w => (k + w.1, w.2)
  | [], _ => rfl
  | item :: items, n => by
    unfold setTLVs
    dsimp only
    rw [List.map_append, ← setTLVs_add k pTLV items, item_writes, item_writes]
    simp only [List.map_cons, List.map_nil, Nat.add_assoc]

/-- The next block puts its TLV behind what is there. -/
theorem take_run_item {b : Bytes} {off : ℕ} (item : Item)
    (hb : off + (item.field.2.length + 3) ≤ b.length) :
    (run b (item.writes off)).take (off + (item.field.2.length + 3))
      = b.take off ++ encode [item.field] := by
  rcases hf : item.field with ⟨t, v⟩
  rw [hf] at hb
  dsimp only at hb ⊢
  have htype : (store b off [t]).take (off + 1) = b.take off ++ [t] :=
    take_store (Nat.le_refl 1) (by omega)
  have hlen : (store (store b off [t]) (off + 1) (ofLe16 v.length)).take (off + 1 + 2)
      = b.take off ++ [t] ++ ofLe16 v.length := by
    rw [take_store (Nat.le_refl 2) (by rw [length_store]; omega), htype]
    rfl
  have hoff : off + (v.length + 3) = off + 3 + v.length := by omega
  rw [item_writes, hf, hoff]
  simp only [run]
  rw [take_store (by simp) (by simp only [length_store]; omega), hlen, List.take_left]
  simp [encode, List.append_assoc]

theorem take_run_setTLVs : ∀ (items : List Item) {b : Bytes} {n : ℕ}, b.length < 2 ^ 16 →
    n + (encode (fields items)).length ≤ b.length →
    (run b (setTLVs 0 n items).1).take (n + (encode (fields items)).length)
      = b.take n ++ encode (fields items)
  | [], b, n, _, _ => by
    show b.take (n + 0) = b.take n ++ []
    simp
  | item :: items, b, n, hlt, hb => by
    have hcons := length_encode_fields item items
    have hmod : (n + (item.tlvLength + 3)) % 2 ^ 16 = n + (item.field.2.length + 3) := by
      have := tlvLength_mod item
      omega
    have hlen : (run b (item.writes n)).length = b.length := length_run _ _
    have ih := take_run_setTLVs items (b := run b (item.writes n))
      (n := n + (item.field.2.length + 3)) (by omega) (by omega)
    have hn : n + (encode (fields (item :: items))).length
        = n + (item.field.2.length + 3) + (encode (fields items)).length := by omega
    rw [setTLVs, hmod, hn]
    dsimp only
    rw [Nat.zero_add, run_append, ih, take_run_item item (by omega), List.append_assoc,
      ← encode_append]
    rfl

/-- The writes before the custom function. -/
def before (QMIType : UInt8) (msgType tid : ℕ) : Writes :=
  [(0, [1]), (3, [0]), (4, [QMIType]), (offMUXMsg, [0]), (offMUXMsg + 1, ofLe16 tid),
    (offReq, ofLe16 msgType)]

/-- The two lengths, which are written last. -/
def after (muxLength hdrLength : ℕ) : Writes :=
  [(offReq + 2, ofLe16 muxLength), (1, ofLe16 hdrLength)]

theorem before_le (QMIType : UInt8) (msgType tid : ℕ) :
    ∀ w ∈ before QMIType msgType tid, w.1 + w.2.length ≤ tlvOffset := by
  simp [before, ofLe16, tlvOffset, offReq, offMUXMsg, sizeofHdr]

theorem after_le (muxLength hdrLength : ℕ) :
    ∀ w ∈ after muxLength hdrLength, w.1 + w.2.length ≤ tlvOffset := by
  simp [after, ofLe16, tlvOffset, offReq, offMUXMsg, sizeofHdr]

theorem run_replicate {base n : ℕ} {before after : Writes} {items : List Item}
    (hbefore : ∀ w ∈ before, w.1 + w.2.length ≤ base) (hafter : ∀ w ∈ after, w.1 + w.2.length ≤ base)
    (hn : n < 2 ^ 16) (hfit : (encode (fields items)).length ≤ n) :
    (run (List.replicate (base + n) 0) (before ++ (setTLVs base 0 items).1 ++ after)).take
        (base + (encode (fields items)).length)
      = run (List.replicate base 0) (before ++ after) ++ encode (fields items) := by
  have hlen : (run (List.replicate base 0) before).length = base := by
    rw [length_run, List.length_replicate]
  have hall : (run (List.replicate base 0) (before ++ after)).length = base := by
    rw [length_run, List.length_replicate]
  have htlvs : (run (List.replicate n 0) (setTLVs 0 0 items).1).take (encode (fields items)).length
      = encode (fields items) := by
    have := take_run_setTLVs items (b := List.replicate n 0) (n := 0)
      (by rwa [List.length_replicate]) (by rw [List.length_replicate, Nat.zero_add]; exact hfit)
    rwa [Nat.zero_add] at this
  have hshift : (setTLVs base 0 items).1
      = (setTLVs 0 0 items).1.map
        fun w => ((run (List.replicate base 0) before).length + w.1, w.2) := by
    rw [hlen, ← setTLVs_add]
    rfl
  rw [← List.replicate_append_replicate, run_append, run_append,
    run_append_left (by simpa using hbefore), hshift, run_append_right,
    run_append_left (by simpa only [hlen] using hafter), ← run_append, take_append_add hall, htlvs]

/-- A custom function writes `hdw` before `base` and sets the blocks `items` from there on. -/
structure Lays (custom : Writes × ℕ) (base : ℕ) (hdw : Writes) (items : List Item) : Prop where
  le_base : tlvOffset ≤ base
  base_le : base ≤ WDM_DEFAULT_BUFSIZE
  hdw_le : ∀ w ∈ hdw, w.1 + w.2.length ≤ base
  writes : custom.1 = hdw ++ (setTLVs base 0 items).1
  ret : custom.2 = (base - offReq + (setTLVs base 0 items).2) % 2 ^ 16

/-- The buffer starts with the fixed part and the TLVs behind it. -/
theorem Lays.message_eq {QMIType : UInt8} {msgType tid base : ℕ} {custom : Writes × ℕ}
    {hdw : Writes} {items : List Item} (h : Lays custom base hdw items)
    (hfit : base + (encode (fields items)).length ≤ WDM_DEFAULT_BUFSIZE) :
    (composeQMUXMsg QMIType msgType tid (some custom)).message
      = run (List.replicate base 0) (before QMIType msgType tid ++ hdw
          ++ after (base - tlvOffset + (encode (fields items)).length)
            (base - tlvOffset + (encode (fields items)).length + 12))
        ++ encode (fields items) := by
  have hbuf : WDM_DEFAULT_BUFSIZE = 256 := rfl
  have hoff : tlvOffset = 13 ∧ offReq = 9 ∧ offMUXMsg = 6 := ⟨rfl, rfl, rfl⟩
  have hsnd := setTLVs_snd base items (Nat.two_pow_pos 16)
  have hbase := h.le_base
  have hret := h.ret
  have hmux : (custom.2 + 2 ^ 16 - 4) % 2 ^ 16
      = base - tlvOffset + (encode (fields items)).length := by omega
  have hhdr : (base - tlvOffset + (encode (fields items)).length + 4 + 3 + 6 - 1) % 2 ^ 16
      = base - tlvOffset + (encode (fields items)).length + 12 := by omega
  have hlen : base - tlvOffset + (encode (fields items)).length + 12 + 1
      = base + (encode (fields items)).length := by omega
  have hreplicate : WDM_DEFAULT_BUFSIZE = base + (256 - base) := by omega
  have hfront : ∀ w ∈ before QMIType msgType tid ++ hdw, w.1 + w.2.length ≤ base := by
    intro w hw
    rcases List.mem_append.1 hw with hw | hw
    · exact Nat.le_trans (before_le _ _ _ w hw) hbase
    · exact h.hdw_le w hw
  have hback : ∀ w ∈ after (base - tlvOffset + (encode (fields items)).length)
      (base - tlvOffset + (encode (fields items)).length + 12), w.1 + w.2.length ≤ base :=
    fun w hw => Nat.le_trans (after_le _ _ w hw) hbase
  have hbuffer := run_replicate hfront hback (n := 256 - base) (by omega)
    (by omega : (encode (fields items)).length ≤ 256 - base)
  rw [← hreplicate] at hbuffer
  unfold Composed.message Composed.buf composeQMUXMsg
  dsimp only [Option.getD_some]
  rw [hmux, hhdr, hlen, h.writes, ← List.append_assoc _ hdw]
  exact hbuffer

theorem lays_startNw (s : State) :
    Lays (wdsStartNwInterfaceReq s) tlvOffset [(offReq + 2, ofLe16 0)] (startNwItems s) where
  le_base := Nat.le_refl _
  base_le := by decide
  hdw_le := by simp [ofLe16, tlvOffset, offReq, offMUXMsg, sizeofHdr]
  writes := rfl
  ret := rfl

/-- The fixed part of `WdsModifyProfileSettingsReq`. -/
def modifyHead (pdp : UInt8) : Writes :=
  [(offReq + 2, ofLe16 5), (offReq + 4, [0x01]), (offReq + 5, ofLe16 2), (offReq + 7, [0]),
    (offReq + 8, [pdp])]

theorem lays_modify (p : Profile) :
    Lays (wdsModifyProfileSettingsReq p) (offReq + 9) (modifyHead (UInt8.ofInt p.pdp))
      (modifyItems p) where
  le_base := by decide
  base_le := by decide
  hdw_le := by simp [modifyHead, ofLe16, offReq, offMUXMsg, sizeofHdr]
  writes := rfl
  ret := rfl

theorem fields_append (is is' : List Item) : fields (is ++ is') = fields is ++ fields is' :=
  List.map_append

theorem encode_byte (type value : UInt8) :
    encode (fields [.byte type value]) = tlv type [value] :=
  (tlv_eq type [value]).symm

theorem encode_optString (type : UInt8) (src : Option Bytes) :
    encode (fields (optString type src)) = optTlv type src := by
  rcases src with _ | src
  · rfl
  · exact (tlv_eq type src).symm

theorem encode_authItem (type : UInt8) (user password : Option Bytes) (auth : ℤ) :
    encode (fields (authItem type user password auth)) = authTlv type user password auth := by
  unfold authItem authTlv
  split_ifs
  · exact encode_byte _ _
  · rfl

theorem encode_startNw (s : State) :
    encode (fields (startNwItems s)) = QmiRequests.wdsStartNwInterfaceReq s := by
  have happ : ∀ is is' : List Item,
      encode (fields (is ++ is')) = encode (fields is) ++ encode (fields is') := fun is is' => by
    rw [fields_append, encode_append]
  have hapn : encode (fields (if s.isCdma then [] else optString 0x14 s.profile.apn))
      = if s.isCdma then [] else optTlv 0x14 s.profile.apn := by
    split_ifs
    · rfl
    · exact encode_optString _ _
  have hpdp : encode (fields (if s.profile.pdp ≠ 0 ∧ s.isCdma = false
        then [.byte 0x31 (UInt8.ofInt s.profile.pdp)] else []))
      = if s.profile.pdp ≠ 0 ∧ s.isCdma = false then tlv 0x31 [UInt8.ofInt s.profile.pdp]
        else [] := by
    split_ifs
    · exact encode_byte _ _
    · rfl
  unfold startNwItems QmiRequests.wdsStartNwInterfaceReq
  simp only [happ, encode_byte, encode_optString, encode_authItem, hapn, hpdp]

/-- The first TLV of `WdsModifyProfileSettingsReq`, which is part of its structure. -/
def profileField (p : Profile) : UInt8 × Bytes := (0x01, [0, UInt8.ofInt p.pdp])

def modifyFields (p : Profile) : Fields := profileField p :: fields (modifyItems p)

theorem encode_modify (p : Profile) :
    encode (modifyFields p) = QmiRequests.wdsModifyProfileSettingsReq p := by
  have happ : ∀ is is' : List Item,
      encode (fields (is ++ is')) = encode (fields is) ++ encode (fields is') := fun is is' => by
    rw [fields_append, encode_append]
  have hcons : encode (modifyFields p)
      = tlv 0x01 [0, UInt8.ofInt p.pdp] ++ encode (fields (modifyItems p)) := by
    rw [tlv_eq, ← encode_append]
    rfl
  rw [hcons]
  unfold modifyItems QmiRequests.wdsModifyProfileSettingsReq
  simp only [happ, encode_byte, encode_optString, encode_authItem, List.append_assoc]

theorem run_head (QMIType : UInt8) (msgType tid size : ℕ) :
    run (List.replicate tlvOffset 0)
        (before QMIType msgType tid ++ [(offReq + 2, ofLe16 0)] ++ after size (size + 12))
      = [1] ++ ofLe16 (size + 12) ++ [0, QMIType, 0] ++ [0] ++ ofLe16 tid ++ ofLe16 msgType
        ++ ofLe16 size := by
  have hzero : List.replicate tlvOffset (0 : UInt8) = [0, 0, 0, 0, 0, 0, 0, 0, 0, 0, 0, 0, 0] := rfl
  simp [hzero, before, after, run, store, ofLe16, offReq, offMUXMsg, sizeofHdr]

theorem composeStartNw_message {s : State} (f : IpFamily) (tid : ℕ)
    (hfit : tlvOffset + (QmiRequests.wdsStartNwInterfaceReq s).length ≤ WDM_DEFAULT_BUFSIZE) :
    (composeStartNw s f tid).message = QmiThread.composeQMUXMsg f.qmiType
      QMIWDS_START_NETWORK_INTERFACE_REQ tid (QmiRequests.wdsStartNwInterfaceReq s) := by
  rw [← encode_startNw] at hfit ⊢
  unfold composeStartNw
  rw [(lays_startNw s).message_eq hfit, Nat.sub_self, Nat.zero_add, run_head]
  rfl

theorem run_head_modify (QMIType pdp : UInt8) (msgType tid size : ℕ) :
    run (List.replicate (offReq + 9) 0)
        (before QMIType msgType tid ++ modifyHead pdp ++ after size (size + 12))
      = [1] ++ ofLe16 (size + 12) ++ [0, QMIType, 0] ++ [0] ++ ofLe16 tid ++ ofLe16 msgType
        ++ ofLe16 size ++ encode [(0x01, [0, pdp])] := by
  simp [before, modifyHead, after, run, store, ofLe16, offReq, offMUXMsg, sizeofHdr, encode]

theorem composeModify_message {p : Profile} (tid : ℕ)
    (hfit : tlvOffset + (QmiRequests.wdsModifyProfileSettingsReq p).length
      ≤ WDM_DEFAULT_BUFSIZE) :
    (composeModify p tid).message = QmiThread.composeQMUXMsg (UInt8.ofNat QMUX_TYPE_WDS)
      QMIWDS_MODIFY_PROFILE_SETTINGS_REQ tid (QmiRequests.wdsModifyProfileSettingsReq p) := by
  rw [← encode_modify] at hfit ⊢
  have hlen : (encode (modifyFields p)).length
      = 2 + 3 + (encode (fields (modifyItems p))).length := length_encode_cons _ _ _
  have hfive : offReq + 9 - tlvOffset = 5 := rfl
  have hsize : tlvOffset + 5 = offReq + 9 := rfl
  unfold composeModify
  rw [(lays_modify p).message_eq (by omega), hfive, run_head_modify]
  unfold QmiThread.composeQMUXMsg
  rw [hlen]
  simp only [List.append_assoc]
  rfl

/-- The message has just the TLVs `fs`, with its lengths right, and `GetTLV` reads `value`. -/
structure Encodes (m : Bytes) (fs : Fields) (value : UInt8 → Option Bytes) : Prop where
  hdrLength : hdrLength m + 1 = m.length
  muxLength : muxLength m = (encode fs).length
  tiles : m.drop tlvOffset = encode fs
  value : ∀ t : UInt8, tlvValue m t.toNat = value t

theorem carries_compose {QMIType : UInt8} {msgType tid : ℕ} {fs : Fields}
    (hfit : (encode fs).length < 2 ^ 16) :
    Carries (QmiThread.composeQMUXMsg QMIType msgType tid (encode fs)) fs where
  here := ⟨[], by simp [QmiThread.composeQMUXMsg, tlvOffset, ofLe16]⟩
  length := by
    have := toNat_ofLe16 hfit
    simpa [QmiThread.composeQMUXMsg, Qmi.muxLength, le16, u8, ofLe16] using this

theorem encodes_compose {QMIType : UInt8} {msgType tid : ℕ} {fs : Fields}
    {value : UInt8 → Option Bytes} (hfit : (encode fs).length + 12 < 2 ^ 16)
    (hvalue : ∀ t, fs.lookup t = value t) :
    Encodes (QmiThread.composeQMUXMsg QMIType msgType tid (encode fs)) fs value where
  hdrLength := by
    have := toNat_ofLe16 hfit
    simp [QmiThread.composeQMUXMsg, Qmi.hdrLength, le16, u8, ofLe16] at this ⊢
    omega
  muxLength := (carries_compose (by omega)).length
  tiles := by simp [QmiThread.composeQMUXMsg, tlvOffset, ofLe16]
  value t := by rw [tlvValue_eq (carries_compose (by omega)), hvalue]

/-- What a start request says for each type of TLV. -/
def startNwValue (s : State) (t : UInt8) : Option Bytes :=
  let c := credentials s
  if t = 0x30 then some [if s.isCdma then 0x02 else 0x01]
  else if t = 0x14 then (if s.isCdma then none else s.profile.apn)
  else if t = 0x17 then c.1
  else if t = 0x18 then c.2.1
  else if t = 0x16 then (if c.1.isSome ∧ c.2.1.isSome then some [UInt8.ofInt c.2.2] else none)
  else if t = 0x19 then some [UInt8.ofNat s.profile.curIpFamily]
  else if t = 0x31 then
    (if s.profile.pdp ≠ 0 ∧ s.isCdma = false then some [UInt8.ofInt s.profile.pdp] else none)
  else none

def modifyValue (p : Profile) (t : UInt8) : Option Bytes :=
  if t = 0x01 then some [0, UInt8.ofInt p.pdp]
  else if t = 0x11 then some [UInt8.ofInt p.iptype]
  else if t = 0x14 then p.apn
  else if t = 0x1B then p.user
  else if t = 0x1C then p.password
  else if t = 0x1D then (if p.user.isSome ∧ p.password.isSome then some [UInt8.ofInt p.auth] else none)
  else none

theorem lookup_singleton (type t : UInt8) (v : Bytes) :
    List.lookup t [(type, v)] = if t = type then some v else none := by
  rw [List.lookup_cons]
  split_ifs with h
  · simp [h]
  · rw [beq_false_of_ne h]
    rfl

theorem lookup_byte (type value t : UInt8) :
    (fields [.byte type value]).lookup t = if t = type then some [value] else none :=
  lookup_singleton type t [value]

theorem lookup_optString (type t : UInt8) (src : Option Bytes) :
    (fields (optString type src)).lookup t = if t = type then src else none := by
  rcases src with _ | src
  · simp [fields, optString]
  · exact lookup_singleton type t src

theorem lookup_ite (c : Prop) [Decidable c] (is is' : List Item) (t : UInt8) :
    (fields (if c then is else is')).lookup t
      = if c then (fields is).lookup t else (fields is').lookup t := by
  split_ifs <;> rfl

theorem lookup_startNw (s : State) (t : UInt8) :
    (fields (startNwItems s)).lookup t = startNwValue s t := by
  unfold startNwItems startNwValue authItem
  have hnil : (fields []).lookup t = none := rfl
  simp only [fields_append, List.lookup_append, lookup_byte, lookup_optString, lookup_ite, hnil]
  by_cases h30 : t = 0x30
  · simp [h30]
  by_cases h14 : t = 0x14
  · simp [h14]
  by_cases h17 : t = 0x17
  · simp [h17]
  by_cases h18 : t = 0x18
  · simp [h18]
  by_cases h16 : t = 0x16
  · simp [h16]
  by_cases h19 : t = 0x19
  · simp [h19]
  by_cases h31 : t = 0x31
  · simp [h31]
  simp [*]

theorem lookup_modify (p : Profile) (t : UInt8) :
    (modifyFields p).lookup t = modifyValue p t := by
  have hcons : modifyFields p = [profileField p] ++ fields (modifyItems p) := rfl
  have hnil : (fields []).lookup t = none := rfl
  rw [hcons]
  unfold modifyItems modifyValue authItem profileField
  simp only [fields_append, List.lookup_append, lookup_byte, lookup_optString, lookup_ite, hnil,
    lookup_singleton]
  by_cases h01 : t = 0x01
  · simp [h01]
  by_cases h11 : t = 0x11
  · simp [h11]
  by_cases h14 : t = 0x14
  · simp [h14]
  by_cases h1B : t = 0x1B
  · simp [h1B]
  by_cases h1C : t = 0x1C
  · simp [h1C]
  by_cases h1D : t = 0x1D
  · simp [h1D]
  simp [*]

/-- Both requests come back from `GetTLV` as they were given, if they fit the buffer. -/
theorem requests_roundTrip (s : State) (f : IpFamily) (tid : ℕ) :
    (tlvOffset + (QmiRequests.wdsStartNwInterfaceReq s).length ≤ WDM_DEFAULT_BUFSIZE →
        Encodes (composeStartNw s f tid).message (fields (startNwItems s)) (startNwValue s))
      ∧ (tlvOffset + (QmiRequests.wdsModifyProfileSettingsReq s.profile).length
          ≤ WDM_DEFAULT_BUFSIZE →
        Encodes (composeModify s.profile tid).message (modifyFields s.profile)
          (modifyValue s.profile)) := by
  have hbuf : WDM_DEFAULT_BUFSIZE = 256 := rfl
  have hoff : tlvOffset = 13 := rfl
  refine ⟨fun hfit => ?_, fun hfit => ?_⟩
  · rw [composeStartNw_message f tid hfit]
    rw [← encode_startNw] at hfit ⊢
    exact encodes_compose (by omega) (lookup_startNw s)
  · rw [composeModify_message tid hfit]
    rw [← encode_modify] at hfit ⊢
    exact encodes_compose (by omega) (lookup_modify s.profile)

/-- A profile with an APN and credentials. -/
def sampleProfile : Profile where
  apn := some (ascii "3gnet")
  user := some (ascii "carl")
  password := some (ascii "1234")
  auth := 1
  iptype := 0
  pdp := 1
  enableIpv4 := true
  enableIpv6 := false
  curIpFamily := 4
  ipv4 := Ipv4.zero
  ipv6 := Ipv6.zero
  pcscfIpv4Addr1 := 0
  pcscfIpv4Addr2 := 0
  pcscfIpv6Addr1 := zero16
  pcscfIpv6Addr2 := zero16
  loopbackState := 0
  replicationFactor := 0
  oldApn := []
  oldUser := []
  oldPassword := []
  oldAuth := 0
  oldIptype := 0

def sampleState : State := ⟨sampleProfile, 0, 0, false, 0, 0, true⟩

theorem requests_roundTrip_sample :
    Encodes (composeStartNw sampleState .v4 1).message (fields (startNwItems sampleState))
        (startNwValue sampleState)
      ∧ Encodes (composeModify sampleProfile 1).message (modifyFields sampleProfile)
        (modifyValue sampleProfile) :=
  ⟨(requests_roundTrip sampleState .v4 1).1 (by decide +kernel),
    (requests_roundTrip sampleState .v4 1).2 (by decide +kernel)⟩

end QmiCompose

end BananaWrt
