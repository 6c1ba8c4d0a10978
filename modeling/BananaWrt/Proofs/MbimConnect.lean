import BananaWrt.MbimConnect

/-!
# When the connect request says what it was built from

The first pass sums the padded lengths of the strings, the second starts every string where the
string before it would end if it were the first one. `roundTrip_iff`: the request decodes to the
three strings unless all three are there.
-/

namespace BananaWrt

namespace MbimConnect

open Bytes Writes

/-- UTF-16 text of one-byte characters. -/
def decodeWide : Bytes → Option Bytes
  | [] => some []
  | [_] => none
  | lo :: hi :: rest => if hi = 0 then (decodeWide rest).map (lo :: ·) else none

/-- The offset and the size at `field`. -/
def regionAt (b : Bytes) (field : ℕ) : ℕ × ℕ := (le32 b field, le32 b (field + 4))

/-- The region at `field` lies in the buffer, is aligned and holds the string; it is empty for a
string that is absent or empty. -/
structure Decodes (b : Bytes) (field : ℕ) (s : Option Bytes) : Prop where
  inside : (regionAt b field).1 + (regionAt b field).2 ≤ b.length
  aligned : (regionAt b field).1 % 4 = 0
  text : decodeWide (slice b (regionAt b field).1 (regionAt b field).2) = some (s.getD [])
  size : s.getD [] = [] → (regionAt b field).2 = 0

/-- The regions have no byte in common. -/
def Apart (r r' : ℕ × ℕ) : Prop :=
  ∀ i, r.1 ≤ i → i < r.1 + r.2 → r'.1 ≤ i → ¬ i < r'.1 + r'.2

structure RoundTrip (apn user passwd : Option Bytes) (b : Bytes) : Prop where
  apn : Decodes b accessString apn
  user : Decodes b userName user
  passwd : Decodes b password passwd
  apn_user : Apart (regionAt b accessString) (regionAt b userName)
  apn_passwd : Apart (regionAt b accessString) (regionAt b password)
  user_passwd : Apart (regionAt b userName) (regionAt b password)

def wide (v : Bytes) : Bytes := v.flatMap fun c => [c, 0]

theorem wide_cons (c : UInt8) (v : Bytes) : wide (c :: v) = c :: 0 :: wide v := rfl

theorem length_wide : ∀ v : Bytes, (wide v).length = 2 * v.length
  | [] => rfl
  | c :: v => by
    rw [wide_cons, List.length_cons, List.length_cons, length_wide v, List.length_cons]
    omega

theorem decodeWide_wide : ∀ v : Bytes, decodeWide (wide v) = some v
  | [] => rfl
  | c :: v => by
    rw [wide_cons, decodeWide, if_pos rfl, decodeWide_wide v]
    rfl

theorem char2wchar_eq {v : Bytes} {dstLen : ℕ} (h : 2 * v.length ≤ dstLen) :
    char2wchar v dstLen = wide v := by
  unfold char2wchar
  rw [List.take_of_length_le (by omega)]
  rfl

theorem align32_le (n : ℕ) : n ≤ align32 n ∧ align32 n < n + 4 ∧ align32 n % 4 = 0 := by
  unfold align32
  split_ifs <;> omega

theorem align32_add (n m : ℕ) : align32 (align32 n + m) = align32 n + align32 m := by
  have := align32_le n
  unfold align32 at *
  split_ifs at * <;> omega

theorem sizeOf_eq (s : Option Bytes) : sizeOf s = 2 * (s.getD []).length := by
  rcases s with _ | _ | ⟨c, v⟩ <;> rfl

/-- The first pass. -/
theorem connectBuflen_eq (apn user passwd : Option Bytes) : connectBuflen apn user passwd
    = align32 (2 * (apn.getD []).length) + align32 (2 * (user.getD []).length)
      + align32 (2 * (passwd.getD []).length) := by
  unfold connectBuflen
  simp only [sizeOf_eq, Nat.zero_add, align32_add]
  rw [← align32_add, align32_add]

/-- What is written for the string `v` at `offset`. -/
def itemWrites (field : ℕ) (v : Bytes) (offset : ℕ) : Writes :=
  if v = [] then []
  else [(field + 4, ofLe32 (2 * v.length)), (field, ofLe32 (offset + sizeofSetConnect)),
    (sizeofSetConnect + offset, wide v)]

theorem populateString_eq {field buflen offset : ℕ} {align : ℕ → ℕ} {s : Option Bytes}
    (h : 2 * (s.getD []).length ≤ buflen - offset) :
    populateString field buflen align s offset
      = (if s.getD [] = [] then offset else align (2 * (s.getD []).length),
        itemWrites field (s.getD []) offset) := by
  unfold populateString itemWrites
  rcases s with _ | _ | ⟨c, v⟩
  · rfl
  · rfl
  · simp only [Option.getD_some] at h ⊢
    simp [char2wchar_eq h, length_wide]

/-- Where the user name goes, and where the password goes. -/
def userOffset (apn : Bytes) : ℕ := align32 (2 * apn.length)

def passwdOffset (apn user : Bytes) : ℕ :=
  if user = [] then userOffset apn else align32 (2 * user.length)

def blank (n : ℕ) : Bytes := List.replicate n 0

/-- The request, as a run of writes. -/
def request (apn user passwd : Bytes) (n : ℕ) : Bytes :=
  run (blank (sizeofSetConnect + n)) (itemWrites accessString apn 0
    ++ itemWrites userName user (userOffset apn)
    ++ itemWrites password passwd (passwdOffset apn user))

theorem passwdOffset_le (apn user : Bytes) :
    passwdOffset apn user ≤ align32 (2 * apn.length) + align32 (2 * user.length) := by
  unfold passwdOffset userOffset
  split_ifs <;> omega

theorem populateConnectData_eq (apn user passwd : Option Bytes) :
    populateConnectData apn user passwd
      = if connectBuflen apn user passwd < 2 ^ 31 then
          some (request (apn.getD []) (user.getD []) (passwd.getD [])
            (connectBuflen apn user passwd))
        else none := by
  have hlen := connectBuflen_eq apn user passwd
  have ha := align32_le (2 * (apn.getD []).length)
  have hu := align32_le (2 * (user.getD []).length)
  have hp := align32_le (2 * (passwd.getD []).length)
  have hle := passwdOffset_le (apn.getD []) (user.getD [])
  have hapn : populateApn (connectBuflen apn user passwd) apn 0
      = (userOffset (apn.getD []), itemWrites accessString (apn.getD []) 0) := by
    refine (populateString_eq (by omega)).trans (congrArg (·, _) ?_)
    split_ifs with h
    · rw [h]
      rfl
    · rfl
  have huser : populateUser (connectBuflen apn user passwd) user (userOffset (apn.getD []))
      = (passwdOffset (apn.getD []) (user.getD []),
        itemWrites userName (user.getD []) (userOffset (apn.getD []))) := by
    refine populateString_eq ?_
    unfold userOffset
    omega
  have hpasswd : populatePasswd (connectBuflen apn user passwd) passwd
      (passwdOffset (apn.getD []) (user.getD [])) = (_, itemWrites password (passwd.getD [])
        (passwdOffset (apn.getD []) (user.getD []))) :=
    populateString_eq (by omega)
  unfold populateConnectData
  simp only [hapn, huser, hpasswd]
  rfl

theorem le32_slice (b : Bytes) (i : ℕ) : le32 b i = le32 (slice b i 4) 0 := by
  have h : ∀ j < 4, u8 (slice b i 4) j = u8 b (i + j) := fun j hj => by
    unfold slice
    rw [u8_take, if_pos hj, u8_drop]
  unfold le32 le16
  rw [h 0 (by decide), h (0 + 1) (by decide), h (0 + 2) (by decide), h (0 + 2 + 1) (by decide)]
  rfl

theorem le32_blank (n i : ℕ) : le32 (blank n) i = 0 := by
  have h : ∀ j, u8 (blank n) j = 0 := fun j => by
    unfold u8 blank
    rw [List.getD_eq_getElem?_getD, List.getElem?_replicate]
    split_ifs <;> rfl
  unfold le32 le16
  simp only [h]

/-- The writes for one field leave the rest of the structure. -/
theorem clear_item {field i n : ℕ} (hn : i + n ≤ sizeofSetConnect)
    (h : field + 8 ≤ i ∨ i + n ≤ field) (v : Bytes) (offset : ℕ) :
    Clear i n (itemWrites field v offset) := by
  unfold itemWrites
  split_ifs
  · exact fun _ hw => absurd hw List.not_mem_nil
  · simp only [Clear, List.forall_mem_cons, length_ofLe32]
    refine ⟨by omega, by omega, by omega, fun _ hw => absurd hw List.not_mem_nil⟩

/-- They leave the text of the other strings if their own does. -/
theorem clear_item_text {field o n : ℕ} {v : Bytes} {offset : ℕ}
    (hfield : field + 8 ≤ sizeofSetConnect)
    (h : v ≠ [] → offset + 2 * v.length ≤ o ∨ o + n ≤ offset) :
    Clear (sizeofSetConnect + o) n (itemWrites field v offset) := by
  unfold itemWrites
  split_ifs with hv
  · exact fun _ hw => absurd hw List.not_mem_nil
  · have := h hv
    simp only [Clear, List.forall_mem_cons, length_ofLe32, length_wide]
    refine ⟨by omega, by omega, by omega, fun _ hw => absurd hw List.not_mem_nil⟩

/-- What stands in the fields of the string `v` at `offset`. -/
def region (v : Bytes) (offset : ℕ) : ℕ × ℕ :=
  if v = [] then (0, 0) else (sizeofSetConnect + offset, 2 * v.length)

section Fields

variable {field offset n : ℕ} {v : Bytes} {l r : Writes}

theorem regionAt_run (hfield : field + 8 ≤ sizeofSetConnect) (hn : sizeofSetConnect ≤ n)
    (hv : sizeofSetConnect + offset + 2 * v.length < 2 ^ 32)
    (hl : Clear field 8 l) (hr : Clear field 8 r) :
    regionAt (run (blank n) (l ++ itemWrites field v offset ++ r)) field = region v offset := by
  have hsub : ∀ {ws : Writes} {i : ℕ}, Clear field 8 ws → field ≤ i → i + 4 ≤ field + 8 →
      Clear i 4 ws := fun h hi hi' w hw => (h w hw).imp (by omega) (by omega)
  unfold region regionAt itemWrites
  split_ifs with hv0
  · have hclear : Clear field 8 (l ++ [] ++ r) := clear_append.2 ⟨by simpa using hl, hr⟩
    rw [le32_slice, slice_run _ (hsub hclear (by omega) (by omega)), ← le32_slice, le32_blank,
      le32_slice _ (field + 4), slice_run _ (hsub hclear (by omega) (by omega)), ← le32_slice,
      le32_blank]
  · -- the offset is written behind the size, the text behind both
    have hblank : (blank n).length = n := List.length_replicate
    have htext : Clear field 8 ((sizeofSetConnect + offset, wide v) :: r) :=
      List.forall_mem_cons.2 ⟨.inr (by dsimp only; omega), hr⟩
    have hoff : slice (run (blank n) ((l ++ [(field + 4, ofLe32 (2 * v.length))])
        ++ (field, ofLe32 (offset + sizeofSetConnect)) :: (sizeofSetConnect + offset, wide v) :: r))
        field 4 = ofLe32 (offset + sizeofSetConnect) :=
      slice_run_self _ (by rw [length_ofLe32]; omega) (hsub htext (by omega) (by omega))
    have hsize : slice (run (blank n) (l ++ (field + 4, ofLe32 (2 * v.length))
        :: (field, ofLe32 (offset + sizeofSetConnect)) :: (sizeofSetConnect + offset, wide v) :: r))
        (field + 4) 4 = ofLe32 (2 * v.length) :=
      slice_run_self _ (by rw [length_ofLe32]; omega)
        (List.forall_mem_cons.2 ⟨.inl (Nat.le_refl _), hsub htext (by omega) (by omega)⟩)
    simp only [List.append_assoc, List.cons_append, List.nil_append] at hoff hsize ⊢
    rw [le32_slice, hoff, le32_slice _ (field + 4), hsize, le32_ofLe32, le32_ofLe32,
      Nat.mod_eq_of_lt (by omega), Nat.mod_eq_of_lt (by omega), Nat.add_comm offset]

theorem text_run (hv : v ≠ []) (hn : sizeofSetConnect + offset + 2 * v.length ≤ n)
    (hr : Clear (sizeofSetConnect + offset) (2 * v.length) r) :
    slice (run (blank n) (l ++ itemWrites field v offset ++ r)) (sizeofSetConnect + offset)
      (2 * v.length) = wide v := by
  have hblank : (blank n).length = n := List.length_replicate
  have hself : slice (run (blank n) ((l ++ [(field + 4, ofLe32 (2 * v.length)),
      (field, ofLe32 (offset + sizeofSetConnect))]) ++ (sizeofSetConnect + offset, wide v) :: r))
      (sizeofSetConnect + offset) (wide v).length = wide v :=
    slice_run_self _ (by rwa [length_wide, hblank]) (by rwa [length_wide])
  rw [length_wide] at hself
  rw [itemWrites, if_neg hv]
  simpa using hself

end Fields

section Request

variable {a u p : Bytes} {n : ℕ}

/-- The offsets and sizes that the request states. -/
theorem regions_request (ha : 2 * a.length ≤ n) (hu : userOffset a + 2 * u.length ≤ n)
    (hp : passwdOffset a u + 2 * p.length ≤ n) (hlt : n < 2 ^ 31) :
    regionAt (request a u p n) accessString = region a 0
      ∧ regionAt (request a u p n) userName = region u (userOffset a)
      ∧ regionAt (request a u p n) password = region p (passwdOffset a u) := by
  have hsize : sizeofSetConnect = 60 := rfl
  have hA : accessString = 8 := rfl
  have hU : userName = 16 := rfl
  have hP : password = 24 := rfl
  have hnil : ∀ i k, Clear i k [] := fun i k w hw => absurd hw List.not_mem_nil
  unfold request
  refine ⟨?_, ?_, ?_⟩
  · rw [List.append_assoc, ← List.nil_append (itemWrites accessString a 0 ++ _),
      ← List.append_assoc]
    exact regionAt_run (by omega) (by omega) (by omega) (hnil _ _)
      (clear_append.2 ⟨clear_item (by omega) (by omega) _ _, clear_item (by omega) (by omega) _ _⟩)
  · exact regionAt_run (by omega) (by omega) (by omega) (clear_item (by omega) (by omega) _ _)
      (clear_item (by omega) (by omega) _ _)
  · rw [← List.append_nil (_ ++ itemWrites password p _)]
    exact regionAt_run (by omega) (by omega) (by omega)
      (clear_append.2 ⟨clear_item (by omega) (by omega) _ _, clear_item (by omega) (by omega) _ _⟩)
      (hnil _ _)

theorem length_request : (request a u p n).length = sizeofSetConnect + n := by
  unfold request
  rw [length_run]
  exact List.length_replicate

/-- The texts stay as they were written where no later text runs over them. -/
theorem texts_request (ha : 2 * a.length ≤ n) (hu : userOffset a + 2 * u.length ≤ n)
    (hp : passwdOffset a u + 2 * p.length ≤ n)
    (hap : p ≠ [] → 2 * a.length ≤ passwdOffset a u)
    (hup : u ≠ [] → p ≠ [] → userOffset a + 2 * u.length ≤ passwdOffset a u) :
    (a ≠ [] → slice (request a u p n) (sizeofSetConnect + 0) (2 * a.length) = wide a)
      ∧ (u ≠ [] → slice (request a u p n) (sizeofSetConnect + userOffset a) (2 * u.length) = wide u)
      ∧ (p ≠ [] → slice (request a u p n) (sizeofSetConnect + passwdOffset a u) (2 * p.length)
        = wide p) := by
  have hsize : sizeofSetConnect = 60 := rfl
  have hU : userName = 16 := rfl
  have hP : password = 24 := rfl
  have hao : 2 * a.length ≤ userOffset a := (align32_le _).1
  have hnil : ∀ i k, Clear i k [] := fun i k w hw => absurd hw List.not_mem_nil
  unfold request
  refine ⟨fun hne => ?_, fun hne => ?_, fun hne => ?_⟩
  · rw [List.append_assoc, ← List.nil_append (itemWrites accessString a 0 ++ _),
      ← List.append_assoc]
    refine text_run hne (by omega) (clear_append.2 ⟨clear_item_text (by omega) fun _ => ?_,
      clear_item_text (by omega) fun hpne => ?_⟩)
    · omega
    · have := hap hpne
      omega
  · refine text_run hne (by omega) (clear_item_text (by omega) fun hpne => ?_)
    have := hup hne hpne
    omega
  · rw [← List.append_nil (_ ++ itemWrites password p _)]
    exact text_run hne (by omega) (hnil _ _)

end Request

theorem decodes_of_region {b v : Bytes} {field offset : ℕ} {s : Option Bytes}
    (hreg : regionAt b field = region v offset) (hs : s.getD [] = v) (ho : offset % 4 = 0)
    (hin : sizeofSetConnect + offset + 2 * v.length ≤ b.length)
    (htext : v ≠ [] → slice b (sizeofSetConnect + offset) (2 * v.length) = wide v) :
    Decodes b field s := by
  have hsize : sizeofSetConnect = 60 := rfl
  subst hs
  by_cases hv : s.getD [] = []
  · rw [region, if_pos hv] at hreg
    refine ⟨by rw [hreg]; exact Nat.zero_le _, by rw [hreg]; rfl, ?_, fun _ => by rw [hreg]⟩
    rw [hreg, hv]
    rfl
  · rw [region, if_neg hv] at hreg
    refine ⟨by rw [hreg]; exact hin, by rw [hreg]; dsimp only; omega, ?_, fun h => absurd h hv⟩
    rw [hreg]
    dsimp only
    rw [htext hv]
    exact decodeWide_wide _

theorem apart_region {v w : Bytes} {o o' : ℕ} (h : v ≠ [] → w ≠ [] → o + 2 * v.length ≤ o') :
    Apart (region v o) (region w o') := by
  intro i h1 h2 h3 h4
  unfold region at *
  by_cases hv : v = []
  · simp [hv] at h2
  · by_cases hw : w = []
    · simp [hw] at h4
    · have := h hv hw
      simp only [hv, hw, ↓reduceIte] at *
      omega

/-- Three strings: if the password is behind the APN, it runs over the user name. -/
theorem not_apart {a u p : Bytes} (ha : a ≠ []) (hu : u ≠ []) (hp : p ≠ [])
    (hap : Apart (region a 0) (region p (passwdOffset a u)))
    (hup : Apart (region u (userOffset a)) (region p (passwdOffset a u))) : False := by
  have hsize : sizeofSetConnect = 60 := rfl
  have hla := List.length_pos_iff.2 ha
  have hlu := List.length_pos_iff.2 hu
  have hlp := List.length_pos_iff.2 hp
  have hal := align32_le (2 * a.length)
  have hul := align32_le (2 * u.length)
  have hoff : userOffset a = align32 (2 * a.length) := rfl
  rw [passwdOffset, if_neg hu] at hap hup
  have h1 := hap (sizeofSetConnect + align32 (2 * u.length))
  have h2 := hup (sizeofSetConnect + align32 (2 * u.length))
  simp only [region, ha, hu, hp, ↓reduceIte] at h1 h2
  omega

theorem roundTrip_request {apn user passwd : Option Bytes} {a u p : Bytes} {n : ℕ}
    (hapn : apn.getD [] = a) (huser : user.getD [] = u) (hpasswd : passwd.getD [] = p)
    (hn : n = align32 (2 * a.length) + align32 (2 * u.length) + align32 (2 * p.length))
    (hlt : n < 2 ^ 31) (h : a = [] ∨ u = [] ∨ p = []) :
    RoundTrip apn user passwd (request a u p n) := by
  have hal := align32_le (2 * a.length)
  have hul := align32_le (2 * u.length)
  have hpl := align32_le (2 * p.length)
  have hoff := passwdOffset_le a u
  have huo : userOffset a = align32 (2 * a.length) := rfl
  -- where two strings are there, the second starts behind the first
  have hap : a ≠ [] → p ≠ [] → 2 * a.length ≤ passwdOffset a u := fun hane hpne => by
    rw [passwdOffset, if_pos ((h.resolve_left hane).resolve_right hpne)]
    exact hal.1
  have hap' : p ≠ [] → 2 * a.length ≤ passwdOffset a u := fun hpne => by
    by_cases hane : a = []
    · rw [hane]
      exact Nat.zero_le _
    · exact hap hane hpne
  have hup : u ≠ [] → p ≠ [] → userOffset a + 2 * u.length ≤ passwdOffset a u :=
    fun hune hpne => by
      have hane : a = [] := h.resolve_right fun h => h.elim hune hpne
      have hzero : align32 (2 * ([] : Bytes).length) = 0 := rfl
      rw [passwdOffset, if_neg hune, huo, hane, hzero, Nat.zero_add]
      exact hul.1
  have hmod : passwdOffset a u % 4 = 0 := by
    unfold passwdOffset
    split_ifs <;> omega
  obtain ⟨hA, hU, hP⟩ := regions_request (a := a) (u := u) (p := p) (n := n) (by omega) (by omega)
    (by omega) hlt
  obtain ⟨tA, tU, tP⟩ := texts_request (a := a) (u := u) (p := p) (n := n) (by omega) (by omega)
    (by omega) hap' hup
  have hlen := length_request (a := a) (u := u) (p := p) (n := n)
  refine ⟨decodes_of_region hA hapn rfl (by omega) tA,
    decodes_of_region hU huser (by omega) (by omega) tU,
    decodes_of_region hP hpasswd hmod (by omega) tP, ?_, ?_, ?_⟩
  · rw [hA, hU]
    exact apart_region fun _ _ => by omega
  · rw [hA, hP]
    exact apart_region fun hane hpne => by
      have := hap hane hpne
      omega
  · rw [hU, hP]
    exact apart_region hup

/-- The request says what it was built from unless all three strings are there, or they are too
long to be counted in an `int`. -/
theorem roundTrip_iff (apn user passwd : Option Bytes) :
    (∃ b ∈ populateConnectData apn user passwd, RoundTrip apn user passwd b)
      ↔ align32 (2 * (apn.getD []).length) + align32 (2 * (user.getD []).length)
          + align32 (2 * (passwd.getD []).length) < 2 ^ 31
        ∧ (apn.getD [] = [] ∨ user.getD [] = [] ∨ passwd.getD [] = []) := by
  have hlen := connectBuflen_eq apn user passwd
  rw [populateConnectData_eq, ← hlen]
  generalize connectBuflen apn user passwd = n at hlen ⊢
  by_cases hlt : n < 2 ^ 31
  · rw [if_pos hlt]
    refine ⟨fun ⟨b, hb, h⟩ => ⟨hlt, ?_⟩, fun ⟨_, h⟩ => ⟨_, rfl, ?_⟩⟩
    · obtain rfl := Option.some.inj hb
      have hoff := passwdOffset_le (apn.getD []) (user.getD [])
      have hal := align32_le (2 * (apn.getD []).length)
      have hul := align32_le (2 * (user.getD []).length)
      have hpl := align32_le (2 * (passwd.getD []).length)
      have huo : userOffset (apn.getD []) = align32 (2 * (apn.getD []).length) := rfl
      obtain ⟨hA, hU, hP⟩ := regions_request (a := apn.getD []) (u := user.getD [])
        (p := passwd.getD []) (n := n) (by omega) (by omega) (by omega) hlt
      have hap := h.apn_passwd
      have hup := h.user_passwd
      rw [hA, hP] at hap
      rw [hU, hP] at hup
      by_contra hall
      simp only [not_or] at hall
      exact not_apart hall.1 hall.2.1 hall.2.2 hap hup
    · exact roundTrip_request rfl rfl rfl hlen hlt h
  · rw [if_neg hlt]
    exact iff_of_false (fun ⟨b, hb, _⟩ => by simp at hb) fun h => hlt h.1

/-- With an APN, a user name and a password the password is written over the user name. -/
theorem userName_overwritten :
    (populateConnectData (some [0x61]) (some [0x75]) (some [0x70])).map (fun b =>
        decodeWide (slice b (regionAt b userName).1 (regionAt b userName).2)) = some (some [0x70])
      ∧ ¬ ∃ b ∈ populateConnectData (some [0x61]) (some [0x75]) (some [0x70]),
        RoundTrip (some [0x61]) (some [0x75]) (some [0x70]) b := by
  have hover : (populateConnectData (some [0x61]) (some [0x75]) (some [0x70])).map (fun b =>
      decodeWide (slice b (regionAt b userName).1 (regionAt b userName).2))
        = some (some [0x70]) := by decide +kernel
  refine ⟨hover, fun ⟨b, hb, h⟩ => ?_⟩
  rw [Option.mem_def.1 hb, Option.map_some, h.user.text] at hover
  exact absurd hover (by decide)

end MbimConnect

end BananaWrt
