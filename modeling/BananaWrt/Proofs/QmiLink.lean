import BananaWrt.Proofs.QmiMain
import Mathlib.Data.Int.Bitwise

/-!
# The link agrees with the connection state

After `SIG_EVENT_CHECK` the bits of `s_link` should say which families are connected, and a family
without its bit should have no address. `usbnet_link_change` sees to both, but it is called only if
both families are disconnected or one is connected, and it does nothing if the mask stays the same.
A family that is neither keeps it from being called, so the other family may be disconnected with
its bit set; and an address that `SIG_EVENT_START` has brought stays if the call is gone before the
next check sees it. These two are all that goes wrong (`linkAgrees_iff`).
-/

namespace BananaWrt

namespace QmiMain

open Bytes Qmi QmiThread QmiRequests

def Main.linkHas (m : Main) (f : IpFamily) : Bool := m.link.testBit f.code

def NoAddress (p : Profile) : IpFamily → Prop
  | .v4 => p.ipv4 = Ipv4.zero
  | .v6 => p.ipv6 = Ipv6.zero

instance (p : Profile) : ∀ f, Decidable (NoAddress p f)
  | .v4 => inferInstanceAs (Decidable (_ = _))
  | .v6 => inferInstanceAs (Decidable (_ = _))

structure FamilyAgrees (m : Main) (f : IpFamily) : Prop where
  up : m.status f = QWDS_PKT_DATA_CONNECTED → m.linkHas f = true
  down : m.status f = QWDS_PKT_DATA_DISCONNECTED → m.linkHas f = false
  cleared : m.linkHas f = false → NoAddress m.state.profile f

def LinkAgrees (m : Main) : Prop := ∀ f, m.enabled f = true → FamilyAgrees m f

/-! What a check finds is about the state before the check and the replies that it gets. -/

def CheckReplies.query (r : CheckReplies) : IpFamily → Reply
  | .v4 => r.query4
  | .v6 => r.query6

def Asked (m : Main) (f : IpFamily) : Prop :=
  m.enabled f = true ∧ m.status f ≠ QWDS_PKT_DATA_DISCONNECTED

instance (m : Main) (f : IpFamily) : Decidable (Asked m f) := inferInstanceAs (Decidable (_ ∧ _))

/-- The status as the query reports it, or as it was if the query reports none. -/
def found (m : Main) (r : CheckReplies) (f : IpFamily) : ℕ :=
  (reported (r.query f)).getD (m.status f)

/-- The profile after an IPv4 address request of a call with this handle. -/
def withAddress (handle : ℕ) (p : Profile) (r : Reply) : Profile :=
  if handle = 0 then clearAddress .v4 p
  else match qmiRspCheckAndReturn r with
    | .error _ => clearAddress .v4 p
    | .ok b => readAddress b .v4 (clearAddress .v4 p)

def Given (handle : ℕ) (r : Reply) : Prop := handle = 0 ∨ r.code = 0

instance (handle : ℕ) (r : Reply) : Decidable (Given handle r) :=
  inferInstanceAs (Decidable (_ ∨ _))

/-- The profile when the check comes to verify the address. -/
def recalled (m : Main) (r : CheckReplies) : Profile :=
  if m.state.profile.ipv4.address = 0 then
    withAddress (m.state.handle .v4) m.state.profile r.addr4
  else m.state.profile

/-- The modem still has the recorded address; if none was recorded it has given one. -/
def Confirmed (m : Main) (r : CheckReplies) : Prop :=
  (m.state.profile.ipv4.address = 0 → Given (m.state.handle .v4) r.addr4)
    ∧ Given (m.state.handle .v4) r.verify4
    ∧ (withAddress (m.state.handle .v4) (recalled m r) r.verify4).ipv4.address
      = (recalled m r).ipv4.address

instance (m : Main) (r : CheckReplies) : Decidable (Confirmed m r) :=
  inferInstanceAs (Decidable ((_ → _) ∧ _))

/-- The check finds an IPv4 call that is up, so it asks for its address. -/
def Verifies (m : Main) (r : CheckReplies) : Prop :=
  Asked m .v4 ∧ r.query4.code = 0 ∧ found m r .v4 = QWDS_PKT_DATA_CONNECTED

instance (m : Main) (r : CheckReplies) : Decidable (Verifies m r) :=
  inferInstanceAs (Decidable (_ ∧ _))

def ComesUp (m : Main) (r : CheckReplies) : IpFamily → Prop
  | .v4 => Verifies m r ∧ Confirmed m r
  | .v6 => Asked m .v6 ∧ found m r .v6 = QWDS_PKT_DATA_CONNECTED

instance (m : Main) (r : CheckReplies) : ∀ f, Decidable (ComesUp m r f)
  | .v4 => inferInstanceAs (Decidable (_ ∧ _))
  | .v6 => inferInstanceAs (Decidable (_ ∧ _))

def ComesDown (m : Main) (r : CheckReplies) : IpFamily → Prop
  | .v4 => ¬ Asked m .v4 ∨ r.query4.code ≠ 0 ∨ found m r .v4 = QWDS_PKT_DATA_DISCONNECTED
    ∨ Verifies m r ∧ ¬ Confirmed m r
  | .v6 => ¬ Asked m .v6 ∨ found m r .v6 = QWDS_PKT_DATA_DISCONNECTED

instance (m : Main) (r : CheckReplies) : ∀ f, Decidable (ComesDown m r f)
  | .v4 => inferInstanceAs (Decidable (_ ∨ _))
  | .v6 => inferInstanceAs (Decidable (_ ∨ _))

/-- The profile with the answers to the address requests of the check. -/
def answered (m : Main) (r : CheckReplies) : Profile :=
  if Verifies m r then
    if m.state.profile.ipv4.address = 0 ∧ ¬ Given (m.state.handle .v4) r.addr4 then recalled m r
    else withAddress (m.state.handle .v4) (recalled m r) r.verify4
  else m.state.profile

/-- Both families come down or one comes up: `usbnet_link_change` is called. -/
def Changes (m : Main) (r : CheckReplies) : Prop :=
  (ComesDown m r .v4 ∧ ComesDown m r .v6) ∨ ComesUp m r .v4 ∨ ComesUp m r .v6

instance (m : Main) (r : CheckReplies) : Decidable (Changes m r) :=
  inferInstanceAs (Decidable (_ ∨ _))

def newLink (m : Main) (r : CheckReplies) : ℕ :=
  (if ComesUp m r .v4 then linkBit .v4 else 0) ||| (if ComesUp m r .v6 then linkBit .v6 else 0)

/-- A family goes down with its bit set only if the link is looked at, and where the link stays as
it is a family without its bit has no address. -/
structure Settled (m : Main) (r : CheckReplies) : Prop where
  down : ∀ f, m.enabled f = true → ComesDown m r f → m.linkHas f = true → Changes m r
  bare : ∀ f, m.enabled f = true → m.linkHas f = false →
    ¬ (Changes m r ∧ m.link ≠ newLink m r) → NoAddress (answered m r) f

theorem given_iff (m : Main) (r : Reply) :
    (m.getIPAddress .v4 r).1 = 0 ↔ Given (m.state.handle .v4) r := by
  obtain ⟨-, -, hcode, hzero⟩ := getIPAddress_spec m.state .v4 r rfl
  unfold Given
  by_cases h0 : m.state.handle .v4 = 0
  · exact iff_of_true (hzero h0) (.inl h0)
  · rw [or_iff_right h0, ← hcode h0]
    rfl

theorem profile_getIPAddress (m : Main) (r : Reply) :
    (m.getIPAddress .v4 r).2.state.profile
      = withAddress (m.state.handle .v4) m.state.profile r := by
  have hs : ∀ p, State.handle { m.state with profile := p } .v4 = m.state.handle .v4 :=
    fun _ => rfl
  simp only [Main.getIPAddress, requestGetIPAddress, hs, withAddress]
  split_ifs
  · rfl
  · cases hr : qmiRspCheckAndReturn r with
    | error e => rw [feed_request_error _ hr]
    | ok b => rw [feed_request_ok _ hr]; rfl

@[simp] theorem link_setStatus (m : Main) (f : IpFamily) (s : ℕ) :
    (m.setStatus f s).link = m.link := by
  cases f <;> rfl

/-- From `m` to `m'` neither the link nor a status changes. -/
structure Stays (m m' : Main) : Prop where
  link : m'.link = m.link
  status : ∀ g, m'.status g = m.status g
  handle : ∀ g, m'.state.handle g = m.state.handle g

theorem stays_getIPAddress (m : Main) (r : Reply) : Stays m (m.getIPAddress .v4 r).2 where
  link := rfl
  status := (quiet_getIPAddress m .v4 r).status
  handle := (quiet_getIPAddress m .v4 r).handle

theorem recallAddress_up {m : Main} (hup : m.status .v4 = QWDS_PKT_DATA_CONNECTED)
    (addr : Reply)
    (hgiven : m.state.profile.ipv4.address = 0 → Given (m.state.handle .v4) addr) :
    Stays m (m.recallAddress addr) ∧ (m.recallAddress addr).state.profile
      = if m.state.profile.ipv4.address = 0 then
          withAddress (m.state.handle .v4) m.state.profile addr
        else m.state.profile := by
  unfold Main.recallAddress
  by_cases ha : m.state.profile.ipv4.address = 0
  · have hret := (given_iff m addr).2 (hgiven ha)
    simp only [hup, ha, and_self, ↓reduceIte, hret]
    exact ⟨stays_getIPAddress m addr, profile_getIPAddress m addr⟩
  · rw [if_neg (by simp [ha]), if_neg ha]
    exact ⟨⟨rfl, fun _ => rfl, fun _ => rfl⟩, rfl⟩

theorem verifyAddress_up {m : Main} (hup : m.status .v4 = QWDS_PKT_DATA_CONNECTED)
    (verify stop : Reply) :
    (m.verifyAddress verify stop).link = m.link
      ∧ (m.verifyAddress verify stop).status .v6 = m.status .v6
      ∧ (m.verifyAddress verify stop).state.profile
        = withAddress (m.state.handle .v4) m.state.profile verify
      ∧ (m.verifyAddress verify stop).status .v4
        = if Given (m.state.handle .v4) verify
            ∧ (withAddress (m.state.handle .v4) m.state.profile verify).ipv4.address
              = m.state.profile.ipv4.address then QWDS_PKT_DATA_CONNECTED
          else QWDS_PKT_DATA_DISCONNECTED := by
  have hstays := stays_getIPAddress m verify
  have hsame : (m.checkIpv4Address verify).1 = true ↔ Given (m.state.handle .v4) verify
      ∧ (withAddress (m.state.handle .v4) m.state.profile verify).ipv4.address
        = m.state.profile.ipv4.address := by
    rw [← given_iff m verify, ← profile_getIPAddress]
    exact decide_eq_true_iff
  unfold Main.verifyAddress
  rw [if_pos hup]
  dsimp only
  split_ifs with hok hcond hcond
  · exact ⟨rfl, hstays.status .v6, profile_getIPAddress m verify, (hstays.status .v4).trans hup⟩
  · exact absurd (hsame.1 hok) hcond
  · exact absurd (hsame.2 hcond) hok
  · obtain ⟨hp, -⟩ :=
      deactivateDefaultPDP_spec (m.getIPAddress .v4 verify).2.state .v4 stop rfl
    have hprofile : ((m.checkIpv4Address verify).2.deactivateDefaultPDP .v4 stop).state.profile
        = withAddress (m.state.handle .v4) m.state.profile verify :=
      hp.trans (profile_getIPAddress m verify)
    refine ⟨by simp only [link_setStatus]; rfl, ?_, ?_, by simp⟩
    · simp only [status_setStatus, reduceCtorEq, ↓reduceIte]
      exact hstays.status .v6
    · simp only [state_setStatus]
      exact hprofile

/-- What the IPv4 part of a check leaves. -/
structure Finds4 (m : Main) (r : CheckReplies) (m' : Main) : Prop where
  link : m'.link = m.link
  other : m'.status .v6 = m.status .v6
  profile : m'.state.profile = answered m r
  up : m'.status .v4 = QWDS_PKT_DATA_CONNECTED ↔ ComesUp m r .v4
  down : m'.status .v4 = QWDS_PKT_DATA_DISCONNECTED ↔ ComesDown m r .v4

/-- The check has found an IPv4 call that is up. -/
theorem finds4_of_verifies {m x : Main} {r : CheckReplies} (hv : Verifies m r)
    (hlink : x.link = m.link) (hother : x.status .v6 = m.status .v6)
    (hprofile : x.state.profile = m.state.profile)
    (hhandle : x.state.handle .v4 = m.state.handle .v4)
    (hup : x.status .v4 = QWDS_PKT_DATA_CONNECTED) :
    Finds4 m r ((x.recallAddress r.addr4).verifyAddress r.verify4 r.stop4) := by
  have hnot : ¬ (¬ Asked m .v4 ∨ r.query4.code ≠ 0
      ∨ found m r .v4 = QWDS_PKT_DATA_DISCONNECTED) := by
    rintro (h | h | h)
    · exact h hv.1
    · exact h hv.2.1
    · rw [hv.2.2] at h
      exact absurd h (by decide)
  by_cases hgiven : m.state.profile.ipv4.address = 0 → Given (m.state.handle .v4) r.addr4
  · obtain ⟨hstays, hrecall⟩ := recallAddress_up (m := x) hup r.addr4
      (by rw [hprofile, hhandle]; exact hgiven)
    rw [hprofile, hhandle] at hrecall
    change _ = recalled m r at hrecall
    obtain ⟨hl, ho, hp, hs⟩ := verifyAddress_up ((hstays.status .v4).trans hup) r.verify4 r.stop4
    rw [hstays.handle, hhandle, hrecall] at hp hs
    have hconf : Confirmed m r ↔ Given (m.state.handle .v4) r.verify4
        ∧ (withAddress (m.state.handle .v4) (recalled m r) r.verify4).ipv4.address
          = (recalled m r).ipv4.address := and_iff_right hgiven
    refine ⟨hl.trans (hstays.link.trans hlink), ho.trans ((hstays.status .v6).trans hother), ?_,
      ?_, ?_⟩
    · rw [hp, answered, if_pos hv, if_neg]
      rintro ⟨h0, hno⟩
      exact hno (hgiven h0)
    · rw [hs, ComesUp, hconf]
      split_ifs with h
      · exact iff_of_true rfl ⟨hv, h⟩
      · exact iff_of_false (by decide) fun h' => h h'.2
    · rw [hs, ComesDown, hconf]
      split_ifs with h
      · refine iff_of_false (by decide) ?_
        rintro (h' | h' | h' | h')
        · exact hnot (.inl h')
        · exact hnot (.inr (.inl h'))
        · exact hnot (.inr (.inr h'))
        · exact h'.2 h
      · exact iff_of_true rfl (.inr (.inr (.inr ⟨hv, h⟩)))
  · -- the address asked for is not given: the call counts as gone and nothing is verified
    obtain ⟨h0, hno⟩ := Classical.not_imp.1 hgiven
    have hret : (x.getIPAddress .v4 r.addr4).1 ≠ 0 := by
      rw [ne_eq, given_iff, hhandle]
      exact hno
    have hx : (x.recallAddress r.addr4).verifyAddress r.verify4 r.stop4
        = (x.getIPAddress .v4 r.addr4).2.setStatus .v4 QWDS_PKT_DATA_DISCONNECTED := by
      unfold Main.recallAddress
      rw [if_pos ⟨hup, by rw [hprofile]; exact h0⟩]
      simp only [hret, ↓reduceIte]
      unfold Main.verifyAddress
      rw [if_neg (by simp [QWDS_PKT_DATA_CONNECTED, QWDS_PKT_DATA_DISCONNECTED])]
    have hstays := stays_getIPAddress x r.addr4
    rw [hx]
    refine ⟨(link_setStatus _ _ _).trans hlink, ?_, ?_, ?_, ?_⟩
    · simp only [status_setStatus, reduceCtorEq, ↓reduceIte]
      exact (hstays.status .v6).trans hother
    · rw [state_setStatus, profile_getIPAddress, hprofile, hhandle, answered, if_pos hv,
        if_pos ⟨h0, hno⟩, recalled, if_pos h0]
    · refine iff_of_false (by simp [QWDS_PKT_DATA_CONNECTED, QWDS_PKT_DATA_DISCONNECTED]) ?_
      exact fun h => hno (h.2.1 h0)
    · exact iff_of_true (by simp) (.inr (.inr (.inr ⟨hv, fun h => hno (h.1 h0)⟩)))

theorem queryDataCall_found (m : Main) (r : CheckReplies) (f : IpFamily) {x : ℤ × Main}
    (hx : x = m.queryDataCall f (r.query f)) :
    x.1 = (r.query f).code ∧ x.2.link = m.link ∧ x.2.state.profile = m.state.profile
      ∧ x.2.status f = found m r f ∧ (∀ g, g ≠ f → x.2.status g = m.status g)
      ∧ (found m r f ≠ QWDS_PKT_DATA_DISCONNECTED → x.2.state.handle f = m.state.handle f) := by
  obtain ⟨hcode, hst, hp, -, hself⟩ :=
    queryDataCall_spec m.state (m.status f) f (r.query f) rfl
  subst hx
  refine ⟨hcode, ?_, ?_, ?_, ?_, ?_⟩
  · simp only [Main.queryDataCall, link_setStatus]
  · simp only [Main.queryDataCall, state_setStatus]
    exact hp
  · simp only [Main.queryDataCall, status_setStatus, ↓reduceIte]
    exact hst
  · intro g hg
    simp only [Main.queryDataCall, status_setStatus, hg, ↓reduceIte]
    cases g <;> rfl
  · intro hne
    simp only [Main.queryDataCall, state_setStatus]
    rw [hself, if_neg]
    intro hrep
    exact hne (by rw [found, hrep]; rfl)

theorem finds4_checkIpv4 (m : Main) (r : CheckReplies) : Finds4 m r (m.checkIpv4 r) := by
  obtain ⟨hcode, hlink, hp, hst, hother, hhandle⟩ := queryDataCall_found m r .v4 rfl
  change (m.queryDataCall .v4 r.query4).1 = r.query4.code at hcode
  change (m.queryDataCall .v4 r.query4).2.link = m.link at hlink
  unfold Main.checkIpv4
  by_cases hask : Asked m .v4
  · rw [if_pos (show _ ∧ _ from hask)]
    dsimp only
    by_cases hret : (m.queryDataCall .v4 r.query4).1 = 0
    · rw [if_pos hret]
      by_cases hup : found m r .v4 = QWDS_PKT_DATA_CONNECTED
      · exact finds4_of_verifies ⟨hask, hcode ▸ hret, hup⟩ hlink (hother .v6 (by decide)) hp
          (hhandle (by rw [hup]; decide)) (hst.trans hup)
      · have hskip : ((m.queryDataCall .v4 r.query4).2.recallAddress r.addr4).verifyAddress
            r.verify4 r.stop4 = (m.queryDataCall .v4 r.query4).2 := by
          have hne : (m.queryDataCall .v4 r.query4).2.status .v4 ≠ QWDS_PKT_DATA_CONNECTED :=
            fun h => hup (hst.symm.trans h)
          unfold Main.recallAddress
          rw [if_neg fun h => hne h.1]
          unfold Main.verifyAddress
          rw [if_neg hne]
        rw [hskip]
        refine ⟨hlink, hother .v6 (by decide), ?_, ?_, ?_⟩
        · rw [answered, if_neg fun h => hup h.2.2]
          exact hp
        · exact iff_of_false (fun h => hup (hst.symm.trans h)) fun h => hup h.1.2.2
        · constructor
          · intro h
            exact .inr (.inr (.inl (hst.symm.trans h)))
          · rintro (h | h | h | h)
            · exact absurd hask h
            · exact absurd (hcode ▸ hret) h
            · exact hst.trans h
            · exact absurd h.1.2.2 hup
    · rw [if_neg hret]
      refine ⟨(link_setStatus _ _ _).trans hlink, ?_, ?_, ?_, ?_⟩
      · rw [status_setStatus, if_neg (by decide)]
        exact hother .v6 (by decide)
      · rw [state_setStatus, answered, if_neg fun h => hret (hcode.trans h.2.1)]
        exact hp
      · exact iff_of_false (by rw [status_setStatus, if_pos rfl]; decide)
          fun h => hret (hcode.trans h.1.2.1)
      · exact iff_of_true (by simp) (.inr (.inl fun h => hret (hcode.trans h)))
  · rw [if_neg (show ¬ (_ ∧ _) from hask)]
    refine ⟨link_setStatus _ _ _, by simp, ?_, ?_, ?_⟩
    · rw [state_setStatus, answered, if_neg fun h => hask h.1]
    · exact iff_of_false (by rw [status_setStatus, if_pos rfl]; decide) fun h => hask h.1.1
    · exact iff_of_true (by simp) (.inl hask)

/-- What a check leaves before it looks at the link. -/
structure Finds (m : Main) (r : CheckReplies) (m' : Main) : Prop where
  link : m'.link = m.link
  profile : m'.state.profile = answered m r
  up : ∀ f, m'.status f = QWDS_PKT_DATA_CONNECTED ↔ ComesUp m r f
  down : ∀ f, m'.status f = QWDS_PKT_DATA_DISCONNECTED ↔ ComesDown m r f

/-- The answers to the address requests do not change which families are enabled. -/
theorem enabledIn_withAddress (handle : ℕ) (p : Profile) (r : Reply) :
    enabledIn (withAddress handle p r) = enabledIn p := by
  unfold withAddress
  split_ifs
  · rfl
  · split
    · rfl
    · exact enabledIn_readAddress _ _ _

theorem enabledIn_answered (m : Main) (r : CheckReplies) :
    enabledIn (answered m r) = enabledIn m.state.profile := by
  have hrecall : enabledIn (recalled m r) = enabledIn m.state.profile := by
    unfold recalled
    split_ifs
    · exact enabledIn_withAddress _ _ _
    · rfl
  unfold answered
  split_ifs
  · exact hrecall
  · exact (enabledIn_withAddress _ _ _).trans hrecall
  · rfl

theorem finds_check (m : Main) (r : CheckReplies) : Finds m r ((m.checkIpv4 r).checkIpv6 r) := by
  have h4 := finds4_checkIpv4 m r
  generalize m.checkIpv4 r = m₁ at h4 ⊢
  have hen : ∀ g, m₁.enabled g = m.enabled g :=
    enabled_congr (by rw [h4.profile, enabledIn_answered])
  have hfound : found m₁ r .v6 = found m r .v6 := by
    unfold found
    rw [h4.other]
  have hasked : Asked m₁ .v6 ↔ Asked m .v6 := by
    unfold Asked
    rw [hen, h4.other]
  obtain ⟨-, hlink, hp, hst, hother, -⟩ := queryDataCall_found m₁ r .v6 rfl
  unfold Main.checkIpv6
  by_cases hask : Asked m .v6
  · rw [if_pos (show _ ∧ _ from hasked.2 hask)]
    rw [hfound] at hst
    refine ⟨hlink.trans h4.link, hp.trans h4.profile, fun f => ?_, fun f => ?_⟩
    · cases f with
      | v4 => exact (Iff.of_eq (congrArg (· = _) (hother .v4 (by decide)))).trans h4.up
      | v6 => exact (Iff.of_eq (congrArg (· = _) hst)).trans (and_iff_right hask).symm
    · cases f with
      | v4 => exact (Iff.of_eq (congrArg (· = _) (hother .v4 (by decide)))).trans h4.down
      | v6 =>
        exact (Iff.of_eq (congrArg (· = _) hst)).trans (or_iff_right (not_not.2 hask)).symm
  · rw [if_neg (show ¬ (_ ∧ _) from mt hasked.1 hask)]
    refine ⟨(link_setStatus _ _ _).trans h4.link, ?_, fun f => ?_, fun f => ?_⟩
    · rw [state_setStatus]
      exact h4.profile
    · cases f with
      | v4 => simpa using h4.up
      | v6 =>
        exact iff_of_false (by rw [status_setStatus, if_pos rfl]; decide) fun h => hask h.1
    · cases f with
      | v4 => simpa using h4.down
      | v6 => exact iff_of_true (by simp) (.inl hask)

theorem linkHas_of_link {m : Main} {n : ℕ} (h : m.link = n) (f : IpFamily) :
    m.linkHas f = n.testBit f.code := by
  rw [Main.linkHas, h]
  rfl

theorem testBit_newLink (m : Main) (r : CheckReplies) (f : IpFamily) :
    (newLink m r).testBit f.code = decide (ComesUp m r f) := by
  unfold newLink
  by_cases h4 : ComesUp m r .v4 <;> by_cases h6 : ComesUp m r .v6 <;> cases f <;>
    simp [h4, h6, linkBit, IpFamily.code, Nat.testBit]

theorem comesUp_changes {m : Main} {r : CheckReplies} {f : IpFamily} (h : ComesUp m r f) :
    Changes m r := by
  cases f
  · exact .inr (.inl h)
  · exact .inr (.inr h)

theorem not_comesUp_of_comesDown {m m' : Main} {r : CheckReplies} (h : Finds m r m')
    {f : IpFamily} (hdown : ComesDown m r f) : ¬ ComesUp m r f := by
  intro hup
  have h1 := (h.up f).2 hup
  rw [(h.down f).2 hdown] at h1
  exact absurd h1 (by decide)

/-- The state once the link has been looked at. -/
theorem checkLink_of_finds {m m' : Main} {r : CheckReplies} (h : Finds m r m') :
    m'.checkLink = if Changes m r then m'.usbnetLinkChange (newLink m r) else m' := by
  have hany : m'.AnyUp ↔ ComesUp m r .v4 ∨ ComesUp m r .v6 := by
    simp only [Main.AnyUp, List.mem_cons, List.not_mem_nil, or_false, exists_eq_or_imp,
      exists_eq_left, h.up]
  unfold Main.checkLink
  simp only [h.down, h.up, hany]
  by_cases hboth : ComesDown m r .v4 ∧ ComesDown m r .v6
  · have hzero : newLink m r = 0 := by
      unfold newLink
      rw [if_neg (not_comesUp_of_comesDown h hboth.1), if_neg (not_comesUp_of_comesDown h hboth.2)]
      rfl
    rw [if_pos hboth, if_pos (show Changes m r from .inl hboth), hzero]
  · rw [if_neg hboth]
    by_cases hup : ComesUp m r .v4 ∨ ComesUp m r .v6
    · rw [if_pos hup, if_pos (show Changes m r from .inr hup)]
      rfl
    · have hno : ¬ Changes m r := by
        rintro (h' | h')
        · exact hboth h'
        · exact hup h'
      rw [if_neg hup, if_neg hno]

/-- A changed link clears the address of each family that loses its bit. -/
theorem noAddress_usbnetLinkChange {m : Main} {link : ℕ} (hne : m.link ≠ link) {f : IpFamily}
    (hf : link.testBit f.code = false) : NoAddress (m.usbnetLinkChange link).state.profile f := by
  have hbit : link &&& linkBit f = 0 := by
    rw [linkBit, Nat.and_two_pow, hf]
    simp
  unfold Main.usbnetLinkChange
  rw [if_neg hne]
  cases f with
  | v4 =>
    simp only [hbit, ↓reduceIte]
    split_ifs <;> rfl
  | v6 =>
    simp only [hbit, ↓reduceIte]
    rfl

theorem link_usbnetLinkChange (m : Main) (link : ℕ) : (m.usbnetLinkChange link).link = link := by
  unfold Main.usbnetLinkChange
  by_cases h : m.link = link
  · rw [if_pos h]
    exact h
  · rw [if_neg h]

/-- What is asked of a family after the check, by what the check has found. -/
def AgreesIn (m : Main) (r : CheckReplies) (x : Main) (f : IpFamily) : Prop :=
  (ComesUp m r f → x.linkHas f = true) ∧ (ComesDown m r f → x.linkHas f = false)
    ∧ (x.linkHas f = false → NoAddress x.state.profile f)

theorem linkAgrees_iff_agreesIn {m m' : Main} {r : CheckReplies} (h : Finds m r m')
    (hen : ∀ f, m'.enabled f = m.enabled f) :
    LinkAgrees m'.checkLink ↔ ∀ f, m.enabled f = true → AgreesIn m r m'.checkLink f := by
  have hq := quiet_checkLink m'
  refine forall_congr' fun f => ?_
  rw [hq.enabled, hen]
  refine imp_congr_right fun _ => ⟨fun ⟨hu, hd, hc⟩ => ?_, fun ⟨hu, hd, hc⟩ => ⟨?_, ?_, hc⟩⟩
  · rw [hq.status, h.up] at hu
    rw [hq.status, h.down] at hd
    exact ⟨hu, hd, hc⟩
  · rw [hq.status, h.up]
    exact hu
  · rw [hq.status, h.down]
    exact hd

theorem Finds.linkHas {m m' : Main} {r : CheckReplies} (h : Finds m r m') (f : IpFamily) :
    m'.linkHas f = m.linkHas f := by
  rw [Main.linkHas, Main.linkHas, h.link]

theorem agreesIn_of_changes {m m' : Main} {r : CheckReplies} (h : Finds m r m') (hch : Changes m r) :
    (∀ f, m.enabled f = true → AgreesIn m r (m'.usbnetLinkChange (newLink m r)) f)
      ↔ Settled m r := by
  have hbit : ∀ f, (m'.usbnetLinkChange (newLink m r)).linkHas f = decide (ComesUp m r f) :=
    fun f => (linkHas_of_link (link_usbnetLinkChange _ _) f).trans (testBit_newLink m r f)
  constructor
  · intro hall
    refine ⟨fun _ _ _ _ => hch, fun f hf hno hsame => ?_⟩
    have heq : m'.link = newLink m r := by
      rw [h.link]
      by_contra hne
      exact hsame ⟨hch, hne⟩
    have hunchanged : m'.usbnetLinkChange (newLink m r) = m' := if_pos heq
    rw [← h.profile]
    have := (hall f hf).2.2
    rw [hunchanged, h.linkHas] at this
    exact this hno
  · intro hset f hf
    refine ⟨fun hup => by simp [hbit, hup], fun hdown => ?_, fun hclear => ?_⟩
    · simp [hbit, not_comesUp_of_comesDown h hdown]
    · by_cases heq : m'.link = newLink m r
      · have hunchanged : m'.usbnetLinkChange (newLink m r) = m' := if_pos heq
        rw [hunchanged] at hclear ⊢
        rw [h.linkHas] at hclear
        rw [h.profile]
        exact hset.bare f hf hclear fun hmoves => hmoves.2 (h.link.symm.trans heq)
      · refine noAddress_usbnetLinkChange heq ?_
        rw [← linkHas_of_link (link_usbnetLinkChange m' _) f]
        exact hclear

theorem agreesIn_of_not_changes {m m' : Main} {r : CheckReplies} (h : Finds m r m')
    (hch : ¬ Changes m r) : (∀ f, m.enabled f = true → AgreesIn m r m' f) ↔ Settled m r := by
  constructor
  · intro hall
    refine ⟨fun f hf hdown hhas => ?_, fun f hf hno _ => ?_⟩
    · have := (hall f hf).2.1 hdown
      rw [h.linkHas, hhas] at this
      exact absurd this (by decide)
    · rw [← h.profile]
      exact (hall f hf).2.2 ((h.linkHas f).trans hno)
  · intro hset f hf
    refine ⟨fun hup => absurd (comesUp_changes hup) hch, fun hdown => ?_, fun hclear => ?_⟩
    · by_contra hhas
      rw [h.linkHas, Bool.not_eq_false] at hhas
      exact hch (hset.down f hf hdown hhas)
    · rw [h.profile]
      exact hset.bare f hf ((h.linkHas f).symm.trans hclear) fun hmoves => hch hmoves.1

theorem linkAgrees_of_finds {m m' : Main} {r : CheckReplies} (h : Finds m r m')
    (hen : ∀ f, m'.enabled f = m.enabled f) : LinkAgrees m'.checkLink ↔ Settled m r := by
  rw [linkAgrees_iff_agreesIn h hen, checkLink_of_finds h]
  by_cases hch : Changes m r
  · rw [if_pos hch]
    exact agreesIn_of_changes h hch
  · rw [if_neg hch]
    exact agreesIn_of_not_changes h hch

theorem linkAgrees_check (m : Main) (r : CheckReplies) :
    LinkAgrees ((m.checkIpv4 r).checkIpv6 r).checkLink ↔ Settled m r := by
  have h := finds_check m r
  exact linkAgrees_of_finds h (enabled_congr (by rw [h.profile, enabledIn_answered]))

/-- What `Settled` looks at. -/
theorem settled_congr {m m' : Main} (hp : m'.state.profile = m.state.profile)
    (hh : m'.state.handle .v4 = m.state.handle .v4) (hst : ∀ g, m'.status g = m.status g)
    (hl : m'.link = m.link) (r : CheckReplies) : Settled m' r ↔ Settled m r := by
  have hen : ∀ g, m'.enabled g = m.enabled g := enabled_congr (congrArg enabledIn hp)
  have hasked : ∀ g, Asked m' g ↔ Asked m g := fun g => by
    unfold Asked
    rw [hen, hst]
  have hfound : ∀ g, found m' r g = found m r g := fun g => by
    unfold found
    rw [hst]
  have hver : Verifies m' r ↔ Verifies m r := by
    unfold Verifies
    rw [hasked, hfound]
  have hrec : recalled m' r = recalled m r := by
    unfold recalled
    rw [hp, hh]
  have hconf : Confirmed m' r ↔ Confirmed m r := by
    unfold Confirmed
    rw [hp, hh, hrec]
  have hup : ∀ g, ComesUp m' r g ↔ ComesUp m r g
    | .v4 => and_congr hver hconf
    | .v6 => by simp only [ComesUp, hasked, hfound]
  have hdown : ∀ g, ComesDown m' r g ↔ ComesDown m r g
    | .v4 => by simp only [ComesDown, hasked, hfound, hver, hconf]
    | .v6 => by simp only [ComesDown, hasked, hfound]
  have hch : Changes m' r ↔ Changes m r := by
    unfold Changes
    rw [hup, hup, hdown, hdown]
  have hans : answered m' r = answered m r := by
    unfold answered
    simp only [hver, hp, hh, hrec]
  have hnew : newLink m' r = newLink m r := by
    unfold newLink
    simp only [hup]
  have hhas : ∀ g, m'.linkHas g = m.linkHas g := fun g => by
    unfold Main.linkHas
    rw [hl]
  constructor
  · rintro ⟨h1, h2⟩
    simp only [hen, hdown, hhas, hch, hl, hnew, hans] at h1 h2
    exact ⟨h1, h2⟩
  · rintro ⟨h1, h2⟩
    refine ⟨?_, ?_⟩ <;> simp only [hen, hdown, hhas, hch, hl, hnew, hans]
    · exact h1
    · exact h2

theorem step_check {m m' : Main} {registration : ℕ → Reply} {r : CheckReplies}
    (hs : step m (.check registration r) = some m') : LinkAgrees m' ↔ Settled m r := by
  unfold step at hs
  split_ifs at hs
  cases hs
  unfold Main.onCheck
  split_ifs
  · obtain ⟨hp, hh⟩ := (registrationState_spec m.state m.psAttachedState).feed registration
    rw [linkAgrees_check]
    exact settled_congr hp (hh .v4) (quiet_registrationState m registration).status rfl r
  · exact linkAgrees_check m r

/-! ## Runs -/

/-- If the event is a check, the link agrees with the connection state after it. -/
def AgreesAfter (m : Main) : Event → Prop
  | .check registration r => ∀ m' ∈ step m (.check registration r), LinkAgrees m'
  | _ => True

def SettledAt (m : Main) : Event → Prop
  | .check _ r => Settled m r
  | _ => True

instance decidableForallFamily {P : IpFamily → Prop} [∀ f, Decidable (P f)] :
    Decidable (∀ f, P f) :=
  decidable_of_iff (P .v4 ∧ P .v6)
    ⟨fun ⟨h4, h6⟩ f => match f with
      | .v4 => h4
      | .v6 => h6, fun h => ⟨h .v4, h .v6⟩⟩

instance (m : Main) (r : CheckReplies) : Decidable (Settled m r) :=
  decidable_of_iff
    ((∀ f, m.enabled f = true → ComesDown m r f → m.linkHas f = true → Changes m r)
      ∧ ∀ f, m.enabled f = true → m.linkHas f = false →
        ¬ (Changes m r ∧ m.link ≠ newLink m r) → NoAddress (answered m r) f)
    ⟨fun ⟨h1, h2⟩ => ⟨h1, h2⟩, fun ⟨h1, h2⟩ => ⟨h1, h2⟩⟩

instance (m : Main) : ∀ e : Event, Decidable (SettledAt m e)
  | .check _ r => inferInstanceAs (Decidable (Settled m r))
  | .start _ _ _ | .stop _ _ | .networkStateChanged _ _ | .dataCallListChanged _
  | .loopbackConfig _ _ | .leave => .isTrue trivial

def failedCheck : Event :=
  .check (fun _ => timedOut) ⟨timedOut, addressOk, addressOk, wdsOk [], timedOut⟩

def dualState : State := { ipv4State with profile := { ipv4State.profile with enableIpv6 := true } }

end QmiMain

end BananaWrt
