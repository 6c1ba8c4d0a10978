import BananaWrt.Lib.Run
import BananaWrt.QmiMain

/-!
# Data calls are not leaked

A family's handle belongs to an open data call, and `qmi_main` closes a call on the way out only
if the family's status is `CONNECTED`. So the two have to agree: a family with a handle is enabled
and connected (`Linked`). They part where a call is up but its address cannot be had, where the
query for the status fails or reports something other than connected or disconnected, and where a
call could not be stopped. As long as none of this happens no call is leaked
(`noLeak_of_orderly`).
-/

namespace BananaWrt

namespace QmiMain

open Bytes Qmi QmiThread QmiRequests

@[simp] theorem handle_setHandle (s : State) (f g : IpFamily) (h : ℕ) :
    (s.setHandle f h).handle g = if g = f then h else s.handle g := by
  cases f <;> cases g <;> rfl

@[simp] theorem profile_setHandle (s : State) (f : IpFamily) (h : ℕ) :
    (s.setHandle f h).profile = s.profile := by
  cases f <;> rfl

def enabledIn (p : Profile) : Bool × Bool := (p.enableIpv4, p.enableIpv6)

theorem setupDataCall_spec (s : State) (f : IpFamily) (r : Reply) {x : ℤ × State}
    (hx : x = (requestSetupDataCall s f).feed fun _ => r) :
    enabledIn x.2.profile = enabledIn s.profile ∧ (∀ g, g ≠ f → x.2.handle g = s.handle g)
      ∧ (x.1 ≠ 0 → x.2.handle f = s.handle f) := by
  have hs : ∀ g, State.handle { s with profile := { s.profile with curIpFamily := f.code } } g
      = s.handle g := by
    intro g
    cases g <;> rfl
  subst hx
  simp only [requestSetupDataCall, Calls.feed]
  cases qmiRspCheck r with
  | error e => exact ⟨rfl, fun g _ => hs g, fun _ => hs f⟩
  | ok b =>
    dsimp only
    split_ifs
    · exact ⟨rfl, fun g _ => hs g, fun _ => hs f⟩
    · refine ⟨by simp [Calls.feed, enabledIn], fun g hg => ?_, fun h => absurd rfl h⟩
      simp [Calls.feed, hg, hs]

theorem enabledIn_onTlv {b : Bytes} {type : ℕ} {set : ℕ → Profile → Profile}
    (h : ∀ o p, enabledIn (set o p) = enabledIn p) (p : Profile) :
    enabledIn (onTlv b type set p) = enabledIn p := by
  rw [onTlv]
  split
  · exact h _ p
  · rfl

theorem enabledIn_readAddress (b : Bytes) (f : IpFamily) (p : Profile) :
    enabledIn (readAddress b f p) = enabledIn p := by
  have h4 : ∀ o p, enabledIn (setPcscfIpv4 b o p) = enabledIn p := by
    intro o p
    unfold setPcscfIpv4
    split_ifs <;> rfl
  have h6 : ∀ o p, enabledIn (setPcscfIpv6 b o p) = enabledIn p := by
    intro o p
    unfold setPcscfIpv6
    split_ifs <;> rfl
  unfold readAddress
  refine (enabledIn_onTlv (fun _ _ => by cases f <;> rfl) _).trans ?_
  iterate 9 refine (enabledIn_onTlv (fun _ _ => by rfl) _).trans ?_
  exact (enabledIn_onTlv h4 _).trans (enabledIn_onTlv h6 _)

theorem getIPAddress_spec (s : State) (f : IpFamily) (r : Reply) {x : ℤ × State}
    (hx : x = (requestGetIPAddress s f).feed fun _ => r) :
    enabledIn x.2.profile = enabledIn s.profile ∧ (∀ g, x.2.handle g = s.handle g)
      ∧ (s.handle f ≠ 0 → x.1 = r.code) ∧ (s.handle f = 0 → x.1 = 0) := by
  have hclear : enabledIn (clearAddress f s.profile) = enabledIn s.profile := by
    cases f <;> rfl
  have hs : ∀ p g, State.handle { s with profile := p } g = s.handle g := by
    intro p g
    cases g <;> rfl
  subst hx
  simp only [requestGetIPAddress, hs]
  split_ifs with h0
  · exact ⟨hclear, fun g => hs _ g, fun h => absurd h0 h, fun _ => rfl⟩
  · cases hr : qmiRspCheckAndReturn r with
    | error e =>
      rw [feed_request_error _ hr]
      exact ⟨hclear, fun g => hs _ g, fun _ => (code_of_error hr).symm, fun h => absurd h h0⟩
    | ok b =>
      rw [feed_request_ok _ hr, Calls.feed]
      exact ⟨(enabledIn_readAddress b f _).trans hclear, fun g => hs _ g,
        fun _ => (code_of_ok hr).symm, fun h => absurd h h0⟩

/-- The connection status that a reply to the query reports. -/
def reported (r : Reply) : Option ℕ :=
  match qmiRspCheckAndReturn r with
  | .error _ => none
  | .ok b => some (connectionStatus b)

/-- A family whose call is down gives its handle up. -/
theorem givenUp_spec (s : State) (f : IpFamily) (c : ℕ) :
    (if c = QWDS_PKT_DATA_DISCONNECTED then s.setHandle f 0 else s).profile = s.profile
      ∧ (∀ g, g ≠ f →
        (if c = QWDS_PKT_DATA_DISCONNECTED then s.setHandle f 0 else s).handle g = s.handle g)
      ∧ (if c = QWDS_PKT_DATA_DISCONNECTED then s.setHandle f 0 else s).handle f
        = if c = QWDS_PKT_DATA_DISCONNECTED then 0 else s.handle f := by
  refine ⟨?_, fun g hg => ?_, ?_⟩
  · split_ifs <;> simp
  · split_ifs <;> simp [hg]
  · split_ifs <;> simp

theorem queryDataCall_spec (s : State) (status : ℕ) (f : IpFamily) (r : Reply)
    {x : ℤ × ℕ × State} (hx : x = (requestQueryDataCall s status f).feed fun _ => r) :
    x.1 = r.code ∧ x.2.1 = (reported r).getD status ∧ x.2.2.profile = s.profile
      ∧ (∀ g, g ≠ f → x.2.2.handle g = s.handle g)
      ∧ (x.2.2.handle f
        = if reported r = some QWDS_PKT_DATA_DISCONNECTED then 0 else s.handle f) := by
  subst hx
  unfold requestQueryDataCall
  cases hr : qmiRspCheckAndReturn r with
  | error e =>
    rw [feed_request_error _ hr]
    simp [reported, hr, code_of_error hr]
  | ok b =>
    have hrep : reported r = some (connectionStatus b) := by simp only [reported, hr]
    rw [feed_request_ok _ hr, Calls.feed, hrep]
    obtain ⟨hp, ho, hf⟩ := givenUp_spec s f (connectionStatus b)
    simp only [Option.some.injEq]
    exact ⟨(code_of_ok hr).symm, rfl, hp, ho, hf⟩

theorem deactivateDefaultPDP_spec (s : State) (f : IpFamily) (r : Reply) {x : ℤ × State}
    (hx : x = (requestDeactivateDefaultPDP s f).feed fun _ => r) :
    x.2.profile = s.profile ∧ (∀ g, g ≠ f → x.2.handle g = s.handle g)
      ∧ ((s.handle f ≠ 0 → (qmiRspCheckAndReturn r).isOk) → x.2.handle f = 0)
      ∧ (x.2.handle f ≠ 0 → s.handle f ≠ 0) := by
  subst hx
  unfold requestDeactivateDefaultPDP
  split_ifs with h0
  · exact ⟨rfl, fun _ _ => rfl, fun _ => h0, id⟩
  · cases hr : qmiRspCheckAndReturn r with
    | error e =>
      rw [feed_request_error _ hr]
      exact ⟨rfl, fun _ _ => rfl, fun h => absurd (h h0) Bool.false_ne_true, fun h => h⟩
    | ok b =>
      rw [feed_request_ok _ hr]
      refine ⟨by simp [Calls.feed], fun g hg => by simp [Calls.feed, hg], fun _ => ?_, ?_⟩ <;>
        simp [Calls.feed]

theorem registrationState_spec (s : State) (psAttachedState : ℕ) :
    (requestRegistrationState s psAttachedState).Always fun x =>
      x.2.2.profile = s.profile ∧ ∀ g, x.2.2.handle g = s.handle g := by
  have hs : ∀ (cdma : Bool) (hdr t : ℕ) (g : IpFamily),
      State.handle { s with isCdma := cdma, hdrPersonality := hdr, type5g := t } g
        = s.handle g := by
    intro cdma hdr t g
    cases g <;> rfl
  unfold requestRegistrationState
  split_ifs
  · intro r
    dsimp only
    cases qmiRspCheckAndReturn r with
    | error e => exact ⟨rfl, fun _ => rfl⟩
    | ok b =>
      refine Calls.always_bind.2 (Calls.Always.of_forall fun a => ?_)
      exact ⟨rfl, fun g => hs _ _ _ g⟩
  · intro r
    dsimp only
    cases qmiRspCheckAndReturn r with
    | error e => exact ⟨rfl, fun _ => rfl⟩
    | ok b =>
      dsimp only
      split_ifs
      · refine Calls.always_bind.2 (Calls.Always.of_forall fun a => ?_)
        exact ⟨rfl, fun g => hs _ _ _ g⟩
      · exact ⟨rfl, fun g => hs _ _ _ g⟩

/-! ## The invariant -/

/-- A family with a handle is enabled and connected. -/
def Linked (m : Main) (f : IpFamily) : Prop :=
  m.state.handle f ≠ 0 → m.enabled f = true ∧ m.status f = QWDS_PKT_DATA_CONNECTED

def SetupsZero (m : Main) : Prop := ∀ x ∈ m.setups, x.2 = 0

theorem SetupsZero.congr {m m' : Main} (h : SetupsZero m) (hs : m'.setups = m.setups) :
    SetupsZero m' := by
  unfold SetupsZero
  rw [hs]
  exact h

structure Agrees (m : Main) : Prop where
  linked : ∀ f, Linked m f
  setups : SetupsZero m

/-- From `m` to `m'` only the family `f` changes. -/
structure Touches (f : IpFamily) (m m' : Main) : Prop where
  enabled : ∀ g, m'.enabled g = m.enabled g
  handle : ∀ g, g ≠ f → m'.state.handle g = m.state.handle g
  status : ∀ g, g ≠ f → m'.status g = m.status g

theorem Touches.trans {f : IpFamily} {m m' m'' : Main} (h : Touches f m m')
    (h' : Touches f m' m'') : Touches f m m'' where
  enabled g := (h'.enabled g).trans (h.enabled g)
  handle g hg := (h'.handle g hg).trans (h.handle g hg)
  status g hg := (h'.status g hg).trans (h.status g hg)

theorem Touches.agrees {f : IpFamily} {m m' : Main} (h : Touches f m m') (ha : Agrees m)
    (hl : Linked m' f) (hz : SetupsZero m') : Agrees m' := by
  refine ⟨fun g => ?_, hz⟩
  by_cases hg : g = f
  · rw [hg]
    exact hl
  · unfold Linked
    rw [h.enabled g, h.handle g hg, h.status g hg]
    exact ha.linked g

/-- Nothing that the invariant is about changes. -/
structure Quiet (m m' : Main) : Prop where
  enabled : ∀ g, m'.enabled g = m.enabled g
  handle : ∀ g, m'.state.handle g = m.state.handle g
  status : ∀ g, m'.status g = m.status g
  setups : m'.setups = m.setups

theorem Quiet.refl (m : Main) : Quiet m m := ⟨fun _ => rfl, fun _ => rfl, fun _ => rfl, rfl⟩

theorem Quiet.linked {m m' : Main} (h : Quiet m m') {f : IpFamily} (hl : Linked m f) :
    Linked m' f := by
  unfold Linked
  rw [h.enabled, h.handle, h.status]
  exact hl

theorem Quiet.agrees {m m' : Main} (h : Quiet m m') (ha : Agrees m) : Agrees m' :=
  ⟨fun f => h.linked (ha.linked f), ha.setups.congr h.setups⟩

theorem Quiet.touches {m m' : Main} (h : Quiet m m') (f : IpFamily) : Touches f m m' :=
  ⟨h.enabled, fun g _ => h.handle g, fun g _ => h.status g⟩

theorem enabled_congr {m m' : Main}
    (h : enabledIn m'.state.profile = enabledIn m.state.profile) (g : IpFamily) :
    m'.enabled g = m.enabled g := by
  obtain ⟨h4, h6⟩ := Prod.ext_iff.1 h
  cases g
  · exact h4
  · exact h6

@[simp] theorem status_setStatus (m : Main) (f g : IpFamily) (s : ℕ) :
    (m.setStatus f s).status g = if g = f then s else m.status g := by
  cases f <;> cases g <;> rfl

@[simp] theorem state_setStatus (m : Main) (f : IpFamily) (s : ℕ) :
    (m.setStatus f s).state = m.state := by
  cases f <;> rfl

@[simp] theorem setups_setStatus (m : Main) (f : IpFamily) (s : ℕ) :
    (m.setStatus f s).setups = m.setups := by
  cases f <;> rfl

theorem touches_setStatus (m : Main) (f : IpFamily) (s : ℕ) : Touches f m (m.setStatus f s) where
  enabled := enabled_congr (by simp)
  handle g _ := by simp
  status g hg := by simp [hg]

theorem quiet_getIPAddress (m : Main) (f : IpFamily) (r : Reply) :
    Quiet m (m.getIPAddress f r).2 := by
  obtain ⟨hen, hh, -⟩ := getIPAddress_spec m.state f r rfl
  exact ⟨enabled_congr hen, hh, fun g => by cases g <;> rfl, rfl⟩

theorem quiet_registrationState (m : Main) (rs : ℕ → Reply) :
    Quiet m (m.registrationState rs) := by
  obtain ⟨hp, hh⟩ := (registrationState_spec m.state m.psAttachedState).feed rs
  exact ⟨enabled_congr (congrArg enabledIn hp), hh, fun g => by cases g <;> rfl, rfl⟩

theorem quiet_usbnetLinkChange (m : Main) (link : ℕ) : Quiet m (m.usbnetLinkChange link) := by
  unfold Main.usbnetLinkChange
  split_ifs <;>
    exact ⟨enabled_congr rfl, fun g => by cases g <;> rfl, fun g => by cases g <;> rfl, rfl⟩

theorem quiet_setAuth (m : Main) (auth : ℤ) : Quiet m (m.setAuth auth) :=
  ⟨enabled_congr rfl, fun g => by cases g <;> rfl, fun g => by cases g <;> rfl, rfl⟩

theorem quiet_onLoopbackConfig (m : Main) (loopbackState replicationFactor : ℕ) :
    Quiet m (m.onLoopbackConfig loopbackState replicationFactor) :=
  ⟨enabled_congr rfl, fun g => by cases g <;> rfl, fun g => by cases g <;> rfl, rfl⟩

theorem quiet_backOff (m : Main) (now : ℕ) : Quiet m (m.backOff now) := by
  unfold Main.backOff
  split_ifs <;>
    exact ⟨enabled_congr rfl, fun g => by cases g <;> rfl, fun g => by cases g <;> rfl, rfl⟩

theorem quiet_checkLink (m : Main) : Quiet m m.checkLink := by
  unfold Main.checkLink
  split_ifs
  all_goals first
    | exact quiet_usbnetLinkChange m _
    | exact Quiet.refl m

structure SetUp (f : IpFamily) (m : Main) (x : ℤ × Main) : Prop extends Touches f m x.2 where
  failed : x.1 ≠ 0 → x.2.state.handle f = 0
  setups : SetupsZero x.2

theorem setUp_setupDataCall {m : Main} {f : IpFamily} (h0 : m.state.handle f = 0)
    (hz : SetupsZero m) (r : Reply) : SetUp f m (m.setupDataCall f r) := by
  obtain ⟨hen, hother, hfail⟩ := setupDataCall_spec m.state f r rfl
  refine ⟨⟨enabled_congr hen, hother, fun g _ => by cases g <;> rfl⟩, ?_, ?_⟩
  · intro h
    exact (hfail h).trans h0
  · intro x hx
    rcases List.mem_append.1 hx with hx | hx
    · exact hz x hx
    · rw [List.mem_singleton.1 hx]
      exact h0

theorem setUp_retryAuth {m : Main} (h0 : m.state.handle .v4 = 0) (hz : SetupsZero m)
    (r : Reply) : SetUp .v4 m (m.retryAuth r) := by
  unfold Main.retryAuth
  dsimp only
  generalize (if m.state.profile.auth = 1 then (2 : ℤ) else 1) = auth
  have hquiet := quiet_setAuth m auth
  have hset : SetUp .v4 (m.setAuth auth) ((m.setAuth auth).setupDataCall .v4 r) :=
    setUp_setupDataCall ((hquiet.handle .v4).trans h0) hz r
  have htouch := (hquiet.touches .v4).trans hset.toTouches
  split_ifs with hret
  · exact ⟨htouch, hset.failed, hset.setups⟩
  · have hrestore := quiet_setAuth ((m.setAuth auth).setupDataCall .v4 r).2 m.state.profile.auth
    refine ⟨htouch.trans (hrestore.touches .v4), fun h => ?_, hset.setups⟩
    exact (hrestore.handle .v4).trans (hset.failed h)

theorem connect_spec {m : Main} {f : IpFamily} {x : ℤ × Main} (hen : m.enabled f = true)
    (hset : SetUp f m x) {addr : Reply} (haddr : addr.code = 0) :
    Touches f m (Main.connect f addr x) ∧ Linked (Main.connect f addr x) f
      ∧ SetupsZero (Main.connect f addr x) := by
  unfold Main.connect
  split_ifs with hret
  · have hquiet := quiet_getIPAddress x.2 f addr
    have haddr' : (x.2.getIPAddress f addr).1 = 0 := by
      obtain ⟨-, -, hcode, hzero⟩ := getIPAddress_spec x.2.state f addr rfl
      by_cases h0 : x.2.state.handle f = 0
      · exact hzero h0
      · exact (hcode h0).trans haddr
    simp only [haddr', ↓reduceIte]
    refine ⟨hset.toTouches.trans ((hquiet.touches f).trans (touches_setStatus _ f _)), ?_, ?_⟩
    · intro _
      refine ⟨?_, by simp⟩
      rw [(touches_setStatus _ f _).enabled, hquiet.enabled, hset.enabled]
      exact hen
    · exact hset.setups.congr ((setups_setStatus _ _ _).trans hquiet.setups)
  · exact ⟨hset.toTouches, fun h => absurd (hset.failed hret) h, hset.setups⟩

theorem handle_zero_of_linked {m : Main} {f : IpFamily} (h : Linked m f)
    (hst : m.status f ≠ QWDS_PKT_DATA_CONNECTED) : m.state.handle f = 0 := by
  by_contra h0
  exact hst (h h0).2

theorem agrees_startIpv4 {m : Main} (h : Agrees m) {r : StartReplies} (haddr : r.addr4.code = 0) :
    Agrees (m.startIpv4 r) := by
  unfold Main.startIpv4
  split_ifs with hcond
  · have h0 := handle_zero_of_linked (h.linked .v4) hcond.2
    have hset := setUp_setupDataCall h0 h.setups r.setup4
    dsimp only
    split_ifs with hretry
    · have hre := setUp_retryAuth (hset.failed (by omega)) hset.setups r.retry4
      obtain ⟨ht, hl, hz⟩ := connect_spec hcond.1
        ⟨hset.toTouches.trans hre.toTouches, hre.failed, hre.setups⟩ haddr
      exact ht.agrees h hl hz
    · obtain ⟨ht, hl, hz⟩ := connect_spec hcond.1 hset haddr
      exact ht.agrees h hl hz
  · exact h

theorem agrees_startIpv6 {m : Main} (h : Agrees m) {r : StartReplies} (haddr : r.addr6.code = 0) :
    Agrees (m.startIpv6 r) := by
  unfold Main.startIpv6
  split_ifs with hcond
  · have h0 := handle_zero_of_linked (h.linked .v6) hcond.2
    obtain ⟨ht, hl, hz⟩ := connect_spec hcond.1 (setUp_setupDataCall h0 h.setups r.setup6) haddr
    exact ht.agrees h hl hz
  · exact h

theorem agrees_onStart {m : Main} (h : Agrees m) {now later : ℕ} {r : StartReplies}
    (haddr4 : r.addr4.code = 0) (haddr6 : r.addr6.code = 0) : Agrees (m.onStart now later r) := by
  unfold Main.onStart
  split_ifs
  · exact h
  · exact h
  · exact (quiet_backOff _ _).agrees (agrees_startIpv6 (agrees_startIpv4 h haddr4) haddr6)

/-- The reply to a query reports connected or disconnected, if it reports anything. -/
def Definite (r : Reply) : Prop :=
  ∀ st ∈ reported r, st = QWDS_PKT_DATA_CONNECTED ∨ st = QWDS_PKT_DATA_DISCONNECTED

instance (r : Reply) : Decidable (Definite r) := inferInstanceAs (Decidable (∀ st ∈ _, _))

theorem queryDataCall_linked {m : Main} {f : IpFamily} (h : Linked m f) {r : Reply}
    (hdef : m.state.handle f ≠ 0 → Definite r) :
    Touches f m (m.queryDataCall f r).2 ∧ Linked (m.queryDataCall f r).2 f
      ∧ (m.queryDataCall f r).2.setups = m.setups ∧ (m.queryDataCall f r).1 = r.code
      ∧ ((m.queryDataCall f r).2.state.handle f ≠ 0 → m.state.handle f ≠ 0) := by
  obtain ⟨hcode, hst, hp, hother, hself⟩ := queryDataCall_spec m.state (m.status f) f r rfl
  have hen : ∀ g, (m.queryDataCall f r).2.enabled g = m.enabled g :=
    enabled_congr (by simp only [Main.queryDataCall, state_setStatus, hp])
  have hhandle : (m.queryDataCall f r).2.state.handle f
      = if reported r = some QWDS_PKT_DATA_DISCONNECTED then 0 else m.state.handle f := by
    simpa only [Main.queryDataCall, state_setStatus] using hself
  have hback : (m.queryDataCall f r).2.state.handle f ≠ 0 → m.state.handle f ≠ 0 := by
    rw [hhandle]
    split_ifs <;> simp
  refine ⟨⟨hen, ?_, ?_⟩, ?_, by simp [Main.queryDataCall], hcode, hback⟩
  · intro g hg
    simpa only [Main.queryDataCall, state_setStatus] using hother g hg
  · intro g hg
    simp only [Main.queryDataCall, status_setStatus, if_neg hg]
    cases g <;> rfl
  · intro hne
    have hm := h (hback hne)
    refine ⟨(hen f).trans hm.1, ?_⟩
    simp only [Main.queryDataCall, status_setStatus, ↓reduceIte, hst]
    cases hrep : reported r with
    | none => exact hm.2
    | some st =>
      rcases hdef (hback hne) st hrep with hst' | hst'
      · exact hst'
      · rw [hhandle, hrep, hst', if_pos rfl] at hne
        exact absurd rfl hne

theorem recallAddress_linked {m : Main} (h : Linked m .v4) (addr : Reply)
    (haddr : m.state.handle .v4 ≠ 0 → addr.code = 0) :
    Touches .v4 m (m.recallAddress addr) ∧ Linked (m.recallAddress addr) .v4
      ∧ (m.recallAddress addr).setups = m.setups
      ∧ (m.recallAddress addr).state.handle .v4 = m.state.handle .v4 := by
  have hquiet := quiet_getIPAddress m .v4 addr
  obtain ⟨-, -, hcode, hzero⟩ := getIPAddress_spec m.state .v4 addr rfl
  have haddr' : (m.getIPAddress .v4 addr).1 = 0 := by
    by_cases h0 : m.state.handle .v4 = 0
    · exact hzero h0
    · exact (hcode h0).trans (haddr h0)
  unfold Main.recallAddress
  split_ifs
  · simp only [haddr', ↓reduceIte]
    exact ⟨hquiet.touches .v4, hquiet.linked h, hquiet.setups, hquiet.handle .v4⟩
  · exact ⟨(Quiet.refl m).touches _, h, rfl, rfl⟩

theorem deactivateDefaultPDP_stops (m : Main) (f : IpFamily) (stop : Reply)
    (hstop : m.state.handle f ≠ 0 → (qmiRspCheckAndReturn stop).isOk) :
    Touches f m (m.deactivateDefaultPDP f stop)
      ∧ (m.deactivateDefaultPDP f stop).state.handle f = 0 := by
  obtain ⟨hp, hother, hzero, -⟩ := deactivateDefaultPDP_spec m.state f stop rfl
  exact ⟨⟨enabled_congr (congrArg enabledIn hp), hother, fun g _ => by cases g <;> rfl⟩,
    hzero hstop⟩

theorem verifyAddress_linked {m : Main} (h : Linked m .v4) (verify stop : Reply)
    (hstop : m.state.handle .v4 ≠ 0 → (qmiRspCheckAndReturn stop).isOk) :
    Touches .v4 m (m.verifyAddress verify stop) ∧ Linked (m.verifyAddress verify stop) .v4
      ∧ (m.verifyAddress verify stop).setups = m.setups := by
  have hquiet := quiet_getIPAddress m .v4 verify
  unfold Main.verifyAddress
  split_ifs
  · unfold Main.checkIpv4Address
    dsimp only
    split_ifs
    · exact ⟨hquiet.touches .v4, hquiet.linked h, hquiet.setups⟩
    · obtain ⟨ht, hzero⟩ := deactivateDefaultPDP_stops (m.getIPAddress .v4 verify).2 .v4 stop
        (by rw [hquiet.handle]; exact hstop)
      refine ⟨(hquiet.touches .v4).trans (ht.trans (touches_setStatus _ _ _)), ?_, ?_⟩
      · intro hne
        rw [state_setStatus] at hne
        exact absurd hzero hne
      · rw [setups_setStatus]
        exact hquiet.setups
  · exact ⟨(Quiet.refl m).touches _, h, rfl⟩

theorem linked_setDisconnected {m : Main} {f : IpFamily} (h0 : m.state.handle f = 0) :
    Linked (m.setStatus f QWDS_PKT_DATA_DISCONNECTED) f := by
  intro hne
  rw [state_setStatus] at hne
  exact absurd h0 hne

theorem handle_zero_of_unasked {m : Main} {f : IpFamily} (h : Linked m f)
    (hcond : ¬ (m.enabled f ∧ m.status f ≠ QWDS_PKT_DATA_DISCONNECTED)) :
    m.state.handle f = 0 := by
  by_contra hne
  obtain ⟨hen, hst⟩ := h hne
  exact hcond ⟨hen, by rw [hst]; decide⟩

/-- The replies to a check of an open IPv4 call: the query is answered, with connected or
disconnected; an address asked for is given, and a call that is to be stopped is. -/
structure CheckFair (r : CheckReplies) : Prop where
  answered : r.query4.code = 0
  definite : Definite r.query4
  addressed : r.addr4.code = 0
  stopped : (qmiRspCheckAndReturn r.stop4).isOk

instance (r : CheckReplies) : Decidable (CheckFair r) :=
  decidable_of_iff
    (r.query4.code = 0 ∧ Definite r.query4 ∧ r.addr4.code = 0
      ∧ (qmiRspCheckAndReturn r.stop4).isOk)
    ⟨fun ⟨h1, h2, h3, h4⟩ => ⟨h1, h2, h3, h4⟩, fun ⟨h1, h2, h3, h4⟩ => ⟨h1, h2, h3, h4⟩⟩

theorem checkIpv4_linked {m : Main} (h : Linked m .v4) {r : CheckReplies}
    (hr : m.state.handle .v4 ≠ 0 → CheckFair r) :
    Touches .v4 m (m.checkIpv4 r) ∧ Linked (m.checkIpv4 r) .v4
      ∧ (m.checkIpv4 r).setups = m.setups := by
  obtain ⟨ht, hl, hs, hcode, hback⟩ := queryDataCall_linked h fun hne => (hr hne).definite
  unfold Main.checkIpv4
  split_ifs with hcond
  · dsimp only
    split_ifs with hret
    · obtain ⟨ht', hl', hs', hh'⟩ :=
        recallAddress_linked hl r.addr4 fun hne => (hr (hback hne)).addressed
      obtain ⟨ht'', hl'', hs''⟩ :=
        verifyAddress_linked hl' r.verify4 r.stop4 fun hne => (hr (hback (hh' ▸ hne))).stopped
      exact ⟨ht.trans (ht'.trans ht''), hl'', hs''.trans (hs'.trans hs)⟩
    · have h0 : (m.queryDataCall .v4 r.query4).2.state.handle .v4 = 0 := by
        by_contra hne
        exact hret (hcode.trans (hr (hback hne)).answered)
      exact ⟨ht.trans (touches_setStatus _ _ _), linked_setDisconnected h0,
        (setups_setStatus _ _ _).trans hs⟩
  · exact ⟨touches_setStatus _ _ _, linked_setDisconnected (handle_zero_of_unasked h hcond),
      setups_setStatus _ _ _⟩

theorem checkIpv6_linked {m : Main} (h : Linked m .v6) {r : CheckReplies}
    (hr : m.state.handle .v6 ≠ 0 → Definite r.query6) :
    Touches .v6 m (m.checkIpv6 r) ∧ Linked (m.checkIpv6 r) .v6
      ∧ (m.checkIpv6 r).setups = m.setups := by
  unfold Main.checkIpv6
  split_ifs with hcond
  · obtain ⟨ht, hl, hs, -⟩ := queryDataCall_linked h hr
    exact ⟨ht, hl, hs⟩
  · exact ⟨touches_setStatus _ _ _, linked_setDisconnected (handle_zero_of_unasked h hcond),
      setups_setStatus _ _ _⟩

theorem agrees_onCheck {m : Main} (h : Agrees m) {registration : ℕ → Reply} {r : CheckReplies}
    (h4 : m.state.handle .v4 ≠ 0 → CheckFair r)
    (h6 : m.state.handle .v6 ≠ 0 → Definite r.query6) : Agrees (m.onCheck registration r) := by
  have hq : Quiet m (if m.psAttachedState ≠ 1 then m.registrationState registration else m) := by
    split_ifs
    · exact quiet_registrationState m registration
    · exact Quiet.refl m
  unfold Main.onCheck
  dsimp only
  generalize (if m.psAttachedState ≠ 1 then m.registrationState registration else m) = m₁ at hq ⊢
  have h₁ := hq.agrees h
  obtain ⟨ht₂, hl₂, hs₂⟩ := checkIpv4_linked (r := r) (h₁.linked .v4) (by rw [hq.handle]; exact h4)
  have h₂ := ht₂.agrees h₁ hl₂ (h₁.setups.congr hs₂)
  obtain ⟨ht₃, hl₃, hs₃⟩ := checkIpv6_linked (r := r) (h₂.linked .v6)
    (by rw [ht₂.handle .v6 (by decide), hq.handle]; exact h6)
  have h₃ := ht₃.agrees h₂ hl₃ (h₂.setups.congr hs₃)
  exact (quiet_checkLink _).agrees h₃

theorem stopFamily_stops {m : Main} {f : IpFamily} (h : Linked m f) {r : Reply}
    (hr : (qmiRspCheckAndReturn r).isOk) :
    Touches f m (m.stopFamily f r) ∧ (m.stopFamily f r).state.handle f = 0 := by
  unfold Main.stopFamily
  split_ifs with hcond
  · exact deactivateDefaultPDP_stops m f r fun _ => hr
  · refine ⟨(Quiet.refl m).touches _, ?_⟩
    by_contra hne
    exact hcond (h hne)

theorem agrees_stopFamily {m : Main} (h : Agrees m) (f : IpFamily) (r : Reply) :
    Agrees (m.stopFamily f r) := by
  obtain ⟨hp, hother, -, hself⟩ := deactivateDefaultPDP_spec m.state f r rfl
  have hen : ∀ g, (m.deactivateDefaultPDP f r).enabled g = m.enabled g :=
    enabled_congr (congrArg enabledIn hp)
  unfold Main.stopFamily
  split_ifs with hcond
  · refine Touches.agrees ⟨hen, hother, fun g _ => by cases g <;> rfl⟩ h (fun hne => ?_) h.setups
    obtain ⟨hen', hst'⟩ := h.linked f (hself hne)
    exact ⟨(hen f).trans hen', by cases f <;> exact hst'⟩
  · exact h

theorem onStop_closes {m : Main} (h : Agrees m) {stop4 stop6 : Reply}
    (h4 : (qmiRspCheckAndReturn stop4).isOk) (h6 : (qmiRspCheckAndReturn stop6).isOk)
    (f : IpFamily) : (m.onStop stop4 stop6).state.handle f = 0 := by
  obtain ⟨ht4, hz4⟩ := stopFamily_stops (h.linked .v4) h4
  have hl6 : Linked (m.stopFamily .v4 stop4) .v6 := by
    unfold Linked
    rw [ht4.enabled, ht4.handle .v6 (by decide), ht4.status .v6 (by decide)]
    exact h.linked .v6
  obtain ⟨ht6, hz6⟩ := stopFamily_stops hl6 h6
  have hq := quiet_usbnetLinkChange ((m.stopFamily .v4 stop4).stopFamily .v6 stop6) 0
  have hstop : (m.onStop stop4 stop6).state.handle f
      = ((m.stopFamily .v4 stop4).stopFamily .v6 stop6).state.handle f := hq.handle f
  rw [hstop]
  cases f with
  | v4 => rw [ht6.handle .v4 (by decide), hz4]
  | v6 => exact hz6

/-! ## Runs -/

/-- Calls are set up only for families without a handle, and a stop whose requests succeed leaves
no handle. -/
def NoLeak (m : Main) : Prop :=
  (∀ x ∈ m.setups, x.2 = 0)
    ∧ ∀ stop4 stop6 m', step m (.stop stop4 stop6) = some m' →
      (qmiRspCheckAndReturn stop4).isOk → (qmiRspCheckAndReturn stop6).isOk →
      m'.state.wdsConnectionIPv4Handle = 0 ∧ m'.state.wdsConnectionIPv6Handle = 0

/-- A call that is up is not lost sight of: once it is set up its address is given, and a check of
an open call gets the replies of `CheckFair`, or for IPv6 a definite status if any. -/
def Orderly (m : Main) : Event → Prop
  | .start _ _ r => r.addr4.code = 0 ∧ r.addr6.code = 0
  | .check _ r => (m.state.wdsConnectionIPv4Handle ≠ 0 → CheckFair r)
    ∧ (m.state.wdsConnectionIPv6Handle ≠ 0 → Definite r.query6)
  | _ => True

instance (m : Main) : ∀ e : Event, Decidable (Orderly m e)
  | .start _ _ _ => inferInstanceAs (Decidable (_ ∧ _))
  | .check _ _ => inferInstanceAs (Decidable ((_ → _) ∧ (_ → _)))
  | .stop _ _ | .networkStateChanged _ _ | .dataCallListChanged _ | .loopbackConfig _ _
  | .leave => .isTrue trivial

theorem step_agrees {m m' : Main} {e : Event} (h : Agrees m) (hok : Orderly m e)
    (hs : step m e = some m') : Agrees m' := by
  unfold step at hs
  split_ifs at hs
  cases hs
  cases e with
  | start now later replies => exact agrees_onStart h hok.1 hok.2
  | check registration replies => exact agrees_onCheck h hok.1 hok.2
  | stop stop4 stop6 =>
    have hstop := agrees_stopFamily (agrees_stopFamily h .v4 stop4) .v6 stop6
    have hq := (quiet_usbnetLinkChange _ 0).agrees hstop
    exact ⟨hq.linked, hq.setups⟩
  | networkStateChanged now registration =>
    have hq := (quiet_registrationState m registration).agrees h
    simp only [Main.onNetworkStateChanged]
    split_ifs
    · exact hq
    · exact ⟨hq.linked, hq.setups⟩
  | dataCallListChanged now =>
    simp only [Main.onDataCallListChanged]
    split_ifs
    · exact ⟨h.linked, h.setups⟩
    · exact h
  | loopbackConfig loopbackState replicationFactor =>
    exact (quiet_onLoopbackConfig m loopbackState replicationFactor).agrees h
  | leave =>
    have hq := (quiet_usbnetLinkChange m 0).agrees h
    exact ⟨hq.linked, hq.setups⟩

theorem agrees_init (s : State) (psAttachedState now : ℕ) (link : ℤ) :
    Agrees (Main.init s psAttachedState now link) := by
  refine ⟨fun f hne => ?_, by simp [SetupsZero, Main.init]⟩
  cases f <;> exact absurd rfl hne

/-- A successful WDS response with the given TLVs after the result. -/
def wdsOk (tlvs : Bytes) : Reply :=
  ⟨0, some ([1, UInt8.ofNat (19 + tlvs.length), 0, 0x80, 1, 2, 2, 1, 0, 0, 0,
    UInt8.ofNat (7 + tlvs.length), 0, 2, 4, 0, 0, 0, 0, 0] ++ tlvs)⟩

def timedOut : Reply := ⟨110, none⟩

def statusOk (status : UInt8) : Reply := wdsOk [1, 1, 0, status]

def addressOk : Reply := wdsOk [0x1E, 4, 0, 1, 0, 0, 10]

def ipv4State : State :=
  ⟨⟨none, none, none, 0, 0, 1, true, false, 0, Ipv4.zero, Ipv6.zero, 0, 0, zero16, zero16, 0, 0,
    [], [], [], 0, 0⟩, 0, 0, false, 0, 0, true⟩

def checkEvent (status : UInt8) : Event :=
  .check (fun _ => timedOut) ⟨statusOk status, addressOk, addressOk, wdsOk [], statusOk 1⟩

def startEvent (now : ℕ) (addr : Reply) : Event :=
  .start now now ⟨wdsOk [1, 4, 0, 7, 0, 0, 0], timedOut, addr, timedOut, addressOk⟩

def callUp : List Event := [checkEvent 1, startEvent 0 addressOk, checkEvent 2]

end QmiMain

end BananaWrt
