import BananaWrt.QrtrProxy

/-!
# The table of servers

Nothing ever leaves the table, so the record found for a service is that of the server announced
first. It names a server that is still there as long as that one is not removed
(`tableAgrees_of_firstStays`).
-/

namespace BananaWrt

namespace QrtrProxy

open Bytes Qmi

theorem services_releaseQrtrClientId (s : State) (fd : ℤ) (QMIType ClientId : ℕ) :
    (releaseQrtrClientId s fd QMIType ClientId).1.services = s.services := by
  unfold releaseQrtrClientId
  split <;> rfl

theorem services_releaseAll (fd : ℤ) (n : ℕ) (s : State) :
    (releaseAll fd n s).1.services = s.services := by
  induction n generalizing s with
  | zero => rfl
  | succ n ih =>
    unfold releaseAll
    split
    · rfl
    · exact (ih _).trans (services_releaseQrtrClientId s fd _ _)

theorem services_cleanupQrtrConnection (s : State) (fd : ℤ) :
    (cleanupQrtrConnection s fd).1.services = s.services := by
  unfold cleanupQrtrConnection
  split_ifs
  · exact services_releaseAll fd _ s
  · rfl

theorem services_getClientIdReq (s : State) (fd : ℤ) (pQMI : Bytes) :
    (getClientIdReq s fd pQMI).1.services = s.services := by
  unfold getClientIdReq
  dsimp only
  split_ifs <;> rfl

theorem services_recvQmiFromClient (s : State) (pQMI : Bytes) (fd : ℤ) (allocated : Bool) :
    (recvQmiFromClient s pQMI fd allocated).1.services = s.services := by
  unfold recvQmiFromClient
  split
  · rfl
  · split_ifs
    · rfl
    · exact services_getClientIdReq s fd pQMI
    · rfl
    · exact services_releaseQrtrClientId s fd _ _
    · rfl
    · rfl
    · rfl
    · rfl

theorem services_acceptQrtrConnection (s : State) (fd : ℤ) (allocated : Bool) :
    (acceptQrtrConnection s fd allocated).services = s.services := by
  unfold acceptQrtrConnection
  split_ifs <;> rfl

/-- The record that a packet announces. -/
def announced (hdr : Bytes) : Service :=
  ⟨pktService hdr, pktInstance hdr % 256, pktInstance hdr / 256, pktNode hdr, pktPort hdr,
    srcNodeId hdr, srcPortId hdr⟩

def Announces (hdr : Bytes) (allocated : Bool) : Prop :=
  pktNode hdr = nodeModem ∧ hdrType hdr = QRTR_TYPE_NEW_SERVER ∧ allocated = true

instance (hdr : Bytes) (allocated : Bool) : Decidable (Announces hdr allocated) :=
  inferInstanceAs (Decidable (_ ∧ _))

theorem services_handleServerChange (s : State) (hdr : Bytes) (allocated : Bool) :
    (handleServerChange s hdr allocated).services
      = if Announces hdr allocated then s.services ++ [announced hdr] else s.services := by
  unfold handleServerChange Announces
  by_cases hnode : pktNode hdr = nodeModem <;>
    by_cases hnew : hdrType hdr = QRTR_TYPE_NEW_SERVER <;>
    cases allocated <;> simp [hnode, hnew, announced]

theorem services_recvQrtrFromDev (s : State) (hdr : Bytes) (allocated : Bool) :
    (recvQrtrFromDev s hdr allocated).1.services
      = if Announces hdr allocated then s.services ++ [announced hdr] else s.services := by
  have hnot : hdrType hdr ≠ QRTR_TYPE_NEW_SERVER →
      (if Announces hdr allocated then s.services ++ [announced hdr] else s.services)
        = s.services := fun hnew => if_neg fun hann => hnew hann.2.1
  unfold recvQrtrFromDev
  by_cases hhello : hdrType hdr = QRTR_TYPE_HELLO
  · rw [if_pos hhello, hnot (by rw [hhello]; decide)]
  · rw [if_neg hhello]
    by_cases hchange : hdrType hdr = QRTR_TYPE_NEW_SERVER ∨ hdrType hdr = QRTR_TYPE_DEL_SERVER
    · rw [if_pos hchange]
      exact services_handleServerChange s hdr allocated
    · rw [if_neg hchange, hnot fun hnew => hchange (.inl hnew)]
      split_ifs <;> rfl

/-- The record found for a service stays when others are announced. -/
theorem findQrtrService_append {s s' : State} {srv : Service}
    (h : s'.services = s.services ++ [srv]) (QMIType : ℕ) :
    findQrtrService s' QMIType
      = (findQrtrService s QMIType).or (if srv.service = QMIType then some srv else none) := by
  unfold findQrtrService
  rw [h, List.find?_append]
  congr 1
  by_cases hsrv : srv.service = QMIType <;> simp [hsrv]

theorem service_of_find {s : State} {QMIType : ℕ} {srv : Service}
    (h : findQrtrService s QMIType = some srv) : srv.service = QMIType := by
  simpa using List.find?_some h

theorem findQrtrService_congr {s s' : State} (h : s'.services = s.services) (QMIType : ℕ) :
    findQrtrService s' QMIType = findQrtrService s QMIType := by
  unfold findQrtrService
  rw [h]

/-- What the table has and what there is, leaving out what is sent. -/
structure Inv (t : Tracked) : Prop where
  addr : ∀ srv ∈ t.proxy.services, srv.node < 2 ^ 32 ∧ srv.port < 2 ^ 32
  found : ∀ QMIType < 256, (findQrtrService t.proxy QMIType).isSome
    ↔ ∃ srv ∈ t.live, srv.1 = QMIType
  names : ∀ QMIType < 256, ∀ srv ∈ findQrtrService t.proxy QMIType, srv.server ∈ t.live

theorem inv_init : Inv .init where
  addr := fun _ hsrv => absurd hsrv List.not_mem_nil
  found := fun _ _ => ⟨fun h => absurd h Bool.false_ne_true,
    fun ⟨_, hsrv, _⟩ => absurd hsrv List.not_mem_nil⟩
  names := fun _ _ srv hsrv => absurd hsrv (Option.not_mem_none srv)

theorem Inv.of_services {t t' : Tracked} (h : Inv t)
    (hservices : t'.proxy.services = t.proxy.services) (hlive : t'.live = t.live) : Inv t' where
  addr := hservices ▸ h.addr
  found := fun QMIType hq => by
    rw [findQrtrService_congr hservices, hlive]
    exact h.found QMIType hq
  names := fun QMIType hq srv hsrv => by
    rw [findQrtrService_congr hservices] at hsrv
    rw [hlive]
    exact h.names QMIType hq srv hsrv

/-- A server is announced, and a record is made of it or there is one of another server. -/
theorem inv_new {t t' : Tracked} (hdr : Bytes) (allocated : Bool) (h : Inv t)
    (hlive : t'.live = pktServer hdr :: t.live)
    (hservices : t'.proxy.services = if allocated then t.proxy.services ++ [announced hdr]
      else t.proxy.services)
    (hok : pktService hdr < 256 →
      allocated ∨ (findQrtrService t.proxy (pktService hdr)).isSome) : Inv t' := by
  have hfind : ∀ QMIType, findQrtrService t'.proxy QMIType
      = (findQrtrService t.proxy QMIType).or
        (if allocated ∧ pktService hdr = QMIType then some (announced hdr) else none) := by
    intro QMIType
    cases allocated with
    | true =>
      rw [findQrtrService_append (by simpa using hservices)]
      by_cases hsame : pktService hdr = QMIType <;> simp [announced, hsame]
    | false =>
      rw [findQrtrService_congr (by simpa using hservices)]
      simp
  refine ⟨?_, fun QMIType hq => ?_, fun QMIType hq srv hsrv => ?_⟩
  · intro srv hsrv
    rw [hservices] at hsrv
    split_ifs at hsrv
    · rcases List.mem_append.1 hsrv with hsrv | hsrv
      · exact h.addr srv hsrv
      · rw [List.mem_singleton.1 hsrv]
        exact ⟨le32_lt hdr 44, le32_lt hdr 48⟩
    · exact h.addr srv hsrv
  · rw [hfind, hlive, Option.isSome_or, Bool.or_eq_true, List.exists_mem_cons_iff,
      h.found QMIType hq]
    change _ ↔ pktService hdr = QMIType ∨ _
    by_cases hsame : pktService hdr = QMIType
    · subst hsame
      rcases hok hq with hall | hsome
      · simp [hall]
      · simp [(h.found _ hq).1 hsome]
    · simp [hsame]
  · rw [hfind] at hsrv
    rw [hlive]
    rcases hold : findQrtrService t.proxy QMIType with _ | old
    · rw [hold, Option.none_or] at hsrv
      split_ifs at hsrv with hnew
      · cases hsrv
        exact List.mem_cons_self
      · exact absurd hsrv (Option.not_mem_none srv)
    · rw [hold, Option.some_or] at hsrv
      cases hsrv
      exact List.mem_cons_of_mem _ (h.names QMIType hq srv hold)

/-- A server other than the one that was announced first is removed. -/
theorem inv_del {t t' : Tracked} (hdr : Bytes) (h : Inv t)
    (hlive : t'.live = t.live.filter (· ≠ pktServer hdr))
    (hservices : t'.proxy.services = t.proxy.services)
    (hok : pktService hdr < 256 →
      ∀ srv ∈ findQrtrService t.proxy (pktService hdr), srv.port ≠ pktPort hdr) : Inv t' := by
  have hnames : ∀ QMIType < 256, ∀ srv ∈ findQrtrService t.proxy QMIType,
      srv.server ∈ t.live.filter (· ≠ pktServer hdr) := by
    intro QMIType hq srv hsrv
    refine List.mem_filter.2 ⟨h.names QMIType hq srv hsrv, ?_⟩
    simp only [ne_eq, decide_not, Bool.not_eq_true', decide_eq_false_iff_not]
    intro hsame
    have hservice : srv.service = pktService hdr := congrArg Prod.fst hsame
    have hport : srv.port = pktPort hdr := congrArg (fun x => x.2.2) hsame
    have hq' : QMIType = pktService hdr := (service_of_find hsrv).symm.trans hservice
    subst hq'
    exact hok hq srv hsrv hport
  refine ⟨hservices ▸ h.addr, fun QMIType hq => ?_, fun QMIType hq srv hsrv => ?_⟩
  · rw [findQrtrService_congr hservices, hlive]
    constructor
    · intro hsome
      obtain ⟨srv, hsrv⟩ := Option.isSome_iff_exists.1 hsome
      exact ⟨srv.server, hnames QMIType hq srv hsrv, service_of_find hsrv⟩
    · rintro ⟨srv, hsrv, hservice⟩
      exact (h.found QMIType hq).2 ⟨srv, (List.mem_filter.1 hsrv).1, hservice⟩
  · rw [findQrtrService_congr hservices] at hsrv
    rw [hlive]
    exact hnames QMIType hq srv hsrv

theorem inv_device {t : Tracked} {hdr : Bytes} {allocated : Bool} (h : Inv t)
    (hok : FirstStays t (.device hdr allocated)) :
    Inv ⟨(handle t.proxy (.device hdr allocated)).1, track t.live (.device hdr allocated)⟩ := by
  have hservices := services_recvQrtrFromDev t.proxy hdr allocated
  by_cases hnode : pktNode hdr = nodeModem
  · have hok' := hok hnode
    by_cases hnew : hdrType hdr = QRTR_TYPE_NEW_SERVER
    · refine inv_new hdr allocated h ?_ (hservices.trans ?_) fun hq => (hok' hq).1 hnew
      · simp [track, hnode, hnew]
      · cases allocated <;> simp [Announces, hnode, hnew]
    · have hservices' : (recvQrtrFromDev t.proxy hdr allocated).1.services = t.proxy.services := by
        rw [hservices, if_neg fun hann => hnew hann.2.1]
      by_cases hdel : hdrType hdr = QRTR_TYPE_DEL_SERVER
      · refine inv_del hdr h ?_ hservices' fun hq => (hok' hq).2 hdel
        simp [track, hnode, hdel, QRTR_TYPE_NEW_SERVER, QRTR_TYPE_DEL_SERVER]
      · exact h.of_services hservices' (by simp [track, hnode, hnew, hdel])
  · refine h.of_services ?_ (by simp [track, hnode])
    rw [show (handle t.proxy (.device hdr allocated)).1.services = _ from hservices,
      if_neg fun hann => hnode hann.1]

theorem inv_step {t t' : Tracked} {i : Input} (h : Inv t) (hok : FirstStays t i)
    (ht' : trackedStep t i = some t') : Inv t' := by
  cases ht'
  cases i with
  | accept fd allocated =>
    exact h.of_services (services_acceptQrtrConnection t.proxy fd allocated) rfl
  | client fd pQMI allocated =>
    exact h.of_services (services_recvQmiFromClient t.proxy pQMI fd allocated) rfl
  | hangup fd => exact h.of_services (services_cleanupQrtrConnection t.proxy fd) rfl
  | device hdr allocated => exact inv_device h hok
  | reopen =>
    exact inv_init.of_services rfl rfl

theorem dst_enqueue (data : Bytes) (type : ℕ) (src dst : Addr) :
    dstNodeId (enqueue data type src dst) = dst.node % 2 ^ 32
      ∧ dstPortId (enqueue data type src dst) = dst.port % 2 ^ 32 := by
  have hnode : (ofLe32 1 ++ ofLe32 type ++ ofLe32 src.node ++ ofLe32 src.port ++ ofLe32 0
      ++ ofLe32 data.length).length = 24 := rfl
  have hport : (ofLe32 1 ++ ofLe32 type ++ ofLe32 src.node ++ ofLe32 src.port ++ ofLe32 0
      ++ ofLe32 data.length ++ ofLe32 dst.node).length = 28 := rfl
  unfold dstNodeId dstPortId enqueue
  constructor
  · rw [le32_append_left (by simp only [List.length_append, length_ofLe32]; omega),
      le32_append_left (by simp only [List.length_append, length_ofLe32]; omega),
      le32_append_left (by simp only [List.length_append, length_ofLe32]; omega),
      le32_append_right (Nat.le_of_eq hnode), hnode, Nat.sub_self, le32_ofLe32]
  · rw [le32_append_left (by simp only [List.length_append, length_ofLe32]; omega),
      le32_append_left (by simp only [List.length_append, length_ofLe32]; omega),
      le32_append_right (Nat.le_of_eq hport), hport, Nat.sub_self, le32_ofLe32]

/-- What is sent for a client's message goes to the server that is found for its service. -/
theorem dst_of_recvQmiFromClient {s : State} {pQMI packet : Bytes} {fd : ℤ} {allocated : Bool}
    (hctl : hdrQMIType pQMI ≠ QMUX_TYPE_CTL)
    (h : .dev packet ∈ (recvQmiFromClient s pQMI fd allocated).2) :
    ∃ srv, findQrtrService s (hdrQMIType pQMI) = some srv
      ∧ dstNodeId packet = srv.node % 2 ^ 32 ∧ dstPortId packet = srv.port % 2 ^ 32 := by
  unfold recvQmiFromClient at h
  split at h
  · exact absurd h List.not_mem_nil
  · rw [if_neg hctl] at h
    unfold forwardToServer at h
    split at h
    · exact absurd h List.not_mem_nil
    · split at h
      · exact absurd h List.not_mem_nil
      · rename_i srv hsrv
        split_ifs at h
        · exact absurd h List.not_mem_nil
        · cases List.mem_singleton.1 h
          exact ⟨srv, hsrv, dst_enqueue _ _ _ _⟩

theorem Inv.tableAgrees {t : Tracked} (h : Inv t) : TableAgrees t where
  found := h.found
  names := h.names
  sent := fun fd pQMI allocated packet hctl hsent => by
    obtain ⟨srv, hfind, hnode, hport⟩ := dst_of_recvQmiFromClient hctl hsent
    have hmem : srv ∈ t.proxy.services := List.mem_of_find?_eq_some hfind
    rw [Nat.mod_eq_of_lt (h.addr srv hmem).1] at hnode
    rw [Nat.mod_eq_of_lt (h.addr srv hmem).2] at hport
    have hlive := h.names (hdrQMIType pQMI) (u8_lt pQMI 4) srv hfind
    rwa [Service.server, service_of_find hfind, ← hnode, ← hport] at hlive

/-- In every run in which no server that was announced first for its service is removed, the table
has the servers that are there. -/
theorem tableAgrees_of_firstStays (is : List Input) (t : Tracked)
    (hok : Runs.Meets trackedStep FirstStays .init is)
    (h : Runs.exec trackedStep .init is = some t) : TableAgrees t :=
  (Runs.exec_inv (fun _ _ _ hI ho hs => inv_step hI ho hs) inv_init hok h).tableAgrees

/-- A packet about a server of service 1 of the modem. -/
def serverChangeAt (type port : ℕ) : Bytes :=
  ofLe32 1 ++ ofLe32 type ++ ofLe32 3 ++ ofLe32 QRTR_PORT_CTRL ++ ofLe32 0 ++ ofLe32 20 ++ ofLe32 1
    ++ ofLe32 QRTR_PORT_CTRL ++ (ofLe32 type ++ ofLe32 1 ++ ofLe32 0 ++ ofLe32 3 ++ ofLe32 port)

/-- The server is the one at port 7. -/
def serverChange (type : ℕ) : Bytes := serverChangeAt type 7

/-- Two servers of a service are announced, and the second is removed. -/
def secondLeaves : List Input :=
  [.device (serverChange QRTR_TYPE_NEW_SERVER) true,
    .device (serverChangeAt QRTR_TYPE_NEW_SERVER 8) true,
    .device (serverChangeAt QRTR_TYPE_DEL_SERVER 8) true]

instance (t : Tracked) : ∀ i, Decidable (FirstStays t i)
  | .device hdr allocated => inferInstanceAs (Decidable
      (pktNode hdr = nodeModem → pktService hdr < 256 →
        (hdrType hdr = QRTR_TYPE_NEW_SERVER →
          allocated ∨ (findQrtrService t.proxy (pktService hdr)).isSome)
        ∧ (hdrType hdr = QRTR_TYPE_DEL_SERVER →
          ∀ srv ∈ findQrtrService t.proxy (pktService hdr), srv.port ≠ pktPort hdr)))
  | .accept _ _ | .client _ _ _ | .hangup _ | .reopen => .isTrue trivial

theorem tableAgrees_secondLeaves :
    ∃ t, Runs.exec trackedStep .init secondLeaves = some t ∧ t.live = [(1, 3, 7)]
      ∧ TableAgrees t :=
  ⟨_, rfl, by decide, tableAgrees_of_firstStays secondLeaves _ (by decide +kernel) rfl⟩

/-- A server that is announced and removed is still found. -/
theorem not_tableAgrees_delServer : ∃ is t, Runs.exec trackedStep .init is = some t
    ∧ (findQrtrService t.proxy 1).isSome ∧ t.live = [] ∧ ¬ TableAgrees t := by
  refine ⟨[.device (serverChange QRTR_TYPE_NEW_SERVER) true,
    .device (serverChange QRTR_TYPE_DEL_SERVER) true], _, rfl, by decide, by decide, fun h => ?_⟩
  obtain ⟨srv, hsrv, -⟩ := (h.found 1 (by decide)).1 (by decide)
  exact absurd hsrv (by decide +revert)

end QrtrProxy

end BananaWrt
