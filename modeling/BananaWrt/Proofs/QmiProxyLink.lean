import BananaWrt.Lib.Keyed
import BananaWrt.QmiProxyRun

/-!
# The queue and the device

An answer is given to the owner of the queue's head, so it reaches the right connection as long
as the only control message at the device is the head (`Linked`). Three events can break that
link: a connection that closes while its request is at the device, one that closes with more
requests pending than the one `cleanup_qmi_connection` takes off, and an indication, which writes
the head a second time. A run without them keeps it (`linked_of_run`).
-/

namespace BananaWrt

namespace QmiProxy

open Bytes Qmi

@[simp] theorem settleClients_clientFd (c : Connection) (b : Bytes) :
    (settleClients c b).clientFd = c.clientFd := by
  unfold settleClients getClientId releaseClientId
  split_ifs <;> rfl

@[simp] theorem settleClients_con (c : Connection) (b : Bytes) :
    (settleClients c b).con = c.con := by
  unfold settleClients getClientId releaseClientId
  split_ifs <;> rfl

@[simp] theorem emit_proxy (w : World) (wr : Bool) (out : List Out) :
    (w.emit wr out).proxy = w.proxy := by
  unfold World.emit
  split_ifs <;> rfl

@[simp] theorem emit_granted (w : World) (wr : Bool) (out : List Out) :
    (w.emit wr out).granted = w.granted := by
  unfold World.emit
  split_ifs <;> rfl

@[simp] theorem emit_accepted (w : World) (wr : Bool) (out : List Out) :
    (w.emit wr out).accepted = w.accepted := by
  unfold World.emit
  split_ifs <;> rfl

@[simp] theorem emit_delivered (w : World) (wr : Bool) (out : List Out) :
    (w.emit wr out).delivered = w.delivered := by
  unfold World.emit
  split_ifs <;> rfl

@[simp] theorem emit_nextCon (w : World) (wr : Bool) (out : List Out) :
    (w.emit wr out).nextCon = w.nextCon := by
  unfold World.emit
  split_ifs <;> rfl

theorem emit_outstanding (w : World) (wr : Bool) (out : List Out) :
    (w.emit wr out).outstanding = w.outstanding ++ if wr then ctlWrites out else [] := by
  unfold World.emit
  split_ifs <;> simp

theorem emit_written (w : World) (wr : Bool) (out : List Out) :
    (w.emit wr out).written = w.written ++ if wr then (ctlWrites out).map (·.tag) else [] := by
  unfold World.emit
  split_ifs <;> simp

theorem recvQmiFromClient_ctl {p : Proxy} (h : 0 < p.serverFd) {b : Bytes}
    (hb : hdrQMIType b = QMUX_TYPE_CTL) (hs : ctlType b ≠ QMICTL_SYNC_REQ) (size fd : ℕ)
    (tag : Tag) :
    recvQmiFromClient p b size fd tag =
      ({ p with ctlMsg := p.ctlMsg ++ [⟨fd, b.take size, tag⟩] },
        if p.ctlMsg.isEmpty then [.cdcWdm (wire b) (some tag)] else []) := by
  unfold recvQmiFromClient
  rw [if_neg (by omega), if_pos hb, if_neg hs]

theorem recvQmiFromClient_other {p : Proxy} (h : 0 < p.serverFd) {b : Bytes}
    (hb : ¬ (hdrQMIType b = QMUX_TYPE_CTL ∧ ctlType b ≠ QMICTL_SYNC_REQ)) (size fd : ℕ)
    (tag : Tag) :
    (recvQmiFromClient p b size fd tag).1 = p
      ∧ ctlWrites (recvQmiFromClient p b size fd tag).2 = [] := by
  unfold recvQmiFromClient
  rw [if_neg (by omega)]
  split_ifs with h1 h2
  · exact ⟨rfl, rfl⟩
  · exact absurd ⟨h1, h2⟩ hb
  · exact absurd ⟨h1, h2⟩ hb
  · exact ⟨rfl, rfl⟩

theorem recvQmiFromDev_rsp {p : Proxy} (h : 0 < p.serverFd) {b : Bytes}
    (hb : hdrQMIType b = QMUX_TYPE_CTL ∧ ctlFlags b = QMICTL_CTL_FLAG_RSP) :
    recvQmiFromDev p b =
      ((answerHead p b).1, (answerHead p b).2 ++ sendHead (answerHead p b).1) := by
  unfold recvQmiFromDev
  rw [if_neg (by omega), if_pos hb.1, if_pos hb.2]

theorem recvQmiFromDev_ind {p : Proxy} (h : 0 < p.serverFd) {b : Bytes}
    (hb : hdrQMIType b = QMUX_TYPE_CTL ∧ ctlFlags b ≠ QMICTL_CTL_FLAG_RSP) :
    recvQmiFromDev p b = (p, sendHead p) := by
  unfold recvQmiFromDev
  rw [if_neg (by omega), if_pos hb.1, if_neg hb.2]
  rfl

theorem recvQmiFromDev_mux {p : Proxy} (h : 0 < p.serverFd) {b : Bytes}
    (hb : hdrQMIType b ≠ QMUX_TYPE_CTL) : recvQmiFromDev p b = (p, forwardMux p b) := by
  unfold recvQmiFromDev
  rw [if_neg (by omega), if_neg hb]

theorem answerHead_fst_serverFd (p : Proxy) (b : Bytes) :
    (answerHead p b).1.serverFd = p.serverFd := by
  unfold answerHead
  split <;> rfl

theorem answerHead_fst_map {β : Type*} (f : Connection → β)
    (hf : ∀ c b, f (settleClients c b) = f c) (p : Proxy) (b : Bytes) :
    (answerHead p b).1.connections.map f = p.connections.map f := by
  unfold answerHead
  split
  · rfl
  · simp only [List.map_map]
    refine List.map_congr_left fun c _ => ?_
    simp only [Function.comp]
    split_ifs
    · exact hf c b
    · rfl

/-- What holds in every run: the proxy serves, and open connections differ in descriptor and in
name. -/
structure Sound (w : World) : Prop where
  serving : 0 < w.proxy.serverFd
  fds : (w.proxy.connections.map (·.clientFd)).Nodup
  cons : (w.proxy.connections.map (·.con)).Nodup
  fresh : ∀ c ∈ w.proxy.connections, c.con < w.nextCon

theorem sound_init (fd : ℕ) : Sound (World.init fd) where
  serving := by simp only [World.init]; omega
  fds := by simp [World.init]
  cons := by simp [World.init]
  fresh := by simp [World.init]

theorem Sound.congr {w w' : World} (h : Sound w)
    (hs : w'.proxy.serverFd = w.proxy.serverFd)
    (hf : w'.proxy.connections.map (·.clientFd) = w.proxy.connections.map (·.clientFd))
    (hc : w'.proxy.connections.map (·.con) = w.proxy.connections.map (·.con))
    (hn : w'.nextCon = w.nextCon) : Sound w' where
  serving := hs ▸ h.serving
  fds := hf ▸ h.fds
  cons := hc ▸ h.cons
  fresh := by
    intro c hcm
    have : c.con ∈ w.proxy.connections.map (·.con) := hc ▸ List.mem_map_of_mem hcm
    obtain ⟨c', hc', heq⟩ := List.mem_map.1 this
    rw [← heq, hn]
    exact h.fresh c' hc'

theorem Sound.connect {w : World} (h : Sound w) {fd : ℕ}
    (hfd : fd ∉ w.proxy.connections.map (·.clientFd)) :
    Sound { w with
      proxy := acceptQmiConnection w.proxy fd w.nextCon
      nextCon := w.nextCon + 1 } where
  serving := h.serving
  fds := by
    simp only [acceptQmiConnection, List.map_append, List.map_cons, List.map_nil]
    exact h.fds.append (List.nodup_singleton _) (by simpa using hfd)
  cons := by
    simp only [acceptQmiConnection, List.map_append, List.map_cons, List.map_nil]
    refine h.cons.append (List.nodup_singleton _) ?_
    simp only [List.disjoint_singleton, List.mem_map, not_exists, not_and]
    intro c hc heq
    have := h.fresh c hc
    omega
  fresh := by
    intro c hc
    simp only [acceptQmiConnection, List.mem_append, List.mem_singleton] at hc
    rcases hc with hc | rfl
    · exact Nat.lt_succ_of_lt (h.fresh c hc)
    · exact Nat.lt_succ_self _

theorem cleanup_connections {w : World} (h : Sound w) {fd : ℕ}
    (hfd : fd ∈ w.proxy.connections.map (·.clientFd)) :
    cleanupQmiConnection w.proxy fd = { w.proxy with
      connections := w.proxy.connections.filter (·.clientFd ≠ fd)
      ctlMsg := w.proxy.ctlMsg.eraseP (·.clientFd = fd) } := by
  have hany : w.proxy.connections.any (·.clientFd = fd) = true := by
    obtain ⟨c, hc, rfl⟩ := List.mem_map.1 hfd
    exact List.any_eq_true.2 ⟨c, hc, by simp⟩
  unfold cleanupQmiConnection
  rw [if_pos hany, List.eraseP_key h.fds]

theorem Sound.cleanup {w : World} (h : Sound w) {fd : ℕ}
    (hfd : fd ∈ w.proxy.connections.map (·.clientFd)) :
    Sound { w with proxy := cleanupQmiConnection w.proxy fd } := by
  rw [cleanup_connections h hfd]
  refine ⟨h.serving, ?_, ?_, fun c hc => h.fresh c (List.mem_of_mem_filter hc)⟩
  · exact h.fds.sublist (List.filter_sublist.map _)
  · exact h.cons.sublist (List.filter_sublist.map _)

theorem recvQmiFromClient_connections (p : Proxy) (b : Bytes) (size fd : ℕ) (tag : Tag) :
    (recvQmiFromClient p b size fd tag).1.connections = p.connections
      ∧ (recvQmiFromClient p b size fd tag).1.serverFd = p.serverFd := by
  unfold recvQmiFromClient
  split_ifs <;> exact ⟨rfl, rfl⟩

/-- What each event does. -/
def Effect (w : World) : Input → World → Prop
  | .connect fd, w' => fd ∉ w.proxy.connections.map (·.clientFd)
      ∧ w' = { w with
          proxy := acceptQmiConnection w.proxy fd w.nextCon
          nextCon := w.nextCon + 1 }
  | .disconnect fd, w' => fd ∈ w.proxy.connections.map (·.clientFd)
      ∧ w' = { w with proxy := cleanupQmiConnection w.proxy fd }
  | .request fd b wr, w' => ∃ c ∈ w.proxy.connections, c.clientFd = fd ∧ w' = w.accept fd c b wr
  | .response k b wr, w' => (hdrQMIType b = QMUX_TYPE_CTL ∧ ctlFlags b = QMICTL_CTL_FLAG_RSP)
      ∧ ∃ q, w.outstanding[k]? = some q ∧ w' = w.answer k q b wr
  | .lose, w' => w.outstanding ≠ [] ∧ w' = { w with outstanding := w.outstanding.tail }
  | .indication b wr, w' => (hdrQMIType b = QMUX_TYPE_CTL ∧ ctlFlags b ≠ QMICTL_CTL_FLAG_RSP)
      ∧ w' = ({ w with proxy := (recvQmiFromDev w.proxy b).1 }.emit wr
          (recvQmiFromDev w.proxy b).2)
  | .data b, w' => hdrQMIType b ≠ QMUX_TYPE_CTL ∧ w' = w

theorem effect_of_step {w w' : World} {i : Input} (h : step w i = some w') : Effect w i w' := by
  unfold step at h
  rcases Bool.eq_false_or_eq_true w.proxy.modemResetFlag with hr | hr
  · simp [hr] at h
  rw [if_neg (by simp [hr])] at h
  cases i with
  | connect fd =>
    simp only [Option.ite_none_left_eq_some, Option.some.injEq] at h
    exact ⟨h.1, h.2.symm⟩
  | disconnect fd =>
    simp only [Option.ite_none_right_eq_some, Option.some.injEq] at h
    exact ⟨h.1, h.2.symm⟩
  | request fd b wr =>
    simp only [Option.map_eq_some_iff] at h
    obtain ⟨c, hc, rfl⟩ := h
    exact ⟨c, List.mem_of_find?_eq_some hc, by simpa using List.find?_some hc, rfl⟩
  | response k b wr =>
    simp only [Option.ite_none_right_eq_some, Option.map_eq_some_iff] at h
    obtain ⟨hb, q, hq, rfl⟩ := h
    exact ⟨hb, q, hq, rfl⟩
  | lose =>
    simp only [Option.ite_none_left_eq_some, Option.some.injEq] at h
    exact ⟨h.1, h.2.symm⟩
  | indication b wr =>
    simp only [Option.ite_none_right_eq_some, Option.some.injEq] at h
    exact ⟨h.1, h.2.symm⟩
  | data b =>
    simp only [Option.ite_none_left_eq_some, Option.some.injEq] at h
    exact ⟨h.1, h.2.symm⟩

theorem step_sound {w w' : World} {i : Input} (h : Sound w) (hs : step w i = some w') :
    Sound w' := by
  have he := effect_of_step hs
  cases i with
  | connect fd =>
    obtain ⟨hfd, rfl⟩ := he
    exact h.connect hfd
  | disconnect fd =>
    obtain ⟨hfd, rfl⟩ := he
    exact h.cleanup hfd
  | request fd b wr =>
    obtain ⟨c, -, -, rfl⟩ := he
    have hr := recvQmiFromClient_connections w.proxy b (hdrLength b + 1) fd
      ⟨c.con, w.accepted.length⟩
    unfold World.accept
    refine h.congr ?_ ?_ ?_ ?_ <;> simp [hr]
  | response k b wr =>
    obtain ⟨hb, q, -, rfl⟩ := he
    unfold World.answer
    rw [recvQmiFromDev_rsp h.serving hb]
    refine h.congr ?_ ?_ ?_ ?_
    · simpa using answerHead_fst_serverFd _ _
    · simpa using answerHead_fst_map _ settleClients_clientFd _ _
    · simpa using answerHead_fst_map _ settleClients_con _ _
    · simp
  | lose =>
    obtain ⟨-, rfl⟩ := he
    exact h.congr rfl rfl rfl rfl
  | indication b wr =>
    obtain ⟨hb, rfl⟩ := he
    rw [recvQmiFromDev_ind h.serving hb]
    refine h.congr ?_ ?_ ?_ ?_ <;> simp
  | data b =>
    obtain ⟨-, rfl⟩ := he
    exact h

theorem hdrLength_wire (b : Bytes) : hdrLength (wire b) = hdrLength b := by
  unfold hdrLength wire le16
  rw [u8_take, u8_take]
  unfold hdrLength le16
  split_ifs <;> omega

theorem wire_wire (b : Bytes) : wire (wire b) = wire b := by
  conv_lhs => unfold wire
  rw [show (List.take (hdrLength b + 1) b : Bytes) = wire b from rfl, hdrLength_wire]
  unfold wire
  rw [List.take_take, Nat.min_self]

def Msg.written (m : Msg) : Written := ⟨m.tag, wire m.qmi⟩

/-- Every queued request belongs to the open connection on its descriptor. -/
def Owned (p : Proxy) : Prop :=
  ∀ m ∈ p.ctlMsg, ∃ c ∈ p.connections, c.clientFd = m.clientFd ∧ c.con = m.tag.con

/-- The control messages at the device are none, or the queue's head alone. -/
def Inflight (w : World) : Prop :=
  w.outstanding = [] ∨ ∃ m rest, w.proxy.ctlMsg = m :: rest ∧ w.outstanding = [m.written]

structure Linked (w : World) : Prop extends Sound w where
  owned : Owned w.proxy
  inflight : Inflight w

/-- The events that keep the link: no connection closes while a request of its own is at the
device or while two or more of its requests are pending, and no indication comes while a request
is pending. -/
def Tidy (w : World) : Input → Prop
  | .disconnect fd =>
    (∀ c ∈ w.proxy.connections, c.clientFd = fd → ∀ q ∈ w.outstanding, q.tag.con ≠ c.con)
      ∧ w.proxy.ctlMsg.countP (·.clientFd = fd) ≤ 1
  | .indication _ _ => w.proxy.ctlMsg = []
  | _ => True

instance (w : World) : ∀ i : Input, Decidable (Tidy w i)
  | .disconnect _ => inferInstanceAs (Decidable (_ ∧ _))
  | .indication _ _ => inferInstanceAs (Decidable (_ = _))
  | .connect _ | .request _ _ _ | .response _ _ _ | .lose | .data _ => .isTrue trivial

theorem linked_init (fd : ℕ) : Linked (World.init fd) where
  toSound := sound_init fd
  owned := by simp [Owned, World.init]
  inflight := .inl rfl

theorem filter_owner {p : Proxy} (hf : (p.connections.map (·.clientFd)).Nodup) {m : Msg}
    {c : Connection} (hc : c ∈ p.connections) (hfd : c.clientFd = m.clientFd) :
    p.connections.filter (·.clientFd = m.clientFd) = [c] := by
  rw [← hfd]
  exact List.filter_key hf hc

theorem ctlWrites_sendHead {p : Proxy} (hf : (p.connections.map (·.clientFd)).Nodup)
    (ho : Owned p) : ctlWrites (sendHead p) = (p.ctlMsg.take 1).map Msg.written := by
  unfold sendHead
  rcases hm : p.ctlMsg with _ | ⟨m, rest⟩
  · rfl
  · obtain ⟨c, hc, hfd, -⟩ := ho m (by simp [hm])
    simp only [filter_owner hf hc hfd]
    rfl

theorem deliveries_sendHead (p : Proxy) (tag : Tag) : deliveries tag (sendHead p) = [] := by
  unfold sendHead
  split
  · rfl
  · simp [deliveries]

theorem ctlWrites_answerHead (p : Proxy) (b : Bytes) : ctlWrites (answerHead p b).2 = [] := by
  unfold answerHead
  split
  · rfl
  · simp [ctlWrites, List.filterMap_map]

theorem ctlWrites_append (o o' : List Out) : ctlWrites (o ++ o') = ctlWrites o ++ ctlWrites o' :=
  List.filterMap_append

theorem deliveries_append (tag : Tag) (o o' : List Out) :
    deliveries tag (o ++ o') = deliveries tag o ++ deliveries tag o' :=
  List.filterMap_append

theorem Owned.answerHead {p : Proxy} (h : Owned p) (b : Bytes) : Owned (answerHead p b).1 := by
  unfold QmiProxy.answerHead
  split
  · exact h
  · rename_i m rest hm
    intro m' hm'
    obtain ⟨c, hc, hfd, hcon⟩ := h m' (by rw [hm]; exact List.mem_cons_of_mem _ hm')
    refine ⟨_, List.mem_map_of_mem hc, ?_, ?_⟩ <;> split_ifs <;> simp [hfd, hcon]

theorem Linked.answer_cases {w : World} (h : Linked w) {k : ℕ} {q : Written}
    (hq : w.outstanding[k]? = some q) :
    k = 0 ∧ ∃ m rest c, w.proxy.ctlMsg = m :: rest ∧ q = m.written ∧ w.outstanding = [q]
      ∧ c ∈ w.proxy.connections ∧ c.clientFd = m.clientFd ∧ c.con = m.tag.con := by
  rcases h.inflight with h0 | ⟨m, rest, hm, ho⟩
  · simp [h0] at hq
  · obtain ⟨c, hc, hfd, hcon⟩ := h.owned m (by simp [hm])
    rw [ho] at hq
    rcases k with _ | k
    · simp only [List.getElem?_cons_zero, Option.some.injEq] at hq
      subst hq
      exact ⟨rfl, m, rest, c, hm, rfl, ho, hc, hfd, hcon⟩
    · simp at hq

theorem ctlMsg_answerHead {p : Proxy} {m : Msg} {rest : List Msg} (hm : p.ctlMsg = m :: rest)
    (b : Bytes) : (answerHead p b).1.ctlMsg = rest := by
  unfold answerHead
  simp [hm]

theorem Linked.answer_spec {w : World} (h : Linked w) {b : Bytes}
    (hb : hdrQMIType b = QMUX_TYPE_CTL ∧ ctlFlags b = QMICTL_CTL_FLAG_RSP) (wr : Bool) {m : Msg}
    {rest : List Msg} {c : Connection} (hm : w.proxy.ctlMsg = m :: rest)
    (ho : w.outstanding = [m.written]) (hc : c ∈ w.proxy.connections)
    (hfd : c.clientFd = m.clientFd) :
    (w.answer 0 m.written b wr).proxy = (answerHead w.proxy b).1
      ∧ (w.answer 0 m.written b wr).outstanding =
          (if wr then (rest.take 1).map Msg.written else [])
      ∧ (w.answer 0 m.written b wr).written =
          w.written ++ (if wr then (rest.take 1).map (·.tag) else [])
      ∧ (w.answer 0 m.written b wr).delivered = w.delivered ++ [⟨c.con, m.tag⟩] := by
  have hout : ctlWrites ((answerHead w.proxy b).2 ++ sendHead (answerHead w.proxy b).1)
      = (rest.take 1).map Msg.written := by
    rw [ctlWrites_append, ctlWrites_answerHead, List.nil_append, ctlWrites_sendHead
      (by rw [answerHead_fst_map _ settleClients_clientFd]; exact h.fds) (h.owned.answerHead b),
      ctlMsg_answerHead hm]
  have hdel : deliveries m.tag ((answerHead w.proxy b).2 ++ sendHead (answerHead w.proxy b).1)
      = [⟨c.con, m.tag⟩] := by
    rw [deliveries_append, deliveries_sendHead, List.append_nil]
    unfold answerHead
    simp only [hm, filter_owner h.fds hc hfd]
    rfl
  unfold World.answer
  rw [recvQmiFromDev_rsp h.serving hb]
  refine ⟨by simp, ?_, ?_, ?_⟩
  · rw [emit_outstanding, hout, ho]
    rfl
  · rw [emit_written, hout, List.map_map]
    rfl
  · rw [emit_delivered]
    exact congrArg _ hdel

def World.entry (w : World) (c : Connection) (b : Bytes) : Msg :=
  ⟨c.clientFd, wire b, ⟨c.con, w.accepted.length⟩⟩

theorem accept_ctl {w : World} (h : Sound w) (c : Connection) {b : Bytes}
    (hb : hdrQMIType b = QMUX_TYPE_CTL ∧ ctlType b ≠ QMICTL_SYNC_REQ) (wr : Bool) :
    w.accept c.clientFd c b wr = { w with
      proxy := { w.proxy with ctlMsg := w.proxy.ctlMsg ++ [w.entry c b] }
      accepted := w.accepted ++ [(w.entry c b).tag] }.emit wr
        (if w.proxy.ctlMsg.isEmpty then [.cdcWdm (wire b) (some (w.entry c b).tag)] else []) := by
  unfold World.accept
  simp only [recvQmiFromClient_ctl h.serving hb.1 hb.2, if_pos hb]
  rfl

theorem accept_other {w : World} (h : Sound w) (fd : ℕ) (c : Connection) {b : Bytes}
    (hb : ¬ (hdrQMIType b = QMUX_TYPE_CTL ∧ ctlType b ≠ QMICTL_SYNC_REQ)) (wr : Bool) :
    w.accept fd c b wr = w := by
  obtain ⟨h1, h2⟩ := recvQmiFromClient_other h.serving hb (hdrLength b + 1) fd
    ⟨c.con, w.accepted.length⟩
  unfold World.accept
  simp only [if_neg hb, h1]
  unfold World.emit
  simp [h2]

theorem entry_written (w : World) (c : Connection) (b : Bytes) :
    (w.entry c b).written = ⟨(w.entry c b).tag, wire b⟩ := by
  simp only [Msg.written, World.entry, wire_wire]

theorem accept_ctl_outstanding {w : World} (h : Linked w) (c : Connection) {b : Bytes}
    (hb : hdrQMIType b = QMUX_TYPE_CTL ∧ ctlType b ≠ QMICTL_SYNC_REQ) (wr : Bool) :
    (w.accept c.clientFd c b wr).outstanding =
      if w.proxy.ctlMsg = [] then (if wr then [(w.entry c b).written] else [])
      else w.outstanding := by
  rw [accept_ctl h.toSound c hb, emit_outstanding, entry_written]
  rcases hm : w.proxy.ctlMsg with _ | ⟨m, rest⟩
  · rcases h.inflight with h0 | ⟨m, rest, hm', -⟩
    · simp only [h0, List.isEmpty_nil, ↓reduceIte, List.nil_append]
      rfl
    · simp [hm] at hm'
  · cases wr <;> simp [ctlWrites]

/-- Closing a connection of which at most one request is pending, none of them at the device,
leaves the others' requests in place. -/
theorem Linked.cleanup {w : World} (h : Linked w) {fd : ℕ}
    (hfd : fd ∈ w.proxy.connections.map (·.clientFd)) (ht : Tidy w (.disconnect fd)) :
    Linked { w with proxy := cleanupQmiConnection w.proxy fd } := by
  have herase : w.proxy.ctlMsg.eraseP (·.clientFd = fd)
      = w.proxy.ctlMsg.filter (fun m => !decide (m.clientFd = fd)) :=
    List.eraseP_eq_filter_of_countP_le_one _ _ ht.2
  refine ⟨h.toSound.cleanup hfd, ?_, ?_⟩ <;> rw [cleanup_connections h.toSound hfd]
  · intro m hm
    simp only [herase, List.mem_filter, Bool.not_eq_eq_eq_not, Bool.not_true,
      decide_eq_false_iff_not] at hm
    obtain ⟨c, hc, hcfd, hcon⟩ := h.owned m hm.1
    exact ⟨c, List.mem_filter.2 ⟨hc, by simpa [hcfd] using hm.2⟩, hcfd, hcon⟩
  · rcases h.inflight with h0 | ⟨m, rest, hm, ho⟩
    · exact .inl h0
    · refine .inr ⟨m, rest.filter (fun m => !decide (m.clientFd = fd)), ?_, ho⟩
      have hne : m.clientFd ≠ fd := by
        rintro rfl
        obtain ⟨c, hc, hcfd, hcon⟩ := h.owned m (by simp [hm])
        exact ht.1 c hc hcfd m.written (by simp [ho]) hcon.symm
      simp only [herase]
      rw [hm, List.filter_cons_of_pos (by simpa using hne)]

/-- A request is put behind those that wait, or goes to the device at once. -/
theorem Linked.accept {w : World} (h : Linked w) {c : Connection} (hc : c ∈ w.proxy.connections)
    {b : Bytes} (wr : Bool) (hsound : Sound (w.accept c.clientFd c b wr)) :
    Linked (w.accept c.clientFd c b wr) := by
  by_cases hb : hdrQMIType b = QMUX_TYPE_CTL ∧ ctlType b ≠ QMICTL_SYNC_REQ
  · have hp : (w.accept c.clientFd c b wr).proxy
        = { w.proxy with ctlMsg := w.proxy.ctlMsg ++ [w.entry c b] } := by
      rw [accept_ctl h.toSound c hb, emit_proxy]
    refine ⟨hsound, ?_, ?_⟩
    · rw [hp]
      intro m hm
      rcases List.mem_append.1 hm with hm | hm
      · exact h.owned m hm
      · rw [List.mem_singleton.1 hm]
        exact ⟨c, hc, rfl, rfl⟩
    · unfold Inflight
      rw [accept_ctl_outstanding h c hb, hp]
      rcases hm : w.proxy.ctlMsg with _ | ⟨m, rest⟩
      · cases wr
        · exact .inl rfl
        · exact .inr ⟨_, [], rfl, rfl⟩
      · rcases h.inflight with h0 | ⟨m', rest', hm', ho⟩
        · exact .inl h0
        · rw [hm, List.cons.injEq] at hm'
          obtain ⟨rfl, rfl⟩ := hm'
          exact .inr ⟨m, rest ++ [w.entry c b], rfl, ho⟩
  · rw [accept_other h.toSound _ c hb]
    exact h

/-- After a response the next request goes to the device. -/
theorem Linked.answer {w : World} (h : Linked w) {b : Bytes}
    (hb : hdrQMIType b = QMUX_TYPE_CTL ∧ ctlFlags b = QMICTL_CTL_FLAG_RSP) (wr : Bool) {k : ℕ}
    {q : Written} (hq : w.outstanding[k]? = some q) (hsound : Sound (w.answer k q b wr)) :
    Linked (w.answer k q b wr) := by
  obtain ⟨rfl, m, rest, c, hm, rfl, ho, hc, hfd, -⟩ := h.answer_cases hq
  obtain ⟨h1, h2, -, -⟩ := h.answer_spec hb wr hm ho hc hfd
  refine ⟨hsound, ?_, ?_⟩
  · rw [h1]
    exact h.owned.answerHead b
  · unfold Inflight
    rw [h2, h1, ctlMsg_answerHead hm]
    rcases rest with _ | ⟨m', rest⟩
    · exact .inl (by simp)
    · cases wr
      · exact .inl rfl
      · exact .inr ⟨m', rest, rfl, rfl⟩

theorem indication_idle {w : World} (h : Sound w) {b : Bytes}
    (hb : hdrQMIType b = QMUX_TYPE_CTL ∧ ctlFlags b ≠ QMICTL_CTL_FLAG_RSP) (wr : Bool)
    (hnil : w.proxy.ctlMsg = []) :
    ({ w with proxy := (recvQmiFromDev w.proxy b).1 }.emit wr (recvQmiFromDev w.proxy b).2)
      = w := by
  rw [recvQmiFromDev_ind h.serving hb]
  unfold World.emit sendHead
  simp [hnil, ctlWrites]

theorem step_linked {w w' : World} {i : Input} (h : Linked w) (ht : Tidy w i)
    (hs : step w i = some w') : Linked w' := by
  have hsound := step_sound h.toSound hs
  have he := effect_of_step hs
  cases i with
  | connect fd =>
    obtain ⟨hfd, rfl⟩ := he
    refine ⟨hsound, fun m hm => ?_, h.inflight⟩
    obtain ⟨c, hc, hcm⟩ := h.owned m hm
    exact ⟨c, List.mem_append_left _ hc, hcm⟩
  | disconnect fd =>
    obtain ⟨hfd, rfl⟩ := he
    exact h.cleanup hfd ht
  | request fd b wr =>
    obtain ⟨c, hc, rfl, rfl⟩ := he
    exact h.accept hc wr hsound
  | response k b wr =>
    obtain ⟨hb, q, hq, rfl⟩ := he
    exact h.answer hb wr hq hsound
  | lose =>
    obtain ⟨-, rfl⟩ := he
    refine ⟨hsound, h.owned, .inl ?_⟩
    rcases h.inflight with h0 | ⟨m, rest, -, ho⟩
    · simp [h0]
    · simp [ho]
  | indication b wr =>
    obtain ⟨hb, rfl⟩ := he
    rw [indication_idle h.toSound hb wr ht]
    exact h
  | data b =>
    obtain ⟨-, rfl⟩ := he
    exact h

theorem linked_of_run {fd : ℕ} {is : List Input} {w : World}
    (ht : Runs.Meets step Tidy (World.init fd) is) (hr : run fd is = some w) : Linked w :=
  Runs.exec_inv (fun _ _ _ h ht hs => step_linked h ht hs) (linked_init fd) ht hr

end QmiProxy

end BananaWrt
