import BananaWrt.Proofs.QmiProxyDelivery

/-!
# Who owns a client id

A client id is recorded in the connection whose request the device answered with it, from that
answer to the answer that releases it. The proxy never looks at what a release asks for, so this
rests on the clients: each asks to release only ids it owns, and each of them once
(`ownership_of_lawful`). A client that asks twice makes the device free an id that is another
client's by then.
-/

namespace BananaWrt

namespace QmiProxy

open Bytes Qmi

def Succeeded (b : Bytes) : Prop := ctlResult b = 0 ∧ ctlError b = 0

instance : DecidablePred Succeeded := fun _ => inferInstanceAs (Decidable (_ ∧ _))

/-- `b` answers `q`: it has the type of `q`, it grants only an id that is not granted and not
zero, and it releases what `q` asks to release. -/
def Answers (granted : List (Client × ℕ)) (q : Written) (b : Bytes) : Prop :=
  ctlType b = ctlType q.qmi ∧ ctlType b ≠ QMICTL_REVOKE_CLIENT_ID_IND
    ∧ (Succeeded b → ctlType b = QMICTL_GET_CLIENT_ID_RESP →
        ctlRspPair b ∉ granted.map (·.1) ∧ (ctlRspPair b).2 ≠ 0)
    ∧ (Succeeded b → ctlType b = QMICTL_RELEASE_CLIENT_ID_RESP →
        ctlRspPair b = ctlReleaseReqPair q.qmi)

instance (granted : List (Client × ℕ)) (q : Written) (b : Bytes) :
    Decidable (Answers granted q b) := inferInstanceAs (Decidable (_ ∧ _ ∧ _ ∧ _))

def IsRelease (qmi : Bytes) : Prop :=
  hdrQMIType qmi = QMUX_TYPE_CTL ∧ ctlType qmi = QMICTL_RELEASE_CLIENT_ID_RESP

instance : DecidablePred IsRelease := fun _ => inferInstanceAs (Decidable (_ ∧ _))

/-- No connection closes with a request pending, clients ask to release only ids they own, and
the device sends no control message but answers. -/
def Lawful (w : World) : Input → Prop
  | .disconnect fd => ∀ m ∈ w.proxy.ctlMsg, m.clientFd ≠ fd
  | .request fd b _ => IsRelease (wire b) →
      ∀ c ∈ w.proxy.connections, c.clientFd = fd → ctlReleaseReqPair (wire b) ∈ c.clients
  | .response k b _ => ∀ q ∈ w.outstanding[k]?, Answers w.granted q b
  | .indication _ _ => False
  | _ => True

instance (w : World) : ∀ i : Input, Decidable (Lawful w i)
  | .disconnect _ => inferInstanceAs (Decidable (∀ m ∈ _, _))
  | .request _ _ _ => inferInstanceAs (Decidable (_ → ∀ c ∈ _, _))
  | .response _ _ _ => inferInstanceAs (Decidable (∀ q ∈ _, _))
  | .indication _ _ => .isFalse id
  | .connect _ | .lose | .data _ => .isTrue trivial

/-- A client asks to release no id that an unanswered request of its own asks to release. -/
def ReleasesOnce (w : World) : Input → Prop
  | .request fd b _ => IsRelease (wire b) → ∀ m ∈ w.proxy.ctlMsg, m.clientFd = fd →
      IsRelease m.written.qmi → ctlReleaseReqPair m.written.qmi ≠ ctlReleaseReqPair (wire b)
  | _ => True

instance (w : World) : ∀ i : Input, Decidable (ReleasesOnce w i)
  | .request _ _ _ => inferInstanceAs (Decidable (_ → ∀ m ∈ _, _))
  | .response _ _ _ | .disconnect _ | .indication _ _ | .connect _ | .lose | .data _ =>
    .isTrue trivial

/-- The connections record what the device granted to them, each id once. -/
structure Held (cs : List Connection) (granted : List (Client × ℕ)) : Prop where
  distinct : ∀ c ∈ cs, c.clients.Nodup
  grants : (granted.map (·.1)).Nodup
  recorded : ∀ c ∈ cs, ∀ x, x ∈ c.clients ↔ (x, c.con) ∈ granted

section Held

variable {cs : List Connection} {granted : List (Client × ℕ)}

theorem Held.con_eq (h : Held cs granted) {x : Client} {i j : ℕ} (hi : (x, i) ∈ granted)
    (hj : (x, j) ∈ granted) : i = j :=
  congrArg Prod.snd (List.inj_on_of_nodup_map h.grants hi hj rfl)

theorem Held.subset (h : Held cs granted) {cs' : List Connection} (hs : cs' ⊆ cs) :
    Held cs' granted where
  distinct c hc := h.distinct c (hs hc)
  grants := h.grants
  recorded c hc := h.recorded c (hs hc)

theorem Held.grant (h : Held cs granted) {x : Client} (hx : x ∉ granted.map (·.1)) {i : ℕ}
    {fd : ℕ} (hfd : ∀ c ∈ cs, c.clientFd = fd ↔ c.con = i) :
    Held (cs.map fun c => if c.clientFd = fd then { c with clients := c.clients ++ [x] } else c)
      (granted ++ [(x, i)]) where
  distinct := by
    intro c' hc'
    obtain ⟨c, hc, rfl⟩ := List.mem_map.1 hc'
    split_ifs
    · refine (h.distinct c hc).append (List.nodup_singleton _) ?_
      simp only [List.disjoint_singleton]
      intro hm
      exact hx (List.mem_map_of_mem ((h.recorded c hc x).1 hm))
    · exact h.distinct c hc
  grants := by
    rw [List.map_append]
    exact h.grants.append (List.nodup_singleton _) (by simpa using hx)
  recorded := by
    intro c' hc' y
    obtain ⟨c, hc, rfl⟩ := List.mem_map.1 hc'
    split_ifs with hf
    · have := (hfd c hc).1 hf
      simp [h.recorded c hc y, this]
    · have := mt (hfd c hc).2 hf
      simp [h.recorded c hc y, this]

theorem Held.release (h : Held cs granted) {x : Client} {i : ℕ} (hx : (x, i) ∈ granted)
    {fd : ℕ} (hfd : ∀ c ∈ cs, c.clientFd = fd ↔ c.con = i) :
    Held (cs.map fun c => if c.clientFd = fd then { c with clients := c.clients.erase x } else c)
      (granted.filter (·.1 ≠ x)) where
  distinct := by
    intro c' hc'
    obtain ⟨c, hc, rfl⟩ := List.mem_map.1 hc'
    split_ifs
    · exact (h.distinct c hc).erase x
    · exact h.distinct c hc
  grants := h.grants.sublist (List.filter_sublist.map _)
  recorded := by
    intro c' hc' y
    obtain ⟨c, hc, rfl⟩ := List.mem_map.1 hc'
    split_ifs with hf
    · simp only [(h.distinct c hc).mem_erase_iff, h.recorded c hc y, List.mem_filter, ne_eq,
        decide_not, Bool.not_eq_eq_eq_not, Bool.not_true, decide_eq_false_iff_not]
      exact and_comm
    · simp only [h.recorded c hc y, List.mem_filter, ne_eq, decide_not, Bool.not_eq_eq_eq_not,
        Bool.not_true, decide_eq_false_iff_not, iff_self_and]
      rintro hy rfl
      exact hf ((hfd c hc).2 (h.con_eq hy hx))

end Held

/-- What a lawful run keeps: the connections hold what was granted, and each id that a pending
request asks to release is still its client's. -/
structure Kept (w : World) : Prop extends Linked w where
  held : Held w.proxy.connections w.granted
  known : ∀ g ∈ w.granted, g.2 < w.nextCon
  ctl : ∀ m ∈ w.proxy.ctlMsg, hdrQMIType m.written.qmi = QMUX_TYPE_CTL
  pending : ∀ m ∈ w.proxy.ctlMsg, IsRelease m.written.qmi →
    (ctlReleaseReqPair m.written.qmi, m.tag.con) ∈ w.granted
  once : ((w.proxy.ctlMsg.filter (IsRelease ·.written.qmi)).map
    (ctlReleaseReqPair ·.written.qmi)).Nodup

theorem kept_init (fd : ℕ) : Kept (World.init fd) where
  toLinked := linked_init fd
  held := ⟨by simp [World.init], by simp [World.init], by simp [World.init]⟩
  known := by simp [World.init]
  ctl := by simp [World.init]
  pending := by simp [World.init]
  once := by simp [World.init]

theorem Kept.connect {w : World} (h : Kept w) {fd : ℕ} (hl : Linked { w with
      proxy := acceptQmiConnection w.proxy fd w.nextCon
      nextCon := w.nextCon + 1 }) : Kept { w with
      proxy := acceptQmiConnection w.proxy fd w.nextCon
      nextCon := w.nextCon + 1 } := by
  refine ⟨hl, ⟨?_, h.held.grants, ?_⟩, fun g hg => Nat.lt_succ_of_lt (h.known g hg), h.ctl,
    h.pending, h.once⟩
  · intro c hc
    rcases List.mem_append.1 hc with hc | hc
    · exact h.held.distinct c hc
    · rw [List.mem_singleton.1 hc]
      exact List.nodup_nil
  · intro c hc x
    rcases List.mem_append.1 hc with hc | hc
    · exact h.held.recorded c hc x
    · rw [List.mem_singleton.1 hc]
      simp only [List.not_mem_nil, false_iff]
      intro hg
      have := h.known _ hg
      omega

theorem Lawful.tidy {w : World} (h : Linked w) {i : Input} (hi : Lawful w i) : Tidy w i := by
  cases i with
  | disconnect fd =>
    refine ⟨?_, ?_⟩
    · rintro c hc rfl q hq heq
      rcases h.inflight with h0 | ⟨m, rest, hm, ho⟩
      · simp [h0] at hq
      · rw [ho, List.mem_singleton] at hq
        subst hq
        have hmem : m ∈ w.proxy.ctlMsg := by simp [hm]
        exact hi m hmem ((h.owner_iff hc hmem).2 heq)
    · rw [List.countP_eq_zero.2 fun m hm => by simpa using hi m hm]
      omega
  | indication b wr => exact hi.elim
  | connect fd | request fd b wr | response k b wr | lose | data b => trivial

theorem Kept.cleanup {w : World} (h : Kept w) {fd : ℕ}
    (hfd : fd ∈ w.proxy.connections.map (·.clientFd))
    (hl : Linked { w with proxy := cleanupQmiConnection w.proxy fd }) :
    Kept { w with proxy := cleanupQmiConnection w.proxy fd } := by
  have hp := cleanup_connections h.toSound hfd
  refine ⟨hl, ?_, h.known, ?_, ?_, ?_⟩ <;> simp only [hp]
  · exact h.held.subset (List.filter_subset_self _)
  · exact fun m hm => h.ctl m (List.mem_of_mem_eraseP hm)
  · exact fun m hm => h.pending m (List.mem_of_mem_eraseP hm)
  · exact h.once.sublist ((List.eraseP_sublist.filter _).map _)

theorem hdrQMIType_wire {b : Bytes} (hb : hdrQMIType b = QMUX_TYPE_CTL) :
    hdrQMIType (wire b) = QMUX_TYPE_CTL := by
  unfold hdrQMIType wire
  rw [u8_take]
  split_ifs
  · exact hb
  · rfl

theorem Kept.accept {w : World} (h : Kept w) {c : Connection} (hc : c ∈ w.proxy.connections)
    {b : Bytes} (hb : hdrQMIType b = QMUX_TYPE_CTL ∧ ctlType b ≠ QMICTL_SYNC_REQ) {wr : Bool}
    (hi : Lawful w (.request c.clientFd b wr)) (ho : ReleasesOnce w (.request c.clientFd b wr))
    (hl : Linked (w.accept c.clientFd c b wr)) : Kept (w.accept c.clientFd c b wr) := by
  have hnew : IsRelease (wire b) → (ctlReleaseReqPair (wire b), c.con) ∈ w.granted := fun hr =>
    (h.held.recorded c hc _).1 (hi hr c hc rfl)
  have hdiff : IsRelease (wire b) → ∀ m ∈ w.proxy.ctlMsg, IsRelease m.written.qmi →
      ctlReleaseReqPair m.written.qmi ≠ ctlReleaseReqPair (wire b) := by
    intro hr m hm hmr heq
    have hcon := h.held.con_eq (heq ▸ h.pending m hm hmr) (hnew hr)
    exact ho hr m hm ((h.toLinked.owner_iff hc hm).2 hcon) hmr heq
  refine ⟨hl, ?_, ?_, ?_, ?_, ?_⟩ <;> simp only [accept_ctl h.toSound c hb, emit_proxy,
    emit_granted, emit_nextCon]
  · exact h.held
  · exact h.known
  · intro m hm
    rcases List.mem_append.1 hm with hm | hm
    · exact h.ctl m hm
    · rw [List.mem_singleton.1 hm, entry_written]
      exact hdrQMIType_wire hb.1
  · intro m hm hmr
    rcases List.mem_append.1 hm with hm | hm
    · exact h.pending m hm hmr
    · rw [List.mem_singleton.1 hm, entry_written] at hmr ⊢
      exact hnew hmr
  · rw [List.filter_append, List.map_append]
    by_cases hr : IsRelease (wire b)
    · rw [List.filter_cons_of_pos (by simpa [entry_written] using hr), List.filter_nil]
      refine h.once.append (List.nodup_singleton _) ?_
      simp only [List.map_cons, List.map_nil, List.disjoint_singleton, List.mem_map,
        List.mem_filter, decide_eq_true_eq, not_exists, not_and, and_imp, entry_written]
      exact hdiff hr
    · rw [List.filter_cons_of_neg (by simpa [entry_written] using hr), List.filter_nil]
      simpa using h.once

theorem Kept.settle {w : World} (h : Kept w) {m : Msg} {rest : List Msg}
    (hm : w.proxy.ctlMsg = m :: rest) {b : Bytes} (ha : Answers w.granted m.written b) :
    Held (answerHead w.proxy b).1.connections (settleGrants w.granted m.written b) := by
  have howner : ∀ c' ∈ w.proxy.connections, c'.clientFd = m.clientFd ↔ c'.con = m.tag.con := by
    intro c' hc'
    rw [eq_comm, h.toLinked.owner_iff hc' (by simp [hm]), eq_comm]
  obtain ⟨htype, hrevoke, hget, hrel⟩ := ha
  unfold answerHead
  simp only [hm, settleClients, getClientId, releaseClientId, settleGrants, hrevoke, or_false]
  by_cases hs : ctlResult b = 0 ∧ ctlError b = 0
  · rw [if_pos hs]
    simp only [if_pos hs]
    by_cases h1 : ctlType b = QMICTL_GET_CLIENT_ID_RESP
    · simp only [if_pos h1]
      exact h.held.grant (hget hs h1).1 howner
    by_cases h2 : ctlType b = QMICTL_RELEASE_CLIENT_ID_RESP
    · simp only [if_neg h1, if_pos h2]
      refine h.held.release ?_ howner
      rw [hrel hs h2]
      have hmem : m ∈ w.proxy.ctlMsg := by simp [hm]
      exact h.pending m hmem ⟨h.ctl m hmem, htype ▸ h2⟩
    · simp only [if_neg h1, if_neg h2, ite_self, List.map_id_fun']
      exact h.held
  · rw [if_neg hs]
    simp only [if_neg hs, ite_self, List.map_id_fun']
    exact h.held

theorem settleGrants_of_ne (granted : List (Client × ℕ)) (q : Written) (b : Bytes)
    {g : Client × ℕ} (hg : g ∈ granted)
    (hne : Succeeded b → ctlType b = QMICTL_RELEASE_CLIENT_ID_RESP → g.1 ≠ ctlRspPair b) :
    g ∈ settleGrants granted q b := by
  unfold settleGrants
  split_ifs with hs h1 h2
  · exact List.mem_append_left _ hg
  · exact List.mem_filter.2 ⟨hg, by simpa using hne hs h2⟩
  · exact hg
  · exact hg

theorem mem_settleGrants {granted : List (Client × ℕ)} {q : Written} {b : Bytes}
    {g : Client × ℕ} (hg : g ∈ settleGrants granted q b) : g ∈ granted ∨ g.2 = q.tag.con := by
  unfold settleGrants at hg
  split_ifs at hg
  · rcases List.mem_append.1 hg with hg | hg
    · exact .inl hg
    · exact .inr (by rw [List.mem_singleton.1 hg])
  · exact .inl (List.mem_of_mem_filter hg)
  · exact .inl hg
  · exact .inl hg

theorem Kept.answer {w : World} (h : Kept w) {b : Bytes}
    (hb : hdrQMIType b = QMUX_TYPE_CTL ∧ ctlFlags b = QMICTL_CTL_FLAG_RSP) {wr : Bool} {m : Msg}
    {rest : List Msg} (hm : w.proxy.ctlMsg = m :: rest) (ha : Answers w.granted m.written b)
    (hl : Linked (w.answer 0 m.written b wr)) : Kept (w.answer 0 m.written b wr) := by
  have hsub : ∀ m' ∈ rest, m' ∈ w.proxy.ctlMsg := fun m' hm' => by
    rw [hm]
    exact List.mem_cons_of_mem _ hm'
  have honce := h.once
  rw [hm] at honce
  have hproxy : (w.answer 0 m.written b wr).proxy = (answerHead w.proxy b).1 := by
    simp only [World.answer, emit_proxy, recvQmiFromDev_rsp h.serving hb]
  have hgr : (w.answer 0 m.written b wr).granted = settleGrants w.granted m.written b := by
    simp only [World.answer, emit_granted]
  have hnext : (w.answer 0 m.written b wr).nextCon = w.nextCon := by
    simp only [World.answer, emit_nextCon]
  refine ⟨hl, ?_, ?_, ?_, ?_, ?_⟩ <;> simp only [hproxy, hgr, hnext, ctlMsg_answerHead hm]
  · exact h.settle hm ha
  · intro g hg
    rcases mem_settleGrants hg with hg | hg
    · exact h.known g hg
    · obtain ⟨c, hc, -, hcon⟩ := h.owned m (by simp [hm])
      rw [hg]
      exact hcon ▸ h.fresh c hc
  · exact fun m' hm' => h.ctl m' (hsub m' hm')
  · -- A release that succeeds strikes off its own id, and no other pending request has that one.
    intro m' hm' hr'
    refine settleGrants_of_ne _ _ _ (h.pending m' (hsub m' hm') hr') fun hs h2 heq => ?_
    obtain ⟨htype, -, -, hrel⟩ := ha
    have hr : IsRelease m.written.qmi := ⟨h.ctl m (by simp [hm]), htype ▸ h2⟩
    rw [List.filter_cons_of_pos (by simpa using hr), List.map_cons, List.nodup_cons] at honce
    refine honce.1 (List.mem_map.2 ⟨m', List.mem_filter.2 ⟨hm', by simpa using hr'⟩, ?_⟩)
    rw [← hrel hs h2]
    exact heq
  · exact honce.sublist (((List.sublist_cons_self m rest).filter _).map _)

theorem step_kept {w w' : World} {i : Input} (h : Kept w) (hi : Lawful w i)
    (ho : ReleasesOnce w i) (hs : step w i = some w') : Kept w' := by
  have hl := step_linked h.toLinked (hi.tidy h.toLinked) hs
  have he := effect_of_step hs
  cases i with
  | connect fd =>
    obtain ⟨-, rfl⟩ := he
    exact h.connect hl
  | disconnect fd =>
    obtain ⟨hfd, rfl⟩ := he
    exact h.cleanup hfd hl
  | request fd b wr =>
    obtain ⟨c, hc, rfl, rfl⟩ := he
    by_cases hb : hdrQMIType b = QMUX_TYPE_CTL ∧ ctlType b ≠ QMICTL_SYNC_REQ
    · exact h.accept hc hb hi ho hl
    · rw [accept_other h.toSound _ c hb]
      exact h
  | response k b wr =>
    obtain ⟨hb, q, hq, rfl⟩ := he
    have ha := hi q hq
    obtain ⟨rfl, m, rest, c, hm, rfl, -, -, -, -⟩ := h.answer_cases hq
    exact h.answer hb hm ha hl
  | lose =>
    obtain ⟨-, rfl⟩ := he
    exact ⟨hl, h.held, h.known, h.ctl, h.pending, h.once⟩
  | indication b wr => exact hi.elim
  | data b =>
    obtain ⟨-, rfl⟩ := he
    exact h

theorem forwardMux_of_ne_zero {p : Proxy} (hd : ∀ c ∈ p.connections, c.clients.Nodup) {b : Bytes}
    (hb : hdrClientId b ≠ 0) :
    forwardMux p b = (p.connections.filter fun c => (hdrQMIType b, hdrClientId b) ∈ c.clients).map
      fun c => .client c.clientFd c.con (wire b) := by
  refine List.flatMap_eq_map_filter _ fun c hc => ?_
  have hf : (c.clients.filter fun x => hdrQMIType b = x.1
        ∧ (hdrClientId b = 0 ∨ hdrClientId b = x.2))
      = c.clients.filter fun x => x = (hdrQMIType b, hdrClientId b) := by
    refine List.filter_congr fun x _ => decide_eq_decide.2 ?_
    simp only [hb, false_or, Prod.ext_iff]
    exact ⟨fun h => ⟨h.1.symm, h.2.symm⟩, fun h => ⟨h.1.symm, h.2.symm⟩⟩
  rw [hf]
  by_cases hm : (hdrQMIType b, hdrClientId b) ∈ c.clients
  · have := List.filter_key (f := id) (by simpa using hd c hc) hm
    simp only [id] at this
    rw [this, if_pos (by simpa using hm)]
    rfl
  · rw [List.filter_eq_nil_iff.2, if_neg (by simpa using hm)]
    · rfl
    · simp only [decide_eq_true_eq]
      rintro x hx rfl
      exact hm hx

/-- Each id is recorded once, where it was granted, and service messages go by these records. -/
structure Ownership (w : World) : Prop where
  once : (w.proxy.connections.flatMap (·.clients)).Nodup
  granted : ∀ c ∈ w.proxy.connections, ∀ x, x ∈ c.clients ↔ (x, c.con) ∈ w.granted
  single : (w.granted.map (·.1)).Nodup
  owner : ∀ b, hdrQMIType b ≠ QMUX_TYPE_CTL → hdrClientId b ≠ 0 →
    ∀ c ∈ w.proxy.connections, (hdrQMIType b, hdrClientId b) ∈ c.clients →
      (recvQmiFromDev w.proxy b).2 = [.client c.clientFd c.con (wire b)]
  nobody : ∀ b, hdrQMIType b ≠ QMUX_TYPE_CTL → hdrClientId b ≠ 0 →
    (∀ c ∈ w.proxy.connections, (hdrQMIType b, hdrClientId b) ∉ c.clients) →
      (recvQmiFromDev w.proxy b).2 = []
  broadcast : ∀ b, hdrQMIType b ≠ QMUX_TYPE_CTL → hdrClientId b = 0 →
    ∀ o ∈ (recvQmiFromDev w.proxy b).2, ∃ c ∈ w.proxy.connections,
      o = .client c.clientFd c.con (wire b) ∧ ∃ x ∈ c.clients, x.1 = hdrQMIType b

theorem Kept.same_owner {w : World} (h : Kept w) {c c' : Connection}
    (hc : c ∈ w.proxy.connections) (hc' : c' ∈ w.proxy.connections) {x : Client}
    (hx : x ∈ c.clients) (hx' : x ∈ c'.clients) : c' = c :=
  List.inj_on_of_nodup_map h.cons hc' hc
    (h.held.con_eq ((h.held.recorded c' hc' x).1 hx') ((h.held.recorded c hc x).1 hx))

theorem Kept.once_recorded {w : World} (h : Kept w) :
    (w.proxy.connections.flatMap (·.clients)).Nodup := by
  refine List.nodup_flatMap.2 ⟨h.held.distinct, ?_⟩
  refine (List.Nodup.of_map _ h.cons).imp_of_mem fun hc hc' hne x hx hx' => hne ?_
  exact (h.same_owner hc hc' hx hx').symm

theorem Kept.ownership {w : World} (h : Kept w) : Ownership w where
  once := h.once_recorded
  granted := h.held.recorded
  single := h.held.grants
  owner := by
    intro b hb hid c hc hx
    rw [recvQmiFromDev_mux h.serving hb, forwardMux_of_ne_zero h.held.distinct hid,
      List.filter_congr (q := fun c' => c'.con = c.con), List.filter_key h.cons hc]
    · rfl
    · intro c' hc'
      refine decide_eq_decide.2 ⟨fun hx' => ?_, fun heq => ?_⟩
      · rw [h.same_owner hc hc' hx hx']
      · rwa [List.inj_on_of_nodup_map h.cons hc' hc heq]
  nobody := by
    intro b hb hid hno
    rw [recvQmiFromDev_mux h.serving hb, forwardMux_of_ne_zero h.held.distinct hid,
      List.filter_eq_nil_iff.2 fun c hc => by simpa using hno c hc]
    rfl
  broadcast := by
    intro b hb _ o ho
    rw [recvQmiFromDev_mux h.serving hb] at ho
    obtain ⟨c, hc, ho⟩ := List.mem_flatMap.1 ho
    obtain ⟨x, hx, rfl⟩ := List.mem_map.1 ho
    have hx := List.mem_filter.1 hx
    simp only [decide_eq_true_eq] at hx
    exact ⟨c, hc, rfl, x, hx.1, hx.2.1.symm⟩

/-- Where the device and the clients keep their rules and no client asks twice to release an id,
ids are recorded where they were granted and service messages reach their owner. -/
theorem ownership_of_lawful (fd : ℕ) (is : List Input) {w : World}
    (hl : Runs.Meets step (fun w i => Lawful w i ∧ ReleasesOnce w i) (World.init fd) is)
    (hr : run fd is = some w) : Ownership w :=
  (Runs.exec_inv (fun _ _ _ h hi hs => step_kept h hi.1 hi.2 hs) (kept_init fd) hl hr).ownership

def releaseClientIdReq : Bytes := [1, 16, 0, 0, 0, 0, 0, 2, 0x23, 0, 5, 0, 1, 2, 0, 3, 5]

def releaseClientIdRsp : Bytes :=
  [1, 23, 0, 128, 0, 0, 1, 2, 0x23, 0, 12, 0, 2, 4, 0, 0, 0, 0, 0, 1, 2, 0, 3, 5]

/-- A client gets an id and releases it, and another one gets the same id. -/
def handedOn : List Input :=
  [.connect 5, .connect 6, .request 5 getClientIdReq true, .response 0 getClientIdRsp true,
    .request 5 releaseClientIdReq true, .request 6 getClientIdReq true,
    .response 0 releaseClientIdRsp true, .response 0 getClientIdRsp true]

theorem ownership_handedOn : ∃ w, run 3 handedOn = some w
    ∧ w.proxy.connections = [⟨5, [], 0⟩, ⟨6, [(3, 5)], 1⟩] ∧ Ownership w :=
  ⟨_, rfl, rfl, ownership_of_lawful 3 handedOn (by decide) rfl⟩

/-- A client asks twice to release its id, which another client has got by the time the second
request is answered: the device takes it to be free, and two connections record it. -/
theorem not_ownership_released_twice :
    ∃ is w, Runs.Meets step Lawful (World.init 3) is ∧ run 3 is = some w
      ∧ w.proxy.connections = [⟨5, [], 0⟩, ⟨6, [(3, 5)], 1⟩, ⟨7, [(3, 5)], 2⟩] ∧ ¬ Ownership w :=
  ⟨[.connect 5, .connect 6, .connect 7, .request 5 getClientIdReq true,
      .response 0 getClientIdRsp true, .request 5 releaseClientIdReq true,
      .request 6 getClientIdReq true, .request 5 releaseClientIdReq true,
      .response 0 releaseClientIdRsp true, .response 0 getClientIdRsp true,
      .response 0 releaseClientIdRsp true, .request 7 getClientIdReq true,
      .response 0 getClientIdRsp true], _, by decide, rfl, rfl,
    fun h => absurd h.once (by decide)⟩

end QmiProxy

end BananaWrt
