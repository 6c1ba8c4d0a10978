import BananaWrt.Proofs.QmiProxyLink

/-!
# Control requests and their answers

While the queue and the device are linked, an answer goes to the connection whose request it
answers (`routed_of_tidy`). If the device also takes every write and answers everything, the
requests of the connections that are open are written once each, in the order they were accepted,
and the head of the queue is always at the device (`orderly_of_tidy`).
-/

namespace BananaWrt

namespace QmiProxy

open Bytes Qmi

/-- Every answer was given to the connection whose request it answers. -/
def Routed (w : World) : Prop := ∀ d ∈ w.delivered, d.con = d.answers.con

instance (w : World) : Decidable (Routed w) := inferInstanceAs (Decidable (∀ d ∈ _, _))

theorem step_routed {w w' : World} {i : Input} (h : Linked w) (hr : Routed w)
    (hs : step w i = some w') : Routed w' := by
  have he := effect_of_step hs
  cases i with
  | connect fd => obtain ⟨-, rfl⟩ := he; exact hr
  | disconnect fd => obtain ⟨-, rfl⟩ := he; exact hr
  | request fd b wr =>
    obtain ⟨c, -, -, rfl⟩ := he
    simpa [Routed, World.accept] using hr
  | response k b wr =>
    obtain ⟨hb, q, hq, rfl⟩ := he
    obtain ⟨rfl, m, rest, c, hm, rfl, ho, hc, hfd, hcon⟩ := h.answer_cases hq
    obtain ⟨-, -, -, h4⟩ := h.answer_spec hb wr hm ho hc hfd
    intro d hd
    rw [h4, List.mem_append, List.mem_singleton] at hd
    rcases hd with hd | rfl
    · exact hr d hd
    · exact hcon
  | lose => obtain ⟨-, rfl⟩ := he; exact hr
  | indication b wr =>
    obtain ⟨-, rfl⟩ := he
    simpa [Routed] using hr
  | data b => obtain ⟨-, rfl⟩ := he; exact hr

/-- In a run in which no connection closes while a request of its own is at the device or while
two of its requests are pending, every answer reaches the connection that asked, and only it. -/
theorem routed_of_tidy (fd : ℕ) (is : List Input) {w : World}
    (ht : Runs.Meets step Tidy (World.init fd) is) (hr : run fd is = some w) : Routed w :=
  (Runs.exec_inv (I := fun w => Linked w ∧ Routed w)
    (fun _ _ _ h ht hs => ⟨step_linked h.1 ht hs, step_routed h.1 h.2 hs⟩)
    ⟨linked_init fd, by simp [Routed, World.init]⟩ ht hr).2

def getClientIdReq : Bytes := [1, 15, 0, 0, 0, 0, 0, 1, 0x22, 0, 4, 0, 1, 1, 0, 3]

def getClientIdRsp : Bytes :=
  [1, 23, 0, 128, 0, 0, 1, 1, 0x22, 0, 12, 0, 2, 4, 0, 0, 0, 0, 0, 1, 2, 0, 3, 5]

/-- Two clients ask and are answered in turn; a third one leaves before its request got to the
device. -/
def inTurn : List Input :=
  [.connect 5, .connect 6, .connect 7, .request 5 getClientIdReq true,
    .request 6 getClientIdReq true, .request 7 getClientIdReq true, .disconnect 7,
    .response 0 getClientIdRsp true, .response 0 getClientIdRsp true]

theorem routed_inTurn : ∃ w, run 3 inTurn = some w
    ∧ w.delivered = [⟨0, ⟨0, 0⟩⟩, ⟨1, ⟨1, 1⟩⟩] ∧ Routed w :=
  ⟨_, rfl, rfl, routed_of_tidy 3 inTurn (by decide) rfl⟩

/-- A client leaves while its request is at the device: the answer is given to the owner of the
next request in the queue. -/
theorem not_routed_after_close :
    ∃ w, run 3 [.connect 5, .connect 6, .request 5 getClientIdReq true,
        .request 6 getClientIdReq true, .disconnect 5, .response 0 getClientIdRsp true] = some w
      ∧ w.delivered = [⟨1, ⟨0, 0⟩⟩] ∧ ¬ Routed w :=
  ⟨_, rfl, rfl, by decide⟩

def World.IsOpen (w : World) (tag : Tag) : Prop := tag.con ∈ w.proxy.connections.map (·.con)

instance (w : World) : DecidablePred w.IsOpen := fun tag =>
  inferInstanceAs (Decidable (tag.con ∈ _))

/-- No write fails, and the device gives no message up. -/
def Prompt : Input → Prop
  | .request _ _ wr | .response _ _ wr | .indication _ wr => wr = true
  | .lose => False
  | _ => True

instance : DecidablePred Prompt
  | .request _ _ _ | .response _ _ _ | .indication _ _ => inferInstanceAs (Decidable (_ = _))
  | .lose => .isFalse id
  | .connect _ | .disconnect _ | .data _ => .isTrue trivial

/-- The requests of open connections are written once each and in order, one at a time, and the
head of the queue is at the device. -/
structure Orderly (w : World) : Prop where
  distinct : w.accepted.Nodup
  order : w.written.filter w.IsOpen ++ w.proxy.ctlMsg.tail.map (·.tag)
    = w.accepted.filter w.IsOpen
  alone : w.outstanding.length ≤ 1
  head : ∀ m ∈ w.proxy.ctlMsg.head?, m.tag ∈ w.written ∧ w.outstanding = [m.written]
  answered : w.outstanding = [] → w.written.filter w.IsOpen = w.accepted.filter w.IsOpen

/-- What a tidy and prompt run keeps, on the way to `Orderly`. -/
structure InOrder (w : World) : Prop extends Linked w where
  seqs : w.accepted.map (·.seq) = List.range w.accepted.length
  known : ∀ tag ∈ w.accepted ++ w.written, tag.con < w.nextCon
  order : w.written.filter w.IsOpen ++ w.proxy.ctlMsg.tail.map (·.tag)
    = w.accepted.filter w.IsOpen
  head : ∀ m ∈ w.proxy.ctlMsg.head?, m.tag ∈ w.written ∧ w.outstanding = [m.written]

theorem InOrder.orderly {w : World} (h : InOrder w) : Orderly w where
  distinct := by
    refine List.Nodup.of_map (·.seq) ?_
    rw [h.seqs]
    exact List.nodup_range
  order := h.order
  alone := by
    rcases h.inflight with h0 | ⟨m, rest, -, ho⟩
    · simp [h0]
    · simp [ho]
  head := h.head
  answered := by
    intro h0
    rw [← h.order]
    rcases hm : w.proxy.ctlMsg with _ | ⟨m, rest⟩
    · simp
    · have := (h.head m (by simp [hm])).2
      simp [h0] at this

theorem inOrder_init (fd : ℕ) : InOrder (World.init fd) where
  toLinked := linked_init fd
  seqs := rfl
  known := by simp [World.init]
  order := rfl
  head := by simp [World.init]

theorem filter_isOpen_congr {w w' : World} {l : List Tag}
    (h : ∀ tag ∈ l, (w'.IsOpen tag ↔ w.IsOpen tag)) : l.filter w'.IsOpen = l.filter w.IsOpen :=
  List.filter_congr fun tag htag => decide_eq_decide.2 (h tag htag)

theorem isOpen_connect {w : World} (fd : ℕ) {tag : Tag} (h : tag.con < w.nextCon) :
    ({ w with
      proxy := acceptQmiConnection w.proxy fd w.nextCon
      nextCon := w.nextCon + 1 } : World).IsOpen tag ↔ w.IsOpen tag := by
  simp only [World.IsOpen, acceptQmiConnection, List.map_append, List.mem_append, List.map_cons,
    List.map_nil, List.mem_singleton, or_iff_left_iff_imp]
  omega

theorem InOrder.connect {w : World} (h : InOrder w) {fd : ℕ} (hl : Linked { w with
      proxy := acceptQmiConnection w.proxy fd w.nextCon
      nextCon := w.nextCon + 1 }) : InOrder { w with
      proxy := acceptQmiConnection w.proxy fd w.nextCon
      nextCon := w.nextCon + 1 } := by
  refine ⟨hl, h.seqs, fun tag htag => Nat.lt_succ_of_lt (h.known tag htag), ?_, h.head⟩
  rw [filter_isOpen_congr fun tag htag =>
      isOpen_connect fd (h.known tag (List.mem_append_right _ htag)),
    filter_isOpen_congr fun tag htag =>
      isOpen_connect fd (h.known tag (List.mem_append_left _ htag))]
  exact h.order

theorem Linked.owner_iff {w : World} (h : Linked w) {c : Connection}
    (hc : c ∈ w.proxy.connections) {m : Msg} (hm : m ∈ w.proxy.ctlMsg) :
    m.clientFd = c.clientFd ↔ m.tag.con = c.con := by
  obtain ⟨c', hc', hfd, hcon⟩ := h.owned m hm
  rw [← hfd, ← hcon]
  constructor
  · intro heq
    rw [List.inj_on_of_nodup_map h.fds hc' hc heq]
  · intro heq
    rw [List.inj_on_of_nodup_map h.cons hc' hc heq]

theorem isOpen_cleanup {w : World} (h : Linked w) {c : Connection}
    (hc : c ∈ w.proxy.connections) (tag : Tag) :
    ({ w with proxy := cleanupQmiConnection w.proxy c.clientFd } : World).IsOpen tag
      ↔ w.IsOpen tag ∧ tag.con ≠ c.con := by
  unfold World.IsOpen
  rw [cleanup_connections h.toSound (List.mem_map_of_mem hc)]
  simp only [List.mem_map, List.mem_filter, ne_eq, decide_not, Bool.not_eq_eq_eq_not,
    Bool.not_true, decide_eq_false_iff_not]
  constructor
  · rintro ⟨c', ⟨hc', hne⟩, heq⟩
    refine ⟨⟨c', hc', heq⟩, fun hcon => hne ?_⟩
    rw [List.inj_on_of_nodup_map h.cons hc' hc (heq.trans hcon)]
  · rintro ⟨⟨c', hc', heq⟩, hne⟩
    refine ⟨c', ⟨hc', fun hfd => hne ?_⟩, heq⟩
    rw [← heq, List.inj_on_of_nodup_map h.fds hc' hc hfd]

theorem filter_isOpen_cleanup {w : World} (h : Linked w) {c : Connection}
    (hc : c ∈ w.proxy.connections) (l : List Tag) :
    l.filter ({ w with proxy := cleanupQmiConnection w.proxy c.clientFd } : World).IsOpen
      = (l.filter w.IsOpen).filter (·.con ≠ c.con) := by
  rw [List.filter_filter]
  refine List.filter_congr fun tag _ => ?_
  rw [Bool.eq_iff_iff]
  simp only [decide_eq_true_eq, Bool.and_eq_true, isOpen_cleanup h hc]
  exact and_comm

theorem InOrder.cleanup {w : World} (h : InOrder w) {c : Connection}
    (hc : c ∈ w.proxy.connections) (ht : Tidy w (.disconnect c.clientFd)) :
    InOrder { w with proxy := cleanupQmiConnection w.proxy c.clientFd } := by
  have hfd := List.mem_map_of_mem (f := (·.clientFd)) hc
  have hmsg : (cleanupQmiConnection w.proxy c.clientFd).ctlMsg
      = w.proxy.ctlMsg.filter (fun m => decide (m.tag.con ≠ c.con)) := by
    rw [cleanup_connections h.toSound hfd]
    refine (List.eraseP_eq_filter_of_countP_le_one _ _ ht.2).trans ?_
    refine List.filter_congr fun m hm => ?_
    simp only [h.toLinked.owner_iff hc hm, decide_not]
  have hhead : ∀ m ∈ w.proxy.ctlMsg.head?, m.tag.con ≠ c.con := by
    intro m hm heq
    exact ht.1 c hc rfl m.written (by simp [(h.head m hm).2]) heq
  have hcons : ∀ m rest, w.proxy.ctlMsg = m :: rest →
      (cleanupQmiConnection w.proxy c.clientFd).ctlMsg
        = m :: rest.filter (fun m => decide (m.tag.con ≠ c.con)) := by
    intro m rest hm
    rw [hmsg, hm, List.filter_cons_of_pos (by simpa using hhead m (by simp [hm]))]
  refine ⟨h.toLinked.cleanup hfd ht, h.seqs, h.known, ?_, ?_⟩
  · rw [filter_isOpen_cleanup h.toLinked hc, filter_isOpen_cleanup h.toLinked hc]
    show _ = List.filter _ (w.accepted.filter w.IsOpen)
    rw [← h.order, List.filter_append]
    congr 1
    rcases hm : w.proxy.ctlMsg with _ | ⟨m, rest⟩
    · simp [hmsg, hm]
    · simp only [hcons m rest hm, List.tail_cons, List.filter_map]
      rfl
  · intro m hm
    rcases hq : w.proxy.ctlMsg with _ | ⟨m', rest⟩
    · simp [hmsg, hq] at hm
    · simp only [hcons m' rest hq, List.head?_cons, Option.mem_def, Option.some.injEq] at hm
      exact h.head m (by simp [hq, hm])

theorem accept_ctl_written {w : World} (h : Sound w) (c : Connection) {b : Bytes}
    (hb : hdrQMIType b = QMUX_TYPE_CTL ∧ ctlType b ≠ QMICTL_SYNC_REQ) (wr : Bool) :
    (w.accept c.clientFd c b wr).written =
      w.written ++ if w.proxy.ctlMsg = [] ∧ wr = true then [(w.entry c b).tag] else [] := by
  rw [accept_ctl h c hb, emit_written]
  rcases hm : w.proxy.ctlMsg with _ | ⟨m, rest⟩ <;> cases wr <;> simp [ctlWrites]

theorem InOrder.accept {w : World} (h : InOrder w) {c : Connection}
    (hc : c ∈ w.proxy.connections) {b : Bytes}
    (hb : hdrQMIType b = QMUX_TYPE_CTL ∧ ctlType b ≠ QMICTL_SYNC_REQ)
    (hl : Linked (w.accept c.clientFd c b true)) : InOrder (w.accept c.clientFd c b true) := by
  have hproxy : (w.accept c.clientFd c b true).proxy
      = { w.proxy with ctlMsg := w.proxy.ctlMsg ++ [w.entry c b] } := by
    rw [accept_ctl h.toSound c hb, emit_proxy]
  have hacc : (w.accept c.clientFd c b true).accepted = w.accepted ++ [(w.entry c b).tag] := by
    rw [accept_ctl h.toSound c hb, emit_accepted]
  have hnext : (w.accept c.clientFd c b true).nextCon = w.nextCon := by
    rw [accept_ctl h.toSound c hb, emit_nextCon]
  have hwr := accept_ctl_written h.toSound c hb true
  have hout := accept_ctl_outstanding h.toLinked c hb true
  have hopen : (w.accept c.clientFd c b true).IsOpen = w.IsOpen := by
    funext tag
    simp only [World.IsOpen, hproxy]
  have hnew : w.IsOpen (w.entry c b).tag := List.mem_map_of_mem hc
  have hlt : (w.entry c b).tag.con < w.nextCon := h.fresh c hc
  refine ⟨hl, ?_, ?_, ?_, ?_⟩
  · rw [hacc, List.map_append, h.seqs, List.length_append]
    exact List.range_succ.symm
  · intro tag htag
    rw [hacc, hwr, List.mem_append, List.mem_append, List.mem_append, List.mem_singleton] at htag
    rw [hnext]
    rcases htag with (htag | rfl) | htag | htag
    · exact h.known tag (List.mem_append_left _ htag)
    · exact hlt
    · exact h.known tag (List.mem_append_right _ htag)
    · split_ifs at htag
      · rw [List.mem_singleton.1 htag]
        exact hlt
      · simp at htag
  · simp only [hacc, hwr, hproxy, hopen, List.filter_append, ← h.order]
    rcases hm : w.proxy.ctlMsg with _ | ⟨m, rest⟩ <;> simp [hnew]
  · simp only [hproxy, hwr, hout]
    intro m hm
    rcases hq : w.proxy.ctlMsg with _ | ⟨m', rest⟩
    · simp only [hq, List.nil_append, List.head?_cons, Option.mem_def, Option.some.injEq] at hm
      simp [← hm]
    · simp only [hq, List.cons_append, List.head?_cons, Option.mem_def, Option.some.injEq] at hm
      have := h.head m' (by simp [hq])
      simpa [← hm] using this

theorem InOrder.answer {w : World} (h : InOrder w) {b : Bytes}
    (hb : hdrQMIType b = QMUX_TYPE_CTL ∧ ctlFlags b = QMICTL_CTL_FLAG_RSP) {m : Msg}
    {rest : List Msg} {c : Connection} (hm : w.proxy.ctlMsg = m :: rest)
    (ho : w.outstanding = [m.written]) (hc : c ∈ w.proxy.connections)
    (hfd : c.clientFd = m.clientFd) (hl : Linked (w.answer 0 m.written b true)) :
    InOrder (w.answer 0 m.written b true) := by
  obtain ⟨hproxy, hout, hwr, -⟩ := h.toLinked.answer_spec hb true hm ho hc hfd
  rw [if_pos rfl] at hout hwr
  have hacc : (w.answer 0 m.written b true).accepted = w.accepted := by
    simp [World.answer]
  have hnext : (w.answer 0 m.written b true).nextCon = w.nextCon := by
    simp [World.answer]
  have hopen : (w.answer 0 m.written b true).IsOpen = w.IsOpen := by
    funext tag
    simp only [World.IsOpen, hproxy, answerHead_fst_map _ settleClients_con]
  have hrest : ∀ m' ∈ rest, w.IsOpen m'.tag := by
    intro m' hm'
    obtain ⟨c', hc', -, hcon⟩ := h.owned m' (by rw [hm]; exact List.mem_cons_of_mem _ hm')
    exact List.mem_map.2 ⟨c', hc', hcon⟩
  have hq : (w.answer 0 m.written b true).proxy.ctlMsg = rest := by
    rw [hproxy, ctlMsg_answerHead hm]
  refine ⟨hl, by rw [hacc]; exact h.seqs, ?_, ?_, ?_⟩
  · intro tag htag
    rw [hacc, hwr, ← List.append_assoc, List.mem_append] at htag
    rw [hnext]
    rcases htag with htag | htag
    · exact h.known tag htag
    · obtain ⟨m', hm', rfl⟩ := List.mem_map.1 htag
      obtain ⟨c', hc', hcon⟩ := List.mem_map.1 (hrest m' (List.mem_of_mem_take hm'))
      rw [← hcon]
      exact h.fresh c' hc'
  · simp only [hacc, hwr, hq, hopen, ← h.order, hm, List.filter_append, List.append_assoc]
    congr 1
    rcases rest with _ | ⟨m', rest⟩
    · rfl
    · simp [hrest m' (by simp)]
  · intro m' hm'
    rw [hq] at hm'
    rcases rest with _ | ⟨m'', rest⟩
    · simp at hm'
    · simp only [List.head?_cons, Option.mem_def, Option.some.injEq] at hm'
      subst hm'
      simp [hwr, hout]

theorem step_inOrder {w w' : World} {i : Input} (h : InOrder w) (ht : Tidy w i) (hp : Prompt i)
    (hs : step w i = some w') : InOrder w' := by
  have hl := step_linked h.toLinked ht hs
  have he := effect_of_step hs
  cases i with
  | connect fd =>
    obtain ⟨-, rfl⟩ := he
    exact h.connect hl
  | disconnect fd =>
    obtain ⟨hfd, rfl⟩ := he
    obtain ⟨c, hc, rfl⟩ := List.mem_map.1 hfd
    exact h.cleanup hc ht
  | request fd b wr =>
    obtain ⟨c, hc, rfl, rfl⟩ := he
    obtain rfl : wr = true := hp
    by_cases hb : hdrQMIType b = QMUX_TYPE_CTL ∧ ctlType b ≠ QMICTL_SYNC_REQ
    · exact h.accept hc hb hl
    · rw [accept_other h.toSound _ c hb]
      exact h
  | response k b wr =>
    obtain ⟨hb, q, hq, rfl⟩ := he
    obtain rfl : wr = true := hp
    obtain ⟨rfl, m, rest, c, hm, rfl, ho, hc, hfd, -⟩ := h.answer_cases hq
    exact h.answer hb hm ho hc hfd hl
  | lose => exact hp.elim
  | indication b wr =>
    obtain ⟨hb, rfl⟩ := he
    rw [indication_idle h.toSound hb wr ht]
    exact h
  | data b =>
    obtain ⟨-, rfl⟩ := he
    exact h

/-- In a run in which connections close and indications come only as in `Tidy`, the requests of
the connections that stay open are written once each and in order, with one at a time at the
device. -/
theorem orderly_of_tidy (fd : ℕ) (is : List Input) {w : World}
    (ht : Runs.Meets step (fun w i => Tidy w i ∧ Prompt i) (World.init fd) is)
    (hr : run fd is = some w) : Orderly w :=
  (Runs.exec_inv (fun _ _ _ h ht hs => step_inOrder h ht.1 ht.2 hs) (inOrder_init fd) ht hr).orderly

theorem orderly_inTurn : ∃ w, run 3 inTurn = some w ∧ w.written = [⟨0, 0⟩, ⟨1, 1⟩]
    ∧ w.accepted = [⟨0, 0⟩, ⟨1, 1⟩, ⟨2, 2⟩] ∧ Orderly w :=
  ⟨_, rfl, rfl, rfl, orderly_of_tidy 3 inTurn (by decide) rfl⟩

/-- An indication comes while a request is at the device: the request is written again. -/
theorem not_orderly_after_indication :
    ∃ w, run 3 [.connect 5, .request 5 getClientIdReq true,
        .indication [1, 11, 0, 128, 0, 0, 2, 0, 0x27, 0, 0, 0] true] = some w
      ∧ w.accepted = [⟨0, 0⟩] ∧ w.written = [⟨0, 0⟩, ⟨0, 0⟩] ∧ ¬ Orderly w :=
  ⟨_, rfl, rfl, rfl, fun h => absurd h.alone (by decide)⟩

end QmiProxy

end BananaWrt
