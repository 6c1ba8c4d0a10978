import BananaWrt.QmiThread

/-!
# Answers reach their own call

`is_response` compares the type, the client and the transaction id of a message with those of the
request in `s_pRequest`. It does not look at the flags, so an indication that happens to have all
three is taken for the answer; and ids come around after 65535 requests (255 on the control
channel), so an answer that late can be taken for another call's. With neither of these, what a
call hands to its caller is the device's response to its own request (`correlated_of_timely`).
-/

namespace BananaWrt

namespace QmiThread

open Bytes Qmi

theorem isResponse_iff {a b : Bytes} : isResponse a b = true ↔
    hdrQMIType a = hdrQMIType b ∧ hdrClientId a = hdrClientId b
      ∧ transactionId a = transactionId b := by
  unfold isResponse transactionId
  by_cases h : hdrQMIType a = hdrQMIType b
  · by_cases hctl : hdrQMIType b = QMUX_TYPE_CTL <;> simp [h, hctl]
  · simp [h]

/-- How many ids the counter of the message's kind has. -/
def cycle (b : Bytes) : ℕ := if hdrQMIType b = QMUX_TYPE_CTL then 0xFF else 0xFFFF

theorem sent_mux (dev : Dev) (clientId : UInt8) {QMIType : UInt8} (h : QMIType ≠ 0)
    (msgType tid : ℕ) (tlvs : Bytes) :
    hdrQMIType (qmiWwanSendQMI dev clientId (composeQMUXMsg QMIType msgType tid tlvs)).2
        ≠ QMUX_TYPE_CTL
      ∧ muxTransactionId (qmiWwanSendQMI dev clientId (composeQMUXMsg QMIType msgType tid tlvs)).2
        = tid % 2 ^ 16 := by
  have hne : QMIType.toNat ≠ 0 := fun h0 => h (UInt8.toNat_inj.1 h0)
  have htid : tid % 256 + 256 * (tid / 256 % 256) = tid % 2 ^ 16 := by omega
  unfold qmiWwanSendQMI
  split_ifs <;> simp [composeQMUXMsg, hdrQMIType, muxTransactionId, u8, le16, ofLe16, hne, htid,
    QMUX_TYPE_CTL, QMUX_TYPE_WDS]

theorem sent_ctl (dev : Dev) (clientId : UInt8) (msgType tid : ℕ) (tlvs : Bytes) :
    hdrQMIType (qmiWwanSendQMI dev clientId (composeQCTLMsg msgType tid tlvs)).2 = QMUX_TYPE_CTL
      ∧ ctlTransactionId (qmiWwanSendQMI dev clientId (composeQCTLMsg msgType tid tlvs)).2
        = tid % 2 ^ 8 := by
  have hctl : hdrQMIType (composeQCTLMsg msgType tid tlvs) = QMUX_TYPE_CTL := rfl
  have htid : ctlTransactionId (composeQCTLMsg msgType tid tlvs) = tid % 2 ^ 8 := by
    simp [composeQCTLMsg, ctlTransactionId, u8, ofLe16]
  unfold qmiWwanSendQMI
  rw [if_neg (not_not.2 hctl)]
  split_ifs <;> exact ⟨hctl, htid⟩

/-- Ids come from the counters, and calls of one kind have different places in their counter. -/
structure Numbered (w : World) : Prop where
  qmux : w.qmuxId = Counter.value 0xFFFF w.qmuxDrawn
  qctl : w.qctlId = Counter.value 0xFF w.qctlDrawn
  number : ∀ (n : ℕ) (c : Call), w.calls[n]? = some c → c.number = n
  ids : ∀ c ∈ w.calls, transactionId c.request = Counter.value (cycle c.request) c.serial
  serial : ∀ c ∈ w.calls, 0 < c.serial ∧ c.serial ≤ w.drawn c.request
  distinct : ∀ c ∈ w.calls, ∀ c' ∈ w.calls, hdrQMIType c.request = hdrQMIType c'.request →
    c.serial = c'.serial → c = c'

/-- `r` is the device's response to the request of `c`. -/
def Answers (c : Call) (r : Received) : Prop :=
  IsRsp r.msg ∧ isResponse c.request r.msg = true ∧ r.origin = .response c.number

/-- What a call handed to its caller is the response to its own request. -/
def Correlated (w : World) : Prop :=
  ∀ r ∈ w.returned, ∀ m ∈ r.response, ∃ c ∈ w.calls, r.call = some c.number ∧ Answers c m

/-- No indication comes that has the type, the client and the id of a request that is waited for,
and no response comes after its id has been drawn again. -/
def Timely (w : World) : Input → Prop
  | .recv msg .indication _ => w.waiting.isSome → w.sRequest.any (isResponse · msg) = false
  | .recv _ (.response n) _ =>
    ∀ c ∈ w.calls[n]?, w.drawn c.request < c.serial + cycle c.request
  | _ => True

instance (w : World) : ∀ i : Input, Decidable (Timely w i)
  | .recv _ .indication _ => inferInstanceAs (Decidable (_ → _))
  | .recv _ (.response _) _ => inferInstanceAs (Decidable (∀ c ∈ _, _))
  | .send _ _ _ _ _ | .recvNull | .wake | .timeout _ => .isTrue trivial

/-- The waiting call is the last one, and `s_pRequest` is its own. -/
structure Tracked (w : World) : Prop extends Numbered w where
  last : ∀ c ∈ w.waiting, c.1 ∈ w.calls ∧ w.drawn c.1.request = c.1.serial
  request : ∀ c ∈ w.waiting, ∀ req ∈ w.sRequest, req = c.1.request

/-- What `s_pResponse` holds is the answer to the waiting call. -/
def Held (w : World) : Prop := ∀ c ∈ w.waiting, ∀ r ∈ w.sResponse, Answers c.1 r

theorem tracked_init : Tracked World.init where
  qmux := rfl
  qctl := rfl
  number := by simp [World.init]
  ids := by simp [World.init]
  serial := by simp [World.init]
  distinct := by simp [World.init]
  last := by simp [World.init]
  request := by simp [World.init]

theorem getQMUXTransactionId_value (n : ℕ) :
    getQMUXTransactionId (Counter.value 0xFFFF n) = Counter.value 0xFFFF (n + 1) :=
  Counter.next_value (by omega) n

theorem getQCTLTransactionId_value (n : ℕ) :
    getQCTLTransactionId (Counter.value 0xFF n) = Counter.value 0xFF (n + 1) :=
  Counter.next_value (by omega) n

theorem value_mod_qmux (n : ℕ) : Counter.value 0xFFFF n % 2 ^ 16 = Counter.value 0xFFFF n := by
  have hle : Counter.value 0xFFFF n ≤ 0xFFFF := Counter.value_le (by omega) n
  exact Nat.mod_eq_of_lt (by omega)

theorem value_mod_qctl (n : ℕ) : Counter.value 0xFF n % 2 ^ 8 = Counter.value 0xFF n := by
  have hle : Counter.value 0xFF n ≤ 0xFF := Counter.value_le (by omega) n
  exact Nat.mod_eq_of_lt (by omega)

theorem compose_spec {w : World} (h : Numbered w) {req : Request} (hreq : ¬ req.IsCtlMux)
    (dev : Dev) (clientId : UInt8) {b : Bytes}
    (hb : b = (qmiWwanSendQMI dev clientId (w.compose req).2).2) :
    transactionId b = Counter.value (cycle b) ((w.compose req).1.drawn b)
      ∧ (w.compose req).1.drawn b = w.drawn b + 1 := by
  cases req with
  | mux QMIType msgType tlvs =>
    obtain ⟨hmux, htid⟩ := sent_mux dev clientId hreq msgType (getQMUXTransactionId w.qmuxId) tlvs
    simp only [World.compose] at hb
    rw [← hb] at hmux htid
    rw [h.qmux, getQMUXTransactionId_value, value_mod_qmux] at htid
    simp only [World.compose, transactionId, cycle, World.drawn, if_neg hmux, htid, and_self]
  | ctl msgType tlvs =>
    obtain ⟨hctl, htid⟩ := sent_ctl dev clientId msgType (getQCTLTransactionId w.qctlId) tlvs
    simp only [World.compose] at hb
    rw [← hb] at hctl htid
    rw [h.qctl, getQCTLTransactionId_value, value_mod_qctl] at htid
    simp only [World.compose, transactionId, cycle, World.drawn, if_pos hctl, htid, and_self]

theorem drawn_le_compose (w : World) (req : Request) (b : Bytes) :
    w.drawn b ≤ (w.compose req).1.drawn b := by
  cases req <;> simp only [World.compose, World.drawn] <;> split_ifs <;> omega

theorem Numbered.congr {w w' : World} (h : Numbered w)
    (hmux : w'.qmuxId = w.qmuxId ∧ w'.qmuxDrawn = w.qmuxDrawn)
    (hctl : w'.qctlId = w.qctlId ∧ w'.qctlDrawn = w.qctlDrawn) (hcalls : w'.calls = w.calls) :
    Numbered w' := by
  have hdrawn : ∀ b, w'.drawn b = w.drawn b := by
    intro b
    simp only [World.drawn, hmux.2, hctl.2]
  refine ⟨by rw [hmux.1, hmux.2, h.qmux], by rw [hctl.1, hctl.2, h.qctl], ?_, ?_, ?_, ?_⟩
  all_goals rw [hcalls]
  · exact h.number
  · exact h.ids
  · intro c hc
    rw [hdrawn]
    exact h.serial c hc
  · exact h.distinct

theorem Numbered.compose {w : World} (h : Numbered w) (req : Request) :
    Numbered (w.compose req).1 := by
  have hcalls : (w.compose req).1.calls = w.calls := by cases req <;> rfl
  refine ⟨?_, ?_, ?_, ?_, ?_, ?_⟩
  · cases req with
    | mux QMIType msgType tlvs =>
      simp only [World.compose, h.qmux, getQMUXTransactionId_value]
    | ctl msgType tlvs => exact h.qmux
  · cases req with
    | mux QMIType msgType tlvs => exact h.qctl
    | ctl msgType tlvs =>
      simp only [World.compose, h.qctl, getQCTLTransactionId_value]
  · rw [hcalls]
    exact h.number
  · rw [hcalls]
    exact h.ids
  · rw [hcalls]
    intro c hc
    have := h.serial c hc
    exact ⟨this.1, Nat.le_trans this.2 (drawn_le_compose w req _)⟩
  · rw [hcalls]
    exact h.distinct

theorem Numbered.append {w w' : World} (h : Numbered w) {c : Call}
    (hmux : w'.qmuxId = w.qmuxId ∧ w'.qmuxDrawn = w.qmuxDrawn)
    (hctl : w'.qctlId = w.qctlId ∧ w'.qctlDrawn = w.qctlDrawn)
    (hcalls : w'.calls = w.calls ++ [c]) (hnumber : c.number = w.calls.length)
    (hid : transactionId c.request = Counter.value (cycle c.request) c.serial)
    (hserial : c.serial = w.drawn c.request)
    (hnew : ∀ c' ∈ w.calls, hdrQMIType c'.request = hdrQMIType c.request → c'.serial < c.serial)
    (hpos : 0 < c.serial) : Numbered w' := by
  have hdrawn : ∀ b, w'.drawn b = w.drawn b := by
    intro b
    simp only [World.drawn, hmux.2, hctl.2]
  refine ⟨by rw [hmux.1, hmux.2, h.qmux], by rw [hctl.1, hctl.2, h.qctl], ?_, ?_, ?_, ?_⟩
  · intro n c' hc'
    rw [hcalls, List.getElem?_append] at hc'
    split_ifs at hc' with hn
    · exact h.number n c' hc'
    · have hlen : n - w.calls.length = 0 := by
        by_contra hne
        rw [List.getElem?_eq_none (by simp only [List.length_singleton]; omega)] at hc'
        simp at hc'
      rw [hlen, List.getElem?_cons_zero, Option.some.injEq] at hc'
      rw [← hc', hnumber]
      omega
  · intro c' hc'
    rw [hcalls] at hc'
    rcases List.mem_append.1 hc' with hc' | hc'
    · exact h.ids c' hc'
    · rw [List.mem_singleton.1 hc']
      exact hid
  · intro c' hc'
    rw [hcalls] at hc'
    rw [hdrawn]
    rcases List.mem_append.1 hc' with hc' | hc'
    · exact h.serial c' hc'
    · rw [List.mem_singleton.1 hc']
      exact ⟨hpos, Nat.le_of_eq hserial⟩
  · intro c₁ hc₁ c₂ hc₂ htype hser
    rw [hcalls] at hc₁ hc₂
    rcases List.mem_append.1 hc₁ with h₁ | h₁ <;> rcases List.mem_append.1 hc₂ with h₂ | h₂
    · exact h.distinct c₁ h₁ c₂ h₂ htype hser
    · rw [List.mem_singleton.1 h₂] at htype hser
      exact absurd (hnew c₁ h₁ htype) (by omega)
    · rw [List.mem_singleton.1 h₁] at htype hser
      exact absurd (hnew c₂ h₂ htype.symm) (by omega)
    · rw [List.mem_singleton.1 h₁, List.mem_singleton.1 h₂]

theorem drawn_congr (w : World) {a b : Bytes} (h : hdrQMIType a = hdrQMIType b) :
    w.drawn a = w.drawn b := by
  unfold World.drawn
  rw [h]

theorem Tracked.call {w : World} (h : Tracked w) (hw : w.waiting = none) {req : Request}
    (hreq : ¬ req.IsCtlMux) (alloc : Bool) (clientId : UInt8) (dev : Dev) (pp : Bool) :
    Tracked (w.call req alloc clientId dev pp) := by
  have hn := h.toNumbered.compose req
  have hcalls : (w.compose req).1.calls = w.calls := by cases req <;> rfl
  have hwaiting : (w.compose req).1.waiting = none := by cases req <;> exact hw
  unfold World.call
  cases alloc with
  | false =>
    simp only [Bool.false_eq_true, ↓reduceIte]
    refine ⟨hn.congr ⟨rfl, rfl⟩ ⟨rfl, rfl⟩ rfl, ?_, ?_⟩ <;>
      simp [hwaiting]
  | true =>
    simp only [↓reduceIte]
    generalize hb : (qmiWwanSendQMI dev clientId (w.compose req).2).2 = b
    obtain ⟨hid, hdrawn⟩ := compose_spec h.toNumbered hreq dev clientId hb.symm
    have hnew : ∀ c' ∈ (w.compose req).1.calls, hdrQMIType c'.request = hdrQMIType b →
        c'.serial < (w.compose req).1.drawn b := by
      intro c' hc' htype
      rw [hcalls] at hc'
      have := (h.serial c' hc').2
      rw [drawn_congr w htype] at this
      omega
    unfold World.send
    simp only [hb]
    split_ifs
    · refine ⟨hn.append ⟨rfl, rfl⟩ ⟨rfl, rfl⟩ rfl rfl hid rfl hnew (by simp only; omega), ?_, ?_⟩
      · simp [World.drawn]
      · simp
    · refine ⟨hn.append ⟨rfl, rfl⟩ ⟨rfl, rfl⟩ rfl rfl hid rfl hnew (by simp only; omega), ?_, ?_⟩
      · simp [hwaiting]
      · simp [hwaiting]

/-- Less than a cycle after its request, a response has the id of the last call only if it is the
last call's. -/
theorem Tracked.eq_waiting {w : World} (h : Tracked w) {c : Call × Bool} (hc : c ∈ w.waiting)
    {c' : Call} (hc' : c' ∈ w.calls) (hlate : w.drawn c'.request < c'.serial + cycle c'.request)
    {msg : Bytes} (hm : isResponse c.1.request msg = true)
    (hm' : isResponse c'.request msg = true) : c' = c.1 := by
  obtain ⟨hmem, hlast⟩ := h.last c hc
  obtain ⟨htype, -, hid⟩ := isResponse_iff.1 hm
  obtain ⟨htype', -, hid'⟩ := isResponse_iff.1 hm'
  have hkind : hdrQMIType c'.request = hdrQMIType c.1.request := htype'.trans htype.symm
  have hcycle : cycle c'.request = cycle c.1.request := by
    unfold cycle
    rw [hkind]
  have hvalue : Counter.value (cycle c'.request) c'.serial
      = Counter.value (cycle c'.request) c.1.serial := by
    rw [← h.ids c' hc', hid', ← hid, h.ids c.1 hmem, hcycle]
  have hserial := h.serial c' hc'
  rw [drawn_congr w hkind, hlast] at hlate hserial
  exact h.distinct c' hc' c.1 hmem hkind
    (Counter.value_inj hserial.1 hserial.2 hlate hvalue)

theorem Tracked.answers {w : World} (h : Tracked w) {msg : Bytes} {origin : Origin} {alloc : Bool}
    (hcan : w.CanReceive msg origin) (ht : Timely w (.recv msg origin alloc))
    (hmatch : w.sRequest.any (isResponse · msg) = true) {c : Call × Bool} (hc : c ∈ w.waiting) :
    Answers c.1 ⟨msg, origin⟩ := by
  have hresp : isResponse c.1.request msg = true := by
    obtain ⟨req, hreq, hresp⟩ := (Option.any_eq_true _ _).1 hmatch
    rw [← h.request c hc req hreq]
    exact hresp
  cases origin with
  | indication =>
    rw [ht (Option.isSome_of_mem hc)] at hmatch
    simp at hmatch
  | response n =>
    obtain ⟨hrsp, c', hc', hresp'⟩ := hcan
    rw [← h.eq_waiting hc (List.mem_of_getElem? hc') (ht c' hc') hresp hresp']
    exact ⟨hrsp, hresp', by rw [h.number n c' hc']⟩

theorem Tracked.recv {w : World} (h : Tracked w) (msg : Bytes) (origin : Origin)
    (alloc : Bool) : Tracked (w.recv msg origin alloc) := by
  unfold World.recv
  split
  · exact ⟨h.toNumbered.congr ⟨rfl, rfl⟩ ⟨rfl, rfl⟩ rfl, h.last, by simp⟩
  · exact ⟨h.toNumbered.congr ⟨rfl, rfl⟩ ⟨rfl, rfl⟩ rfl, h.last, h.request⟩

theorem Tracked.recvNull {w : World} (h : Tracked w) : Tracked w.recvNull := by
  unfold World.recvNull
  split_ifs
  · exact ⟨h.toNumbered.congr ⟨rfl, rfl⟩ ⟨rfl, rfl⟩ rfl, h.last, by simp⟩
  · exact h

theorem Tracked.finish {w : World} (h : Tracked w) (sResponse : Option Received)
    (returned : List Return) :
    Tracked { w with waiting := none, sResponse := sResponse, returned := returned } :=
  ⟨h.toNumbered.congr ⟨rfl, rfl⟩ ⟨rfl, rfl⟩ rfl, by simp, by simp⟩

theorem Tracked.held_recv {w : World} (h : Tracked w) (hh : Held w) {msg : Bytes}
    {origin : Origin} {alloc : Bool} (hlen : msg.length = hdrLength msg + 1)
    (hcan : w.CanReceive msg origin) (ht : Timely w (.recv msg origin alloc)) :
    Held (w.recv msg origin alloc) := by
  unfold World.recv
  by_cases hmatch : w.sRequest.any (isResponse · msg) = true
  · rw [if_pos hmatch, ← hlen, List.take_length]
    intro c hc r hr
    cases alloc with
    | false => simp at hr
    | true =>
      rw [← Option.mem_some_iff.1 hr]
      exact h.answers hcan ht hmatch hc
  · rw [if_neg hmatch]
    exact hh

theorem step_send {w w' : World} {req : Request} {alloc : Bool} {clientId : UInt8} {dev : Dev}
    {pp : Bool} (hs : step w (.send req alloc clientId dev pp) = some w') :
    w.waiting = none ∧ ¬ req.IsCtlMux ∧ w' = w.call req alloc clientId dev pp := by
  simp only [step] at hs
  split_ifs at hs with hguard
  push Not at hguard
  cases hs
  exact ⟨Option.not_isSome_iff_eq_none.1 (by simpa using hguard.1), hguard.2, rfl⟩

theorem call_cases {w : World} (hw : w.waiting = none) (req : Request) (alloc : Bool)
    (clientId : UInt8) (dev : Dev) (pp : Bool) {w' : World}
    (hw' : w' = w.call req alloc clientId dev pp) :
    w.calls ⊆ w'.calls
      ∧ (((∃ c, w'.waiting = some (c, pp)) ∧ w'.sResponse = none ∧ w'.returned = w.returned)
        ∨ (w'.waiting = none
          ∧ ∃ r, w'.returned = w.returned ++ [r] ∧ r.err ≠ 0 ∧ r.response = none)) := by
  have hcalls : (w.compose req).1.calls = w.calls := by cases req <;> rfl
  have hreturned : (w.compose req).1.returned = w.returned := by cases req <;> rfl
  have hwaiting : (w.compose req).1.waiting = none := by cases req <;> exact hw
  subst hw'
  cases alloc with
  | false =>
    refine ⟨by simp [World.call, hcalls],
      .inr ⟨hwaiting, ⟨none, -EINVAL, none⟩, ?_, by decide, rfl⟩⟩
    simp [World.call, hreturned]
  | true =>
    simp only [World.call, World.send, ↓reduceIte]
    split_ifs with hsent
    · exact ⟨by simp [hcalls], .inl ⟨⟨_, rfl⟩, rfl, hreturned⟩⟩
    · exact ⟨by simp [hcalls], .inr ⟨hwaiting, _, by rw [hreturned], hsent, rfl⟩⟩

theorem step_recv {w w' : World} {msg : Bytes} {origin : Origin} {alloc : Bool}
    (hs : step w (.recv msg origin alloc) = some w') :
    msg.length = hdrLength msg + 1 ∧ w.CanReceive msg origin ∧ w' = w.recv msg origin alloc := by
  simp only [step] at hs
  split_ifs at hs with hguard
  cases hs
  exact ⟨hguard.1, hguard.2, rfl⟩

theorem step_timeout {w w' : World} {err : ℤ} (hs : step w (.timeout err) = some w') :
    err ≠ 0 ∧ ∃ c ∈ w.waiting, w' =
      { w with waiting := none, returned := w.returned ++ [⟨some c.1.number, err, none⟩] } := by
  simp only [step] at hs
  split_ifs at hs with herr
  obtain ⟨c, hc, rfl⟩ := Option.map_eq_some_iff.1 hs
  exact ⟨herr, c, hc, rfl⟩

theorem step_tracked {w w' : World} {i : Input} (h : Tracked w) (hs : step w i = some w') :
    Tracked w' := by
  cases i with
  | send req alloc clientId dev pp =>
    obtain ⟨hw, hreq, rfl⟩ := step_send hs
    exact h.call hw hreq _ _ _ _
  | recv msg origin alloc =>
    obtain ⟨-, -, rfl⟩ := step_recv hs
    exact h.recv _ _ _
  | recvNull =>
    cases hs
    exact h.recvNull
  | wake =>
    obtain ⟨c, -, rfl⟩ := Option.map_eq_some_iff.1 hs
    exact h.finish _ _
  | timeout err =>
    obtain ⟨-, c, -, rfl⟩ := step_timeout hs
    exact h.finish _ _

theorem step_held {w w' : World} {i : Input} (h : Tracked w) (hh : Held w) (ht : Timely w i)
    (hs : step w i = some w') : Held w' := by
  cases i with
  | send req alloc clientId dev pp =>
    obtain ⟨hw, -, hw'⟩ := step_send hs
    rcases (call_cases hw req alloc clientId dev pp hw').2 with ⟨-, hnone, -⟩ | ⟨hnone, -⟩ <;>
      simp [Held, hnone]
  | recv msg origin alloc =>
    obtain ⟨hlen, hcan, rfl⟩ := step_recv hs
    exact h.held_recv hh hlen hcan ht
  | recvNull =>
    cases hs
    unfold World.recvNull
    split_ifs
    · simp [Held]
    · exact hh
  | wake =>
    obtain ⟨c, -, rfl⟩ := Option.map_eq_some_iff.1 hs
    simp [Held]
  | timeout err =>
    obtain ⟨-, c, -, rfl⟩ := step_timeout hs
    simp [Held]

/-- What a step can return: nothing, an error, or at the wake-up what `s_pResponse` holds. -/
theorem step_returned {w w' : World} {i : Input} (hs : step w i = some w') :
    w.calls ⊆ w'.calls ∧ (w'.returned = w.returned ∨ ∃ r, w'.returned = w.returned ++ [r]
      ∧ ((r.err ≠ 0 ∧ r.response = none) ∨ i = .wake ∧ ∃ c ∈ w.waiting,
        r = ⟨some c.1.number, 0, if c.2 then w.sResponse else none⟩)) := by
  cases i with
  | send req alloc clientId dev pp =>
    obtain ⟨hw, -, hw'⟩ := step_send hs
    obtain ⟨hcalls, hcase⟩ := call_cases hw req alloc clientId dev pp hw'
    rcases hcase with ⟨-, -, hret⟩ | ⟨-, r, hret, herr, hnone⟩
    · exact ⟨hcalls, .inl hret⟩
    · exact ⟨hcalls, .inr ⟨r, hret, .inl ⟨herr, hnone⟩⟩⟩
  | recv msg origin alloc =>
    obtain ⟨-, -, rfl⟩ := step_recv hs
    unfold World.recv
    split <;> exact ⟨List.Subset.refl _, .inl rfl⟩
  | recvNull =>
    cases hs
    unfold World.recvNull
    split_ifs <;> exact ⟨List.Subset.refl _, .inl rfl⟩
  | wake =>
    obtain ⟨c, hc, rfl⟩ := Option.map_eq_some_iff.1 hs
    exact ⟨List.Subset.refl _, .inr ⟨_, rfl, .inr ⟨rfl, c, hc, rfl⟩⟩⟩
  | timeout err =>
    obtain ⟨herr, c, -, rfl⟩ := step_timeout hs
    exact ⟨List.Subset.refl _, .inr ⟨_, rfl, .inl ⟨herr, rfl⟩⟩⟩

theorem step_asked {w w' : World} {i : Input} (h : ∀ c ∈ w.waiting, c.2 = true)
    (hi : ∀ req alloc clientId dev pp, i = .send req alloc clientId dev pp → pp = true)
    (hs : step w i = some w') : ∀ c ∈ w'.waiting, c.2 = true := by
  cases i with
  | send req alloc clientId dev pp =>
    obtain ⟨hw, -, hw'⟩ := step_send hs
    rcases (call_cases hw req alloc clientId dev pp hw').2 with ⟨⟨c, hc⟩, -⟩ | ⟨hnone, -⟩
    · intro c' hc'
      rw [hc, Option.mem_some_iff] at hc'
      rw [← hc']
      exact hi _ _ _ _ _ rfl
    · simp [hnone]
  | recv msg origin alloc =>
    obtain ⟨-, -, rfl⟩ := step_recv hs
    unfold World.recv
    split <;> exact h
  | recvNull =>
    cases hs
    unfold World.recvNull
    split_ifs <;> exact h
  | wake =>
    obtain ⟨c, -, rfl⟩ := Option.map_eq_some_iff.1 hs
    simp
  | timeout err =>
    obtain ⟨-, c, -, rfl⟩ := step_timeout hs
    simp

theorem step_correlated {w w' : World} {i : Input} (h : Tracked w) (hh : Held w)
    (hc : Correlated w) (hs : step w i = some w') : Correlated w' := by
  obtain ⟨hcalls, hret⟩ := step_returned hs
  have hold : ∀ r ∈ w.returned, ∀ m ∈ r.response,
      ∃ c ∈ w'.calls, r.call = some c.number ∧ Answers c m := by
    intro r hr m hm
    obtain ⟨c, hcm, hcr⟩ := hc r hr m hm
    exact ⟨c, hcalls hcm, hcr⟩
  rcases hret with heq | ⟨r', heq, hr'⟩ <;> intro r hr m hm <;> rw [heq] at hr
  · exact hold r hr m hm
  · rcases List.mem_append.1 hr with hr | hr
    · exact hold r hr m hm
    · rw [List.mem_singleton.1 hr] at hm ⊢
      rcases hr' with ⟨-, hnone⟩ | ⟨-, c, hcw, rfl⟩
      · simp [hnone] at hm
      · refine ⟨c.1, hcalls (h.last c hcw).1, rfl, hh c hcw m ?_⟩
        by_cases hpp : c.2 = true
        · simpa only [hpp, ↓reduceIte] using hm
        · simp [hpp] at hm

/-- In every run without a misleading indication or a response that comes a cycle late, what a
call hands to its caller is the response to its own request. -/
theorem correlated_of_timely (is : List Input) (w : World)
    (ht : Runs.Meets step Timely World.init is) (hr : run is = some w) : Correlated w := by
  have hinv : Tracked w ∧ Held w ∧ Correlated w :=
    Runs.exec_inv (I := fun w => Tracked w ∧ Held w ∧ Correlated w)
      (fun _ _ _ h hok hs => ⟨step_tracked h.1 hs, step_held h.1 h.2.1 hok hs,
        step_correlated h.1 h.2.1 h.2.2 hs⟩)
      ⟨tracked_init, by simp [Held, World.init], by simp [Correlated, World.init]⟩ ht hr
  exact hinv.2.2

def nasMsg (flags tid : UInt8) (type : UInt8) : Bytes :=
  [1, 12, 0, 0x80, 3, 1, flags, tid, 0, type, 0, 0, 0]

def nasSend (type : ℕ) : Input := .send (.mux 3 type []) true 1 ⟨true, 1, true, 13⟩ true

/-- The first of two requests times out and is answered while the second is waited for. -/
def lateAnswer : List Input :=
  [nasSend 0x4D, .timeout 110, nasSend 0x4D, .recv (nasMsg 2 1 0x4D) (.response 0) true,
    .recv (nasMsg 2 2 0x4D) (.response 1) true, .wake]

theorem correlated_lateAnswer : ∃ w, run lateAnswer = some w
    ∧ w.returned = [⟨some 0, 110, none⟩, ⟨some 1, 0, some ⟨nasMsg 2 2 0x4D, .response 1⟩⟩]
    ∧ Correlated w :=
  ⟨_, rfl, rfl, correlated_of_timely lateAnswer _ (by decide) rfl⟩

/-- While a request with id 1 is waited for, an indication with id 1 comes: it is handed to the
caller as the answer, and the event it stands for is not posted. -/
theorem not_correlated_indication : ∃ w,
    run [nasSend 0x4D, .recv (nasMsg 4 1 0x4E) .indication true, .wake] = some w
    ∧ w.returned = [⟨some 0, 0, some ⟨nasMsg 4 1 0x4E, .indication⟩⟩] ∧ w.posted = []
    ∧ ¬ Correlated w := by
  refine ⟨_, rfl, rfl, rfl, fun h => ?_⟩
  obtain ⟨c, -, -, -, -, horigin⟩ := h _ (List.mem_singleton.2 rfl) _ rfl
  cases horigin

end QmiThread

end BananaWrt
