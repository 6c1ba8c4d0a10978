import BananaWrt.MbimThread
import BananaWrt.Proofs.MbimCM

/-!
# Answers and states of the MBIM client

An answer that `mbim_send_command` hands to its caller answers the caller's own request, as long as
no answer comes so late that its id has been used again (`answers_own`). And the last value that the
client has read of a state is the device's, or the main thread is to read it, or the device's word
about it is on its way, as long as no indication is taken in between an answer and its reader
(`state_known`).
-/

namespace BananaWrt

namespace MbimThread

open Bytes MbimProxy MbimCM
open QmiThread (Received Origin)

/-- One more than the last id. The counter is zero only after `0xFFFFFFFF`. -/
def top (T : ℕ) : ℕ := if T = 0 then 2 ^ 32 else T

/-- A call whose id is as far behind the counter as its number among the requests says, or one from
before the counter started again. -/
def Call.Dated (c : Call) (T drawn : ℕ) : Prop :=
  c.serial < drawn ∧ (transactionId c.request + (drawn - c.serial) = top T
    ∨ top T + 0xFFFFFF ≤ transactionId c.request + (drawn - c.serial))

theorem top_succ {T : ℕ} (hT : T < 2 ^ 32) : top ((T + 1) % 2 ^ 32) = T + 1 := by
  by_cases hlast : T + 1 = 2 ^ 32
  · rw [hlast, Nat.mod_self]
    rfl
  · rw [Nat.mod_eq_of_lt (by omega), top, if_neg (by omega)]

theorem Call.Dated.compose {c : Call} {T drawn : ℕ} (h : c.Dated T drawn) (hT : T < 2 ^ 32) :
    c.Dated ((T + 1) % 2 ^ 32) (drawn + 1) := by
  obtain ⟨hs, h⟩ := h
  refine ⟨by omega, ?_⟩
  rw [top_succ hT]
  unfold top at h
  split_ifs at h <;> omega

/-- The counter starts again. -/
theorem Call.Dated.wrap {c : Call} {drawn : ℕ} (h : c.Dated (tidLimit + 1) drawn) :
    c.Dated 2 drawn := by
  obtain ⟨hs, h⟩ := h
  have htop : top (tidLimit + 1) = 0xFFFFFF + 2 := rfl
  have htwo : top 2 = 2 := rfl
  refine ⟨hs, .inr ?_⟩
  rw [htop] at h
  rw [htwo]
  omega

/-- The waiting call was composed last, and its request is in `mbim_pRequest`. -/
structure Waits (w : World) (c : Call) : Prop where
  call : w.calls[c.number]? = some c
  request : w.mbimRequest = some c.request
  last : c.serial + 1 = w.drawn
  id : transactionId c.request + 1 = top w.TransactionId
  only : ∀ c' ∈ w.calls, c'.serial = c.serial → c' = c

/-- A message from the device, as it was sent. -/
def Sent (w : World) (r : Received) : Prop :=
  Whole r.msg ∧ match r.origin with
    | .response n =>
      ∃ c : Call, w.calls[n]? = some c ∧ transactionId r.msg = transactionId c.request
    | .indication => transactionId r.msg = 0

/-- An answer that a call returned is its own. -/
def Return.Own (r : Return) : Prop :=
  ∀ a ∈ r.response, ∃ c : Call, r.call = some c ∧ a.origin = .response c.number

structure Ids (w : World) : Prop where
  range : w.TransactionId < 2 ^ 32
  number : ∀ n (c : Call), w.calls[n]? = some c → c.number = n
  dated : ∀ c ∈ w.calls, c.Dated w.TransactionId w.drawn
  waits : ∀ c : Call, w.waiting = some c → Waits w c
  idle : w.waiting = none → w.mbimRequest = none ∧ w.mbimResponse = none
  sent : ∀ r ∈ w.channel, Sent w r
  response : ∀ a ∈ w.mbimResponse, ∃ c : Call, w.waiting = some c ∧ a.origin = .response c.number
  held : ∀ r ∈ w.held, r.Own
  returned : ∀ r ∈ w.returned, r.Own

variable {w w' : World}

theorem ids_init (sessionID : ℕ) (buf : Bytes) (dev : PerField ℕ) :
    Ids (World.init sessionID buf dev) := by
  refine ⟨by simp [World.init], by simp [World.init], by simp [World.init], ?_, fun _ => ⟨rfl, rfl⟩,
    ?_, ?_, ?_, ?_⟩ <;> simp [World.init]

/-- Among the calls of the last `0xFFFFFF` requests, only the waiting one has its id. -/
theorem Ids.unique (h : Ids w) {c c' : Call} (hc : w.waiting = some c) (hc' : c' ∈ w.calls)
    (hid : transactionId c'.request = transactionId c.request)
    (hrecent : w.drawn ≤ c'.serial + 0xFFFFFF) : c' = c := by
  have hw := h.waits c hc
  have hlast := hw.last
  have hT := hw.id
  obtain ⟨hs, hd⟩ := h.dated c' hc'
  refine hw.only c' hc' ?_
  omega

theorem Whole.transactionId_overlay {b : Bytes} (h : Whole b) (buf : Bytes) :
    transactionId (overlay b buf) = transactionId b :=
  le32_overlay h.1

theorem Whole.take_overlay {b : Bytes} (h : Whole b) (buf : Bytes) :
    (overlay b buf).take (le32 (overlay b buf) 4) = b := by
  have hle : 8 ≤ b.length := Nat.le_trans (by decide) h.1
  rw [le32_overlay hle, h.2.1, overlay, List.take_left]

theorem Whole.indicated_overlay {b : Bytes} (h : Whole b) (buf : Bytes) (sessionID : ℕ) :
    indicated sessionID (overlay b buf) = indicated sessionID b := by
  obtain ⟨h12, -, hind⟩ := h
  unfold indicated
  rw [le32_overlay (by omega)]
  by_cases htype : le32 b 0 = MBIM_INDICATE_STATUS_MSG
  · obtain ⟨h44, h52⟩ := hind htype
    have huuid : ((overlay b buf).drop 20).take 16 = (b.drop 20).take 16 := by
      rw [overlay, List.drop_append_of_le_length (by omega), List.take_append_of_le_length]
      rw [List.length_drop]
      omega
    rw [huuid, le32_overlay (by omega)]
    cases hk : Field.ofCID (le32 b 36) with
    | none => rfl
    | some k =>
      have hlen := h52 (by simp [hk])
      have hoff : k.offset ≤ 4 := by cases k <;> decide
      simp only [le32_overlay (show 44 + 4 ≤ b.length by omega),
        le32_overlay (show 44 + k.offset + 4 ≤ b.length by omega)]
  · simp [htype]

/-- What taking a message in does: it becomes the answer, or an event is sent if it indicates
another value. -/
theorem recv_cases (w : World) (r : Received) (ch : List Received) (hr : w.channel = r :: ch)
    (hwhole : Whole r.msg) (alloc : Bool) :
    (w.mbimRequest.any (transactionId · = transactionId r.msg) = true ∧
      w.recv alloc = { w with
        channel := ch
        cmRecvBuf := overlay r.msg w.cmRecvBuf
        mbimResponse := if alloc then some r else none }) ∨
    (w.mbimRequest.any (transactionId · = transactionId r.msg) = false ∧
      ∃ posted due, w.recv alloc = { w with
          channel := ch
          cmRecvBuf := overlay r.msg w.cmRecvBuf
          posted := posted
          due := due } ∧
        (∀ k, w.due.get k = true → due.get k = true) ∧
        ∀ k v, indicated w.sessionID r.msg = some (k, v) → w.old.get k = v ∨ due.get k = true) := by
  unfold World.recv World.mbimRecvCommand
  rw [hr]
  simp only [hwhole.transactionId_overlay, hwhole.take_overlay, hwhole.indicated_overlay]
  cases hany : w.mbimRequest.any (transactionId · = transactionId r.msg) with
  | true => exact .inl ⟨rfl, by simp⟩
  | false =>
    refine .inr ⟨rfl, ?_⟩
    simp only [Bool.false_eq_true, if_false]
    cases indicated w.sessionID r.msg with
    | none => exact ⟨_, _, rfl, fun _ h => h, fun k v h => by simp at h⟩
    | some x =>
      obtain ⟨k, v⟩ := x
      simp only [World.post]
      split_ifs with hne
      · refine ⟨_, _, rfl, fun k' h => ?_, fun k' v' h => .inr ?_⟩
        · rw [PerField.get_set]
          split_ifs
          · rfl
          · exact h
        · cases h
          simp
      · refine ⟨_, _, rfl, fun _ h => h, fun k' v' h => .inl ?_⟩
        cases h
        exact not_not.1 hne

theorem ids_compose (h : Ids w) (hidle : w.waiting = none) :
    Ids { w with TransactionId := (w.TransactionId + 1) % 2 ^ 32, drawn := w.drawn + 1 } where
  range := Nat.mod_lt _ (by decide)
  number := h.number
  dated := fun c hc => (h.dated c hc).compose h.range
  waits := fun c hc => by simp [hidle] at hc
  idle := h.idle
  sent := h.sent
  response := h.response
  held := h.held
  returned := h.returned

theorem ids_hold (h : Ids w) {r : Return} (hr : r.response = none) :
    Ids { w with held := some r } :=
  { h with
    waits := fun c hc => ⟨(h.waits c hc).call, (h.waits c hc).request, (h.waits c hc).last,
      (h.waits c hc).id, (h.waits c hc).only⟩
    held := fun r' hr' a ha => by
      cases hr'
      simp [hr] at ha }

/-- Calls are only added. -/
theorem Sent.mono (calls : List Call) {r : Received} (h : Sent w r) :
    Sent { w with calls := w.calls ++ calls } r := by
  refine ⟨h.1, ?_⟩
  have h2 := h.2
  revert h2
  cases r.origin with
  | response n =>
    rintro ⟨c, hc, hid⟩
    refine ⟨c, ?_, hid⟩
    rw [List.getElem?_append_left (List.getElem?_eq_some_iff.1 hc).1]
    exact hc
  | indication => exact id

/-- A call that is added, as the last of all requests. -/
theorem ids_addCall (h : Ids w) (hidle : w.waiting = none) (call : Call) {T : ℕ} (hT : T < 2 ^ 32)
    (hnumber : call.number = w.calls.length) (hserial : call.serial + 1 = w.drawn)
    (hid : transactionId call.request + 1 = top T) (hdated : ∀ c ∈ w.calls, c.Dated T w.drawn) :
    Ids { w with TransactionId := T, calls := w.calls ++ [call] } where
  range := hT
  number := fun n c hc => by
    rcases lt_or_ge n w.calls.length with hn | hn
    · rw [List.getElem?_append_left hn] at hc
      exact h.number n c hc
    · rw [List.getElem?_append_right hn] at hc
      obtain ⟨h0, rfl⟩ := List.getElem?_eq_some_iff.1 hc
      simp only [List.length_cons, List.length_nil] at h0
      simp only [List.getElem_singleton, hnumber]
      omega
  dated := fun c hc => by
    rcases List.mem_append.1 hc with hc | hc
    · exact hdated c hc
    · have hnew : call.Dated T w.drawn := ⟨by omega, .inl (by omega)⟩
      rw [List.mem_singleton.1 hc]
      exact hnew
  waits := fun c hc => by simp [hidle] at hc
  idle := h.idle
  sent := fun r hr => (h.sent r hr).mono [call]
  response := h.response
  held := h.held
  returned := h.returned

theorem ids_writeRequest (h : Ids w) (hidle : w.waiting = none) {query : Query} {pRequest : Bytes}
    {T : ℕ} (hT : T < 2 ^ 32) (hid : transactionId pRequest + 1 = top T) (hdrawn : 0 < w.drawn)
    (hlast : ∀ c ∈ w.calls, c.serial + 1 < w.drawn) (hdated : ∀ c ∈ w.calls, c.Dated T w.drawn)
    (d : Device) : Ids (w.writeRequest query pRequest T d) := by
  have hadd := ids_addCall h hidle ⟨w.calls.length, query, pRequest, w.drawn - 1⟩ hT rfl
    (Nat.sub_add_cancel hdrawn) hid hdated
  unfold World.writeRequest
  simp only []
  split_ifs with hret
  · refine { hadd with
      waits := fun c hc => ?_
      idle := fun hc => by simp at hc
      response := fun a ha => by simp at ha }
    cases hc
    refine ⟨by simp, rfl, Nat.sub_add_cancel hdrawn, hid, fun c hc hserial => ?_⟩
    rcases List.mem_append.1 hc with hc | hc
    · have := hlast c hc
      simp only at hserial
      omega
    · exact List.mem_singleton.1 hc
  · exact { hadd with
      waits := fun c hc => by simp [hidle] at hc
      idle := fun _ => ⟨rfl, rfl⟩
      response := fun a ha => by simp at ha
      held := fun r hr a ha => by
        cases hr
        simp at ha }

theorem ids_sendCommand (h : Ids w) (hidle : w.waiting = none) {query : Query} {pRequest : Bytes}
    (hlen : 12 ≤ pRequest.length) (hid : transactionId pRequest + 1 = top w.TransactionId)
    (hdrawn : 0 < w.drawn) (hlast : ∀ c ∈ w.calls, c.serial + 1 < w.drawn) (d : Device) :
    Ids (w.mbimSendCommand query pRequest d) := by
  unfold World.mbimSendCommand
  split_ifs with hwraps
  · have hT : w.TransactionId = tidLimit + 1 := by
      rw [hwraps, top] at hid
      split_ifs at hid
      · simp [tidLimit] at hid
      · exact hid.symm
    refine ids_writeRequest h hidle (by decide) ?_ hdrawn hlast
      (fun c hc => (hT ▸ h.dated c hc).wrap) d
    rw [transactionId_setTransactionId hlen]
    rfl
  · exact ids_writeRequest h hidle h.range hid hdrawn hlast h.dated d

theorem ids_send (h : Ids w) (hidle : w.waiting = none) (query : Query) (allocated : Bool)
    (d : Device) : Ids (w.send query allocated d) := by
  have hT := h.range
  unfold World.send
  cases allocated with
  | false =>
    simp only [Bool.false_eq_true, if_false, not_false_eq_true, if_true]
    split_ifs
    · exact ids_hold h rfl
    · exact ids_hold h rfl
    · exact ids_hold h rfl
  | true =>
    have hc := ids_compose h hidle
    simp only [if_true, not_true_eq_false, if_false]
    split_ifs
    · exact ids_hold hc rfl
    · exact ids_hold hc rfl
    · refine ids_sendCommand hc hidle (length_compose _ _) ?_ (Nat.succ_pos _) (fun c hcall => ?_) d
      · rw [transactionId_compose, Nat.mod_eq_of_lt hT, top_succ hT]
      · exact Nat.succ_lt_succ (h.dated c hcall).1

/-- A message that is taken for the answer is the answer of the waiting call. -/
theorem Ids.own (h : Ids w) {r : Received} {ch : List Received} (hr : w.channel = r :: ch)
    {alloc : Bool} (ht : Timely w (.recv alloc))
    (hany : w.mbimRequest.any (transactionId · = transactionId r.msg) = true) :
    ∃ c : Call, w.waiting = some c ∧ r.origin = .response c.number := by
  obtain ⟨hwhole, horigin⟩ := h.sent r (by simp [hr])
  cases hc : w.waiting with
  | none => simp [(h.idle hc).1] at hany
  | some c =>
    have hw := h.waits c hc
    have hid : transactionId c.request = transactionId r.msg := by simpa [hw.request] using hany
    have ht' := ht r (by simp [hr])
    refine ⟨c, rfl, ?_⟩
    cases ho : r.origin with
    | response n =>
      simp only [World.InTime, ho] at horigin ht'
      obtain ⟨c', hc', hid'⟩ := horigin
      have hsame := h.unique hc (List.mem_of_getElem? hc') (hid'.symm.trans hid.symm)
        (ht' c' hc')
      rw [← hsame, h.number n c' hc']
    | indication =>
      simp only [World.InTime, ho] at horigin ht'
      exact absurd (hid.trans horigin) (ht' c.request hw.request)

theorem ids_recv (h : Ids w) {alloc : Bool} (ht : Timely w (.recv alloc)) :
    Ids (w.recv alloc) := by
  cases hr : w.channel with
  | nil =>
    have : w.recv alloc = w := by simp [World.recv, hr]
    rwa [this]
  | cons r ch =>
    have hsent : ∀ r' ∈ ch, Sent w r' := fun r' hr' => h.sent r' (by simp [hr, hr'])
    rcases recv_cases w r ch hr (h.sent r (by simp [hr])).1 alloc with
      ⟨hany, e⟩ | ⟨-, p, d, e, -⟩
    · rw [e]
      refine { h with
        waits := fun c hc => ⟨(h.waits c hc).call, (h.waits c hc).request, (h.waits c hc).last,
          (h.waits c hc).id, (h.waits c hc).only⟩
        idle := fun hc => ?_
        sent := hsent
        response := fun a ha => ?_ }
      · obtain ⟨c, hc', _⟩ := h.own hr ht hany
        rw [show w.waiting = none from hc] at hc'
        cases hc'
      · have ha' : a = r := by
          cases alloc <;> simp_all
        rw [ha']
        exact h.own hr ht hany
    · rw [e]
      exact { h with
        waits := fun c hc => ⟨(h.waits c hc).call, (h.waits c hc).request, (h.waits c hc).last,
          (h.waits c hc).id, (h.waits c hc).only⟩
        sent := hsent }

theorem ids_wake (h : Ids w) {c : Call} (hc : w.waiting = some c) (err : ℤ) :
    Ids (w.wake c err) :=
  { h with
    waits := fun c hc => by simp [World.wake] at hc
    idle := fun _ => ⟨rfl, rfl⟩
    response := fun a ha => by simp [World.wake] at ha
    held := fun r hr a ha => by
      simp only [World.wake, Option.mem_def, Option.some.injEq] at hr
      subst hr
      have ha' : a ∈ w.mbimResponse := by
        by_cases he : err = 0
        · simpa [he] using ha
        · simp [he] at ha
      obtain ⟨c', hc', ho⟩ := h.response a ha'
      rw [hc] at hc'
      cases hc'
      exact ⟨c, rfl, ho⟩ }

/-- The caller's look at its answer is about the states alone. -/
theorem note_eq (w : World) (r : Return) : ∃ cur old due, w.note r = { w with
    held := none
    returned := w.returned ++ [r]
    cur := cur
    old := old
    due := due } := by
  unfold World.note
  cases r.call.bind (·.query.field) with
  | none => exact ⟨_, _, _, rfl⟩
  | some k =>
    cases QmiSession.mbimCheckErr ⟨r.err, r.response.map Received.msg⟩ with
    | error _ => exact ⟨_, _, _, rfl⟩
    | ok b =>
      simp only [World.noteState]
      cases answered k b with
      | none => exact ⟨_, _, _, rfl⟩
      | some v => exact ⟨_, _, _, rfl⟩

theorem ids_note (h : Ids w) {r : Return} (hr : w.held = some r) : Ids (w.note r) := by
  obtain ⟨cur, old, due, e⟩ := note_eq w r
  rw [e]
  exact { h with
    waits := fun c hc => ⟨(h.waits c hc).call, (h.waits c hc).request, (h.waits c hc).last,
      (h.waits c hc).id, (h.waits c hc).only⟩
    held := fun r hr => by simp at hr
    returned := fun r' hr' => by
      rcases List.mem_append.1 hr' with hr' | hr'
      · exact h.returned r' hr'
      · rw [List.mem_singleton.1 hr']
        exact h.held r hr }

/-- The device sends something. -/
theorem ids_push (h : Ids w) {r : Received} (hr : Sent w r) (dev : PerField ℕ) :
    Ids { w with dev := dev, channel := w.channel ++ [r] } :=
  { h with
    waits := fun c hc => ⟨(h.waits c hc).call, (h.waits c hc).request, (h.waits c hc).last,
      (h.waits c hc).id, (h.waits c hc).only⟩
    sent := fun r' hr' => by
      rcases List.mem_append.1 hr' with hr' | hr'
      · exact h.sent r' hr'
      · rw [List.mem_singleton.1 hr']
        exact hr }

/-- What a step can do. -/
theorem step_cases {i : Input} (hs : step w i = some w') :
    (∃ q a d, i = .send q a d ∧ w.waiting = none ∧ w.held = none ∧ w' = w.send q a d) ∨
    (∃ a, i = .recv a ∧ w' = w.recv a) ∨
    (∃ c err, w.waiting = some c ∧ w' = w.wake c err) ∨
    (∃ r, i = .note ∧ w.held = some r ∧ w' = w.note r) ∨
    (∃ n msg c, i = .answer n msg ∧ w.calls[n]? = some c ∧ w.CanAnswer c msg ∧
      w' = { w with channel := w.channel ++ [⟨msg, .response n⟩] }) ∨
    (∃ msg, i = .indicate msg ∧ CanIndicate msg ∧ w' = w.indicate msg) := by
  cases i with
  | send q a d =>
    simp only [step] at hs
    split_ifs at hs with h
    cases hs
    exact .inl ⟨q, a, d, rfl, by simp_all, by simp_all, rfl⟩
  | recv a =>
    cases hs
    exact .inr (.inl ⟨a, rfl, rfl⟩)
  | wake =>
    obtain ⟨c, hc, rfl⟩ := Option.map_eq_some_iff.1 hs
    exact .inr (.inr (.inl ⟨c, 0, hc, rfl⟩))
  | timeout err =>
    simp only [step] at hs
    split_ifs at hs
    obtain ⟨c, hc, rfl⟩ := Option.map_eq_some_iff.1 hs
    exact .inr (.inr (.inl ⟨c, err, hc, rfl⟩))
  | note =>
    obtain ⟨r, hr, rfl⟩ := Option.map_eq_some_iff.1 hs
    exact .inr (.inr (.inr (.inl ⟨r, rfl, hr, rfl⟩)))
  | answer n msg =>
    simp only [step] at hs
    cases hc : w.calls[n]? with
    | none => simp [hc] at hs
    | some c =>
      simp only [hc] at hs
      split_ifs at hs with h
      cases hs
      exact .inr (.inr (.inr (.inr (.inl ⟨n, msg, c, rfl, hc, h, rfl⟩))))
  | indicate msg =>
    simp only [step] at hs
    split_ifs at hs with h
    cases hs
    exact .inr (.inr (.inr (.inr (.inr ⟨msg, rfl, h, rfl⟩))))

theorem ids_step {i : Input} (h : Ids w) (ht : Timely w i) (hs : step w i = some w') : Ids w' := by
  obtain ⟨q, a, d, rfl, hidle, _, rfl⟩ | ⟨a, rfl, rfl⟩ | ⟨c, err, hc, rfl⟩ | ⟨r, rfl, hr, rfl⟩ |
    ⟨n, msg, c, rfl, hc, hcan, rfl⟩ | ⟨msg, rfl, hcan, rfl⟩ := step_cases hs
  · exact ids_send h hidle q a d
  · exact ids_recv h ht
  · exact ids_wake h hc err
  · exact ids_note h hr
  · exact ids_push h (r := ⟨msg, .response n⟩) ⟨hcan.1, c, hc, hcan.2.1⟩ w.dev
  · exact ids_push h (r := ⟨msg, .indication⟩) ⟨hcan.1, hcan.2.1⟩ _

/-- Whatever answers come late, twice or out of order, the one that a call returns is the device's
answer to that call. -/
theorem answers_own (sessionID : ℕ) (buf : Bytes) (dev : PerField ℕ) (is : List Input)
    (hr : Runs.exec step (.init sessionID buf dev) is = some w)
    (ht : Runs.Meets step Timely (.init sessionID buf dev) is) :
    ∀ r ∈ w.returned, ∀ a ∈ r.response,
      ∃ c : Call, r.call = some c ∧ a.origin = .response c.number :=
  (Runs.exec_inv (fun _ _ _ h ht hs => ids_step h ht hs) (ids_init sessionID buf dev) ht
    hr).returned

/-- The device is asked for the register state and told it has changed; it says so and answers. -/
def registered : List Input :=
  [.send (.state .registerState 0 []) true ⟨5, 1, 48⟩,
    .indicate (messageHeader MBIM_INDICATE_STATUS_MSG 52 0 ++ (ofLe32 1 ++ ofLe32 0 ++
      uuidBasicConnect ++ ofLe32 9 ++ ofLe32 8 ++ (ofLe32 0 ++ ofLe32 3))),
    .answer 0 (messageHeader 0x80000003 56 1 ++ (ofLe32 1 ++ ofLe32 0 ++
      uuidBasicConnect ++ ofLe32 9 ++ ofLe32 0 ++ ofLe32 8 ++ (ofLe32 0 ++ ofLe32 3))),
    .recv true, .recv true, .wake, .note]

theorem answers_own_registered : ∃ w, Runs.exec step (.init 0 [] (.all 0)) registered = some w ∧
    (∃ r ∈ w.returned, r.response.isSome) ∧
    ∀ r ∈ w.returned, ∀ a ∈ r.response,
      ∃ c : Call, r.call = some c ∧ a.origin = .response c.number :=
  ⟨_, rfl, by decide, answers_own 0 [] (.all 0) registered rfl (by decide)⟩

/-! ## States -/

/-- What a message on its way tells of a state, if it is an indication. -/
def told (sessionID : ℕ) (k : Field) (r : Received) : Option ℕ :=
  if r.origin = .indication then
    (indicated sessionID r.msg).bind fun x => if x.1 = k then some x.2 else none
  else none

/-- What a caller reads of a state in an answer. -/
def read (k : Field) (c : Call) (b : Bytes) : Option ℕ :=
  if c.query.field = some k ∧ QmiSession.mbimStatusCode b = 0 then answered k b else none

/-- What a message on its way has of a state. -/
def mention (w : World) (k : Field) (r : Received) : Option ℕ :=
  match r.origin with
  | .response n => (w.calls[n]?).bind fun c => read k c r.msg
  | .indication => told w.sessionID k r

/-- No indication about `k` is in `l`. -/
def Quiet (w : World) (k : Field) (l : List Received) : Prop := ∀ r ∈ l, told w.sessionID k r = none

/-- Unless an indication about `k` is on its way, the client's last value is the device's, or the
main thread is to read it. -/
def Known (w : World) (k : Field) : Prop :=
  Quiet w k w.channel → w.old.get k = w.dev.get k ∨ w.due.get k = true

/-- A message has the device's value if no indication is behind it. -/
structure States (w : World) : Prop where
  same : w.cur = w.old
  known : ∀ k, Known w k
  mentions : ∀ k l₁ r l₂, w.channel = l₁ ++ r :: l₂ → Quiet w k l₂ →
    ∀ v ∈ mention w k r, v = w.dev.get k
  response : ∀ a ∈ w.mbimResponse, ∀ c ∈ w.waiting, ∀ k, Quiet w k w.channel →
    ∀ v ∈ read k c a.msg, v = w.dev.get k
  held : ∀ r ∈ w.held, ∀ a ∈ r.response, ∀ c ∈ r.call, ∀ k, Quiet w k w.channel →
    ∀ v ∈ read k c a.msg, v = w.dev.get k

theorem states_init (sessionID : ℕ) (buf : Bytes) (dev : PerField ℕ) :
    States (World.init sessionID buf dev) where
  same := rfl
  known := fun k _ => .inr (by simp [World.init])
  mentions := fun k l₁ r l₂ h => by simp [World.init] at h
  response := fun a ha => by simp [World.init] at ha
  held := fun r hr => by simp [World.init] at hr

theorem writeRequest_eq (hheld : w.held = none) (q : Query) (b : Bytes) (T : ℕ) (d : Device) :
    ∃ calls request waiting held, w.writeRequest q b T d = { w with
        TransactionId := T
        calls := w.calls ++ calls
        mbimRequest := request
        mbimResponse := none
        waiting := waiting
        held := held } ∧ ∀ r ∈ held, r.response = none := by
  unfold World.writeRequest
  simp only []
  split_ifs
  · exact ⟨_, _, _, w.held, rfl, by simp [hheld]⟩
  · refine ⟨_, _, w.waiting, _, rfl, fun r hr => ?_⟩
    cases hr
    rfl

/-- A call changes nothing that is known of the states. -/
theorem send_eq (hresp : w.mbimResponse = none) (hheld : w.held = none) (q : Query) (a : Bool)
    (d : Device) :
    ∃ T drawn calls request waiting held, w.send q a d = { w with
        TransactionId := T
        drawn := drawn
        calls := w.calls ++ calls
        mbimRequest := request
        mbimResponse := none
        waiting := waiting
        held := held } ∧ ∀ r ∈ held, r.response = none := by
  have hnone : ∀ c err, ∀ r ∈ some (Return.mk c err none), r.response = none := fun _ _ r hr => by
    cases hr
    rfl
  have hsame : w.calls = w.calls ++ [] := (List.append_nil _).symm
  unfold World.send
  cases a with
  | false =>
    simp only [Bool.false_eq_true, if_false, not_false_eq_true, if_true]
    split_ifs <;> exact ⟨_, _, [], w.mbimRequest, w.waiting, _, by rw [← hsame, ← hresp], hnone _ _⟩
  | true =>
    simp only [if_true, not_true_eq_false, if_false]
    split_ifs
    · exact ⟨_, _, [], w.mbimRequest, w.waiting, _, by rw [← hsame, ← hresp], hnone _ _⟩
    · exact ⟨_, _, [], w.mbimRequest, w.waiting, _, by rw [← hsame, ← hresp], hnone _ _⟩
    · unfold World.mbimSendCommand
      split_ifs
      · obtain ⟨calls, request, waiting, held, e, hn⟩ := writeRequest_eq (w := { w with
          TransactionId := (w.TransactionId + 1) % 2 ^ 32, drawn := w.drawn + 1 }) hheld q _ 2 d
        exact ⟨_, _, calls, request, waiting, held, e, hn⟩
      · obtain ⟨calls, request, waiting, held, e, hn⟩ := writeRequest_eq (w := { w with
          TransactionId := (w.TransactionId + 1) % 2 ^ 32, drawn := w.drawn + 1 }) hheld q _ _ d
        exact ⟨_, _, calls, request, waiting, held, e, hn⟩

theorem mention_send {r : Received} (hr : Sent w r) (calls : List Call) (k : Field) :
    mention { w with calls := w.calls ++ calls } k r = mention w k r := by
  have h2 := hr.2
  unfold mention
  cases ho : r.origin with
  | response n =>
    simp only [ho] at h2 ⊢
    obtain ⟨c, hc, -⟩ := h2
    rw [List.getElem?_append_left (List.getElem?_eq_some_iff.1 hc).1]
  | indication => rfl

theorem states_send (h : States w) (hi : Ids w) (hidle : w.waiting = none) (hheld : w.held = none)
    (q : Query) (a : Bool) (d : Device) : States (w.send q a d) := by
  obtain ⟨T, drawn, calls, request, waiting, held, e, hnone⟩ :=
    send_eq (hi.idle hidle).2 hheld q a d
  rw [e]
  refine ⟨h.same, h.known, fun k l₁ r l₂ hch hq v hv => ?_, fun a ha => by simp at ha,
    fun r hr a ha => by simp [hnone r hr] at ha⟩
  refine h.mentions k l₁ r l₂ hch hq v ?_
  rw [← mention_send (hi.sent r (by simp [show w.channel = _ from hch])) calls k]
  exact hv

theorem Quiet.cons {k : Field} {r : Received} {ch : List Received}
    (hr : told w.sessionID k r = none) (hq : Quiet w k ch) : Quiet w k (r :: ch) := fun r' hr' => by
  rcases List.mem_cons.1 hr' with rfl | hr'
  · exact hr
  · exact hq r' hr'

theorem states_recv (h : States w) (hi : Ids w) {alloc : Bool} (ht : Timely w (.recv alloc))
    (hp : Prompt w (.recv alloc)) : States (w.recv alloc) := by
  cases hr : w.channel with
  | nil =>
    have : w.recv alloc = w := by simp [World.recv, hr]
    rwa [this]
  | cons r ch =>
    have hwhole := (hi.sent r (by simp [hr])).1
    have hp' := hp r (by simp [hr])
    have htail : ∀ k l₁ r' l₂, ch = l₁ ++ r' :: l₂ → Quiet w k l₂ →
        ∀ v ∈ mention w k r', v = w.dev.get k := fun k l₁ r' l₂ hch =>
      h.mentions k (r :: l₁) r' l₂ (by rw [hr, hch]; rfl)
    rcases recv_cases w r ch hr hwhole alloc with ⟨hany, e⟩ | ⟨-, p, d, e, hmono, hind⟩
    · -- the answer of the waiting call
      obtain ⟨c, hc, ho⟩ := hi.own hr ht hany
      have hnot : ∀ k, told w.sessionID k r = none := fun k => by simp [told, ho]
      rw [e]
      refine ⟨h.same, fun k hq => h.known k (hr ▸ hq.cons (hnot k)), htail, fun a ha c' hc' k hq =>
        ?_, fun r' hr' a ha c' hc' k hq => h.held r' hr' a ha c' hc' k (hr ▸ hq.cons (hnot k))⟩
      have ha' : a = r := by
        cases alloc <;> simp_all
      have hcc : c' = c := Option.some.inj (hc'.symm.trans hc)
      rw [ha', hcc]
      refine fun v hv => h.mentions k [] r ch hr hq v ?_
      simp only [mention, ho, (hi.waits c hc).call, Option.bind_some]
      exact hv
    · rw [e]
      cases ho : r.origin with
      | response n =>
        -- an answer that comes too late
        have hnot : ∀ k, told w.sessionID k r = none := fun k => by simp [told, ho]
        exact ⟨h.same, fun k hq => (h.known k (hr ▸ hq.cons (hnot k))).imp_right (hmono k), htail,
          fun a ha c hc k hq => h.response a ha c hc k (hr ▸ hq.cons (hnot k)),
          fun r' hr' a ha c' hc' k hq => h.held r' hr' a ha c' hc' k (hr ▸ hq.cons (hnot k))⟩
      | indication =>
        obtain ⟨hresp, hheld⟩ := hp' ho
        refine ⟨h.same, fun k hq => ?_, htail, fun a ha => by simp [hresp] at ha,
          fun r' hr' => by simp [hheld] at hr'⟩
        cases htold : told w.sessionID k r with
        | none => exact (h.known k (hr ▸ hq.cons htold)).imp_right (hmono k)
        | some v =>
          -- the last word of the device about this state
          have hv : v = w.dev.get k :=
            h.mentions k [] r ch hr hq v (by simpa [mention, ho] using htold)
          have hi' : indicated w.sessionID r.msg = some (k, v) := by
            simp only [told, ho, if_true] at htold
            obtain ⟨x, hx, hxk⟩ := Option.bind_eq_some_iff.1 htold
            split_ifs at hxk with hk
            rw [hx, ← hk, ← Option.some.inj hxk]
          exact (hind k v hi').imp_left fun hold => hold.trans hv

theorem states_wake (h : States w) {c : Call} (hc : w.waiting = some c) (err : ℤ) :
    States (w.wake c err) := by
  refine { h with
    response := fun a ha => by simp [World.wake] at ha
    held := fun r hr a ha c' hc' => ?_ }
  simp only [World.wake, Option.mem_def, Option.some.injEq] at hr
  subst hr
  cases hc'
  refine h.response a ?_ c hc
  by_cases he : err = 0
  · simpa [he] using ha
  · simp [he] at ha

theorem mbimCheckErr_ok {err : ℤ} {response : Option Bytes} {b : Bytes}
    (h : QmiSession.mbimCheckErr ⟨err, response⟩ = .ok b) :
    response = some b ∧ QmiSession.mbimStatusCode b = 0 := by
  unfold QmiSession.mbimCheckErr at h
  split_ifs at h
  cases response with
  | none => simp at h
  | some b' =>
    simp only at h
    split_ifs at h with hs
    cases h
    exact ⟨rfl, by simpa using hs⟩

theorem states_note (h : States w) {r : Return} (hr : w.held = some r) : States (w.note r) := by
  have hbase : States { w with held := none, returned := w.returned ++ [r] } :=
    { h with held := fun r' hr' => by simp at hr' }
  unfold World.note
  simp only []
  cases hk : r.call.bind (·.query.field) with
  | none => exact hbase
  | some k =>
    cases hok : QmiSession.mbimCheckErr ⟨r.err, r.response.map Received.msg⟩ with
    | error _ => exact hbase
    | ok b =>
      simp only [World.noteState]
      cases hv : answered k b with
      | none => exact hbase
      | some v =>
        obtain ⟨c, hc, hck⟩ := Option.bind_eq_some_iff.1 hk
        obtain ⟨hresp, hstatus⟩ := mbimCheckErr_ok hok
        obtain ⟨a, ha, rfl⟩ := Option.map_eq_some_iff.1 hresp
        have hread : read k c a.msg = some v := by simp [read, hck, hstatus, hv]
        refine { hbase with
          same := rfl
          known := fun k' hq => ?_ }
        change (w.cur.set k v).get k' = w.dev.get k' ∨ (w.due.set k false).get k' = true
        rw [PerField.get_set, PerField.get_set]
        by_cases hkk : k' = k
        · subst hkk
          rw [if_pos rfl]
          exact .inl (h.held r hr a ha c hc k' hq v hread)
        · rw [if_neg hkk, if_neg hkk, h.same]
          exact h.known k' hq

theorem quiet_append {k : Field} {l l' : List Received} :
    Quiet w k (l ++ l') ↔ Quiet w k l ∧ Quiet w k l' := by
  simp [Quiet, or_imp, forall_and]

/-- A message that the device sends comes behind the others. -/
theorem append_split {ch l₁ l₂ : List Received} {m r : Received} (h : ch ++ [m] = l₁ ++ r :: l₂) :
    (r = m ∧ l₂ = []) ∨ ∃ l, l₂ = l ++ [m] ∧ ch = l₁ ++ r :: l := by
  rcases List.eq_nil_or_concat l₂ with rfl | ⟨l, x, rfl⟩
  · exact .inl ⟨(List.cons.inj (List.append_inj' h rfl).2).1.symm, rfl⟩
  · have h' : ch ++ [m] = (l₁ ++ r :: l) ++ [x] := by simpa using h
    obtain ⟨hch, hx⟩ := List.append_inj' h' rfl
    rw [List.concat_eq_append, ← (List.cons.inj hx).1]
    exact .inr ⟨l, rfl, hch⟩

theorem states_answer (h : States w) {n : ℕ} {msg : Bytes} {c : Call}
    (hc : w.calls[n]? = some c) (hcan : w.CanAnswer c msg) :
    States { w with channel := w.channel ++ [⟨msg, .response n⟩] } := by
  refine ⟨h.same, fun k hq => h.known k (quiet_append.1 hq).1, fun k l₁ r l₂ hch hq v hv => ?_,
    fun a ha c hc k hq => h.response a ha c hc k (quiet_append.1 hq).1,
    fun r hr a ha c hc k hq => h.held r hr a ha c hc k (quiet_append.1 hq).1⟩
  rcases append_split hch with ⟨rfl, rfl⟩ | ⟨l, rfl, hch'⟩
  · simp only [mention, hc, Option.bind_some, read] at hv
    split_ifs at hv with hk
    · exact hcan.2.2 k hk.1 hk.2 v hv
    · simp at hv
  · exact h.mentions k l₁ r l hch' (quiet_append.1 hq).1 v hv

theorem states_indicate (h : States w) (msg : Bytes) : States (w.indicate msg) := by
  have htold : ∀ k, told w.sessionID k ⟨msg, .indication⟩
      = (indicated w.sessionID msg).bind fun x => if x.1 = k then some x.2 else none := fun k => rfl
  -- a state that the indication does not tell stays as it is
  have hdev : ∀ k, told w.sessionID k ⟨msg, .indication⟩ = none →
      (w.indicate msg).dev.get k = w.dev.get k := fun k hk => by
    rw [htold] at hk
    simp only [World.indicate]
    cases hi : indicated w.sessionID msg with
    | none => rfl
    | some x =>
      have hne : k ≠ x.1 := fun he => by simp [hi, he] at hk
      simp only [PerField.get_set, if_neg hne]
  have hdev' : ∀ k v, told w.sessionID k ⟨msg, .indication⟩ = some v →
      v = (w.indicate msg).dev.get k := fun k v hk => by
    rw [htold] at hk
    obtain ⟨x, hx, hxk⟩ := Option.bind_eq_some_iff.1 hk
    split_ifs at hxk with he
    subst he
    simp [World.indicate, hx, Option.some.inj hxk]
  have hlast : ∀ {k}, Quiet w k (w.channel ++ [⟨msg, .indication⟩]) →
      Quiet w k w.channel ∧ (w.indicate msg).dev.get k = w.dev.get k := fun {k} hq =>
    ⟨(quiet_append.1 hq).1, hdev k ((quiet_append.1 hq).2 _ List.mem_cons_self)⟩
  refine ⟨h.same, fun k hq => ?_, fun k l₁ r l₂ hch hq v hv => ?_, fun a ha c hc k hq v hv => ?_,
    fun r hr a ha c hc k hq v hv => ?_⟩
  · rw [(hlast hq).2]
    exact h.known k (hlast hq).1
  · rcases append_split hch with ⟨rfl, rfl⟩ | ⟨l, rfl, hch'⟩
    · exact hdev' k v hv
    · obtain ⟨hq1, hq2⟩ := quiet_append.1 hq
      rw [hdev k (hq2 _ List.mem_cons_self)]
      exact h.mentions k l₁ r l hch' hq1 v hv
  · rw [(hlast hq).2]
    exact h.response a ha c hc k (hlast hq).1 v hv
  · rw [(hlast hq).2]
    exact h.held r hr a ha c hc k (hlast hq).1 v hv

theorem states_step {i : Input} (h : States w) (hi : Ids w) (ht : Timely w i) (hp : Prompt w i)
    (hs : step w i = some w') : States w' := by
  obtain ⟨q, a, d, rfl, hidle, hheld, rfl⟩ | ⟨a, rfl, rfl⟩ | ⟨c, err, hc, rfl⟩ | ⟨r, rfl, hr, rfl⟩ |
    ⟨n, msg, c, rfl, hc, hcan, rfl⟩ | ⟨msg, rfl, hcan, rfl⟩ := step_cases hs
  · exact states_send h hi hidle hheld q a d
  · exact states_recv h hi ht hp
  · exact states_wake h hc err
  · exact states_note h hr
  · exact states_answer h hc hcan
  · exact states_indicate h msg

/-- The last value that the client has of a state is the device's, unless the main thread is to read
it or an indication about it is on its way. -/
theorem state_known (sessionID : ℕ) (buf : Bytes) (dev : PerField ℕ) (is : List Input)
    (hr : Runs.exec step (.init sessionID buf dev) is = some w)
    (ht : Runs.Meets step (fun w i => Timely w i ∧ Prompt w i) (.init sessionID buf dev) is)
    (k : Field) :
    w.old.get k = w.dev.get k ∨ w.due.get k = true ∨
      ∃ r ∈ w.channel, r.origin = .indication ∧ ∃ v, indicated w.sessionID r.msg = some (k, v) := by
  have hinv : Ids w ∧ States w :=
    Runs.exec_inv (I := fun w => Ids w ∧ States w)
      (fun _ _ _ h ht hs => ⟨ids_step h.1 ht.1 hs, states_step h.2 h.1 ht.1 ht.2 hs⟩)
      ⟨ids_init sessionID buf dev, states_init sessionID buf dev⟩ ht hr
  by_cases hq : Quiet w k w.channel
  · rcases hinv.2.known k hq with h | h
    · exact .inl h
    · exact .inr (.inl h)
  · simp only [Quiet, not_forall] at hq
    obtain ⟨r, hr, htold⟩ := hq
    obtain ⟨v, hv⟩ := Option.ne_none_iff_exists'.1 htold
    have ho : r.origin = .indication := by
      by_contra ho
      simp [told, ho] at htold
    simp only [told, ho, if_true] at hv
    obtain ⟨x, hx, hxk⟩ := Option.bind_eq_some_iff.1 hv
    split_ifs at hxk with hk
    exact .inr (.inr ⟨r, hr, ho, x.2, by rw [hx, ← hk]⟩)

theorem state_known_registered : ∃ w, Runs.exec step (.init 0 [] (.all 0)) registered = some w ∧
    w.due.get .registerState = false ∧ w.channel = [] ∧ w.old.get .registerState = 3 ∧
    ∀ k, w.old.get k = w.dev.get k ∨ w.due.get k = true ∨
      ∃ r ∈ w.channel, r.origin = .indication ∧ ∃ v, indicated w.sessionID r.msg = some (k, v) :=
  ⟨_, rfl, rfl, rfl, rfl, state_known 0 [] (.all 0) registered rfl (by decide)⟩

end MbimThread

end BananaWrt
